import StructuralTyping.Proofs.PlainRuns
import StructuralTyping.Proofs.RearrangedUnions

namespace StructuralTyping

/-!
# Types that resemble each other

Two types resemble each other to some levels when each alternative of one has a
counterpart among the alternatives of the other: a node of the same form whose
parts resemble each other to one level less. Copies of a type resemble each
other, identical types do, and a type resembles its normal form.
-/

/-- A type that is neither left out nor `unknown`. -/
structure Ty.Known
    (type : Ty) :
    Prop where
  present : type.isAbsent = false
  notUnknown : type.isPrimitive .unknown = false

/--
A node that comparison recognizes in a copy: a literal that equals itself, an
object with distinct names and without index signature, or a union of known types
with values. Names, intersections and utility applications are not among them.
-/
def Ty.Copyable :
    Ty →
    Prop
  | .literal _ value => value.equal value = true
  | .object _ shape =>
      shape.names.Nodup ∧
        shape.index = none ∧
          ∀ property ∈ shape.properties,
            property.optional = true → property.type.Known
  | .union _ members =>
      (∀ member ∈ members, member.Known) ∧
        ∃ member ∈ members, member.isNever = false
  | .named _ => False
  | .intersection _ _ => False
  | .generic _ _ => False
  | _ => True

/-- Copies of a known type are known. -/
theorem Ty.Known.copy
    {type copy : Ty}
    (known : type.Known)
    (same : type.form = copy.form) :
    copy.Known := by
  constructor
  · rw [← Ty.isAbsent_form, ← same, Ty.isAbsent_form]
    exact known.present
  · rw [← Ty.isPrimitive_form, ← same, Ty.isPrimitive_form]
    exact known.notUnknown

/-- Copies of a copyable node are copyable. -/
theorem Ty.Copyable.copy
    {type copy : Ty}
    (copyable : type.Copyable)
    (same : type.form = copy.form) :
    copy.Copyable := by
  cases Ty.copied_of_form same with
  | literal => exact copyable
  | @object shape other _ _ sameShape =>
      obtain ⟨names, closed, known⟩ := copyable
      obtain ⟨properties, index⟩ := Shape.form_eq_iff.mp sameShape
      rw [closed, Option.map_none, eq_comm, Option.map_eq_none_iff] at index
      refine ⟨Shape.names_of_form sameShape ▸ names, index,
        fun property inOther optional => ?_⟩
      obtain ⟨original, inShape, same⟩ :=
        exists_related_left (forall₂_of_map_eq properties) inOther
      obtain ⟨_, type, isOptional, _⟩ := Property.mk.inj same
      exact (known original inShape (isOptional.trans optional)).copy type
  | union sameMembers =>
      obtain ⟨known, member, inMembers, valued⟩ := copyable
      have copies := forall₂_of_map_eq sameMembers
      constructor
      · intro other inOthers
        obtain ⟨member, inMembers, same⟩ := exists_related_left copies inOthers
        exact (known member inMembers).copy same
      · obtain ⟨other, inOthers, same⟩ := exists_related_right copies inMembers
        refine ⟨other, inOthers, ?_⟩
        rw [← Ty.isNever_form, ← same, Ty.isNever_form]
        exact valued
  | named | intersection | generic => cases copyable
  | _ => exact copyable

/-- What holds of all nodes of a type holds of those of its alternatives. -/
theorem Ty.Every.alternative
    {kind : Ty → Prop}
    {type alternative : Ty}
    (every : type.Every kind)
    (chosen : type.Alternative alternative) :
    alternative.Every kind := by
  induction chosen with
  | self => exact every
  | member inMembers _ inductionHypothesis =>
      exact inductionHypothesis (every.inside inMembers)

/-- A type with copyable nodes only. -/
abbrev Ty.Faithful
    (type : Ty) :
    Prop :=
  type.Every Ty.Copyable

namespace Ty.Faithful

variable {type : Ty} (faithful : type.Faithful)

include faithful

/-- A faithful type is plain. -/
theorem plain :
    type.Every Ty.Plain :=
  faithful.mono fun node copyable => by
    cases node <;> first | exact ⟨rfl, rfl⟩ | cases copyable

/-- The copies of a faithful type are faithful. -/
theorem of_copy
    {copy : Ty}
    (same : type.form = copy.form) :
    copy.Faithful :=
  faithful.copy (fun same copyable => Ty.Copyable.copy copyable same) same

/-- A faithful type is no name. -/
theorem notNamed :
    type.isNamed = false := by
  have copyable := faithful.here
  cases type <;> first | rfl | cases copyable

/-- A faithful type can be told from others. -/
theorem tidy :
    type.Tidy := by
  induction type using Ty.partsInduction with
  | node type inductionHypothesis =>
  have each : ∀ part ∈ type.parts, part.Tidy := fun part inside =>
    inductionHypothesis part inside (faithful.inside inside)
  have copyable := faithful.here
  cases type with
  | absent => exact .absent
  | primitive => exact .primitive
  | literal => exact .literal copyable
  | object =>
      obtain ⟨properties, keys, values⟩ := Ty.forall_parts_object.mp each
      exact .object copyable.1 properties keys values
  | array => exact .array (each _ (List.mem_singleton_self _))
  | tuple => exact .tuple each
  | function =>
      obtain ⟨parameters, rest, result⟩ := Ty.forall_parts_function.mp each
      exact .function parameters rest result
  | union => exact .union each
  | named | intersection | generic => cases copyable

/-- The alternatives of a known faithful type are known. -/
theorem known_alternative
    (known : type.Known)
    (chosen : type.Alternative alternative) :
    alternative.Known := by
  induction chosen with
  | self => exact known
  | member inMembers _ inductionHypothesis =>
      exact inductionHypothesis (faithful.inside inMembers)
        (faithful.here.1 _ inMembers)

/-- The alternatives of a faithful type that is there are there. -/
theorem present_alternative
    (present : type.isAbsent = false)
    (chosen : type.Alternative alternative) :
    alternative.isAbsent = false := by
  cases chosen with
  | self => exact present
  | member inMembers chosen =>
      exact (known_alternative (faithful.inside inMembers)
        (faithful.here.1 _ inMembers) chosen).present

/-- A faithful type with values has an alternative with values. -/
theorem exists_valued
    (valued : type.isNever = false) :
    ∃ alternative,
      type.Alternative alternative ∧ alternative.isNever = false := by
  induction type using Ty.partsInduction with
  | node type inductionHypothesis =>
  cases isUnion : type.isUnion with
  | false => exact ⟨type, .self isUnion, valued⟩
  | true =>
      cases type with
      | union occurrence members =>
          obtain ⟨member, inMembers, valued⟩ := faithful.here.2
          obtain ⟨alternative, chosen, valued⟩ :=
            inductionHypothesis member inMembers (faithful.inside inMembers)
              valued
          exact ⟨alternative, .member inMembers chosen, valued⟩
      | _ => cases isUnion

/-- What identity compares inside of a faithful type is faithful. -/
theorem compared
    {part : Ty}
    (inside : part ∈ type.compared) :
    part.Faithful := by
  rcases Ty.mem_compared inside with inParts | rfl
  · exact Ty.Every.inside faithful inParts
  · exact .leaf trivial rfl

end Ty.Faithful

section Alternatives

variable {type alternative : Ty}

/-- An alternative is no union. -/
theorem Ty.Alternative.notUnion
    (chosen : type.Alternative alternative) :
    alternative.isUnion = false := by
  induction chosen with
  | self notUnion => exact notUnion
  | member _ _ inductionHypothesis => exact inductionHypothesis

/-- A type that is no union is its own only alternative. -/
theorem Ty.Alternative.eq
    (chosen : type.Alternative alternative)
    (notUnion : type.isUnion = false) :
    alternative = type := by
  cases chosen with
  | self => rfl
  | member => cases notUnion

/-- The alternatives of a type whose members are no unions are its members. -/
theorem Ty.alternative_iff
    (flat : ∀ member ∈ type.members, member.isUnion = false) :
    type.Alternative alternative ↔ alternative ∈ type.members := by
  constructor
  · intro chosen
    cases chosen with
    | self notUnion =>
        rw [Ty.members_eq notUnion]
        exact List.mem_singleton_self _
    | member inMembers chosen =>
        cases chosen with
        | self => exact inMembers
        | member => cases flat _ inMembers
  · intro inMembers
    cases isUnion : type.isUnion with
    | false =>
        rw [Ty.members_eq isUnion, List.mem_singleton] at inMembers
        subst inMembers
        exact .self isUnion
    | true =>
        cases type with
        | union => exact .member inMembers (.self (flat _ inMembers))
        | _ => cases isUnion

end Alternatives

section NormalForms

variable {arena : Arena}

/-- The types that a union is joined from: known ones, of which some has values. -/
structure Joins
    (arena : Arena)
    (members : List Ty) :
    Prop where
  flat :
    ∀ type ∈ flattenUnion (members.map arena.plainForm), type.isUnion = false
  known : ∀ type ∈ flattenUnion (members.map arena.plainForm), type.Known
  valued :
    ∃ type ∈ flattenUnion (members.map arena.plainForm), type.isNever = false

/-- A union is joined from the members of the normal forms of its members. -/
theorem mem_flattenUnion_plainForm
    {members : List Ty} :
    type ∈ flattenUnion (members.map arena.plainForm) ↔
      ∃ member ∈ members, type ∈ (arena.plainForm member).members := by
  rw [flattenUnion, List.mem_flatMap]
  constructor
  · rintro ⟨form, inForms, inForm⟩
    obtain ⟨member, inMembers, rfl⟩ := List.mem_map.mp inForms
    exact ⟨member, inMembers, inForm⟩
  · rintro ⟨member, inMembers, inForm⟩
    exact ⟨_, List.mem_map_of_mem inMembers, inForm⟩

/-- A union is joined to `any`, or of one in each few identical types. -/
theorem Joins.cases
    {members : List Ty}
    (joins : Joins arena members) :
    .any ∈ flattenUnion (members.map arena.plainForm) ∧
        arena.plainForm (.union occurrence members) = .any ∨
      .any ∉ flattenUnion (members.map arena.plainForm) ∧
        (∀ kept ∈ (arena.plainForm (.union occurrence members)).members,
          kept ∈ flattenUnion (members.map arena.plainForm)) ∧
        ∀ type ∈ flattenUnion (members.map arena.plainForm),
          type.isNever = false →
          ∃ kept ∈ (arena.plainForm (.union occurrence members)).members,
            kept.isNever = false ∧
              (kept = type ∨ arena.identical kept type = true) := by
  rw [Arena.plainForm_union]
  rcases top_or_isMember joins.flat with any | ⟨-, unknown⟩ | each
  · exact .inl ⟨any, joinMembers_any any⟩
  · cases (joins.known _ unknown).notUnknown
  · obtain ⟨valuedType, inFlat, isValued⟩ := joins.valued
    rw [members_joinMembers_valued each
      (joinMembers_inhabited each inFlat isValued)]
    have origin {kept : Ty}
        (inKept :
          kept ∈ ((flattenUnion (members.map arena.plainForm)).filter
            fun type => !type.isNever).foldl arena.appendUnique []) :=
      List.mem_filter.mp ((unique_sublist _).subset inKept)
    refine .inr ⟨fun any => Bool.noConfusion (each _ any).notAny,
      fun kept inKept => (origin inKept).1, fun type inFlat valued => ?_⟩
    have inValued :
        type ∈ (flattenUnion (members.map arena.plainForm)).filter
          fun type => !type.isNever :=
      List.mem_filter.mpr ⟨inFlat, by simp [valued]⟩
    obtain ⟨kept, inKept, same⟩ := exists_counterpart_of_mem arena [] inValued
    exact ⟨kept, inKept, by simpa using (origin inKept).2, same⟩

/-- What the normal form of a type tells about the union of its members. -/
structure Retains
    (arena : Arena)
    (type : Ty) :
    Prop where
  known :
    type.Known → ∀ member ∈ (arena.plainForm type).members, member.Known
  valued :
    type.isNever = false →
      ∃ member ∈ (arena.plainForm type).members, member.isNever = false

/-- A faithful union is joined from what its members retain. -/
theorem joins_of_retains
    {members : List Ty}
    (faithful : (Ty.union occurrence members).Faithful)
    (each : ∀ member ∈ members, Retains arena member) :
    Joins arena members where
  flat :=
    flattenUnion_flat fun _ inMembers =>
      Ty.Faithful.plain (faithful.inside inMembers)
  known := fun type inFlat => by
    obtain ⟨member, inMembers, inForm⟩ := mem_flattenUnion_plainForm.mp inFlat
    exact (each member inMembers).known (faithful.here.1 member inMembers) type
      inForm
  valued := by
    obtain ⟨member, inMembers, valued⟩ := faithful.here.2
    obtain ⟨type, inForm, valued⟩ := (each member inMembers).valued valued
    exact ⟨type, mem_flattenUnion_plainForm.mpr ⟨member, inMembers, inForm⟩,
      valued⟩

variable (arena) in
/-- The normal form of a known type is known, and that of values has values. -/
theorem Ty.Faithful.retains
    {type : Ty}
    (faithful : type.Faithful) :
    Retains arena type := by
  induction type using Ty.partsInduction with
  | node type inductionHypothesis =>
  have single
      (notUnion : (arena.plainForm type).isUnion = false)
      (known : type.Known → (arena.plainForm type).Known)
      (valued : (arena.plainForm type).isNever = type.isNever) :
      Retains arena type := by
    constructor <;> rw [Ty.members_eq notUnion]
    · exact fun isKnown => List.forall_mem_singleton.mpr (known isKnown)
    · exact fun isValued =>
        ⟨_, List.mem_singleton_self _, valued.trans isValued⟩
  have copyable := faithful.here
  cases type with
  | union occurrence members =>
      have joins := joins_of_retains faithful fun member inMembers =>
        inductionHypothesis member inMembers (faithful.inside inMembers)
      rcases @joins.cases _ occurrence with
        ⟨-, isAny⟩ | ⟨-, origin, keeps⟩
      · constructor <;> rw [isAny]
        · exact fun _ => List.forall_mem_singleton.mpr ⟨rfl, rfl⟩
        · exact fun _ => ⟨_, List.mem_singleton_self _, rfl⟩
      · constructor
        · exact fun _ member inForm => joins.known member (origin member inForm)
        · intro _
          obtain ⟨type, inFlat, valued⟩ := joins.valued
          obtain ⟨kept, inForm, valued, -⟩ := keeps type inFlat valued
          exact ⟨kept, inForm, valued⟩
  | intersection | generic | named => cases copyable
  | absent | primitive | literal => exact single rfl id rfl
  | _ => exact single rfl (fun _ => ⟨rfl, rfl⟩) rfl

variable (arena) in
/-- A faithful union is joined from known types, of which some has values. -/
theorem Ty.Faithful.joins
    {members : List Ty}
    (faithful : (Ty.union occurrence members).Faithful) :
    Joins arena members :=
  joins_of_retains faithful fun _ inMembers =>
    Ty.Faithful.retains arena (faithful.inside inMembers)

variable (arena) in
/-- The normal form of a known type is known. -/
theorem Ty.Faithful.known_plainForm
    {type : Ty}
    (faithful : type.Faithful)
    (known : type.Known) :
    (arena.plainForm type).Known := by
  have each := (faithful.retains arena).known known
  generalize arena.plainForm type = form at each
  cases form with
  | union => exact ⟨rfl, rfl⟩
  | _ => exact each _ (List.mem_singleton_self _)

variable (arena) in
/-- The normal form is left out exactly if the type is. -/
theorem Ty.Faithful.isAbsent_plainForm
    {type : Ty}
    (faithful : type.Faithful) :
    (arena.plainForm type).isAbsent = type.isAbsent := by
  cases type with
  | union => exact (faithful.known_plainForm arena ⟨rfl, rfl⟩).present
  | _ => rfl

variable (arena) in
/-- The normal form of a faithful type is faithful. -/
theorem Ty.Faithful.plainForm
    {type : Ty}
    (faithful : type.Faithful) :
    (arena.plainForm type).Faithful := by
  induction type using Ty.partsInduction with
  | node type inductionHypothesis =>
  have each :
      ∀ part ∈ type.parts, (arena.plainForm part).Faithful :=
    fun part inside => inductionHypothesis part inside (faithful.inside inside)
  have whole
      (notUnion : type.isUnion = false)
      (copyable : (arena.plainForm type).Copyable) :
      (arena.plainForm type).Faithful := by
    refine .node copyable ?_
    rw [Arena.parts_plainForm (Ty.Faithful.plain faithful).here notUnion,
      List.forall_mem_map]
    exact each
  have copyable := faithful.here
  cases type with
  | object occurrence shape =>
      obtain ⟨names, closed, known⟩ := copyable
      refine whole rfl ⟨?_, ?_, ?_⟩
      · simpa [Arena.plainProperties_eq_map, Shape.names, Function.comp_def]
          using names
      · rw [closed]
        rfl
      · intro property inForm optional
        rw [Arena.plainProperties_eq_map] at inForm
        obtain ⟨before, inShape, rfl⟩ := List.mem_map.mp inForm
        have inside := Ty.forall_parts_object.mp fun _ => faithful.inside
        exact Ty.Faithful.known_plainForm arena (inside.properties before inShape)
          (known before inShape optional)
  | union occurrence members =>
      have joins := Ty.Faithful.joins arena faithful
      have all :
          ∀ type ∈ flattenUnion (members.map arena.plainForm),
            type.Faithful := by
        intro type inFlat
        obtain ⟨member, inMembers, inForm⟩ :=
          mem_flattenUnion_plainForm.mp inFlat
        exact (each member inMembers).member inForm
      rw [Arena.plainForm_union]
      rcases joinMembers_cases (flattenUnion (members.map arena.plainForm))
        with ⟨kind, same⟩ | inFlat | ⟨parts, same, origin, proper⟩
      · rw [same]
        exact .leaf trivial rfl
      · exact all _ inFlat
      · rw [same]
        have proper := proper joins.flat
        obtain ⟨part, inParts⟩ :=
          List.exists_mem_of_length_pos
            (Nat.lt_of_lt_of_le Nat.zero_lt_two proper.several)
        exact .node
          ⟨fun part inParts => joins.known part (origin part inParts),
            part, inParts, proper.nonempty part inParts⟩
          fun part inParts => all part (origin part inParts)
  | literal => exact whole rfl copyable
  | intersection | generic | named => cases copyable
  | _ => exact whole rfl trivial

end NormalForms

section Relations

variable
  {arena : Arena}
  {related wanted : Ty → Ty → Prop}
  {type other third : Ty}

/--
Each alternative of a type with values has a counterpart in another type whose
parts are related, unless the other type has the alternative `any`.
-/
def Ty.Embeds
    (related : Ty → Ty → Prop)
    (type other : Ty) :
    Prop :=
  (other.Alternative .any ∧
      ∀ alternative, type.Alternative alternative → alternative.Known) ∨
    ∀ alternative,
      type.Alternative alternative →
      alternative.isNever = false →
      ∃ counterpart,
        other.Alternative counterpart ∧
          NodesAlike related alternative counterpart

/-- Two types resemble each other to so many levels. -/
def Ty.Resembles :
    (levels : Nat) →
    Ty →
    Ty →
    Prop
  | 0, _, _ => True
  | levels + 1, type, other =>
      type.Embeds (Resembles levels) other ∧
        other.Embeds (Resembles levels) type

/-- Nodes of known types that are alike are known. -/
theorem NodesAlike.known
    (alike : NodesAlike related type other)
    (known : other.Known) :
    type.Known := by
  cases alike <;> first | exact ⟨rfl, rfl⟩ | exact known

/-- Nodes that are alike have values together, unions apart. -/
theorem NodesAlike.isNever
    (alike : NodesAlike related type other)
    (notUnion : type.isUnion = false) :
    type.isNever = other.isNever := by
  cases alike <;> first | rfl | cases notUnion

namespace Ty.Embeds

/-- A type is embedded in what all of its alternatives have counterparts in. -/
theorem imp
    (embeds : type.Embeds related other)
    (forward : ∀ first second, related first second → wanted first second) :
    type.Embeds wanted other := by
  refine embeds.imp_right fun each alternative chosen valued => ?_
  obtain ⟨counterpart, otherChosen, alike⟩ := each alternative chosen valued
  exact ⟨counterpart, otherChosen,
    alike.imp (fun _ _ _ _ => forward _ _) fun _ _ _ _ => forward _ _⟩

/-- The members of an embedded type are embedded. -/
theorem member
    {member : Ty}
    (embeds : type.Embeds related other)
    (inMembers : member ∈ type.members) :
    member.Embeds related other := by
  have chosen {alternative : Ty} (chosen : member.Alternative alternative) :
      type.Alternative alternative := by
    cases type with
    | union => exact .member inMembers chosen
    | _ => exact List.mem_singleton.mp inMembers ▸ chosen
  rcases embeds with ⟨any, known⟩ | each
  · exact .inl ⟨any, fun _ isChosen => known _ (chosen isChosen)⟩
  · exact .inr fun _ isChosen => each _ (chosen isChosen)

/-- What is no union is embedded in a node that is alike. -/
theorem single
    (notUnion : type.isUnion = false)
    (otherNotUnion : other.isUnion = false)
    (alike : NodesAlike related type other) :
    type.Embeds related other := by
  refine .inr fun alternative chosen _ => ⟨other, .self otherNotUnion, ?_⟩
  cases chosen with
  | self => exact alike
  | member => cases notUnion

/-- A type has the alternative `any` if one does that is embedded in it. -/
theorem any
    (embeds : type.Embeds related other)
    (chosen : type.Alternative .any) :
    other.Alternative .any := by
  rcases embeds with ⟨any, -⟩ | each
  · exact any
  · obtain ⟨counterpart, chosen, alike⟩ := each _ chosen rfl
    cases alike
    exact chosen

/-- Types are embedded in what a type that they are embedded in is. -/
theorem trans
    (early : type.Embeds related other)
    (late : other.Embeds related third)
    (transitive :
      ∀ first second third,
        related first second → related second third → related first third) :
    type.Embeds related third := by
  rcases early with ⟨any, known⟩ | each
  · exact .inl ⟨late.any any, known⟩
  rcases late with ⟨any, known⟩ | otherEach
  · refine .inl ⟨any, fun alternative chosen => ?_⟩
    cases valued : alternative.isNever with
    | true => exact chosen.eq_never valued ▸ ⟨rfl, rfl⟩
    | false =>
        obtain ⟨counterpart, otherChosen, alike⟩ :=
          each alternative chosen valued
        exact alike.known (known counterpart otherChosen)
  · refine .inr fun alternative chosen valued => ?_
    obtain ⟨counterpart, otherChosen, alike⟩ := each alternative chosen valued
    obtain ⟨last, lastChosen, otherAlike⟩ :=
      otherEach counterpart otherChosen
        (alike.isNever chosen.notUnion ▸ valued)
    exact ⟨last, lastChosen, alike.trans otherAlike
      (fun _ _ _ _ _ _ => transitive _ _ _)
      fun _ _ _ _ _ _ => transitive _ _ _⟩

end Ty.Embeds

namespace Ty.Resembles

/-- Resembling does not depend on the order of the types. -/
theorem symm
    (resembles : Resembles levels type other) :
    Resembles levels other type := by
  cases levels with
  | zero => trivial
  | succ => exact And.symm resembles

/-- Types that resemble each other to some levels do so to one level less. -/
theorem fewer
    (resembles : Resembles (levels + 1) type other) :
    Resembles levels type other := by
  induction levels generalizing type other with
  | zero => trivial
  | succ levels inductionHypothesis =>
      exact ⟨resembles.1.imp fun _ _ => inductionHypothesis,
        resembles.2.imp fun _ _ => inductionHypothesis⟩

/-- Resembling passes on from type to type. -/
theorem trans
    (early : Resembles levels type other)
    (late : Resembles levels other third) :
    Resembles levels type third := by
  induction levels generalizing type other third with
  | zero => trivial
  | succ levels inductionHypothesis =>
      exact ⟨early.1.trans late.1 fun _ _ _ => inductionHypothesis,
        late.2.trans early.2 fun _ _ _ => inductionHypothesis⟩

end Ty.Resembles

/-- Types that are copies or that identity recognizes, in either order. -/
inductive Arena.Recognizes
    (arena : Arena) :
    Ty →
    Ty →
    Prop
  | copy :
      first.form = second.form →
      Recognizes arena first second
  | identical :
      arena.identicalWithin depth [] first second = true →
      Recognizes arena first second
  | flipped :
      arena.identicalWithin depth [] second first = true →
      Recognizes arena first second

namespace Arena.Recognizes

/-- Recognizing does not depend on the order of the types. -/
theorem symm
    (recognizes : arena.Recognizes type other) :
    arena.Recognizes other type := by
  cases recognizes with
  | copy same => exact .copy same.symm
  | identical same => exact .flipped same
  | flipped same => exact .identical same

/-- Faithful types that are recognized have nodes that are alike. -/
theorem alike
    (recognizes : arena.Recognizes type other)
    (faithful : type.Faithful)
    (otherFaithful : other.Faithful) :
    NodesAlike arena.Recognizes type other := by
  have copies {first second : Ty}
      (faithful : first.Faithful)
      (otherFaithful : second.Faithful)
      (same : first.form = second.form) :
      NodesAlike arena.Recognizes first second :=
    nodesAlike_of_form same faithful.notNamed faithful.tidy otherFaithful.tidy
      fun _ _ _ _ same => ⟨.copy same, .copy same.symm⟩
  have identical {first second : Ty} {depth : Nat}
      (faithful : first.Faithful)
      (otherFaithful : second.Faithful)
      (same : arena.identicalWithin depth [] first second = true) :
      NodesAlike arena.Recognizes first second := by
    rcases Arena.identicalWithin_unnamed faithful.notNamed
        otherFaithful.notNamed same with rfl | ⟨nearer, -, equals⟩
    · exact copies faithful faithful rfl
    · exact (alike_of_equalNodes equals).imp
        (fun _ _ _ _ => .identical) fun _ _ _ _ => .identical
  cases recognizes with
  | copy same => exact copies faithful otherFaithful same
  | identical same => exact identical faithful otherFaithful same
  | flipped same =>
      exact (identical otherFaithful faithful same).symm otherFaithful.tidy
        faithful.tidy fun _ _ _ _ => symm

/-- The alternatives of a type are recognized among those of another. -/
theorem alternative
    {alternative : Ty}
    (recognizes : arena.Recognizes type other)
    (faithful : type.Faithful)
    (otherFaithful : other.Faithful)
    (chosen : type.Alternative alternative) :
    ∃ counterpart,
      other.Alternative counterpart ∧
        arena.Recognizes alternative counterpart := by
  induction chosen generalizing other with
  | self notUnion =>
      refine ⟨other, .self ?_, recognizes⟩
      cases recognizes.alike faithful otherFaithful <;>
        first | rfl | cases notUnion
  | member inMembers _ inductionHypothesis =>
      cases recognizes.alike faithful otherFaithful with
      | union same =>
          obtain ⟨member, inOthers, recognizes⟩ := same.each _ inMembers
          obtain ⟨counterpart, chosen, recognizes⟩ :=
            inductionHypothesis recognizes.symm (faithful.inside inMembers)
              (otherFaithful.inside inOthers)
          exact ⟨counterpart, .member inOthers chosen, recognizes⟩

/-- Types that are recognized are alike in every way that follows for parts. -/
theorem alike_imp
    (recognizes : arena.Recognizes type other)
    (faithful : type.Faithful)
    (otherFaithful : other.Faithful)
    (implies :
      ∀ {first second},
        arena.Recognizes first second →
        first.Faithful →
        second.Faithful →
        wanted first second) :
    NodesAlike wanted type other :=
  (recognizes.alike faithful otherFaithful).imp
    (fun _ inFirst _ inSecond recognizes =>
      implies recognizes (faithful.compared inFirst)
        (otherFaithful.compared inSecond))
    fun _ inFirst _ inSecond recognizes =>
      implies recognizes (otherFaithful.compared inSecond)
        (faithful.compared inFirst)

/-- Faithful types that are recognized resemble each other. -/
theorem resembles
    (recognizes : arena.Recognizes type other)
    (faithful : type.Faithful)
    (otherFaithful : other.Faithful) :
    Ty.Resembles levels type other := by
  induction levels generalizing type other with
  | zero => trivial
  | succ levels inductionHypothesis =>
      have embeds {first second : Ty}
          (recognizes : arena.Recognizes first second)
          (faithful : first.Faithful)
          (otherFaithful : second.Faithful) :
          first.Embeds (Ty.Resembles levels) second := by
        refine .inr fun alternative chosen _ => ?_
        obtain ⟨counterpart, otherChosen, recognizes⟩ :=
          recognizes.alternative faithful otherFaithful chosen
        exact ⟨counterpart, otherChosen,
          recognizes.alike_imp (Ty.Every.alternative faithful chosen)
            (Ty.Every.alternative otherFaithful otherChosen)
            inductionHypothesis⟩
      exact ⟨embeds recognizes faithful otherFaithful,
        embeds recognizes.symm otherFaithful faithful⟩

end Arena.Recognizes

/-- A type that is there stands in for no other. -/
theorem Ty.orElse_present
    (present : type.isAbsent = false) :
    type.orElse other = type := by
  cases type <;> first | rfl | cases present

/-- A node is like its normal form if its parts are related to theirs. -/
theorem nodesAlike_plainForm
    (faithful : type.Faithful)
    (notUnion : type.isUnion = false)
    (parts : ∀ part ∈ type.compared, related part (arena.plainForm part)) :
    NodesAlike related type (arena.plainForm type) := by
  have copyable := faithful.here
  cases type with
  | absent => exact .absent
  | primitive => exact .primitive
  | literal => exact .literal copyable
  | object occurrence shape =>
      obtain ⟨properties, index⟩ := shape
      obtain ⟨names, rfl, -⟩ := copyable
      rw [Arena.plainForm, Arena.plainProperties_eq_map]
      refine .object (by simp) (fun property inShape => ?_) .none
      let form : Shape Ty :=
        { properties :=
            properties.map fun property =>
              { property with type := arena.plainForm property.type } }
      have distinct : form.names.Nodup := by
        simpa [form, Shape.names, Function.comp_def] using names
      have found :=
        Shape.property?_of_mem distinct (List.mem_map_of_mem inShape)
      exact ⟨_, found, rfl, rfl, parts _
        (List.mem_append_left _ (List.mem_map_of_mem inShape))⟩
  | array => exact .array (parts _ (List.mem_singleton_self _))
  | tuple occurrence elements =>
      rw [Arena.plainForm, Arena.plainForms_eq_map]
      refine .tuple ?_
      rw [List.forall₂_map_right_iff, List.forall₂_same]
      exact parts
  | function occurrence signature =>
      have inside := Ty.forall_parts_function.mp fun _ => faithful.inside
      have result :
          (arena.plainForm signature.result).orElse .void =
            arena.plainForm (signature.result.orElse .void) := by
        have absent := Ty.Faithful.isAbsent_plainForm arena inside.2.2
        cases missing : signature.result.isAbsent with
        | true =>
            rw [Ty.eq_absent missing]
            rfl
        | false =>
            rw [missing] at absent
            rw [Ty.orElse_present absent, Ty.orElse_present missing]
      rw [Arena.plainForm, Arena.plainParameters_eq_map]
      refine .function rfl ?_ (Ty.Faithful.isAbsent_plainForm arena inside.2.1).symm
        (fun _ => parts _ (by simp [Ty.compared])) ?_
      · rw [List.forall₂_map_right_iff, List.forall₂_same]
        exact fun parameter inParameters =>
          ⟨rfl, parts _ (List.mem_append_left _
            (List.mem_map_of_mem inParameters))⟩
      · rw [result]
        exact parts _ (by simp [Ty.compared])
  | union => cases notUnion
  | named | intersection | generic => cases copyable

variable (arena) in
/-- A faithful type resembles its normal form. -/
theorem Ty.Faithful.resembles_plainForm
    (faithful : type.Faithful)
    (levels : Nat) :
    Ty.Resembles levels type (arena.plainForm type) := by
  induction levels generalizing type with
  | zero => trivial
  | succ levels resembles =>
  induction type using Ty.partsInduction with
  | node type inductionHypothesis =>
  cases isUnion : type.isUnion with
  | false =>
      have alike :
          NodesAlike (Ty.Resembles levels) type (arena.plainForm type) :=
        nodesAlike_plainForm faithful isUnion fun part inside =>
          resembles (faithful.compared inside)
      have otherNotUnion : (arena.plainForm type).isUnion = false := by
        cases type <;> first | rfl | cases isUnion
      have flipped :=
        alike.symm faithful.tidy (faithful.plainForm arena).tidy
          fun _ _ _ _ => Ty.Resembles.symm
      exact ⟨.single isUnion otherNotUnion alike,
        .single otherNotUnion isUnion flipped⟩
  | true =>
  cases type with
  | union occurrence members =>
      have joins := Ty.Faithful.joins arena faithful
      have each (member : Ty) (inMembers : member ∈ members) :=
        inductionHypothesis member inMembers (faithful.inside inMembers)
      have flat {type : Ty} (faithful : type.Faithful) :=
        fun member (inForm : member ∈ (arena.plainForm type).members) =>
          (rebuilt_plainForm (Ty.Faithful.plain faithful)).here.flat inForm
      have chosen {member alternative : Ty}
          (inMembers : member ∈ members) :=
        @Ty.alternative_iff (arena.plainForm member) alternative
          (flat (faithful.inside inMembers))
      rcases @joins.cases _ occurrence with
        ⟨any, isAny⟩ | ⟨noAny, origin, keeps⟩
      · obtain ⟨member, inMembers, inForm⟩ := mem_flattenUnion_plainForm.mp any
        have any :=
          (each member inMembers).2.any ((chosen inMembers).mpr inForm)
        rw [isAny]
        refine ⟨.inl ⟨.self rfl, fun _ =>
          Ty.Faithful.known_alternative faithful ⟨rfl, rfl⟩⟩,
          .inl ⟨.member inMembers any, fun _ isAny => ?_⟩⟩
        exact (Ty.forall_alternative_single rfl).mpr ⟨rfl, rfl⟩ _ isAny
      have noAny (member : Ty) (inMembers : member ∈ members) :
          ¬ (arena.plainForm member).Alternative .any := fun any =>
        noAny (mem_flattenUnion_plainForm.mpr
          ⟨member, inMembers, (chosen inMembers).mp any⟩)
      have flat := flat faithful
      constructor
      · refine .inr fun alternative isChosen valued => ?_
        obtain ⟨member, inMembers, isChosen⟩ :
            ∃ member ∈ members, member.Alternative alternative := by
          cases isChosen with
          | self notUnion => cases notUnion
          | member inMembers isChosen => exact ⟨_, inMembers, isChosen⟩
        obtain ⟨counterpart, otherChosen, alike⟩ :=
          (each member inMembers).1.resolve_left
            (fun ⟨any, _⟩ => noAny member inMembers any) alternative isChosen
            valued
        have inFlat := mem_flattenUnion_plainForm.mpr
          ⟨member, inMembers, (chosen inMembers).mp otherChosen⟩
        obtain ⟨kept, inForm, -, same⟩ :=
          keeps counterpart inFlat (alike.isNever isChosen.notUnion ▸ valued)
        have recognizes : arena.Recognizes counterpart kept := by
          rcases same with rfl | same
          · exact .copy rfl
          · exact .flipped same
        have ofCounterpart : counterpart.Faithful :=
          Ty.Every.alternative
            (Ty.Faithful.plainForm arena (faithful.inside inMembers))
            otherChosen
        have ofKept : kept.Faithful :=
          (Ty.Faithful.plainForm arena faithful).member inForm
        refine ⟨kept, (Ty.alternative_iff flat).mpr inForm, alike.trans
          (recognizes.alike_imp ofCounterpart ofKept
            fun recognizes faithful otherFaithful =>
              recognizes.resembles faithful otherFaithful) ?_ ?_⟩
        · exact fun _ _ _ _ _ _ => Ty.Resembles.trans
        · exact fun _ _ _ _ _ _ => Ty.Resembles.trans
      · refine .inr fun alternative isChosen valued => ?_
        have inFlat :=
          origin alternative ((Ty.alternative_iff flat).mp isChosen)
        obtain ⟨member, inMembers, inForm⟩ :=
          mem_flattenUnion_plainForm.mp inFlat
        obtain ⟨counterpart, otherChosen, alike⟩ :=
          (each member inMembers).2.resolve_left
            (fun ⟨any, _⟩ =>
              noAny member inMembers ((each member inMembers).1.any any))
            alternative ((chosen inMembers).mpr inForm) valued
        exact ⟨counterpart, .member inMembers otherChosen, alike⟩
  | _ => cases isUnion

end Relations

end StructuralTyping
