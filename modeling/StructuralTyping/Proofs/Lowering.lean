import StructuralTyping.Proofs.NormalizeSize

namespace StructuralTyping

/-!
# What normalization may become heavy with

An application may run into itself when it is evaluated among the members of an
intersection, since merging does not advance the depth. A type is calm when the
names followed from its intersections lead back to none of themselves. Steps of
normalization and evaluation lower a type: they keep it calm, and make it no
heavier if all names followed from it are so.
-/

/--
The names that are followed from a type are known, and those followed from an
intersection in it are grounded.
-/
inductive Ty.Calm
    (arena : Arena)
    (known : Reference → Prop) :
    (opened : Bool) →
    Ty →
    Prop
  | node :
      (∀ reference,
        type.nodeKind = .name reference → opened = true → known reference) →
      (type.nodeKind = .intersection →
        ∀ reference, type.Follows reference opened →
          arena.Grounded reference) →
      (∀ part ∈ type.parts, Calm arena known (type.nodeKind.opens opened) part) →
      Calm arena known opened type

/-- The definitions of known names are calm. -/
def Arena.Calm
    (arena : Arena)
    (known : Reference → Prop) :
    Prop :=
  ∀ reference, known reference →
    (arena.definition reference).Calm arena known true

/-- All names that are followed from a type are known and grounded. -/
structure Ty.Tame
    (arena : Arena)
    (known : Reference → Prop)
    (opened : Bool)
    (type : Ty) :
    Prop where
  calm : type.Calm arena known opened
  grounded :
    ∀ reference, type.Follows reference opened → arena.Grounded reference

/-- A step from a type that stands open or not, to one that does or does not. -/
structure Ty.Lowers
    (arena : Arena)
    (known : Reference → Prop)
    (opened still : Bool)
    (before after : Ty) :
    Prop where
  calm : before.Calm arena known opened → after.Calm arena known still
  tame : before.Tame arena known opened → after.Tame arena known still
  weight :
    before.Tame arena known opened →
      after.weight arena.level still ≤ before.weight arena.level opened

/-- A step that does not depend on whether the type stands open. -/
abbrev Ty.Settles
    (arena : Arena)
    (known : Reference → Prop)
    (before after : Ty) :
    Prop :=
  ∀ opened, before.Lowers arena known opened opened after

variable {arena : Arena} {known : Reference → Prop} {opened still : Bool}

namespace Ty

section Nodes

variable {type part : Ty}

/-- What a type follows that does not stand open, it follows open. -/
theorem Follows.ofClosed
    (follows : type.Follows reference false) :
    type.Follows reference opened := by
  induction type using partsInduction generalizing opened with
  | node type inductionHypothesis =>
      cases follows with
      | inside inside follows =>
          refine .inside inside ?_
          cases type <;> first
            | exact follows
            | exact inductionHypothesis _ inside follows

/-- The parts of a calm type are calm. -/
theorem Calm.inside
    (calm : type.Calm arena known opened)
    (inside : part ∈ type.parts) :
    part.Calm arena known (type.nodeKind.opens opened) := by
  cases calm with
  | node _ _ parts =>
      exact parts part inside

/-- A type that is calm open is calm where it does not stand open. -/
theorem Calm.closed
    (calm : type.Calm arena known opened) :
    type.Calm arena known false := by
  induction calm with
  | @node opened type names grounded parts inductionHypothesis =>
      refine .node (by simp) (fun same reference follows =>
        grounded same reference follows.ofClosed) fun part inside => ?_
      cases type <;> first
        | exact parts part inside
        | exact inductionHypothesis part inside

/-- The parts of a tame type are tame. -/
theorem Tame.inside
    (tame : type.Tame arena known opened)
    (inside : part ∈ type.parts) :
    part.Tame arena known (type.nodeKind.opens opened) :=
  ⟨tame.calm.inside inside, fun reference follows =>
    tame.grounded reference (.inside inside follows)⟩

/-- A type is tame when the name that it is and its parts are. -/
theorem Tame.node
    (names :
      ∀ reference, type.nodeKind = .name reference → opened = true →
        known reference ∧ arena.Grounded reference)
    (parts :
      ∀ part ∈ type.parts,
        part.Tame arena known (type.nodeKind.opens opened)) :
    type.Tame arena known opened := by
  have grounded :
      ∀ reference, type.Follows reference opened →
        arena.Grounded reference := by
    intro reference follows
    cases follows with
    | named =>
        exact (names reference rfl rfl).2
    | inside inside follows =>
        exact (parts _ inside).grounded reference follows
  refine ⟨.node (fun reference same isOpen => ?_) (fun _ => grounded)
    fun part inside => (parts part inside).calm, grounded⟩
  exact (names reference same isOpen).1

/-- The name that a tame type is, is known and grounded. -/
theorem Tame.name
    (tame : type.Tame arena known opened)
    (same : type.nodeKind = .name reference)
    (isOpen : opened = true) :
    known reference ∧ arena.Grounded reference := by
  subst isOpen
  constructor
  · cases tame.calm with
    | node names _ _ =>
        exact names reference same rfl
  · cases type <;> simp [nodeKind] at same
    exact same ▸ tame.grounded _ .named

/-- Calm intersections are tame. -/
theorem Calm.tame
    (calm : type.Calm arena known opened)
    (same : type.nodeKind = .intersection) :
    type.Tame arena known opened := by
  refine ⟨calm, ?_⟩
  cases calm with
  | node _ grounded _ =>
      exact grounded same

/-- An intersection is calm just when its members are tame. -/
theorem calm_ofIntersection
    {members : List Ty} :
    (Ty.ofIntersection members).Calm arena known opened ↔
      ∀ member ∈ members, member.Tame arena known opened := by
  constructor
  · exact fun calm member inMembers => (calm.tame rfl).inside inMembers
  · intro each
    have tame : (Ty.ofIntersection members).Tame arena known opened :=
      .node (by rintro _ ⟨⟩) each
    exact tame.calm

/-- A union is calm just when its members are. -/
theorem calm_ofUnion
    {members : List Ty} :
    (Ty.ofUnion members).Calm arena known opened ↔
      ∀ member ∈ members, member.Calm arena known opened := by
  constructor
  · exact fun calm member inMembers => calm.inside inMembers
  · exact fun each => .node (by rintro _ ⟨⟩) (by rintro ⟨⟩) each

/-- Without applications, only types that stand open follow names. -/
theorem Every.not_follows
    (free : type.Every fun node => node.isApplication = false) :
    ¬ type.Follows reference false := by
  induction free with
  | @node type here _ inductionHypothesis =>
      intro follows
      cases follows with
      | inside inside follows =>
          refine inductionHypothesis _ inside ?_
          cases type <;> first
            | exact follows
            | simp [isApplication] at here

/-- Without applications, types that do not stand open are calm. -/
theorem Every.calm
    (free : type.Every fun node => node.isApplication = false) :
    type.Calm arena known false := by
  induction free with
  | @node type here parts inductionHypothesis =>
      refine .node (by simp) (fun _ reference follows =>
        absurd follows (Every.not_follows (.node here parts)))
        fun part inside => ?_
      have closed := inductionHypothesis part inside
      cases type <;> first
        | exact closed
        | simp [isApplication] at here

end Nodes

namespace Lowers

variable {before between after : Ty}

/-- Doing nothing is a step. -/
theorem refl :
    before.Lowers arena known opened opened before :=
  ⟨id, id, fun _ => le_rfl⟩

/-- Two steps make a step. -/
theorem trans
    (first : before.Lowers arena known opened other between)
    (second : between.Lowers arena known other still after) :
    before.Lowers arena known opened still after :=
  ⟨fun calm => second.calm (first.calm calm),
    fun tame => second.tame (first.tame tame),
    fun tame => (second.weight (first.tame tame)).trans (first.weight tame)⟩

/-- A type may be regarded as one that does not stand open. -/
theorem closed :
    before.Lowers arena known true opened before := by
  cases opened with
  | true => exact refl
  | false =>
      exact ⟨Calm.closed, fun tame => ⟨tame.calm.closed, fun reference follows =>
        tame.grounded reference follows.ofClosed⟩, fun _ => weight_closed_le _⟩

/-- A type without parts is a step from every type. -/
theorem leaf
    (same : after.nodeKind = .leaf) :
    before.Lowers arena known opened still after := by
  have tame : after.Tame arena known still := by
    refine .node (by simp [same]) fun part inside => ?_
    cases after <;> simp [nodeKind] at same <;> simp [parts] at inside
  exact ⟨fun _ => tame.calm, fun _ => tame, fun _ => by
    rw [weight_leaf same]
    exact two_le_weight before⟩

/-- Nodes of one kind are a step when all parts come from parts. -/
theorem ofParts
    (same : after.nodeKind = before.nodeKind)
    (parts :
      ∀ part ∈ after.parts, ∃ old ∈ before.parts,
        old.Lowers arena known (before.nodeKind.opens opened)
          (before.nodeKind.opens opened) part)
    (weight :
      before.Tame arena known opened →
        after.weight arena.level opened ≤ before.weight arena.level opened) :
    before.Lowers arena known opened opened after := by
  have tame :
      before.Tame arena known opened → after.Tame arena known opened := by
    intro tame
    refine .node (fun reference name => tame.name (same ▸ name))
      fun part inside => ?_
    obtain ⟨old, inBefore, step⟩ := parts part inside
    rw [same]
    exact step.tame (tame.inside inBefore)
  refine ⟨fun calm => ?_, tame, weight⟩
  by_cases intersection : before.nodeKind = .intersection
  · exact (tame (calm.tame intersection)).calm
  · refine .node (fun reference name => ?_)
      (fun impossible => absurd (same ▸ impossible) intersection)
      fun part inside => ?_
    · cases calm with
      | node names _ _ =>
          exact names reference (same ▸ name)
    · obtain ⟨old, inBefore, step⟩ := parts part inside
      rw [same]
      exact step.calm (calm.inside inBefore)

/-- Nodes of one kind with fewer parts are a step. -/
theorem fewer
    (same : after.nodeKind = before.nodeKind)
    (sublist : after.parts.Sublist before.parts) :
    before.Lowers arena known opened opened after := by
  refine ofParts same (fun part inside => ⟨part, sublist.subset inside, refl⟩)
    fun _ => ?_
  rw [weight_eq, weight_eq, same]
  refine NodeKind.weight_sublist (sublist.map _) ?_
  exact List.forall_mem_map.mpr fun part _ => part.weight_pos

/-- A step for each part is a step for the node. -/
theorem node
    (same : after.nodeKind = before.nodeKind)
    (steps :
      List.Forall₂
        (Ty.Lowers arena known (before.nodeKind.opens opened)
          (before.nodeKind.opens opened))
        before.parts after.parts) :
    before.Lowers arena known opened opened after := by
  refine ofParts same (fun part inside => exists_related_left steps inside)
    fun tame => ?_
  rw [weight_eq, weight_eq, same]
  refine NodeKind.weight_mono ?_
  rw [List.forall₂_map_left_iff, List.forall₂_map_right_iff]
  have tameSteps :=
    (List.forall₂_and_left _ _).mpr ⟨fun part => tame.inside, steps⟩
  exact tameSteps.flip.imp fun _ _ step => step.2.weight step.1

/-- A part of a type is a step from it. -/
theorem inside
    (inside : after ∈ before.parts) :
    before.Lowers arena known opened (before.nodeKind.opens opened) after := by
  refine ⟨fun calm => calm.inside inside, fun tame => tame.inside inside,
    fun _ => ?_⟩
  rw [before.weight_eq]
  refine Nat.le_of_lt (NodeKind.part_lt_weight (fun reference name => ?_)
    (List.forall_mem_map.mpr fun part _ => part.weight_pos)
    (List.mem_map_of_mem inside))
  cases before <;> simp [nodeKind] at name
  simp [parts] at inside

/-- The definition of a name is a step from the open name. -/
theorem definition
    (calmArena : arena.Calm known)
    (reference : Reference) :
    (Ty.named reference).Lowers arena known true true
      (arena.definition reference) := by
  have calm :
      (Ty.named reference).Calm arena known true →
        (arena.definition reference).Calm arena known true := by
    rintro ⟨names, _, _⟩
    exact calmArena reference (names reference rfl rfl)
  refine ⟨calm, fun tame => ⟨calm tame.calm, fun other follows => ?_⟩,
    fun tame => ?_⟩
  · exact (tame.name rfl rfl).2.inv follows
  · rw [← Arena.level_eq (tame.name rfl rfl).2, weight_named]
    exact Nat.le_add_right _ 2

/-- A member of a type is a step from it. -/
theorem member
    (inMembers : after ∈ before.members) :
    before.Lowers arena known opened opened after := by
  cases before with
  | union occurrence members =>
      have inside : after ∈ (union occurrence members).parts := inMembers
      exact .inside inside
  | _ =>
      cases List.mem_singleton.mp inMembers
      exact refl

/-- Unions of what comes from members that weigh no more together are a step. -/
theorem ofUnions
    {before after : List Ty}
    (members :
      ∀ member ∈ after, ∃ old ∈ before,
        old.Lowers arena known opened opened member)
    (weight :
      (after.map (Ty.weight arena.level opened)).sum ≤
        (before.map (Ty.weight arena.level opened)).sum) :
    (Ty.ofUnion before).Lowers arena known opened opened (.ofUnion after) := by
  refine ofParts rfl members fun _ => ?_
  rw [ofUnion, ofUnion, weight_union, weight_union]
  exact Nat.add_le_add_right weight 2

/-- Intersections of tame members that weigh no more together are a step. -/
theorem ofIntersections
    {before after : List Ty}
    (tame :
      (∀ member ∈ before, member.Tame arena known opened) →
        ∀ member ∈ after, member.Tame arena known opened)
    (weight :
      (after.map (Ty.weight arena.level opened)).prod ≤
        (before.map (Ty.weight arena.level opened)).prod) :
    (Ty.ofIntersection before).Lowers arena known opened opened
      (.ofIntersection after) := by
  have calm :
      (Ty.ofIntersection before).Calm arena known opened →
        (Ty.ofIntersection after).Calm arena known opened :=
    fun calm => calm_ofIntersection.mpr (tame (calm_ofIntersection.mp calm))
  refine ⟨calm, fun tame => (calm tame.calm).tame rfl, fun _ => ?_⟩
  rw [ofIntersection, ofIntersection, weight_intersection, weight_intersection]
  exact Nat.mul_le_mul_left 2 weight

end Lowers

end Ty

section Normalizing

open Ty

/-- Flattening an intersection is a step. -/
theorem settles_flattenIntersection
    (types : List Ty) :
    (Ty.ofIntersection types).Settles arena known
      (.ofIntersection (flattenIntersection types)) := by
  refine fun opened => .ofIntersections (fun tame type inFlat => ?_)
    (weights_flattenIntersection types)
  obtain ⟨whole, inTypes, rfl | ⟨_, _, rfl, inMembers⟩⟩ :=
    NormalPass.mem_flattenIntersection inFlat
  · exact tame _ inTypes
  · exact (tame _ inTypes).inside inMembers

/-- Flattening a union is a step. -/
theorem settles_flattenUnion
    (types : List Ty) :
    (Ty.ofUnion types).Settles arena known (.ofUnion (flattenUnion types)) := by
  refine fun opened => .ofUnions (fun type inFlat => ?_)
    (weights_flattenUnion types)
  obtain ⟨whole, inTypes, inMembers⟩ := List.mem_flatMap.mp inFlat
  exact ⟨whole, inTypes, .member inMembers⟩

/-- Joining the members of a union is a step. -/
theorem settles_joinMembers
    (types : List Ty) :
    (Ty.ofUnion types).Settles arena known (arena.joinMembers types) := by
  intro opened
  unfold Arena.joinMembers
  dsimp only
  split
  · exact .leaf rfl
  split
  · exact .leaf rfl
  have sublist :
      ((types.filter fun type => !type.isNever).foldl
        arena.appendUnique []).Sublist types :=
    (unique_sublist _).trans List.filter_sublist
  split
  · exact .leaf rfl
  · next type single =>
    rw [single] at sublist
    exact .member (sublist.subset (List.mem_singleton_self type))
  · exact .fewer rfl sublist

/-- Meeting each choice from an intersection leads to the members of a union. -/
theorem settles_choices
    {types results : List Ty}
    (anyUnion : types.any Ty.isUnion = true)
    (meets :
      List.Forall₂
        (fun choice => (Ty.ofIntersection choice).Settles arena known)
        (choices types) results) :
    (Ty.ofIntersection types).Settles arena known (.ofUnion results) := by
  intro opened
  have choiceTame :
      (∀ type ∈ types, type.Tame arena known opened) →
        ∀ choice ∈ choices types,
          (Ty.ofIntersection choice).Tame arena known opened := by
    intro tame choice inChoices
    refine .node (by rintro _ ⟨⟩) fun member inChoice => ?_
    obtain ⟨type, inTypes, inType⟩ := mem_of_mem_choice inChoices inChoice
    exact (Lowers.member inType).tame (tame type inTypes)
  have resultTame :
      (Ty.ofIntersection types).Calm arena known opened →
        (Ty.ofUnion results).Tame arena known opened := by
    intro calm
    refine .node (by rintro _ ⟨⟩) fun result inResults => ?_
    obtain ⟨choice, inChoices, settles⟩ := exists_related_left meets inResults
    exact (settles opened).tame
      (choiceTame (calm_ofIntersection.mp calm) choice inChoices)
  refine ⟨fun calm => (resultTame calm).calm, fun tame => resultTame tame.calm,
    fun tame => ?_⟩
  have lighter :
      (results.map (weight arena.level opened)).sum ≤
        2 * choiceWeights arena.level opened types := by
    have each :
        List.Forall₂ (· ≤ ·) (results.map (weight arena.level opened))
          ((choices types).map fun choice =>
            2 * (choice.map (weight arena.level opened)).prod) := by
      rw [List.forall₂_map_left_iff, List.forall₂_map_right_iff]
      have tameMeets :=
        (List.forall₂_and_left _ _).mpr
          ⟨choiceTame (calm_ofIntersection.mp tame.calm), meets⟩
      refine tameMeets.flip.imp fun _ _ meet => ?_
      have := (meet.2 opened).weight meet.1
      rwa [ofIntersection, weight_intersection] at this
    refine each.sum_le_sum.trans (Nat.le_of_eq ?_)
    rw [List.sum_map_mul_left]
    rfl
  have less :
      choiceWeights arena.level opened types + 1 ≤
        (types.map (weight arena.level opened)).prod :=
    (choiceWeights_le types).2 anyUnion
  rw [ofIntersection, ofUnion, weight_intersection, weight_union]
  omega

/-- Reducing the atoms of an intersection is a step. -/
theorem settles_reduceAtoms
    {members reduced : List Ty}
    (succeeded : reduceAtoms members = some reduced) :
    (Ty.ofIntersection members).Settles arena known (.ofIntersection reduced) :=
  fun _ => .ofIntersections
    (fun tame _ inReduced =>
      tame _ (mem_of_mem_reduceAtoms succeeded inReduced))
    (weights_reduceAtoms succeeded)

/-- An object is tame when the types in it are. -/
theorem tame_object
    {shape : Shape Ty} :
    (Ty.object occurrence shape).Tame arena known opened ↔
      shape.All (Ty.Tame arena known false) := by
  rw [← forall_parts_object]
  constructor
  · exact fun tame part inside => tame.inside inside
  · exact fun parts => .node (by rintro _ ⟨⟩) parts

/-- Replacing the objects of an intersection by a tame lighter one is a step. -/
theorem settles_replaceObjects
    {merged : Shape Ty}
    {members : List Ty}
    (tame : merged.All (Ty.Tame arena known false))
    (light :
      merged.weight arena.level ≤
        ((NormalPass.shapesOf members).map (Shape.weight arena.level)).prod)
    (some : first ∈ NormalPass.shapesOf members) :
    (Ty.ofIntersection members).Settles arena known
      (.ofIntersection (NormalPass.replaceObjects (.ofShape merged) members)) := by
  refine fun opened => .ofIntersections (fun membersTame => ?_)
    (weights_replaceObjects light)
  rw [NormalPass.forall_replaceObjects some fun member =>
    member.Tame arena known opened]
  exact ⟨tame_object.mpr tame, fun member inMembers _ =>
    membersTame member inMembers⟩

end Normalizing

section Evaluating

open Ty

/-- A part of a function without its result left out is a step. -/
theorem Ty.Lowers.orElse
    {type other : Ty}
    (same : other.nodeKind = .leaf) :
    type.Lowers arena known opened opened (type.orElse other) := by
  unfold Ty.orElse
  split
  · exact .leaf same
  · exact .refl

/-- The type without `null` and `undefined` is a step. -/
theorem settles_nonNullable
    (type : Ty) :
    type.Settles arena known type.nonNullable := by
  intro opened
  unfold Ty.nonNullable
  split
  · exact .leaf rfl
  split
  · exact .fewer rfl List.filter_sublist
  · exact .refl

/-- Adding `undefined` keeps a type calm. -/
theorem Ty.Calm.optional
    {type : Ty}
    (calm : type.Calm arena known opened) :
    type.optional.Calm arena known opened := by
  unfold Ty.optional
  split
  · exact calm
  · refine calm_ofUnion.mpr (List.forall_mem_append.mpr ⟨fun member inMembers =>
      (Lowers.member inMembers).calm calm, List.forall_mem_singleton.mpr ?_⟩)
    exact (Lowers.leaf rfl).calm calm

/-- Adding `undefined` keeps a type tame. -/
theorem Ty.Tame.optional
    {type : Ty}
    (tame : type.Tame arena known opened) :
    type.optional.Tame arena known opened := by
  unfold Ty.optional
  split
  · exact tame
  · refine .node (by rintro _ ⟨⟩)
      (List.forall_mem_append.mpr ⟨fun member inMembers =>
        (Lowers.member inMembers).tame tame, List.forall_mem_singleton.mpr ?_⟩)
    exact (Lowers.leaf rfl).tame tame

/-- Adding `undefined` makes a type heavier by no more than a bit. -/
theorem weight_optional_le
    {level : Reference → Nat}
    (type : Ty) :
    type.optional.weight level opened ≤ type.weight level opened + 4 := by
  unfold Ty.optional
  split
  · exact Nat.le_add_right _ 4
  have undefined : Ty.undefined.weight level opened = 2 := weight_leaf rfl
  have members :
      (type.members.map (weight level opened)).sum ≤
        type.weight level opened := by
    cases type <;> simp [Ty.members]
  rw [ofUnion, weight_union, List.map_append, List.sum_append,
    List.map_singleton, List.sum_singleton, undefined]
  omega

/-- The parameters of a function weigh no more than the function. -/
theorem weight_parameters_le
    {level : Reference → Nat}
    (signature : Signature Ty) :
    (Ty.tuple none signature.parameterTypes false).weight level true ≤
      (Ty.function occurrence signature).weight level true := by
  rw [weight_eq, weight_eq]
  simp only [nodeKind, NodeKind.weight, NodeKind.opens, List.map_map]
  refine Nat.mul_le_mul_left 2 ?_
  have each :
      ∀ parameter ∈ signature.parameters,
        2 * ((if parameter.optional then parameter.type.optional
          else parameter.type).weight level false + 1) ≤
          2 * (parameter.type.weight level true + 5) := by
    intro parameter _
    have closed : parameter.type.weight level false ≤
        parameter.type.weight level true :=
      weight_closed_le _
    have optional : parameter.type.optional.weight level false ≤
        parameter.type.weight level false + 4 :=
      weight_optional_le _
    split <;> omega
  have sublist :
      (signature.parameters.map Parameter.type).Sublist
        (Ty.function occurrence signature).parts :=
    List.sublist_append_left _ _
  calc
    _ = (signature.parameters.map fun parameter =>
          2 * ((if parameter.optional then parameter.type.optional
            else parameter.type).weight level false + 1)).prod := by
        simp [Ty.parts, Signature.parameterTypes, Function.comp_def]
    _ ≤ (signature.parameters.map fun parameter =>
          2 * (parameter.type.weight level true + 5)).prod :=
        List.prod_le_prod' each
    _ = ((signature.parameters.map Parameter.type).map fun type =>
          2 * (type.weight level true + 5)).prod := by
        rw [List.map_map]
        rfl
    _ ≤ _ :=
        (sublist.map _).prod_le_prod' (List.forall_mem_map.mpr fun _ _ => by omega)

/-- The parameters of a function are a step from it. -/
theorem lowers_parameters
    (signature : Signature Ty) :
    (Ty.function occurrence signature).Lowers arena known true true
      (.tuple none signature.parameterTypes false) := by
  have parts :
      ∀ kind : Ty → Prop,
        (∀ part ∈ (Ty.function occurrence signature).parts, kind part) →
        (∀ type, kind type → kind type.optional) →
        ∀ type ∈ signature.parameterTypes, kind type := by
    intro kind each optional type listed
    have parameters := (forall_parts_function.mp each).1
    obtain ⟨parameter, member, rfl⟩ := List.mem_map.mp listed
    split
    · exact optional _ (parameters parameter member)
    · exact parameters parameter member
  refine ⟨fun calm => .node (by rintro _ ⟨⟩) (by rintro ⟨⟩) ?_,
    fun tame => .node (by rintro _ ⟨⟩) ?_, fun _ => weight_parameters_le signature⟩
  · exact parts _ (fun part inside => (calm.inside inside).closed)
      fun _ => Calm.optional
  · exact parts _ (fun part inside => Lowers.closed.tame (tame.inside inside))
      fun _ => Tame.optional

end Evaluating

end StructuralTyping
