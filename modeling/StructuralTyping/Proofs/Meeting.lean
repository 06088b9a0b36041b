import StructuralTyping.Checker.Normalize
import StructuralTyping.Proofs.IdentityMeaning

namespace StructuralTyping

/-!
# Joining and meeting lists of types

What the pure steps of normalization do to the values of a list of types: the
union of a list drops repetitions, and an intersection is expanded over its
unions and reduced by the rules for constants and primitives.
-/

section Joining

variable {fragment : Fragment} {reading : Reading} {arena : Arena}

/--
A type stands for a set of values: it belongs to the fragment, holds exactly
these values, and mentions no other names than the given ones.
-/
structure Renders
    (fragment : Fragment)
    (reading : Reading)
    (arena : Arena)
    (type : Ty)
    (values : Value → Prop)
    (names : Reference → Prop) :
    Prop where
  admits : fragment.admits type = true
  holds : ∀ value, Holds reading arena type value ↔ values value
  mentions : ∀ reference ∈ type.mentions, names reference

/-- A list without repetitions takes its types from the list. -/
theorem mem_of_mem_unique
    {types kept : List Ty}
    (member : type ∈ types.foldl arena.appendUnique kept) :
    type ∈ kept ∨ type ∈ types := by
  induction types generalizing kept with
  | nil =>
      exact .inl member
  | cons first rest inductionHypothesis =>
      rw [List.foldl_cons] at member
      rcases inductionHypothesis member with inKept | inRest
      · unfold Arena.appendUnique at inKept
        split at inKept
        · exact .inl inKept
        · rcases List.mem_append.mp inKept with inKept | isFirst
          · exact .inl inKept
          · exact .inr (by simp [List.mem_singleton.mp isFirst])
      · exact .inr (by simp [inRest])

/-- What was kept already stays. -/
theorem mem_unique_of_mem
    {types kept : List Ty}
    (member : type ∈ kept) :
    type ∈ types.foldl arena.appendUnique kept := by
  induction types generalizing kept with
  | nil =>
      exact member
  | cons first rest inductionHypothesis =>
      rw [List.foldl_cons]
      apply inductionHypothesis
      unfold Arena.appendUnique
      split
      · exact member
      · exact List.mem_append_left _ member

/-- A list without repetitions has an identical type for each of the list. -/
theorem exists_mem_unique
    {types kept : List Ty}
    (member : type ∈ types) :
    ∃ other ∈ types.foldl arena.appendUnique kept,
      other = type ∨ arena.identical other type = true := by
  induction types generalizing kept with
  | nil =>
      simp at member
  | cons first rest inductionHypothesis =>
      rw [List.foldl_cons]
      rcases List.mem_cons.mp member with rfl | inRest
      · unfold Arena.appendUnique
        split
        · next found =>
          obtain ⟨other, inKept, identical⟩ := List.any_eq_true.mp found
          exact ⟨other, mem_unique_of_mem inKept, .inr identical⟩
        · exact ⟨type, mem_unique_of_mem (by simp), .inl rfl⟩
      · exact inductionHypothesis inRest

/-- Dropping repetitions keeps a property of values that some type has. -/
theorem exists_unique_iff
    {types : List Ty}
    (covers : fragment.Covers arena)
    (admitted : ∀ type ∈ types, fragment.admits type = true)
    (value : Value) :
    (∃ type ∈ types.foldl arena.appendUnique [],
      Holds reading arena type value) ↔
      ∃ type ∈ types, Holds reading arena type value := by
  constructor
  · rintro ⟨type, member, holds⟩
    exact ⟨type, (mem_of_mem_unique member).resolve_left (by simp), holds⟩
  · rintro ⟨type, member, holds⟩
    obtain ⟨other, inUnique, rfl | identical⟩ := exists_mem_unique member
    · exact ⟨other, inUnique, holds⟩
    · have inTypes :=
        (mem_of_mem_unique inUnique).resolve_left (by simp)
      exact ⟨other, inUnique,
        (holds_of_identical covers (admitted other inTypes)
          (admitted type member) identical value).mpr holds⟩

/-- Dropping repetitions keeps a property of values that all types have. -/
theorem forall_unique_iff
    {types : List Ty}
    (covers : fragment.Covers arena)
    (admitted : ∀ type ∈ types, fragment.admits type = true)
    (value : Value) :
    (∀ type ∈ types.foldl arena.appendUnique [],
      Holds reading arena type value) ↔
      ∀ type ∈ types, Holds reading arena type value := by
  constructor
  · intro holds type member
    obtain ⟨other, inUnique, rfl | identical⟩ := exists_mem_unique member
    · exact holds other inUnique
    · have inTypes :=
        (mem_of_mem_unique inUnique).resolve_left (by simp)
      exact (holds_of_identical covers (admitted other inTypes)
        (admitted type member) identical value).mp (holds other inUnique)
  · intro holds type member
    exact holds type ((mem_of_mem_unique member).resolve_left (by simp))

/-- A type that is a given primitive. -/
theorem eq_of_isPrimitive
    {type : Ty}
    (isPrimitive : type.isPrimitive kind = true) :
    type = .primitive kind := by
  cases type <;> simp_all [Ty.isPrimitive]

/-- The union of a list holds what some type of the list holds. -/
theorem renders_joinMembers
    {types : List Ty}
    (covers : fragment.Covers arena)
    (admitted : ∀ type ∈ types, fragment.admits type = true) :
    Renders fragment reading arena (arena.joinMembers types)
      (fun value => ∃ type ∈ types, Holds reading arena type value)
      (fun reference => ∃ type ∈ types, reference ∈ type.mentions) := by
  have whole :
      ∀ {kind : Primitive},
        (∀ value, kind.holds value = true) →
        (types.filter fun type => !type.isNever).any
          (Ty.isPrimitive · kind) = true →
        Renders fragment reading arena (.primitive kind)
          (fun value => ∃ type ∈ types, Holds reading arena type value)
          (fun reference => ∃ type ∈ types, reference ∈ type.mentions) := by
    intro kind total found
    obtain ⟨type, member, isPrimitive⟩ := List.any_eq_true.mp found
    cases eq_of_isPrimitive isPrimitive
    have inTypes := (List.mem_filter.mp member).1
    refine ⟨admitted _ inTypes, fun value => ?_, ?_⟩
    · exact iff_of_true (.primitive (total value))
        ⟨_, inTypes, .primitive (total value)⟩
    · simp [Ty.mentions]
  unfold Arena.joinMembers
  dsimp only
  split
  · next found =>
    exact whole (fun value => by cases value <;> rfl) found
  split
  · next found =>
    exact whole (fun value => by cases value <;> rfl) found
  have inhabited :
      ∀ value,
        (∃ type ∈ (types.filter fun type => !type.isNever).foldl
          arena.appendUnique [], Holds reading arena type value) ↔
          ∃ type ∈ types, Holds reading arena type value := by
    intro value
    rw [exists_unique_iff covers
      (fun type member => admitted type (List.mem_filter.mp member).1) value]
    constructor
    · rintro ⟨type, member, holds⟩
      exact ⟨type, (List.mem_filter.mp member).1, holds⟩
    · rintro ⟨type, member, holds⟩
      refine ⟨type, List.mem_filter.mpr ⟨member, ?_⟩, holds⟩
      cases never : type.isNever
      · rfl
      · exact absurd holds (not_holds_of_isNever never)
  have fromTypes :
      ∀ type ∈ (types.filter fun type => !type.isNever).foldl
        arena.appendUnique [], type ∈ types := by
    intro type member
    have inFiltered := (mem_of_mem_unique member).resolve_left (by simp)
    exact (List.mem_filter.mp inFiltered).1
  split
  · next empty =>
    simp only [empty, List.not_mem_nil, false_and, exists_false] at inhabited
    refine ⟨by simp [Fragment.admits], fun value => ?_, by simp [Ty.mentions]⟩
    rw [← inhabited value]
    simp [Primitive.holds]
  · next type single =>
    simp only [single, List.mem_singleton, exists_eq_left] at inhabited
    have member := fromTypes type (by simp [single])
    exact ⟨admitted type member, inhabited,
      fun reference mentioned => ⟨type, member, mentioned⟩⟩
  · refine ⟨?_, fun value => ?_, ?_⟩
    · exact Fragment.admits_union.mpr fun type member =>
        admitted type (fromTypes type member)
    · rw [Ty.ofUnion, holds_union]
      exact inhabited value
    · intro reference mentioned
      obtain ⟨type, member, mentioned⟩ := Ty.mem_mentions_union.mp mentioned
      exact ⟨type, fromTypes type member, mentioned⟩

end Joining

section Atoms

variable {reading : Reading} {arena : Arena}

/-- A primitive kind that has some values, but not all of them. -/
def Primitive.Proper
    (kind : Primitive) :
    Prop :=
  kind ≠ .any ∧ kind ≠ .unknown ∧ kind ≠ .never

/-- A value belongs to two proper kinds only if it is `undefined`. -/
theorem Primitive.eq_of_holds
    {first second : Primitive}
    (firstProper : first.Proper)
    (secondProper : second.Proper)
    (firstHolds : first.holds value = true)
    (secondHolds : second.holds value = true) :
    first = second ∨
      first = .void ∧ second = .undefined ∨
      first = .undefined ∧ second = .void := by
  cases value with
  | constant value =>
      cases value <;> cases first <;> simp_all [Proper, holds] <;>
        cases second <;> simp_all
  | _ =>
      cases first <;> simp_all [Proper, holds] <;>
        cases second <;> simp_all

/-- `void` and `undefined` hold the same value. -/
theorem Primitive.holds_void
    (value : Value) :
    Primitive.void.holds value = Primitive.undefined.holds value := by
  cases value <;> rfl

/-- The primitive kept so far after meeting one more. -/
def meetPrimitive
    (kept : Option Primitive)
    (kind : Primitive) :
    Option (Option Primitive) :=
  match kept with
  | none => some (some kind)
  | some current =>
      if current = .void ∧ kind = .undefined then
        some (some kind)
      else if kind = current ∨ kind = .void ∧ current = .undefined then
        some (some current)
      else
        none

/-- Primitives are met one after the other. -/
theorem meetPrimitives_eq
    (kinds : List Primitive) :
    meetPrimitives kinds = kinds.foldlM meetPrimitive none :=
  rfl

/--
What it takes for an outcome of meeting some things to be right: there is none
only if nothing is held by all of them, nothing is kept only if everything is
held by all of them, and what is kept holds exactly what all of them hold.
-/
def MeetsTo
    (holds : α → Value → Prop)
    (all : Value → Prop) :
    Option (Option α) →
    Prop
  | none => ∀ value, ¬ all value
  | some none => ∀ value, all value
  | some (some kept) => ∀ value, holds kept value ↔ all value

/-- A right outcome is right for every description of the same values. -/
theorem MeetsTo.congr
    {holds : α → Value → Prop}
    {all others : Value → Prop}
    {outcome : Option (Option α)}
    (meets : MeetsTo holds all outcome)
    (same : ∀ value, all value ↔ others value) :
    MeetsTo holds others outcome := by
  match outcome, meets with
  | none, meets =>
      exact fun value holds => meets value ((same value).mpr holds)
  | some none, meets =>
      exact fun value => (same value).mp (meets value)
  | some (some kept), meets =>
      exact fun value => (meets value).trans (same value)

/-- Meeting one more primitive keeps the values of both, if there are any. -/
theorem meetPrimitive_spec
    {current kind : Primitive}
    (currentProper : current.Proper)
    (kindProper : kind.Proper) :
    meetPrimitive (some current) kind = none ∧
        (∀ value, ¬ (current.holds value = true ∧ kind.holds value = true)) ∨
      ∃ met : Primitive,
        meetPrimitive (some current) kind = some (some met) ∧ met.Proper ∧
          ∀ value,
            met.holds value = true ↔
              current.holds value = true ∧ kind.holds value = true := by
  unfold meetPrimitive
  dsimp only
  split
  · next voids =>
    refine .inr ⟨kind, rfl, kindProper, fun value => ?_⟩
    rw [voids.1, voids.2, Primitive.holds_void]
    simp
  split
  · next same =>
    refine .inr ⟨current, rfl, currentProper, fun value => ?_⟩
    rcases same with same | voids
    · rw [same]
      simp
    · rw [voids.1, voids.2, Primitive.holds_void]
      simp
  · next notVoid notSame =>
    refine .inl ⟨rfl, ?_⟩
    rintro value ⟨currentHolds, kindHolds⟩
    rcases Primitive.eq_of_holds currentProper kindProper currentHolds
      kindHolds with same | voids | voids
    · exact notSame (.inl same.symm)
    · exact notVoid voids
    · exact notSame (.inr ⟨voids.2, voids.1⟩)

/-- Meeting primitives with one that is kept keeps what all of them hold. -/
theorem foldlM_meetPrimitive_spec
    {current : Primitive}
    {kinds : List Primitive}
    (currentProper : current.Proper)
    (proper : ∀ kind ∈ kinds, kind.Proper) :
    MeetsTo (fun kind value => kind.holds value = true)
      (fun value =>
        current.holds value = true ∧
          ∀ kind ∈ kinds, kind.holds value = true)
      (kinds.foldlM meetPrimitive (some current)) := by
  induction kinds generalizing current with
  | nil =>
      intro value
      simp
  | cons kind rest inductionHypothesis =>
      rw [List.foldlM_cons]
      rcases meetPrimitive_spec currentProper (proper kind (by simp)) with
        ⟨failed, disjoint⟩ | ⟨met, succeeded, metProper, same⟩
      · rw [failed]
        intro value holds
        exact disjoint value ⟨holds.1, holds.2 kind (by simp)⟩
      · rw [succeeded]
        refine (inductionHypothesis metProper
          fun other member => proper other (by simp [member])).congr ?_
        intro value
        rw [same value]
        simp [and_assoc]

/-- The primitive that proper primitives come to holds what all of them hold. -/
theorem meetPrimitives_spec
    {kinds : List Primitive}
    (proper : ∀ kind ∈ kinds, kind.Proper) :
    MeetsTo (fun kind value => kind.holds value = true)
      (fun value => ∀ kind ∈ kinds, kind.holds value = true)
      (meetPrimitives kinds) := by
  rw [meetPrimitives_eq]
  cases kinds with
  | nil =>
      intro value
      simp
  | cons kind rest =>
      rw [List.foldlM_cons]
      refine (foldlM_meetPrimitive_spec (proper kind (by simp))
        fun other member => proper other (List.mem_cons_of_mem _ member)).congr
        ?_
      intro value
      simp

/-- The primitive that primitives come to is one of them. -/
theorem mem_of_foldlM_meetPrimitive
    {current met : Primitive}
    {kinds : List Primitive}
    (meets : kinds.foldlM meetPrimitive (some current) = some (some met)) :
    met = current ∨ met ∈ kinds := by
  induction kinds generalizing current with
  | nil =>
      cases meets
      exact .inl rfl
  | cons kind rest inductionHypothesis =>
      rw [List.foldlM_cons] at meets
      unfold meetPrimitive at meets
      dsimp only at meets
      split at meets
      · rcases inductionHypothesis meets with rfl | inRest
        · exact .inr (by simp)
        · exact .inr (by simp [inRest])
      split at meets
      · rcases inductionHypothesis meets with rfl | inRest
        · exact .inl rfl
        · exact .inr (by simp [inRest])
      · cases meets

@[inherit_doc mem_of_foldlM_meetPrimitive]
theorem mem_of_meetPrimitives
    {met : Primitive}
    {kinds : List Primitive}
    (meets : meetPrimitives kinds = some (some met)) :
    met ∈ kinds := by
  rw [meetPrimitives_eq] at meets
  cases kinds with
  | nil =>
      cases meets
  | cons kind rest =>
      rw [List.foldlM_cons] at meets
      rcases mem_of_foldlM_meetPrimitive meets with rfl | inRest
      · simp
      · simp [inRest]

/-- A literal that follows an equal one holds the same constants. -/
theorem holds_literal_congr
    (equal : first.equal second = true)
    (value : Value) :
    Holds reading arena (.literal firstOccurrence first) value ↔
      Holds reading arena (.literal secondOccurrence second) value := by
  rw [holds_literal, holds_literal]
  constructor
  · rintro ⟨actual, rfl, same⟩
    rw [Literal.equal_comm] at equal
    exact ⟨actual, rfl, Literal.equal_trans equal same⟩
  · rintro ⟨actual, rfl, same⟩
    exact ⟨actual, rfl, Literal.equal_trans equal same⟩

/-- Whether a type is a literal. -/
def Ty.isLiteral :
    Ty →
    Bool
  | .literal _ _ => true
  | _ => false

/-- Meeting literals with one that is kept keeps what all of them hold. -/
theorem meetLiterals_some_spec
    {current : Ty}
    {types : List Ty}
    (isLiteral : current.isLiteral = true)
    (literals : ∀ type ∈ types, type.isLiteral = true) :
    MeetsTo (Holds reading arena)
        (fun value =>
          Holds reading arena current value ∧
            ∀ type ∈ types, Holds reading arena type value)
        (meetLiterals (some current) types) ∧
      ∀ met,
        meetLiterals (some current) types = some (some met) →
        met = current ∨ met ∈ types := by
  induction types generalizing current with
  | nil =>
      refine ⟨fun value => by simp, fun met same => ?_⟩
      cases same
      exact .inl rfl
  | cons type rest inductionHypothesis =>
      have typeIsLiteral := literals type (by simp)
      have restLiterals :
          ∀ other ∈ rest, other.isLiteral = true :=
        fun other member => literals other (by simp [member])
      cases current <;> simp [Ty.isLiteral] at isLiteral
      cases type <;> simp [Ty.isLiteral] at typeIsLiteral
      next firstOccurrence first secondOccurrence second =>
      rw [meetLiterals]
      split
      · next equal =>
        obtain ⟨meets, origin⟩ :=
          @inductionHypothesis (.literal secondOccurrence second) rfl
            restLiterals
        constructor
        · refine meets.congr fun value => ?_
          have same :
              Holds reading arena (.literal firstOccurrence first) value ↔
                Holds reading arena (.literal secondOccurrence second) value :=
            holds_literal_congr equal value
          simp [same]
        · intro met same
          rcases origin met same with rfl | inRest
          · exact .inr (by simp)
          · exact .inr (by simp [inRest])
      · next unequal =>
        constructor
        · rintro value ⟨holdsFirst, holdsAll⟩
          have holdsSecond := holdsAll _ (List.mem_cons_self)
          obtain ⟨actual, rfl, same⟩ := holds_literal.mp holdsFirst
          obtain ⟨_, ⟨⟩, other⟩ := holds_literal.mp holdsSecond
          rw [Literal.equal_comm] at other
          exact unequal (Literal.equal_trans same other)
        · intro met same
          cases same

/-- The literal that literals come to is one of them and holds their values. -/
theorem meetLiterals_spec
    {types : List Ty}
    (literals : ∀ type ∈ types, type.isLiteral = true) :
    MeetsTo (Holds reading arena)
        (fun value => ∀ type ∈ types, Holds reading arena type value)
        (meetLiterals none types) ∧
      ∀ met, meetLiterals none types = some (some met) → met ∈ types := by
  cases types with
  | nil =>
      refine ⟨fun value => by simp, fun met same => ?_⟩
      cases same
  | cons type rest =>
      rw [meetLiterals]
      obtain ⟨meets, origin⟩ :=
        meetLiterals_some_spec (literals type (by simp))
          fun other member => literals other (List.mem_cons_of_mem _ member)
      constructor
      · exact meets.congr fun value => by simp
      · intro met same
        rcases origin met same with rfl | inRest
        · simp
        · simp [inRest]

/-- Literals and primitives are the atoms. -/
theorem Ty.isAtom_iff
    {type : Ty} :
    type.isAtom = true ↔
      type.isLiteral = true ∨ ∃ kind, type = .primitive kind := by
  cases type <;> simp [isAtom, isLiteral]

/-- Putting one atom in the place of all atoms of a list that has some. -/
theorem forall_replaceAtoms
    {members : List Ty}
    (some : ∃ member ∈ members, member.isAtom = true)
    (predicate : Ty → Prop) :
    (∀ member ∈ replaceAtoms atom members, predicate member) ↔
      predicate atom ∧
        ∀ member ∈ members, member.isAtom = false → predicate member := by
  induction members with
  | nil =>
      simp at some
  | cons member rest inductionHypothesis =>
      rw [replaceAtoms]
      split
      · next isAtom =>
        simp only [List.forall_mem_cons, List.mem_filter, Bool.not_eq_true',
          isAtom, and_imp, Bool.true_eq_false, false_implies, true_and]
      · next notAtom =>
        have inRest : ∃ member ∈ rest, member.isAtom = true := by
          obtain ⟨other, member, isAtom⟩ := some
          rcases List.mem_cons.mp member with rfl | member
          · exact absurd isAtom notAtom
          · exact ⟨other, member, isAtom⟩
        simp only [List.forall_mem_cons, inductionHypothesis inRest,
          Bool.eq_false_iff.mpr notAtom, forall_const]
        exact and_left_comm

/-- The literal members are the members that are literals. -/
theorem mem_literalMembers
    {members : List Ty} :
    type ∈ literalMembers members ↔
      type ∈ members ∧ type.isLiteral = true := by
  unfold literalMembers
  rw [List.mem_filter]
  cases type <;> simp [Ty.isLiteral]

/-- The primitive members are the kinds of the primitives. -/
theorem mem_primitiveMembers
    {members : List Ty} :
    kind ∈ primitiveMembers members ↔ .primitive kind ∈ members := by
  unfold primitiveMembers
  rw [List.mem_filterMap]
  constructor
  · rintro ⟨type, member, same⟩
    cases type <;> simp at same
    exact same ▸ member
  · intro member
    exact ⟨_, member, rfl⟩

/-- A literal of a kind holds values of that kind only. -/
theorem holds_of_hasBase
    {literal : Ty}
    (hasBase : literal.hasBase kind = true)
    (holds : Holds reading arena literal value) :
    kind.holds value = true := by
  cases literal <;> simp [Ty.hasBase] at hasBase
  obtain ⟨actual, rfl, equal⟩ := holds_literal.mp holds
  have base := Literal.base_eq_of_equal equal
  subst hasBase
  rw [base]
  exact Literal.base_holds actual

/-- A literal and a proper kind with a common value belong together. -/
theorem hasBase_of_holds
    {literal : Ty}
    (isLiteral : literal.isLiteral = true)
    (proper : kind.Proper)
    (holdsLiteral : Holds reading arena literal value)
    (holdsKind : kind.holds value = true) :
    literal.hasBase kind = true := by
  cases literal <;> simp [Ty.isLiteral] at isLiteral
  obtain ⟨actual, rfl, equal⟩ := holds_literal.mp holdsLiteral
  rw [Ty.hasBase, Literal.base_eq_of_equal equal]
  cases actual <;> cases kind <;>
    simp_all [Literal.base, Primitive.holds, Primitive.Proper]

/-- Objects, sequences and functions hold neither `null` nor `undefined`. -/
theorem not_nullish_of_isObjectLike
    {type : Ty}
    (isObjectLike : type.isObjectLike = true)
    (holds : Holds reading arena type value) :
    value.isNullish = false := by
  cases type <;> simp [Ty.isObjectLike] at isObjectLike
  · obtain ⟨isObject, _⟩ := holds_object.mp holds
    unfold Reading.isObject at isObject
    cases value <;> simp_all [Value.isPlainObject, Value.isNullish]
  · obtain ⟨_, rfl, _⟩ := holds_array.mp holds
    rfl
  · obtain ⟨_, rfl, _⟩ := holds_tuple.mp holds
    rfl
  · obtain ⟨_, rfl⟩ := holds_function.mp holds
    rfl

/-- The kinds that a nullish value belongs to. -/
theorem isNullish_of_holds
    {kind : Primitive}
    (nullish :
      (some kind == some Primitive.null || some kind == some .undefined ||
        some kind == some .void) = true)
    (holds : kind.holds value = true) :
    value.isNullish = true := by
  cases kind <;> simp at nullish
  all_goals cases value <;> simp_all [Primitive.holds, Value.isNullish]

/-- A literal of the same kind as all primitives stands for all atoms. -/
theorem forall_replaceAtoms_literal
    {members : List Ty}
    {literal : Ty}
    (inMembers : literal ∈ members)
    (isLiteral : literal.isLiteral = true)
    (holdsLiterals :
      Holds reading arena literal value ↔
        ∀ type ∈ literalMembers members, Holds reading arena type value)
    (holdsKinds :
      Holds reading arena literal value →
      ∀ kind ∈ primitiveMembers members, kind.holds value = true) :
    (∀ type ∈ replaceAtoms literal members,
      Holds reading arena type value) ↔
      ∀ type ∈ members, Holds reading arena type value := by
  have isAtom : literal.isAtom = true := Ty.isAtom_iff.mpr (.inl isLiteral)
  rw [forall_replaceAtoms ⟨literal, inMembers, isAtom⟩]
  constructor
  · rintro ⟨holds, others⟩ type member
    cases atom : type.isAtom with
    | false =>
        exact others type member atom
    | true =>
        rcases Ty.isAtom_iff.mp atom with isLiteral | ⟨kind, rfl⟩
        · exact holdsLiterals.mp holds type
            (mem_literalMembers.mpr ⟨member, isLiteral⟩)
        · exact .primitive
            (holdsKinds holds kind (mem_primitiveMembers.mpr member))
  · intro holds
    exact ⟨holds literal inMembers, fun type member _ => holds type member⟩

/-- A primitive below all primitives stands for all atoms of a list. -/
theorem forall_replaceAtoms_primitive
    {members : List Ty}
    (noLiteral : literalMembers members = [])
    (someKind : primitiveMembers members ≠ [])
    (holdsKinds :
      kind.holds value = true ↔
        ∀ other ∈ primitiveMembers members, other.holds value = true) :
    (∀ type ∈ replaceAtoms (.primitive kind) members,
      Holds reading arena type value) ↔
      ∀ type ∈ members, Holds reading arena type value := by
  obtain ⟨first, inKinds⟩ := List.exists_mem_of_ne_nil _ someKind
  rw [forall_replaceAtoms
    ⟨.primitive first, mem_primitiveMembers.mp inKinds, rfl⟩,
    holds_primitive, holdsKinds]
  constructor
  · rintro ⟨holds, others⟩ type member
    cases atom : type.isAtom with
    | false =>
        exact others type member atom
    | true =>
        rcases Ty.isAtom_iff.mp atom with isLiteral | ⟨other, rfl⟩
        · have listed := mem_literalMembers.mpr ⟨member, isLiteral⟩
          simp [noLiteral] at listed
        · exact .primitive (holds other (mem_primitiveMembers.mpr member))
  · intro holds
    refine ⟨fun other member => ?_, fun type member _ => holds type member⟩
    exact holds_primitive.mp (holds _ (mem_primitiveMembers.mp member))

/--
What it takes for a reduced list to be right: there is none only if nothing is
held by all members, and otherwise it holds what all members hold.
-/
def ReducesTo
    (reading : Reading)
    (arena : Arena)
    (members : List Ty) :
    Option (List Ty) →
    Prop
  | none => ∀ value, ¬ ∀ type ∈ members, Holds reading arena type value
  | some reduced =>
      ∀ value,
        (∀ type ∈ reduced, Holds reading arena type value) ↔
          ∀ type ∈ members, Holds reading arena type value

/-- The rules for atoms keep what all members hold. -/
theorem reduceAtoms_spec
    {members : List Ty}
    (proper : ∀ kind, .primitive kind ∈ members → kind.Proper) :
    ReducesTo reading arena members (reduceAtoms members) := by
  have kindsProper : ∀ kind ∈ primitiveMembers members, kind.Proper :=
    fun kind member => proper kind (mem_primitiveMembers.mp member)
  have literalSpec :=
    @meetLiterals_spec reading arena (literalMembers members)
      fun type member => (mem_literalMembers.mp member).2
  have kindSpec := meetPrimitives_spec kindsProper
  -- What a value of all members is a value of.
  have literalsOf :
      ∀ value,
        (∀ type ∈ members, Holds reading arena type value) →
        ∀ type ∈ literalMembers members, Holds reading arena type value :=
    fun value holds type member => holds type (mem_literalMembers.mp member).1
  have kindsOf :
      ∀ value,
        (∀ type ∈ members, Holds reading arena type value) →
        ∀ kind ∈ primitiveMembers members, kind.holds value = true :=
    fun value holds kind member =>
      holds_primitive.mp (holds _ (mem_primitiveMembers.mp member))
  cases literalMeets : meetLiterals none (literalMembers members) with
  | none =>
      simp only [literalMeets] at literalSpec
      simp only [reduceAtoms, literalMeets, Option.bind_eq_bind,
        Option.bind_none]
      exact fun value holds => literalSpec.1 value (literalsOf value holds)
  | some literal =>
  cases kindMeets : meetPrimitives (primitiveMembers members) with
  | none =>
      simp only [kindMeets] at kindSpec
      simp only [reduceAtoms, literalMeets, kindMeets, Option.bind_eq_bind,
        Option.bind_none, Option.bind_some]
      exact fun value holds => kindSpec value (kindsOf value holds)
  | some kind =>
  simp only [literalMeets] at literalSpec
  simp only [kindMeets] at kindSpec
  simp only [reduceAtoms, literalMeets, kindMeets, Option.bind_eq_bind,
    Option.bind_some]
  have kindProper : ∀ {met}, kind = some met → met.Proper := by
    rintro met rfl
    exact kindsProper met (mem_of_meetPrimitives kindMeets)
  have literalMember :
      ∀ {met}, literal = some met → met ∈ members ∧ met.isLiteral = true := by
    rintro met rfl
    exact mem_literalMembers.mp (literalSpec.2 met rfl)
  have nullishEmpty :
      ∀ {met}, kind = some met →
        ((some met == some Primitive.null || some met == some .undefined ||
          some met == some .void) && members.any Ty.isObjectLike) = true →
        ∀ value, ¬ ∀ type ∈ members, Holds reading arena type value := by
    rintro met rfl clash value holds
    rw [Bool.and_eq_true] at clash
    obtain ⟨type, member, isObjectLike⟩ := List.any_eq_true.mp clash.2
    have isNullish :=
      isNullish_of_holds clash.1 ((kindSpec value).mpr (kindsOf value holds))
    rw [not_nullish_of_isObjectLike isObjectLike (holds type member)]
      at isNullish
    cases isNullish
  cases literal with
  | none =>
      cases kind with
      | none =>
          intro value
          simp
      | some kind =>
          dsimp only
          rw [Bool.false_or]
          split
          · next clash =>
            exact nullishEmpty rfl clash
          split
          · exact fun value => Iff.rfl
          · next several =>
            have noLiteral : literalMembers members = [] := by
              refine List.eq_nil_iff_forall_not_mem.mpr fun type member => ?_
              have isLiteral := (mem_literalMembers.mp member).2
              have holds := literalSpec.1 .null type member
              cases type <;> simp [Ty.isLiteral] at isLiteral
              obtain ⟨_, same, _⟩ := holds_literal.mp holds
              cases same
            intro value
            refine forall_replaceAtoms_primitive noLiteral ?_ (kindSpec value)
            rintro empty
            simp [empty] at several
  | some literal =>
      obtain ⟨inMembers, isLiteral⟩ := literalMember rfl
      cases kind with
      | none =>
          rw [if_neg (by simp)]
          intro value
          exact forall_replaceAtoms_literal inMembers isLiteral
            (literalSpec.1 value) fun _ => kindSpec value
      | some kind =>
          dsimp only
          split
          · next clash =>
            rcases (Bool.or_eq_true _ _).mp clash with mismatched | clash
            · intro value holds
              have hasBase :=
                hasBase_of_holds isLiteral (kindProper rfl)
                  (holds literal inMembers)
                  ((kindSpec value).mpr (kindsOf value holds))
              simp [hasBase] at mismatched
            · exact nullishEmpty rfl clash
          · next fits =>
            have hasBase : literal.hasBase kind = true := by
              simp only [Bool.or_eq_true, not_or] at fits
              simpa using fits.1
            intro value
            exact forall_replaceAtoms_literal inMembers isLiteral
              (literalSpec.1 value) fun holds =>
                (kindSpec value).mp (holds_of_hasBase hasBase holds)

/-- Replacing the atoms of a list adds no other type than the new one. -/
theorem mem_of_mem_replaceAtoms
    {members : List Ty}
    (member : type ∈ replaceAtoms atom members) :
    type = atom ∨ type ∈ members := by
  induction members with
  | nil =>
      simp [replaceAtoms] at member
  | cons first rest inductionHypothesis =>
      rw [replaceAtoms] at member
      split at member
      · rcases List.mem_cons.mp member with same | inRest
        · exact .inl same
        · exact .inr (.tail _ (List.mem_filter.mp inRest).1)
      · rcases List.mem_cons.mp member with same | inRest
        · exact .inr (by simp [same])
        · rcases inductionHypothesis inRest with same | inRest
          · exact .inl same
          · exact .inr (.tail _ inRest)

/-- The types of a reduced list are members of the list. -/
theorem mem_of_mem_reduceAtoms
    {members reduced : List Ty}
    (succeeded : reduceAtoms members = some reduced)
    (member : type ∈ reduced) :
    type ∈ members := by
  cases literalMeets : meetLiterals none (literalMembers members) with
  | none =>
      simp [reduceAtoms, literalMeets] at succeeded
  | some literal =>
  cases kindMeets : meetPrimitives (primitiveMembers members) with
  | none =>
      simp [reduceAtoms, literalMeets, kindMeets] at succeeded
  | some kind =>
  simp only [reduceAtoms, literalMeets, kindMeets, Option.bind_eq_bind,
    Option.bind_some] at succeeded
  cases literal with
  | some literal =>
      have origin :=
        (@meetLiterals_spec ⟨true, true⟩ {} (literalMembers members)
          fun type member => (mem_literalMembers.mp member).2).2
            literal literalMeets
      have same : reduced = replaceAtoms literal members := by
        cases kind <;> simp_all
      rcases mem_of_mem_replaceAtoms (same ▸ member) with rfl | inMembers
      · exact (mem_literalMembers.mp origin).1
      · exact inMembers
  | none =>
      cases kind with
      | none =>
          dsimp only at succeeded
          split at succeeded
          · cases succeeded
          · cases succeeded
            exact member
      | some kind =>
          dsimp only at succeeded
          split at succeeded
          · cases succeeded
          split at succeeded
          · cases succeeded
            exact member
          · cases succeeded
            rcases mem_of_mem_replaceAtoms member with rfl | inMembers
            · exact mem_primitiveMembers.mp (mem_of_meetPrimitives kindMeets)
            · exact inMembers

end Atoms

section Choices

variable {reading : Reading} {arena : Arena}

/-- A value belongs to all types exactly when it belongs to all of some choice. -/
theorem exists_choice_iff
    {types : List Ty}
    {value : Value} :
    (∃ choice ∈ choices types,
      ∀ type ∈ choice, Holds reading arena type value) ↔
      ∀ type ∈ types, Holds reading arena type value := by
  induction types with
  | nil =>
      simp [choices]
  | cons type rest inductionHypothesis =>
      simp only [choices, List.mem_flatMap, List.mem_map,
        List.forall_mem_cons]
      rw [← inductionHypothesis, holds_members]
      constructor
      · rintro ⟨_, ⟨member, inMembers, choice, inChoices, rfl⟩, holds⟩
        obtain ⟨first, others⟩ := List.forall_mem_cons.mp holds
        exact ⟨⟨member, inMembers, first⟩, choice, inChoices, others⟩
      · rintro ⟨⟨member, inMembers, first⟩, choice, inChoices, others⟩
        exact ⟨_, ⟨member, inMembers, choice, inChoices, rfl⟩,
          List.forall_mem_cons.mpr ⟨first, others⟩⟩

/-- A choice takes its types from the members of the types. -/
theorem mem_of_mem_choice
    {types : List Ty}
    (inChoices : choice ∈ choices types)
    (inChoice : member ∈ choice) :
    ∃ type ∈ types, member ∈ type.members := by
  induction types generalizing choice with
  | nil =>
      simp [choices] at inChoices
      simp [inChoices] at inChoice
  | cons type rest inductionHypothesis =>
      simp only [choices, List.mem_flatMap, List.mem_map] at inChoices
      obtain ⟨first, inMembers, others, inOthers, rfl⟩ := inChoices
      rcases List.mem_cons.mp inChoice with rfl | later
      · exact ⟨type, by simp, inMembers⟩
      · obtain ⟨other, inRest, found⟩ := inductionHypothesis inOthers later
        exact ⟨other, by simp [inRest], found⟩

/-- An intersection is expanded into all choices, and only if it has a union. -/
theorem expanded_cases
    {members : List Ty}
    (expands : distribute? members = some combinations) :
    members.any Ty.isUnion = true ∧ combinations = choices members := by
  unfold distribute? at expands
  split at expands <;> simp_all

/-- Flattening an intersection keeps what all its members hold. -/
theorem forall_flattenIntersection
    {types : List Ty}
    {value : Value} :
    (∀ type ∈ flattenIntersection types, Holds reading arena type value) ↔
      ∀ type ∈ types, Holds reading arena type value := by
  unfold flattenIntersection
  simp only [List.mem_flatMap]
  constructor
  · intro holds type inTypes
    cases type with
    | intersection occurrence members =>
        exact .intersection fun member inMembers =>
          holds member ⟨_, inTypes, inMembers⟩
    | _ =>
        exact holds _ ⟨_, inTypes, List.mem_singleton_self _⟩
  · rintro holds member ⟨type, inTypes, found⟩
    have whole := holds type inTypes
    cases type with
    | intersection occurrence members =>
        exact holds_intersection.mp whole member found
    | _ =>
        exact List.mem_singleton.mp found ▸ whole

end Choices

end StructuralTyping
