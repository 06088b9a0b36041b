import StructuralTyping.Proofs.CompatibleTypes

namespace StructuralTyping

/-!
# Enumerations meet in what they have in common

An enumeration is a constant, a primitive type or a union of such. A single form
is found in it if it is taken as one of its members. The intersection of two
enumerations is distributed over their members, and what is left of it takes
what both of them take.
-/

open Stateful

/-- Whether a constant or primitive of an enumeration accepts a type. -/
def Ty.isOneOf
    (type enumeration : Ty) :
    Bool :=
  enumeration.members.any type.isTakenAs

/-- A union of constants and primitives, none of which accepts `undefined`. -/
structure Ty.Enumerates
    (type : Ty) :
    Prop where
  atoms : ∀ member ∈ type.members, member.isAtom = true
  required : Ty.undefined.isOneOf type = false

/-- No member of an enumeration accepts `undefined`. -/
theorem Ty.Enumerates.member_required
    {type : Ty}
    (enumerates : type.Enumerates)
    (inType : member ∈ type.members) :
    Ty.undefined.isTakenAs member = false := by
  simpa using List.any_eq_false.mp enumerates.required member inType

/-- An enumeration is no intersection. -/
theorem Ty.Enumerates.notIntersection
    {type : Ty}
    (enumerates : type.Enumerates) :
    RelationStep.isIntersection type = false := by
  cases type with
  | intersection =>
      cases enumerates.atoms _ (List.mem_singleton_self _)
  | _ => rfl

/-- Forms that are identical are one, or their nodes are equal. -/
theorem Reaches.identical_cases
    {checker : Checker}
    (reaches : Reaches checker first firstForm)
    (otherReaches : Reaches checker second secondForm)
    (same : checker.arena.identicalWithin depth [] first second = true) :
    first = second ∨
      ∃ nearer, depth = nearer + 1 ∧
        equalNodes (checker.arena.identicalWithin nearer []) first second =
          true := by
  have unnamed {type form : Ty} (reaches : Reaches checker type form) :
      type.isNamed = false := by
    cases reaches <;> rfl
  exact Arena.identicalWithin_unnamed (unnamed reaches) (unnamed otherReaches)
    same

namespace Checker

variable {checker : Checker}

/-- A constant or primitive type that is a form. -/
structure Atomic
    (checker : Checker)
    (type : Ty) :
    Prop where
  again : Reaches checker type type
  atom : type.isAtom = true

/-- A constant or primitive that is a form may stand in a union. -/
theorem Atomic.isMember
    {type : Ty}
    (atomic : checker.Atomic type) :
    type.IsMember :=
  ⟨isUnion_of_isAtom atomic.atom, atomic.again.isPrimitive.1,
    atomic.again.isPrimitive.2⟩

/-- Identical constants and primitives take the same types. -/
theorem Atomic.isTakenAs_congr
    {first second : Ty}
    (atomic : checker.Atomic first)
    (otherAtomic : checker.Atomic second)
    (same :
      first = second ∨
        checker.arena.identicalWithin depth [] first second = true)
    (type : Ty) :
    type.isTakenAs first = type.isTakenAs second := by
  rcases same with rfl | same
  · rfl
  rcases atomic.again.identical_cases otherAtomic.again same with
    rfl | ⟨_, -, same⟩
  · rfl
  have atom := atomic.atom
  cases first with
  | primitive kind =>
      cases second with
      | primitive other =>
          rw [show kind = other by simpa [equalNodes] using same]
      | _ => cases same
  | literal occurrence value =>
      cases second with
      | literal otherOccurrence other =>
          have equal : value.equal other = true := same
          cases type with
          | literal typeOccurrence actual =>
              refine Bool.eq_iff_iff.mpr
                ⟨fun taken => Literal.equal_trans taken equal,
                  fun taken => Literal.equal_trans taken ?_⟩
              exact Literal.equal_comm _ _ ▸ equal
          | _ => rfl
      | _ => cases same
  | _ => cases atom

/-- What takes a single form has values. -/
theorem Single.not_isNever
    (single : checker.Single form)
    (atom : target.isAtom = true)
    (taken : form.isTakenAs target = true) :
    target.isNever = false := by
  have inhabited := single.takes_inhabited taken
  cases target <;> first | exact inhabited | cases atom

/-- What a single form is found among accepts it. -/
theorem Single.isOneOf_of_finds
    (single : checker.Single form)
    (strict : checker.options.strictNullChecks = true)
    (atoms : ∀ member ∈ enumeration.members, member.isAtom = true)
    (finds : form.Finds checker.Admits enumeration) :
    form.isOneOf enumeration = true := by
  obtain ⟨member, inside, -, admits⟩ := finds
  exact List.any_eq_true.mpr
    ⟨member, inside, single.isTakenAs strict (atoms member inside) admits⟩

/-- A single form finds the member of an enumeration that accepts it. -/
theorem Single.finds_of_isOneOf
    (single : checker.Single form)
    (atoms : ∀ member ∈ enumeration.members, member.isAtom = true)
    (taken : form.isOneOf enumeration = true) :
    form.Finds checker.Accepts enumeration := by
  obtain ⟨member, inside, taken⟩ := List.any_eq_true.mp taken
  exact ⟨member, inside, single.takes_inhabited taken,
    single.accepts_atom (atoms member inside) taken⟩

/-- An enumeration is a meet of two others if it takes what both of them take. -/
theorem IsMeet.enumerations
    {first second met : Ty}
    (strict : checker.options.strictNullChecks = true)
    (again : Reaches checker met met)
    (enumerates : first.Enumerates)
    (otherEnumerates : second.Enumerates)
    (atoms : ∀ member ∈ met.members, member.isAtom = true)
    (taken :
      ∀ {form}, checker.Single form →
        (form.isOneOf met = true ↔
          form.isOneOf first = true ∧ form.isOneOf second = true)) :
    checker.IsMeet first second met := by
  have missing {enumeration : Ty}
      (enumerates : enumeration.Enumerates)
      (finds : Ty.undefined.Finds checker.Admits enumeration) :
      Ty.undefined.Finds checker.Accepts met := by
    have found :=
      single_undefined.isOneOf_of_finds strict enumerates.atoms finds
    rw [enumerates.required] at found
    cases found
  exact
    { again
      left := fun single finds =>
        single.finds_of_isOneOf enumerates.atoms
          ((taken single).mp (single.isOneOf_of_finds strict atoms finds)).1
      right := fun single finds =>
        single.finds_of_isOneOf otherEnumerates.atoms
          ((taken single).mp (single.isOneOf_of_finds strict atoms finds)).2
      both := fun single finds otherFinds =>
        single.finds_of_isOneOf atoms ((taken single).mpr
          ⟨single.isOneOf_of_finds strict enumerates.atoms finds,
            single.isOneOf_of_finds strict otherEnumerates.atoms otherFinds⟩)
      leftMissing := missing enumerates
      rightMissing := missing otherEnumerates }

/-- What two constants or primitives come to takes what both of them take. -/
structure AtomicMeet
    (checker : Checker)
    (first second met : Ty) :
    Prop where
  atomic : checker.Atomic met
  taken :
    ∀ {form}, checker.Single form →
      (form.isTakenAs met = true ↔
        form.isTakenAs first = true ∧ form.isTakenAs second = true)

/-- The type without values is a form. -/
theorem atomic_never :
    checker.Atomic .never :=
  ⟨.primitive (by simp) (by simp), rfl⟩

/-- Constants and primitives of which none takes both have no values in common. -/
theorem AtomicMeet.disjoint
    {first second : Ty}
    (apart :
      ∀ {form}, checker.Single form →
        form.isTakenAs first = true →
        ¬ form.isTakenAs second = true) :
    checker.AtomicMeet first second .never where
  atomic := atomic_never
  taken := fun single =>
    ⟨fun taken => absurd (single.takes_inhabited taken) Bool.noConfusion,
      fun ⟨taken, otherTaken⟩ => absurd otherTaken (apart single taken)⟩

/-- What two constants or primitives come to does not depend on their order. -/
theorem AtomicMeet.symm
    {first second met : Ty}
    (meet : checker.AtomicMeet first second met) :
    checker.AtomicMeet second first met :=
  ⟨meet.atomic, fun single => (meet.taken single).trans and_comm⟩

section Atoms

variable
  {first second : Ty}
  (atomic : checker.Atomic first)
  (otherAtomic : checker.Atomic second)
  (required : Ty.undefined.isTakenAs first = false)
  (otherRequired : Ty.undefined.isTakenAs second = false)

/-- A primitive that does not accept `undefined` is neither it nor `void`. -/
theorem required_primitive
    (required : Ty.undefined.isTakenAs (.primitive kind) = false) :
    kind ≠ .undefined ∧ kind ≠ .void := by
  constructor <;> rintro rfl <;> cases required

/-- A constant is taken as its own kind. -/
theorem AtomicMeet.literal_primitive
    (atomic : checker.Atomic (.literal occurrence value))
    (base : value.base = kind) :
    checker.AtomicMeet (.literal occurrence value) (.primitive kind)
      (.literal occurrence value) where
  atomic := atomic
  taken := fun {form} _ => by
    refine ⟨fun taken => ⟨taken, ?_⟩, And.left⟩
    cases form with
    | literal other actual =>
        have same : actual.equal value = true := taken
        simp [Ty.isTakenAs, Literal.base_eq_of_equal same, base]
    | _ => cases taken

/-- A constant shares no values with the other kinds. -/
theorem AtomicMeet.literal_other
    (base : value.base ≠ kind) :
    checker.AtomicMeet (.literal occurrence value) (.primitive kind)
      .never := by
  refine .disjoint fun {form} _ taken otherTaken => ?_
  cases form with
  | literal other actual =>
      have same : actual.equal value = true := taken
      have kindOf : actual.base = kind := by simpa [Ty.isTakenAs] using otherTaken
      exact base (Literal.base_eq_of_equal same ▸ kindOf)
  | _ => cases taken

/-- A constant or primitive alone is left as it is. -/
theorem reduceAtoms_alone
    (atom : first.isAtom = true) :
    reduceAtoms [first] = some [first] := by
  cases first with
  | primitive kind =>
      simp [reduceAtoms, literalMembers, meetLiterals, primitiveMembers,
        meetPrimitives, Ty.isObjectLike]
  | literal =>
      simp [reduceAtoms, literalMembers, meetLiterals, primitiveMembers,
        meetPrimitives, replaceAtoms, Ty.isAtom]
  | _ => cases atom

include atomic otherAtomic required otherRequired

/-- What is left of two different constants or primitives is their meet. -/
theorem reduceAtoms_pair
    (differ : checker.arena.identical first second = false) :
    (∃ met, reduceAtoms [first, second] = some [met] ∧
        checker.AtomicMeet first second met) ∨
      reduceAtoms [first, second] = none ∧
        checker.AtomicMeet first second .never := by
  cases first with
  | primitive kind =>
      obtain ⟨notUndefined, notVoid⟩ := required_primitive required
      cases second with
      | primitive other =>
          obtain ⟨otherNotUndefined, otherNotVoid⟩ :=
            required_primitive otherRequired
          have apart : kind ≠ other := by
            rintro rfl
            have same :
                checker.arena.identical (.primitive kind) (.primitive kind) =
                  true :=
              identicalWithin_shared rfl _ _
            cases differ.symm.trans same
          refine .inr ⟨?_, .disjoint fun {form} _ taken otherTaken => ?_⟩
          · simp [reduceAtoms, literalMembers, meetLiterals, primitiveMembers,
              meetPrimitives, notVoid, otherNotVoid, Ne.symm apart]
          · cases form with
            | primitive actual =>
                simp [Ty.isTakenAs, notVoid] at taken
                simp [Ty.isTakenAs, otherNotVoid] at otherTaken
                exact apart (taken.symm.trans otherTaken)
            | literal occurrence actual =>
                simp [Ty.isTakenAs] at taken otherTaken
                exact apart (taken.symm.trans otherTaken)
            | _ => cases taken
      | literal occurrence value =>
          by_cases base : value.base = kind
          · refine .inl ⟨.literal occurrence value, ?_,
              (AtomicMeet.literal_primitive otherAtomic base).symm⟩
            simp [reduceAtoms, literalMembers, meetLiterals, primitiveMembers,
              meetPrimitives, base, Ty.hasBase, replaceAtoms, Ty.isAtom,
              Ty.isObjectLike]
          · refine .inr ⟨?_, (AtomicMeet.literal_other base).symm⟩
            simp [reduceAtoms, literalMembers, meetLiterals, primitiveMembers,
              meetPrimitives, base, Ty.hasBase]
      | _ => cases otherAtomic.atom
  | literal occurrence value =>
      cases second with
      | primitive kind =>
          by_cases base : value.base = kind
          · refine .inl ⟨.literal occurrence value, ?_,
              AtomicMeet.literal_primitive atomic base⟩
            simp [reduceAtoms, literalMembers, meetLiterals, primitiveMembers,
              meetPrimitives, base, Ty.hasBase, replaceAtoms, Ty.isAtom,
              Ty.isObjectLike]
          · refine .inr ⟨?_, AtomicMeet.literal_other base⟩
            simp [reduceAtoms, literalMembers, meetLiterals, primitiveMembers,
              meetPrimitives, base, Ty.hasBase]
      | literal otherOccurrence other =>
          have apart : value.equal other = false := by
            cases equal : value.equal other with
            | false => rfl
            | true =>
                have same :
                    checker.arena.identical (.literal occurrence value)
                      (.literal otherOccurrence other) = true := by
                  unfold Arena.identical identityDepth Arena.identicalWithin
                    Arena.unfoldPair
                  cases node :
                      (Ty.literal occurrence value).sameNode
                        (.literal otherOccurrence other) <;>
                    simp [Ty.isAbsent, Ty.isNamed, equalNodes, equal]
                cases differ.symm.trans same
          refine .inr ⟨?_, .disjoint fun {form} _ taken otherTaken => ?_⟩
          · simp [reduceAtoms, literalMembers, meetLiterals, apart]
          · cases form with
            | literal formOccurrence actual =>
                have equal : value.equal actual = true :=
                  Literal.equal_comm _ _ ▸ (taken : actual.equal value = true)
                rw [Literal.equal_trans equal otherTaken] at apart
                cases apart
            | _ => cases taken
      | _ => cases otherAtomic.atom
  | _ => cases atomic.atom

/-- The intersection of two constants or primitives is their meet. -/
theorem meetMembers_atoms
    {pass : NormalPass}
    (settles :
      Settles (pass.meetMembers checker.arena depth [first, second]) result) :
    checker.AtomicMeet first second result := by
  have unmerged {members : List Ty}
      (atoms : ∀ member ∈ members, member.isAtom = true) :
      pass.mergeObjects checker.arena depth members = pure members := by
    have noShapes : NormalPass.shapesOf members = [] :=
      List.filterMap_eq_nil_iff.mpr fun member inMembers => by
        have atom := atoms member inMembers
        cases member <;> first | rfl | cases atom
    rw [NormalPass.mergeObjects, noShapes]
  have known :
      ∀ type ∈ [first, second],
        type.isPrimitive .any = false ∧ type.isPrimitive .unknown = false := by
    rw [List.forall_mem_cons, List.forall_mem_singleton]
    exact ⟨atomic.again.isPrimitive, otherAtomic.again.isPrimitive⟩
  unfold NormalPass.meetMembers at settles
  split at settles
  · next type found =>
    -- One of the two has no values, and nothing is taken as it.
    have isNever : type.isNever = true := by
      have stops := List.find?_some found
      rwa [(known type (List.mem_of_find?_eq_some found)).1, Bool.or_false]
        at stops
    rw [if_pos isNever] at settles
    cases settles.of_pure
    refine .disjoint fun {form} single taken otherTaken => ?_
    have each :
        ∀ target ∈ [first, second],
          target.isAtom = true ∧ form.isTakenAs target = true := by
      rw [List.forall_mem_cons, List.forall_mem_singleton]
      exact ⟨⟨atomic.atom, taken⟩, otherAtomic.atom, otherTaken⟩
    obtain ⟨atom, taken⟩ := each type (List.mem_of_find?_eq_some found)
    rw [single.not_isNever atom taken] at isNever
    cases isNever
  · have kept :
        ([first, second].filter fun type => !type.isPrimitive .unknown) =
          [first, second] :=
      List.filter_eq_self.mpr fun type member => by simp [(known type member).2]
    rw [kept] at settles
    dsimp only at settles
    cases same : checker.arena.identical first second with
    | true =>
        have once :
            [first, second].foldl checker.arena.appendUnique [] = [first] := by
          simp [Arena.appendUnique, same]
        rw [once, reduceAtoms_alone atomic.atom] at settles
        dsimp only at settles
        rw [unmerged (List.forall_mem_singleton.mpr atomic.atom), pure_bind]
          at settles
        cases settles.of_pure
        refine ⟨atomic, fun {form} _ => ?_⟩
        rw [← atomic.isTakenAs_congr otherAtomic (.inr same) form, and_self]
    | false =>
        have twice :
            [first, second].foldl checker.arena.appendUnique [] =
              [first, second] := by
          simp [Arena.appendUnique, same]
        rw [twice] at settles
        rcases reduceAtoms_pair atomic otherAtomic required otherRequired same
          with ⟨met, reduces, meet⟩ | ⟨fails, meet⟩
        · rw [reduces] at settles
          dsimp only at settles
          rw [unmerged (List.forall_mem_singleton.mpr meet.atomic.atom),
            pure_bind] at settles
          cases settles.of_pure
          exact meet
        · rw [fails] at settles
          cases settles.of_pure
          exact meet

end Atoms

/-- A member of a union is found in it by the forms that it takes. -/
theorem isOneOf_joinMembers
    {types : List Ty}
    (single : checker.Single form)
    (atomic : ∀ type ∈ types, checker.Atomic type) :
    form.isOneOf (checker.arena.joinMembers types) =
      types.any form.isTakenAs := by
  have members : ∀ type ∈ types, type.IsMember := fun type inTypes =>
    (atomic type inTypes).isMember
  refine Bool.eq_iff_iff.mpr ⟨fun found => ?_, fun found => ?_⟩
  · obtain ⟨member, inJoined, taken⟩ := List.any_eq_true.mp found
    cases isNever :
        (checker.arena.joinMembers types).isPrimitive .never with
    | true =>
        rw [eq_of_isPrimitive isNever] at inJoined
        rw [List.mem_singleton.mp inJoined] at taken
        cases single.takes_inhabited taken
    | false =>
        rw [members_joinMembers_valued members isNever] at inJoined
        have inValued := (unique_sublist _).subset inJoined
        exact List.any_eq_true.mpr
          ⟨member, (List.mem_filter.mp inValued).1, taken⟩
  · obtain ⟨type, inTypes, taken⟩ := List.any_eq_true.mp found
    have valued := single.not_isNever (atomic type inTypes).atom taken
    have inValued : type ∈ types.filter fun type => !type.isNever :=
      List.mem_filter.mpr ⟨inTypes, by simp [valued]⟩
    obtain ⟨other, kept, same⟩ :=
      exists_counterpart_of_mem checker.arena [] inValued
    have inOthers :=
      (List.mem_filter.mp ((unique_sublist _).subset kept)).1
    refine List.any_eq_true.mpr ⟨other, ?_, ?_⟩
    · rw [members_joinMembers_valued members
        (joinMembers_inhabited members inTypes valued)]
      exact kept
    · rw [(atomic other inOthers).isTakenAs_congr (atomic type inTypes) same]
      exact taken

/-- What atoms join to is a form whose members are atoms. -/
theorem atomic_of_joinMembers
    {types : List Ty}
    (atomic : ∀ type ∈ types, checker.Atomic type)
    (inJoined : member ∈ (checker.arena.joinMembers types).members) :
    checker.Atomic member := by
  have members : ∀ type ∈ types, type.IsMember := fun type inTypes =>
    (atomic type inTypes).isMember
  cases isNever : (checker.arena.joinMembers types).isPrimitive .never with
  | true =>
      rw [eq_of_isPrimitive isNever] at inJoined
      exact List.mem_singleton.mp inJoined ▸ atomic_never
  | false =>
      rw [members_joinMembers_valued members isNever] at inJoined
      have inValued := (unique_sublist _).subset inJoined
      exact atomic member (List.mem_filter.mp inValued).1

/-- Two members are intersected one after the other, or distributed. -/
theorem intersection_pair
    {first second firstForm secondForm : Ty}
    {budget : Nat}
    (normalizes : checker.NormalizesTo first firstForm)
    (otherNormalizes : checker.NormalizesTo second secondForm)
    (whole : RelationStep.isIntersection firstForm = false)
    (otherWhole : RelationStep.isIntersection secondForm = false)
    (settles :
      Settles
        ((normalPass (checker.modeKeeping keepReferences) budget).intersection
          depth [first, second])
        result) :
    ∃ less,
      distribute? [firstForm, secondForm] = none ∧
          Settles
            ((normalPass (checker.modeKeeping keepReferences) less).meetMembers
              checker.arena depth [firstForm, secondForm])
            result ∨
        [firstForm, secondForm].any Ty.isUnion = true ∧
          ∃ results,
            Settles
                ((choices [firstForm, secondForm]).mapM
                  ((normalPass (checker.modeKeeping keepReferences)
                    less).intersection depth))
                results ∧
              Settles
                ((normalPass (checker.modeKeeping keepReferences) less).union
                  checker.arena depth results)
                result := by
  cases budget with
  | zero => exact (not_settles_emptyPass settles).elim
  | succ less =>
  obtain ⟨types, visits, settles⟩ := NormalPass.nextIntersection_cases settles
  have same : types = [firstForm, secondForm] := by
    rcases Outcome.of_mapM visits with _ | ⟨head, tail⟩
    rcases tail with _ | ⟨next, last⟩
    cases last
    rw [normalizes _ _ _ _ head, otherNormalizes _ _ _ _ next]
  have flat :
      flattenIntersection [firstForm, secondForm] =
        [firstForm, secondForm] :=
    flattenIntersection_of_flat (List.forall_mem_cons.mpr
      ⟨whole, List.forall_mem_singleton.mpr otherWhole⟩)
  rw [same, flat] at settles
  exact ⟨less, settles⟩

/-- All ways to pick a member of each of two types. -/
theorem mem_choices_pair
    {first second : Ty}
    {chosen : List Ty} :
    chosen ∈ choices [first, second] ↔
      ∃ member ∈ first.members, ∃ other ∈ second.members,
        chosen = [member, other] := by
  simp [choices, eq_comm]

section Enumerations

variable
  {first second : Ty}
  {budget : Nat}
  (enumerates : first.Enumerates)
  (otherEnumerates : second.Enumerates)
  (again : Reaches checker first first)
  (otherAgain : Reaches checker second second)

/-- The members of an enumeration are constants and primitives. -/
theorem atomic_of_enumerates
    (enumerates : first.Enumerates)
    (again : Reaches checker first first)
    (inFirst : member ∈ first.members) :
    checker.Atomic member :=
  ⟨(again.again_members.2 member inFirst).1, enumerates.atoms member inFirst⟩

/-- The intersection of two constants or primitives is their meet. -/
theorem intersection_atoms
    (atomic : checker.Atomic first)
    (otherAtomic : checker.Atomic second)
    (required : Ty.undefined.isTakenAs first = false)
    (otherRequired : Ty.undefined.isTakenAs second = false)
    (settles :
      Settles
        ((normalPass (checker.modeKeeping keepReferences) budget).intersection
          depth [first, second])
        result) :
    checker.AtomicMeet first second result := by
  obtain ⟨less, ⟨-, settles⟩ | ⟨anyUnion, -⟩⟩ :=
    intersection_pair atomic.again.normalizesTo otherAtomic.again.normalizesTo
      (Bool.or_eq_false_iff.mp (simple_of_isAtom atomic.atom)).2
      (Bool.or_eq_false_iff.mp (simple_of_isAtom otherAtomic.atom)).2 settles
  · exact meetMembers_atoms atomic otherAtomic required otherRequired settles
  · rw [List.any_cons, List.any_cons, isUnion_of_isAtom atomic.atom,
      isUnion_of_isAtom otherAtomic.atom] at anyUnion
    cases anyUnion

include enumerates otherEnumerates again otherAgain

/-- The intersection of two enumerations is their meet. -/
theorem IsMeet.of_enumerations
    (strict : checker.options.strictNullChecks = true)
    (small : productTooLarge 1 [first, second] = false)
    (settles :
      Settles
        ((normalPass (checker.modeKeeping keepReferences) budget).intersection
          depth [first, second])
        result) :
    checker.IsMeet first second result := by
  have atomic {member : Ty} (inFirst : member ∈ first.members) :=
    atomic_of_enumerates enumerates again inFirst
  have otherAtomic {member : Ty} (inSecond : member ∈ second.members) :=
    atomic_of_enumerates otherEnumerates otherAgain inSecond
  obtain ⟨less, ⟨kept, settles⟩ | ⟨-, results, meets, settles⟩⟩ :=
    intersection_pair again.normalizesTo otherAgain.normalizesTo
      enumerates.notIntersection otherEnumerates.notIntersection settles
  · rw [distribute?, small] at kept
    have whole : first.isUnion = false ∧ second.isUnion = false := by
      simpa using kept
    have members := Ty.members_eq whole.1
    have otherMembers := Ty.members_eq whole.2
    have inFirst : first ∈ first.members := by simp [members]
    have inSecond : second ∈ second.members := by simp [otherMembers]
    have meet :=
      meetMembers_atoms (atomic inFirst) (otherAtomic inSecond)
        (enumerates.member_required inFirst)
        (otherEnumerates.member_required inSecond) settles
    have metMembers :=
      Ty.members_eq (isUnion_of_isAtom meet.atomic.atom)
    refine .enumerations strict meet.atomic.again enumerates otherEnumerates
      ?_ fun single => ?_
    · rw [metMembers]
      exact List.forall_mem_singleton.mpr meet.atomic.atom
    · simpa [Ty.isOneOf, members, otherMembers, metMembers] using
        meet.taken single
  · have each := Outcome.of_mapM meets
    have meet {chosen : List Ty} {met : Ty}
        (inChoices : chosen ∈ choices [first, second])
        (settles :
          Settles
            ((normalPass (checker.modeKeeping keepReferences)
              less).intersection depth chosen)
            met) :
        ∃ member ∈ first.members, ∃ other ∈ second.members,
          chosen = [member, other] ∧ checker.AtomicMeet member other met := by
      obtain ⟨member, inFirst, other, inSecond, rfl⟩ :=
        mem_choices_pair.mp inChoices
      exact ⟨member, inFirst, other, inSecond, rfl,
        intersection_atoms (atomic inFirst) (otherAtomic inSecond)
          (enumerates.member_required inFirst)
          (otherEnumerates.member_required inSecond) settles⟩
    have met : ∀ met ∈ results, checker.Atomic met := by
      intro met inResults
      obtain ⟨chosen, inChoices, settles⟩ := exists_related_left each inResults
      obtain ⟨_, _, _, _, -, meet⟩ := meet inChoices settles
      exact meet.atomic
    obtain ⟨types, visits, rfl⟩ := NormalPass.union_cases settles
    have same : results = types :=
      List.forall₂_eq_eq_eq ▸
        forall₂_imp_of_mem (Outcome.of_mapM visits)
          fun before inResults after _ settles =>
            ((met before inResults).again.normalizesTo _ _ _ _ settles).symm
    have flat : flattenUnion results = results :=
      flattenUnion_of_flat fun before inResults =>
        isUnion_of_isAtom (met before inResults).atom
    have joined := joinMembers_again fun before inResults =>
      (met before inResults).again
    rw [flat] at joined
    rw [← same, flat]
    refine .enumerations strict joined enumerates otherEnumerates
      (fun member inJoined => (atomic_of_joinMembers met inJoined).atom)
      fun {form} single => ?_
    rw [isOneOf_joinMembers single met]
    constructor
    · intro taken
      obtain ⟨result, inResults, taken⟩ := List.any_eq_true.mp taken
      obtain ⟨chosen, inChoices, settles⟩ :=
        exists_related_left each inResults
      obtain ⟨member, inFirst, other, inSecond, -, meet⟩ :=
        meet inChoices settles
      obtain ⟨left, right⟩ := (meet.taken single).mp taken
      exact ⟨List.any_eq_true.mpr ⟨member, inFirst, left⟩,
        List.any_eq_true.mpr ⟨other, inSecond, right⟩⟩
    · rintro ⟨left, right⟩
      obtain ⟨member, inFirst, left⟩ := List.any_eq_true.mp left
      obtain ⟨other, inSecond, right⟩ := List.any_eq_true.mp right
      obtain ⟨result, inResults, settles⟩ :=
        exists_related_right each
          (mem_choices_pair.mpr ⟨member, inFirst, other, inSecond, rfl⟩)
      exact List.any_eq_true.mpr ⟨result, inResults,
        ((intersection_atoms (atomic inFirst) (otherAtomic inSecond)
          (enumerates.member_required inFirst)
          (otherEnumerates.member_required inSecond) settles).taken single).mpr
            ⟨left, right⟩⟩

end Enumerations

end Checker

end StructuralTyping
