import StructuralTyping.Proofs.NarrowingPredicates

namespace StructuralTyping

/-!
# Narrowing by comparison

Narrowing by an array test and by comparison with a constant. A constant is a
literal, `null` or `undefined`: all values of such a type are strictly equal,
so that comparing with one of them decides whether a value belongs to the type.
-/

open Check

/-- A literal, `null` or `undefined`. -/
def Ty.isUnit :
    Ty →
    Bool
  | .literal _ _ => true
  | type => type.isNullish

/-- Strict equality with a value of a literal type decides membership. -/
theorem strictEqual_literal_iff
    {arena : Arena}
    {first second : Value}
    (constant : Belongs arena (.literal occurrence expected) second)
    (compared :
      first.StrictEqual second answer ∨ second.StrictEqual first answer) :
    answer = true ↔ Belongs arena (.literal occurrence expected) first := by
  obtain ⟨actual, rfl, equal⟩ := holds_literal.mp constant
  have notTagged :
      (Value.constant actual).tag ≠ "object" ∧
        (Value.constant actual).tag ≠ "function" := by
    cases actual <;>
      (simp only [Value.tag, Literal.base, Primitive.name]; decide)
  have decides :
      ∀ other : Literal,
        actual.equal other = true ↔
          Belongs arena (.literal occurrence expected) (.constant other) := by
    intro other
    constructor
    · intro same
      exact .literal (Literal.equal_trans equal same)
    · intro belongs
      obtain ⟨_, ⟨⟩, same⟩ := holds_literal.mp belongs
      rw [Literal.equal_comm] at equal
      exact Literal.equal_trans equal same
  have excludes :
      (∀ other, first ≠ .constant other) →
      ¬ Belongs arena (.literal occurrence expected) first := by
    intro notConstant belongs
    obtain ⟨other, isConstant, _⟩ := holds_literal.mp belongs
    exact notConstant other isConstant
  rcases compared with compared | compared
  · cases compared with
    | constant =>
        rw [Literal.equal_comm]
        exact decides _
    | identical tagged =>
        exact (tagged.elim notTagged.1 notTagged.2).elim
    | distinct constants _ =>
        simp only [Bool.false_eq_true, false_iff]
        exact excludes fun other isConstant =>
          constants other isConstant actual rfl
  · cases compared with
    | constant =>
        exact decides _
    | identical tagged =>
        exact (tagged.elim notTagged.1 notTagged.2).elim
    | distinct constants _ =>
        simp only [Bool.false_eq_true, false_iff]
        exact excludes (constants actual rfl)

/-- Strict equality with `null` or `undefined` decides membership. -/
theorem strictEqual_nullish_iff
    {arena : Arena}
    {type : Ty}
    {first second : Value}
    (isNullish : type.isNullish = true)
    (constant : Belongs arena type second)
    (compared :
      first.StrictEqual second answer ∨ second.StrictEqual first answer) :
    answer = true ↔ Belongs arena type first := by
  have unique :
      second.isNullish = true ∧
        ∀ value : Value, Belongs arena type value ↔ value = second := by
    rcases Bool.or_eq_true_iff.mp isNullish with isNull | isUndefined
    · cases eq_of_isPrimitive isNull
      cases holds_null.mp constant
      exact ⟨rfl, fun value => holds_null⟩
    · cases eq_of_isPrimitive isUndefined
      cases holds_undefined.mp constant
      exact ⟨rfl, fun value => holds_undefined⟩
  obtain ⟨nullish, unique⟩ := unique
  rw [unique first]
  rcases compared with compared | compared
  · cases compared with
    | constant =>
        simp [Value.isNullish] at nullish
    | distinct _ differ =>
        simp only [Bool.false_eq_true, false_iff]
        rintro rfl
        exact differ nullish rfl
    | _ =>
        simp
  · cases compared with
    | constant =>
        simp [Value.isNullish] at nullish
    | distinct _ differ =>
        simpa using differ nullish
    | _ =>
        simp

/-- Strict equality with a value of a constant type decides membership. -/
theorem strictEqual_iff
    {arena : Arena}
    {type : Ty}
    {first second : Value}
    (isUnit : type.isUnit = true)
    (constant : Belongs arena type second)
    (compared :
      first.StrictEqual second answer ∨ second.StrictEqual first answer) :
    answer = true ↔ Belongs arena type first := by
  cases type with
  | literal occurrence value =>
      exact strictEqual_literal_iff constant compared
  | _ =>
      exact strictEqual_nullish_iff isUnit constant compared

namespace Checker

variable {checker : Checker}

/-- Only sequences hold lists, `any` and `unknown` aside. -/
theorem isSequence_eq
    {arena : Arena}
    {member : Ty}
    (admitted : Fragment.narrowing.admits member = true)
    (notUnion : member.isUnion = false)
    (notTop : isAnyOrUnknown member = false)
    (belongs : Belongs arena member value) :
    isSequence member = value.isList := by
  cases member with
  | primitive kind =>
      cases kind <;> cases value <;>
        simp_all [isAnyOrUnknown, Ty.isPrimitive, Primitive.holds, isSequence,
          Value.isList]
  | literal occurrence expected =>
      obtain ⟨_, rfl, _⟩ := holds_literal.mp belongs
      rfl
  | object occurrence shape =>
      have isObject := (holds_object.mp belongs).1
      cases value <;>
        simp_all [Reading.isObject, Reading.narrowing, Value.isPlainObject,
          isSequence, Value.isList]
  | array occurrence element readonly =>
      obtain ⟨_, rfl, _⟩ := holds_array.mp belongs
      rfl
  | tuple occurrence elements readonly =>
      obtain ⟨_, rfl, _⟩ := holds_tuple.mp belongs
      rfl
  | function occurrence signature =>
      obtain ⟨_, rfl⟩ := holds_function.mp belongs
      rfl
  | _ =>
      simp_all [Fragment.admits, Fragment.narrowing, Ty.isUnion]

/-- Narrowing by an array test keeps the lists, or all other values. -/
theorem narrowArray_narrows
    (branch : Bool) :
    Narrows checker.arena (checker.narrowArray branch)
      (·.isList = branch) := by
  refine narrowMembers_narrows ?_
  intro member result admitted notUnion settles
  unfold arrayMember at settles
  split at settles
  · cases settles_pure.mp settles
    split
    · next isTrue =>
      subst isTrue
      refine ⟨fun _ => rfl, fun value _ _ isList => ⟨by simp, ?_⟩⟩
      cases value <;> simp [Value.isList] at isList
      exact .array fun element _ => .primitive rfl
    · exact .self admitted
  · next notTop =>
    rw [expand_eq_pure admitted notUnion, pure_bind] at settles
    cases settles_pure.mp settles
    refine .keepIf admitted fun value _ belongs passes => ⟨?_, belongs⟩
    rw [isSequence_eq admitted notUnion (by simpa using notTop) belongs,
      passes, beq_self_eq_true]

/-- Only the nullish types hold nullish values, `any` and `unknown` aside. -/
theorem isNullishOrVoid_eq
    {arena : Arena}
    {member : Ty}
    (admitted : Fragment.narrowing.admits member = true)
    (notUnion : member.isUnion = false)
    (notTop : isAnyOrUnknown member = false)
    (belongs : Belongs arena member value) :
    isNullishOrVoid member = value.isNullish := by
  cases member with
  | primitive kind =>
      cases kind <;> cases value <;>
        simp_all [isAnyOrUnknown, Ty.isPrimitive, Primitive.holds,
          isNullishOrVoid, Ty.isNullish, Value.isNullish]
  | literal occurrence expected =>
      obtain ⟨_, rfl, _⟩ := holds_literal.mp belongs
      rfl
  | object occurrence shape =>
      have isObject := (holds_object.mp belongs).1
      cases value <;>
        simp_all [Reading.isObject, Reading.narrowing, Value.isPlainObject,
          isNullishOrVoid, Ty.isNullish, Ty.isPrimitive, Value.isNullish]
  | array occurrence element readonly =>
      obtain ⟨_, rfl, _⟩ := holds_array.mp belongs
      rfl
  | tuple occurrence elements readonly =>
      obtain ⟨_, rfl, _⟩ := holds_tuple.mp belongs
      rfl
  | function occurrence signature =>
      obtain ⟨_, rfl⟩ := holds_function.mp belongs
      rfl
  | _ =>
      simp_all [Fragment.admits, Fragment.narrowing, Ty.isUnion]

/-- Loose comparison with `null` keeps the nullish values, or all others. -/
theorem narrowLooseNullish_narrows
    (arena : Arena)
    (equal : Bool) :
    NarrowsMember arena (fun member => pure (narrowLooseNullish equal member))
      (·.isNullish = equal) := by
  intro member result admitted notUnion settles
  cases settles_pure.mp settles
  unfold narrowLooseNullish
  split
  · split
    · next isTrue =>
      subst isTrue
      refine ⟨fun _ => rfl, fun value _ _ isNullish =>
        ⟨by simp [Ty.ofUnion], ?_⟩⟩
      cases value <;> simp [Value.isNullish] at isNullish
      · exact .union (by simp) (.primitive rfl : Belongs arena .null .null)
      · exact .union (by simp)
          (.primitive rfl : Belongs arena .undefined .undefined)
    · exact .self admitted
  · next notTop =>
    refine .keepIf admitted fun value _ belongs passes => ⟨?_, belongs⟩
    rw [isNullishOrVoid_eq admitted notUnion (by simpa using notTop) belongs,
      passes, beq_self_eq_true]

/-- A comparison at the depth bound is reported. -/
theorem not_settles_failAtBound
    {target : Ty} :
    ¬ Settles (checker.failAtBound target {}) result := by
  rintro ⟨added, run, quiet⟩
  cases run
  exact quiet _ (List.mem_singleton.mpr rfl) rfl

/-- A member that holds a constant is compared with success. -/
theorem relate_literal_eq_pure
    (step : RelationStep)
    (assumptions : Assumptions)
    {member : Ty}
    (admitted : Fragment.narrowing.admits member = true)
    (notUnion : member.isUnion = false)
    (constant :
      Belongs step.checker.arena (.literal occurrence expected) found)
    (belongs : Belongs step.checker.arena member found) :
    step.relate assumptions (.literal occurrence expected) member =
      pure true := by
  obtain ⟨actual, rfl, equal⟩ := holds_literal.mp constant
  have sameBase := Literal.base_eq_of_equal equal
  cases member with
  | primitive kind =>
      have holds := holds_primitive.mp belongs
      cases expected <;> cases actual <;> simp [Literal.base] at sameBase <;>
        cases kind <;> simp [Primitive.holds] at holds <;>
        simp [RelationStep.relate, Ty.isPrimitive, Ty.isReference,
          Ty.isNullish, Ty.isUnion, RelationStep.isIntersection,
          RelationStep.compareShapes, RelationStep.toPrimitive, Literal.base]
  | literal other accepted =>
      obtain ⟨_, ⟨⟩, accepts⟩ := holds_literal.mp belongs
      have same : expected.equal accepted = true := by
        rw [Literal.equal_comm] at accepts
        exact Literal.equal_trans equal accepts
      simp [RelationStep.relate, Ty.isPrimitive, Ty.isReference,
        Ty.isNullish, Ty.isUnion, RelationStep.isIntersection,
        RelationStep.compareShapes, RelationStep.toLiteral, same]
  | object occurrence shape =>
      have isObject := (holds_object.mp belongs).1
      simp [Reading.isObject, Reading.narrowing, Value.isPlainObject]
        at isObject
  | array occurrence element readonly =>
      obtain ⟨_, ⟨⟩, _⟩ := holds_array.mp belongs
  | tuple occurrence elements readonly =>
      obtain ⟨_, ⟨⟩, _⟩ := holds_tuple.mp belongs
  | function occurrence signature =>
      obtain ⟨_, ⟨⟩⟩ := holds_function.mp belongs
  | _ =>
      simp_all [Fragment.admits, Fragment.narrowing, Ty.isUnion]

/-- A member that holds `null` or `undefined` is compared with success. -/
theorem relate_nullish_eq_pure
    (step : RelationStep)
    (assumptions : Assumptions)
    {value member : Ty}
    (admitted : Fragment.narrowing.admits member = true)
    (notUnion : member.isUnion = false)
    (isNullish : value.isNullish = true)
    (constant : Belongs step.checker.arena value found)
    (belongs : Belongs step.checker.arena member found) :
    step.relate assumptions value member = pure true := by
  have nullish : found.isNullish = true := by
    rcases Bool.or_eq_true_iff.mp isNullish with isNull | isUndefined
    · cases eq_of_isPrimitive isNull
      cases holds_null.mp constant
      rfl
    · cases eq_of_isPrimitive isUndefined
      cases holds_undefined.mp constant
      rfl
  cases member with
  | primitive kind =>
      have holds := holds_primitive.mp belongs
      rcases Bool.or_eq_true_iff.mp isNullish with isNull | isUndefined
      · cases eq_of_isPrimitive isNull
        cases holds_null.mp constant
        cases kind <;> simp [Primitive.holds] at holds <;>
          simp [RelationStep.relate, Ty.isPrimitive, Ty.isReference,
            Ty.isNullish, Ty.isUnion, RelationStep.isIntersection,
            RelationStep.compareShapes, RelationStep.toPrimitive]
      · cases eq_of_isPrimitive isUndefined
        cases holds_undefined.mp constant
        cases kind <;> simp [Primitive.holds] at holds <;>
          simp [RelationStep.relate, Ty.isPrimitive, Ty.isReference,
            Ty.isNullish, Ty.isUnion, RelationStep.isIntersection,
            RelationStep.compareShapes, RelationStep.toPrimitive]
  | union occurrence members =>
      simp [Ty.isUnion] at notUnion
  | _ =>
      have notNullish := isNullishOrVoid_eq admitted notUnion rfl belongs
      rw [nullish] at notNullish
      cases notNullish

/-- A member that shares a value with a constant accepts the constant. -/
theorem isAssignable_of_belongs
    {value member : Ty}
    (admitted : Fragment.narrowing.admits member = true)
    (notUnion : member.isUnion = false)
    (isUnit : value.isUnit = true)
    (constant : Belongs checker.arena value found)
    (belongs : Belongs checker.arena member found)
    (settles : Settles (checker.isAssignable value member) answer) :
    answer = true := by
  unfold isAssignable Checker.compare at settles
  obtain ⟨⟨result, findings⟩, compares, settles⟩ := settles_bind.mp settles
  cases settles_pure.mp settles
  have sourceGiven : value.orElse .unknown = value := by
    cases value <;> first | rfl | cases isUnit
  have targetGiven : member.orElse .unknown = member := by
    cases member <;> first | rfl | simp at admitted
  rw [compareWithin.eq_def] at compares
  dsimp only at compares
  rw [sourceGiven, targetGiven] at compares
  split at compares
  · cases settles_pure.mp compares
    rfl
  split at compares
  · exact absurd compares not_settles_failAtBound
  · next remaining _ =>
    have accepts :
        ∀ step : RelationStep,
          step.checker = checker →
          step.relate {} value member = pure true := by
      rintro step rfl
      cases value with
      | literal occurrence expected =>
          exact relate_literal_eq_pure step {} admitted notUnion constant
            belongs
      | _ =>
          exact relate_nullish_eq_pure step {} admitted notUnion isUnit
            constant belongs
    rw [accepts _ rfl] at compares
    cases settles_pure.mp compares
    rfl

/-- Strict comparison keeps the values of the constant, or all others. -/
theorem narrowStrict_narrows
    {value : Ty}
    (valueAdmitted : Fragment.narrowing.admits value = true)
    (isUnit : value.isUnit = true)
    (equal : Bool) :
    NarrowsMember checker.arena (checker.narrowStrict value equal)
      (fun found => equal = true ↔ Belongs checker.arena value found) := by
  intro member result admitted notUnion settles
  unfold narrowStrict at settles
  split at settles
  · next isEqual =>
    obtain ⟨fits, assignable, settles⟩ := settles_bind.mp settles
    cases settles_pure.mp settles
    refine .keepIf valueAdmitted fun found _ belongs passes => ?_
    have constant := passes.mp isEqual
    exact ⟨isAssignable_of_belongs admitted notUnion isUnit constant belongs
      assignable, constant⟩
  · next notEqual =>
    split at settles
    · next excluded _ actual =>
      cases settles_pure.mp settles
      refine .keepIf admitted fun found _ belongs passes => ⟨?_, belongs⟩
      obtain ⟨constant, rfl, accepts⟩ := holds_literal.mp belongs
      by_contra same
      have sameConstant : excluded.equal actual = true := by
        rw [Literal.equal_comm]
        simpa using same
      exact notEqual
        (passes.mpr (.literal (Literal.equal_trans sameConstant accepts)))
    · cases settles_pure.mp settles
      exact .self admitted
    · cases settles_pure.mp settles
      refine .keepIf admitted fun found _ belongs passes => ⟨?_, belongs⟩
      by_contra same
      have constant : Belongs checker.arena value found :=
        (holds_of_identical (Fragment.narrowing_sound checker.arena).covers
          admitted valueAdmitted (by simpa using same) found).mp belongs
      exact notEqual (passes.mpr constant)

/-- Only constants narrow the type that they are compared with. -/
theorem narrowEqual_eq
    (value : Ty)
    (equal loose : Bool)
    (type : Ty) :
    checker.narrowEqual value equal loose type =
      if value.isUnit then
        checker.narrowMembers type fun member =>
          if loose && value.isNullish then
            return narrowLooseNullish equal member
          else
            checker.narrowStrict value equal member
      else
        return type := by
  cases value with
  | literal occurrence expected =>
      simp [narrowEqual, Ty.isUnit]
  | primitive kind =>
      cases kind <;> rfl
  | _ =>
      rfl

/--
How a value compares with a constant. Loose comparison with `null` or
`undefined` matches both of them.
-/
def ComparesTo
    (arena : Arena)
    (value : Ty)
    (equal loose : Bool)
    (found : Value) :
    Prop :=
  if loose && value.isNullish then
    found.isNullish = equal
  else
    value.isUnit = true →
      (equal = true ↔ Belongs arena value found)

/-- Narrowing by comparison keeps the values that compare as found. -/
theorem narrowEqual_narrows
    {value : Ty}
    (valueAdmitted : Fragment.narrowing.admits value = true)
    (equal loose : Bool) :
    Narrows checker.arena (checker.narrowEqual value equal loose)
      (ComparesTo checker.arena value equal loose) := by
  intro type result admitted settles
  rw [narrowEqual_eq] at settles
  unfold ComparesTo
  split at settles
  · next isUnit =>
    split at settles
    · next isLoose =>
      simp only [isLoose, if_true]
      exact narrowMembers_narrows
        (narrowLooseNullish_narrows checker.arena equal) admitted settles
    · next isStrict =>
      simp only [isStrict]
      obtain ⟨resultAdmitted, kept⟩ :=
        narrowMembers_narrows
          (narrowStrict_narrows valueAdmitted isUnit equal) admitted settles
      exact ⟨resultAdmitted, fun found proper belongs passes =>
        kept found proper belongs (passes isUnit)⟩
  · cases settles_pure.mp settles
    exact ⟨admitted, fun _ _ belongs _ => belongs⟩

end Checker

end StructuralTyping
