import StructuralTyping.Proofs.NarrowingPredicates

namespace StructuralTyping

/-!
# Reading properties

The type of reading a property holds what the read yields, provided that no
index signature answers it: positions of an array may lie beyond its end.
-/

open Check

/-- The positions of a tuple type are required and have its types. -/
theorem position_declared
    {types : List Ty}
    (declared :
      (positionProperties readonly position types).find?
        (fun property => property.name == name) = some property) :
    property.optional = false ∧ property.type ∈ types := by
  induction types generalizing position with
  | nil =>
      simp [positionProperties] at declared
  | cons type rest inductionHypothesis =>
      rw [positionProperties, List.find?_cons] at declared
      split at declared
      · cases declared
        exact ⟨rfl, by simp⟩
      · obtain ⟨required, inRest⟩ := inductionHypothesis declared
        exact ⟨required, .tail _ inRest⟩

/-- Which positions a tuple type has does not depend on their mutability. -/
theorem position_named
    (first second : Bool)
    (types : List Ty)
    (name : String) :
    (positionProperties first position types).any (·.name == name) =
      (positionProperties second position types).any (·.name == name) := by
  induction types generalizing position with
  | nil =>
      rfl
  | cons type rest inductionHypothesis =>
      simp only [positionProperties, List.any_cons, inductionHypothesis]

/-- The positions of a tuple type and of its values have the same names. -/
theorem holds_position
    {reading : Reading}
    {arena : Arena}
    {types : List Ty}
    {values : List Value}
    (related : List.Forall₂ (Holds reading arena) types values)
    (declared :
      (positionProperties readonly position types).find?
        (fun property => property.name == name) = some property) :
    ∃ found,
      (Value.positions position values).lookup name = some found ∧
        Holds reading arena property.type found := by
  induction related generalizing position with
  | nil =>
      simp [positionProperties] at declared
  | @cons type value types values belongs related inductionHypothesis =>
      rw [positionProperties, List.find?_cons] at declared
      rw [Value.positions, List.lookup_cons]
      split at declared
      · next same =>
        cases declared
        have here : (name == toString position) = true :=
          beq_iff_eq.mpr (beq_iff_eq.mp same).symm
        rw [here]
        exact ⟨value, rfl, belongs⟩
      · next differs =>
        have elsewhere : (name == toString position) = false :=
          beq_eq_false_iff_ne.mpr fun same =>
            beq_eq_false_iff_ne.mp differs same.symm
        rw [elsewhere]
        exact inductionHypothesis declared

/-- The natural numbers that are equal are equal at run time. -/
theorem holds_length
    {reading : Reading}
    {arena : Arena}
    (count : Nat) :
    Holds reading arena (.ofLiteral (.number (Number.ofNat count)))
      (.ofNat count) :=
  .literal (Literal.equal_self (Number.isNaN_ofNat count))

/-- Texts expose their length. -/
theorem exposes_length_of_string
    {reading : Reading}
    {arena : Arena}
    {value : Value}
    (holds : Holds reading arena .string value) :
    ∃ count, value.member? "length" = some (.ofNat count) := by
  have holds := holds_primitive.mp holds
  cases value with
  | constant literal =>
      cases literal <;> simp [Primitive.holds] at holds
      exact ⟨_, rfl⟩
  | _ =>
      simp [Primitive.holds] at holds

/-- Constant texts expose their length. -/
theorem exposes_length_of_literal
    {reading : Reading}
    {arena : Arena}
    {value : Value}
    (holds : Holds reading arena (.literal occurrence (.string text)) value) :
    ∃ count, value.member? "length" = some (.ofNat count) := by
  obtain ⟨actual, rfl, equal⟩ := holds_literal.mp holds
  cases actual <;> simp [Literal.equal] at equal
  exact ⟨_, rfl⟩

/-- Functions expose the number of their parameters. -/
theorem exposes_length_of_function
    {reading : Reading}
    {arena : Arena}
    {value : Value}
    (holds : Holds reading arena (.function occurrence signature) value) :
    ∃ count, value.member? "length" = some (.ofNat count) := by
  obtain ⟨parameters, rfl⟩ := holds_function.mp holds
  exact ⟨parameters, rfl⟩

/-- Under every name but `length` a list exposes its positions. -/
theorem exposes_position
    {values : List Value}
    (notLength : name ≠ "length") :
    (Value.list values).member? name =
      (Value.positions 0 values).lookup name := by
  rw [Value.member?, Value.members, List.lookup_cons,
    beq_eq_false_iff_ne.mpr notLength]

/-- What is read from a value that exposes the property. -/
theorem Value.Reads.eq_of_member
    {value found : Value}
    (reads : value.Reads property found)
    (exposed : value.member? property = some other) :
    found = other := by
  cases reads with
  | exposed found =>
      exact Option.some.inj (found.symm.trans exposed)
  | missing lacks =>
      rw [lacks] at exposed
      cases exposed
  | inherited _ _ lacks _ =>
      rw [lacks] at exposed
      cases exposed

/--
A type holds whatever reading a property from a value may yield, and
`undefined` where that may be the value itself: a chain of accesses that ended
early yields it.
-/
structure ReadBelongs
    (arena : Arena)
    (type : Ty)
    (property : String)
    (found : Ty) :
    Prop where
  admits : Fragment.narrowing.admits found = true
  belongs :
    ∀ value read,
      Belongs arena type value →
      value.Reads property read →
      Belongs arena found read
  undefined :
    Belongs arena type .undefined → Belongs arena found .undefined

/-- A type with more values holds what is read from them too. -/
theorem ReadBelongs.of_normal
    {arena : Arena}
    {type result : Ty}
    (normal : IsNormalOf .narrowing .narrowing arena type result)
    (reads : ReadBelongs arena result name found) :
    ReadBelongs arena type name found :=
  ⟨reads.admits,
    fun value read belongs =>
      reads.belongs value read ((normal.holds value).mpr belongs),
    fun belongs => reads.undefined ((normal.holds .undefined).mpr belongs)⟩

/-- A read may be typed by a normal form. -/
theorem ReadBelongs.normalize
    {checker : Checker}
    (reads : ReadBelongs checker.arena type name found)
    (normalizes : Settles (checker.normalize found) result) :
    ReadBelongs checker.arena type name result := by
  have normal := Checker.normalize_settles reads.admits normalizes
  exact ⟨normal.admits,
    fun value read belongs exposes =>
      (normal.holds read).mpr (reads.belongs value read belongs exposes),
    fun belongs => (normal.holds .undefined).mpr (reads.undefined belongs)⟩

/-- Reading from a union yields what reading from some member may yield. -/
theorem readBelongs_union
    {arena : Arena}
    {type : Ty}
    {members types : List Ty}
    (parts : MembersOf arena type members)
    (each :
      List.Forall₂ (ReadBelongs arena · name) members types) :
    ReadBelongs arena type name (.ofUnion types) := by
  constructor
  · refine Fragment.admits_union.mpr fun found inTypes => ?_
    obtain ⟨member, _, reads⟩ := exists_related_left each inTypes
    exact reads.admits
  · intro value read belongs reads
    obtain ⟨member, inMembers, belongs⟩ := (parts.holds value).mp belongs
    obtain ⟨found, inTypes, readBelongs⟩ :=
      exists_related_right each inMembers
    exact .union inTypes (readBelongs.belongs value read belongs reads)
  · intro belongs
    obtain ⟨member, inMembers, belongs⟩ := (parts.holds .undefined).mp belongs
    obtain ⟨found, inTypes, readBelongs⟩ :=
      exists_related_right each inMembers
    exact .union inTypes (readBelongs.undefined belongs)

/-- The read of a declared property of an object. -/
theorem readBelongs_object
    {arena : Arena}
    {shape : Shape Ty}
    (admitted : Fragment.narrowing.admits (.object occurrence shape) = true)
    (read : Checker.readShape shape name = some found) :
    ReadBelongs arena (.object occurrence shape) name found := by
  obtain ⟨noIndex, distinct, each⟩ := Fragment.admits_object.mp admitted
  unfold Checker.readShape at read
  rw [noIndex] at read
  split at read
  · next property declared =>
    obtain ⟨inShape, rfl⟩ := Shape.mem_of_property? declared
    cases read
    have propertyAdmitted := (each property inShape).1
    constructor
    · split
      · exact Fragment.admits_optional propertyAdmitted
      · exact propertyAdmitted
    · intro value read belongs reads
      obtain ⟨isObject, holds⟩ := holds_object.mp belongs
      have holds := holds property inShape
      unfold PropertyHolds at holds
      split at holds
      · next lacks =>
        rw [if_pos holds]
        have missing : read = .undefined := by
          cases reads with
          | exposed exposed =>
              rw [lacks] at exposed
              cases exposed
          | missing _ =>
              rfl
          | inherited notPlain _ _ _ =>
              simp [Reading.isObject, Reading.narrowing, notPlain] at isObject
        exact holds_optional.mpr (.inr missing)
      · next present exposed =>
        cases reads.eq_of_member exposed
        rcases holds with ⟨_, isOptional, isUndefined⟩ | holds
        · rw [if_pos isOptional]
          exact holds_optional.mpr (.inr isUndefined)
        · split
          · exact holds_optional.mpr (.inl holds)
          · exact holds
    · intro belongs
      cases (holds_object.mp belongs).1
  · cases read

/-- The length of texts and functions is a number. -/
theorem readBelongs_length
    {arena : Arena}
    {type : Ty}
    (exposes : ∀ value,
      Belongs arena type value →
      ∃ count, value.member? "length" = some (.ofNat count))
    (read : Checker.readShape lengthShape name = some found) :
    ReadBelongs arena type name found := by
  have same : name = "length" ∧ found = .number := by
    by_cases isLength : name = "length"
    · subst isLength
      cases read
      exact ⟨rfl, rfl⟩
    · simp [Checker.readShape, lengthShape, Shape.property?,
        Ne.symm isLength] at read
  obtain ⟨rfl, rfl⟩ := same
  refine ⟨rfl, fun value read belongs reads => ?_, fun belongs => ?_⟩
  · obtain ⟨count, exposed⟩ := exposes value belongs
    cases reads.eq_of_member exposed
    exact .primitive rfl
  · obtain ⟨count, exposed⟩ := exposes .undefined belongs
    cases exposed

/-- The read of the length of an array. -/
theorem readBelongs_array
    {arena : Arena}
    {element : Ty}
    (undeclared :
      (Ty.array occurrence element readonly).indexAnswers name = false)
    (read :
      Checker.readShape
        { properties := [{ name := "length", type := .number }]
          index := some { key := .number, value := element } } name =
        some found) :
    ReadBelongs arena (.array occurrence element readonly) name found := by
  have same : name = "length" ∧ found = .number := by
    by_cases isLength : name = "length"
    · subst isLength
      cases read
      exact ⟨rfl, rfl⟩
    · have notIndexed : indexApplies .number name = false := by
        simpa [Ty.indexAnswers, isLength] using undeclared
      simp [Checker.readShape, Shape.property?, Ne.symm isLength, notIndexed]
        at read
  obtain ⟨rfl, rfl⟩ := same
  refine ⟨rfl, fun value read belongs reads => ?_, fun belongs => ?_⟩
  · obtain ⟨values, rfl, _⟩ := holds_array.mp belongs
    cases reads.eq_of_member rfl
    exact .primitive rfl
  · obtain ⟨values, ⟨⟩, _⟩ := holds_array.mp belongs

/-- The read of the length or of a position of a tuple. -/
theorem readBelongs_tuple
    {arena : Arena}
    {elements : List Ty}
    {element : Ty}
    (admitted :
      Fragment.narrowing.admits (.tuple occurrence elements readonly) = true)
    (undeclared :
      (Ty.tuple occurrence elements readonly).indexAnswers name = false)
    (read :
      Checker.readShape
        { properties :=
            { name := "length"
              type := .ofLiteral (.number (Number.ofNat elements.length))
              readonly := true } ::
              positionProperties readonly 0 elements
          index := some { key := .number, value := element } } name =
        some found) :
    ReadBelongs arena (.tuple occurrence elements readonly) name found := by
  have notUndefined :
      ¬ Belongs arena (.tuple occurrence elements readonly) .undefined := by
    intro belongs
    obtain ⟨values, ⟨⟩, _⟩ := holds_tuple.mp belongs
  by_cases isLength : name = "length"
  · subst isLength
    cases read
    refine ⟨?_, fun value read belongs reads => ?_,
      fun belongs => (notUndefined belongs).elim⟩
    · simp [Ty.ofLiteral, Fragment.admits, Literal.isNaN, Number.isNaN_ofNat]
    · obtain ⟨values, rfl, related⟩ := holds_tuple.mp belongs
      cases reads.eq_of_member rfl
      rw [← related.length_eq]
      exact holds_length elements.length
  · unfold Checker.readShape Shape.property? at read
    rw [List.find?_cons_of_neg (by simpa using Ne.symm isLength)] at read
    split at read
    · next property declared =>
      obtain ⟨required, inElements⟩ := position_declared declared
      simp only [required, Bool.false_eq_true, if_false,
        Option.some.injEq] at read
      subst read
      refine ⟨Fragment.admits_tuple.mp admitted _ inElements,
        fun value read belongs reads => ?_,
        fun belongs => (notUndefined belongs).elim⟩
      obtain ⟨values, rfl, related⟩ := holds_tuple.mp belongs
      obtain ⟨found, exposed, belongs⟩ := holds_position related declared
      have exposed :
          (Value.list values).member? name = some found :=
        (exposes_position isLength).trans exposed
      rw [reads.eq_of_member exposed]
      exact belongs
    · next lacks =>
      have unnamed :
          (positionProperties false 0 elements).any (·.name == name) =
            false := by
        rw [position_named false readonly, ← Bool.not_eq_true]
        simpa using lacks
      have notIndexed : indexApplies .number name = false := by
        simpa [Ty.indexAnswers, isLength, unnamed] using undeclared
      simp [notIndexed] at read

namespace Checker

variable {checker : Checker}

/-- The members that a type exposes hold what is read from its values. -/
theorem readBelongs_of_apparent
    {member : Ty}
    (admitted : Fragment.narrowing.admits member = true)
    (notUnion : member.isUnion = false)
    (undeclared : member.indexAnswers name = false)
    (settles : Settles (checker.apparent member) (some shape))
    (read : readShape shape name = some found) :
    ReadBelongs checker.arena member name found := by
  unfold apparent at settles
  generalize checker.budget = budget at settles
  cases budget with
  | zero =>
      exact (not_settles_exhausted settles).elim
  | succ budget =>
    unfold apparentWithin at settles
    cases member with
    | primitive kind =>
        cases kind <;> cases settles_pure.mp settles
        · exact readBelongs_length (fun _ => exposes_length_of_string) read
        · cases read
        · cases read
    | literal occurrence expected =>
        cases expected <;> cases settles_pure.mp settles
        · exact readBelongs_length (fun _ => exposes_length_of_literal) read
        · cases read
        · cases read
    | object occurrence shape =>
        cases settles_pure.mp settles
        exact readBelongs_object admitted read
    | array occurrence element readonly =>
        cases settles_pure.mp settles
        exact readBelongs_array undeclared read
    | tuple occurrence elements readonly =>
        obtain ⟨element, _, settles⟩ := settles_bind.mp settles
        cases settles_pure.mp settles
        exact readBelongs_tuple admitted undeclared read
    | function occurrence signature =>
        cases settles_pure.mp settles
        exact readBelongs_length (fun _ => exposes_length_of_function) read
    | _ =>
        simp_all [Fragment.admits, Fragment.narrowing, Ty.isUnion]

/-- A type that is no reference is its own structural type, or too deep. -/
theorem resolve_eq
    (checker : Checker)
    (depth : Nat)
    {type : Ty}
    (notReference : type.isReference = false) :
    checker.evaluation.resolve depth type = pure type ∨
      checker.evaluation.resolve depth type = checker.failTooComplex type := by
  unfold Evaluation.resolve
  cases checker.evaluation.remainingFrom depth with
  | zero =>
      exact .inr (by rw [Evaluation.resolveWithin]; rfl)
  | succ remaining =>
      left
      rw [Evaluation.resolveWithin.eq_def]
      cases type <;> simp_all [Ty.isReference]

/-- An exceeded depth bound is reported. -/
theorem not_settles_failTooComplex
    {type : Ty}
    {next : α → Evaluate β} :
    ¬ Settles (checker.failTooComplex type >>= next).run answer := by
  rintro ⟨added, run, quiet⟩
  cases run
  exact quiet _ (List.mem_singleton.mpr rfl) rfl

/-- A type that is no union is a normal form of itself. -/
theorem isNormalOf_self
    {type : Ty}
    (admitted : Fragment.narrowing.admits type = true)
    (notUnion : type.isUnion = false) :
    IsNormalOf .narrowing .narrowing checker.arena type type :=
  ⟨admitted, fun _ => .rfl, Ty.isFlat_of_not_isUnion notUnion, id⟩

/-- Merging has nothing to do where there are no intersections. -/
theorem normalizeMerged_settles
    {type : Ty}
    (admitted : Fragment.narrowing.admits type = true)
    (settles :
      Settles (checker.evaluation.normalizeMerged depth type) result) :
    IsNormalOf .narrowing .narrowing checker.arena type result := by
  unfold Evaluation.normalizeMerged at settles
  obtain ⟨normalized, normalizes, settles⟩ :=
    settles.of_bind fun normalized => by
      split
      · refine @Appends.ofBind _ _ _ _ _ fun merged => ?_
        cases merged <;> (dsimp only; infer_instance)
      · infer_instance
  have normal := normalizeAt_settles admitted normalizes
  have normalAdmitted := normal.admits
  cases normalized with
  | intersection occurrence members =>
      simp [Fragment.admits, Fragment.narrowing] at normalAdmitted
  | _ =>
      cases settles_pure.mp settles
      exact normal

/-- The structural type behind a type of the fragment is a normal form of it. -/
theorem structural_settles
    {type : Ty}
    (admitted : Fragment.narrowing.admits type = true)
    (settles : Settles (checker.structural depth type) answer) :
    ∃ result,
      answer = .ok result ∧
        IsNormalOf .narrowing .narrowing checker.arena type result := by
  unfold structural Evaluation.structural at settles
  rw [Evaluation.structuralWithin.eq_def] at settles
  dsimp only at settles
  rcases resolve_eq checker depth (not_isReference admitted) with
    resolved | tooDeep
  · rw [resolved, pure_bind] at settles
    cases type with
    | union occurrence members =>
        dsimp only at settles
        generalize
          checker.evaluation.remainingFrom depth = remaining at settles
        rcases settles.of_evaluateBind (fun normalized => by
          cases remaining <;> infer_instance) with
          ⟨normalized, merged, settles⟩ | ⟨error, merged, _⟩
        · obtain ⟨_, ⟨⟩, merged⟩ := merged.of_evaluateLift
          have normal := normalizeMerged_settles admitted merged
          rw [not_isReference normal.admits] at settles
          exact ⟨normalized, settles_pure.mp settles, normal⟩
        · obtain ⟨_, ⟨⟩, _⟩ := merged.of_evaluateLift
    | intersection occurrence members =>
        simp [Fragment.admits, Fragment.narrowing] at admitted
    | _ =>
        exact ⟨_, settles_pure.mp settles, isNormalOf_self admitted rfl⟩
  · rw [tooDeep] at settles
    exact (not_settles_failTooComplex settles).elim

/-- Reading a property is typed through the members of unions. -/
theorem propertyWithin_settles
    (budget : Nat)
    {type : Ty}
    (admitted : Fragment.narrowing.admits type = true)
    (undeclared : type.indexAnswers name = false)
    (settles :
      Settles (checker.propertyWithin budget type name) (some found)) :
    ReadBelongs checker.arena type name found := by
  induction budget generalizing type found with
  | zero =>
      exact (not_settles_exhausted settles).elim
  | succ budget inductionHypothesis =>
      unfold propertyWithin at settles
      obtain ⟨answer, resolves, settles⟩ := settles.of_bind fun answer => by
        split
        · infer_instance
        · refine @Appends.ofBind _ _ _ _
              (Appends.ofOptionMapM _ _ fun member => inferInstance)
              fun found => ?_
          cases found <;> (dsimp only; infer_instance)
        · infer_instance
        · refine @Appends.ofBind _ _ _ _ _ fun found => ?_
          cases found <;> (dsimp only; infer_instance)
      obtain ⟨structural, rfl, normal⟩ := structural_settles admitted resolves
      have parts := normal.membersOf
      split at settles
      · next failed =>
        cases failed
      · next occurrence members same =>
        cases same
        obtain ⟨types, visits, settles⟩ := settles.of_bind fun types => by
          cases types <;> (dsimp only; infer_instance)
        cases types with
        | none =>
            cases settles_pure.mp settles
        | some types =>
            obtain ⟨result, normalizes, settles⟩ := settles_bind.mp settles
            cases settles_pure.mp settles
            have inMembers :=
              (List.forall₂_and_left members types).mpr
                ⟨fun _ => id, visits.of_optionMapM⟩
            refine (readBelongs_union parts (inMembers.imp ?_)).normalize
              normalizes
            rintro member found ⟨inMembers, settles⟩
            exact inductionHypothesis (parts.admits member inMembers)
              (parts.positions undeclared member inMembers) settles
      · cases settles_pure.mp settles
        exact ⟨rfl, fun value read _ _ => .primitive rfl,
          fun _ => .primitive rfl⟩
      · next other notUnion _ same =>
        cases same
        have notUnion : structural.isUnion = false := by
          cases structural with
          | union occurrence members =>
              exact (notUnion occurrence members rfl).elim
          | _ =>
              rfl
        have structuralUndeclared : structural.indexAnswers name = false := by
          by_contra indexed
          rw [normal.positions (by simpa using indexed)] at undeclared
          cases undeclared
        obtain ⟨members, exposes, settles⟩ := settles.of_bind fun members => by
          cases members <;> (dsimp only; infer_instance)
        cases members with
        | none =>
            cases settles_pure.mp settles
        | some shape =>
            exact .of_normal normal
              (readBelongs_of_apparent normal.admits notUnion
                structuralUndeclared exposes (settles_pure.mp settles).symm)

/-- The type of reading a property holds what the read yields. -/
theorem propertyOf_settles
    {type : Ty}
    (admitted : Fragment.narrowing.admits type = true)
    (undeclared : type.indexAnswers name = false)
    (settles : Settles (checker.propertyOf type name) (some found)) :
    ReadBelongs checker.arena type name found :=
  propertyWithin_settles checker.budget admitted undeclared settles

end Checker

end StructuralTyping
