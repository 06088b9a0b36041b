import StructuralTyping.Proofs.Evaluation
import StructuralTyping.Proofs.NormalForm
import StructuralTyping.Proofs.ReportingNarrowing

namespace StructuralTyping

/-!
# Narrowing a type keeps the values that pass the test

Each test on a value narrows the members of its type one by one. A value that
belongs to the type and passes the test belongs to what remains, provided that
no exceeded depth was reported on the way.
-/

open Check

/-- A value belongs to a type, in the reading of narrowing. -/
abbrev Belongs
    (arena : Arena)
    (type : Ty)
    (value : Value) :
    Prop :=
  Holds .narrowing arena type value

/-- Every arena suits the narrowing fragment, which has no names. -/
theorem Fragment.narrowing_sound
    (arena : Arena) :
    Fragment.narrowing.Sound .narrowing arena :=
  ⟨nofun, nofun, nofun⟩

/-- What the members of a type are in the narrowing fragment. -/
structure MembersOf
    (arena : Arena)
    (type : Ty)
    (members : List Ty) :
    Prop where
  admits :
    ∀ member ∈ members, Fragment.narrowing.admits member = true
  flat :
    ∀ member ∈ members, member.isUnion = false
  holds :
    ∀ value,
      Belongs arena type value ↔
        ∃ member ∈ members, Belongs arena member value
  positions :
    ∀ {name},
      type.indexAnswers name = false →
      ∀ member ∈ members, member.indexAnswers name = false

/-- The members of a normal form are members of the type. -/
theorem IsNormalOf.membersOf
    {arena : Arena}
    (normal : IsNormalOf .narrowing .narrowing arena type result) :
    MembersOf arena type result.members where
  admits := Fragment.admits_members.mp normal.admits
  flat := normal.flat
  holds value := (normal.holds value).symm.trans holds_members
  positions {name} undeclared member inMembers := by
    by_contra indexed
    have whole :=
      normal.positions
        (Ty.indexAnswers_members.mpr
          ⟨member, inMembers, Bool.not_eq_false _ ▸ indexed⟩)
    rw [undeclared] at whole
    cases whole

namespace Checker

variable {checker : Checker}

/-- A type of the narrowing fragment is its own structural type. -/
theorem resolve_eq_pure
    {type : Ty}
    (notReference : type.isReference = false) :
    checker.evaluation.resolve 0 type = pure type := by
  unfold Evaluation.resolve Evaluation.remainingFrom
  rw [Nat.sub_zero, Evaluation.resolveWithin.eq_def]
  cases type <;> simp_all [Ty.isReference]

/-- No type of the narrowing fragment is a reference. -/
theorem not_isReference
    {type : Ty}
    (admitted : Fragment.narrowing.admits type = true) :
    type.isReference = false := by
  cases type <;> simp_all [Ty.isReference, Fragment.admits, Fragment.narrowing]

/-- Expanding a member that is no union changes nothing. -/
theorem expand_eq_pure
    {type : Ty}
    (admitted : Fragment.narrowing.admits type = true)
    (notUnion : type.isUnion = false) :
    checker.expand type = pure type := by
  have structural : checker.structural 0 type = pure (.ok type) := by
    unfold structural Evaluation.structural Evaluation.structuralWithin
    rw [resolve_eq_pure (not_isReference admitted)]
    cases type <;> simp_all [Ty.isUnion, Fragment.admits, Fragment.narrowing]
  unfold expand
  rw [structural]
  rfl

/-- Normalization that settles answers with a normal form. -/
theorem normalizeAt_settles
    (admitted : Fragment.narrowing.admits type = true)
    (settles :
      Settles (checker.evaluation.normalizeAt depth type) result) :
    IsNormalOf .narrowing .narrowing checker.arena type result :=
  @normalizeIn_settles .narrowing .narrowing type checker.budget depth result
    { checker
      evaluate := checker.evaluation.evaluate
      keepReferences := false }
    (inferInstanceAs checker.evaluation.evaluate.Reports)
    (Fragment.narrowing_sound checker.arena) rfl admitted settles

@[inherit_doc normalizeAt_settles]
theorem normalize_settles
    (admitted : Fragment.narrowing.admits type = true)
    (settles : Settles (checker.normalize type) result) :
    IsNormalOf .narrowing .narrowing checker.arena type result :=
  normalizeAt_settles admitted settles

/-- The members of a type hold its values, and none of them is a union. -/
theorem membersOf_settles
    (admitted : Fragment.narrowing.admits type = true)
    (settles : Settles (checker.membersOf type) members) :
    MembersOf checker.arena type members := by
  unfold membersOf at settles
  obtain ⟨normalized, normalizes, settles⟩ :=
    settles.of_bind fun normalized => by
      split
      · refine @Appends.ofBind _ _ _ _ _ fun expanded => ?_
        split <;> infer_instance
      · infer_instance
  have normal := normalize_settles admitted normalizes
  rw [if_neg (by simp [not_isReference normal.admits])] at settles
  cases settles_pure.mp settles
  exact normal.membersOf

/-- A narrowed type keeps the values of a type that pass a test. -/
abbrev Retains
    (arena : Arena)
    (test : Value → Prop)
    (type result : Ty) :
    Prop :=
  Fragment.narrowing.admits result = true ∧
    ∀ value : Value,
      value.NaNFree →
      Belongs arena type value →
      test value →
      Belongs arena result value

/-- Narrowing a type keeps the values that pass a test. -/
def Narrows
    (arena : Arena)
    (narrow : Ty → Check Ty)
    (test : Value → Prop) :
    Prop :=
  ∀ {type result},
    Fragment.narrowing.admits type = true →
    Settles (narrow type) result →
    Retains arena test type result

/-- What remains of a member keeps its values that pass a test. -/
structure Keeps
    (arena : Arena)
    (test : Value → Prop)
    (member result : Ty) :
    Prop where
  admits :
    result ≠ .absent →
    Fragment.narrowing.admits result = true
  belongs :
    ∀ value : Value,
      value.NaNFree →
      Belongs arena member value →
      test value →
      result ≠ .absent ∧ Belongs arena result value

/-- Narrowing a member keeps the values that pass a test, or drops it. -/
def NarrowsMember
    (arena : Arena)
    (narrow : Ty → Check Ty)
    (test : Value → Prop) :
    Prop :=
  ∀ {member result},
    Fragment.narrowing.admits member = true →
    member.isUnion = false →
    Settles (narrow member) result →
    Keeps arena test member result

/-- A boolean value belongs to the literal type of its constant. -/
theorem belongs_boolean
    {arena : Arena}
    (belongs : Belongs arena .boolean value) :
    ∃ constant : Bool,
      value = .ofBool constant ∧
        Belongs arena (.ofLiteral (.boolean constant)) value := by
  have holds := holds_primitive.mp belongs
  cases value with
  | constant literal =>
      cases literal <;> simp [Primitive.holds] at holds
      exact ⟨_, rfl, .literal (by simp [Literal.equal])⟩
  | _ =>
      simp [Primitive.holds] at holds

/-- Narrowing one member keeps the values that pass the test. -/
theorem narrowMember_settles
    {arena : Arena}
    {narrow : Ty → Check Ty}
    [∀ member, Appends (narrow member)]
    (narrows : NarrowsMember arena narrow test)
    (admitted : Fragment.narrowing.admits member = true)
    (notUnion : member.isUnion = false)
    (settles : Settles (narrowMember narrow member) results) :
    (∀ result ∈ results,
      result ≠ .absent → Fragment.narrowing.admits result = true) ∧
      ∀ value : Value,
        value.NaNFree →
        Belongs arena member value →
        test value →
        ∃ result ∈ results,
          result ≠ .absent ∧ Belongs arena result value := by
  unfold narrowMember at settles
  split at settles
  · next isBoolean =>
    cases eq_of_isPrimitive isBoolean
    dsimp only at settles
    obtain ⟨positive, positiveSettles, settles⟩ := settles_bind.mp settles
    obtain ⟨negative, negativeSettles, settles⟩ := settles_bind.mp settles
    have constantAdmitted :
        ∀ constant : Bool,
          Fragment.narrowing.admits (.ofLiteral (.boolean constant)) = true :=
      fun constant => rfl
    have positiveNarrows :=
      narrows (constantAdmitted true) rfl positiveSettles
    have negativeNarrows :=
      narrows (constantAdmitted false) rfl negativeSettles
    split at settles
    · cases settles_pure.mp settles
      refine ⟨by simp [Fragment.admits], fun value _ belongs _ => ?_⟩
      exact ⟨.boolean, by simp, by simp, belongs⟩
    · cases settles_pure.mp settles
      constructor
      · intro result member
        rcases List.mem_cons.mp member with rfl | member
        · exact positiveNarrows.1
        · cases List.mem_singleton.mp member
          exact negativeNarrows.1
      · intro value proper belongs passes
        obtain ⟨constant, _, belongsConstant⟩ := belongs_boolean belongs
        cases constant with
        | true =>
            exact ⟨positive, by simp,
              positiveNarrows.2 value proper belongsConstant passes⟩
        | false =>
            exact ⟨negative, by simp,
              negativeNarrows.2 value proper belongsConstant passes⟩
  · obtain ⟨result, narrowed, settles⟩ := settles_bind.mp settles
    cases settles_pure.mp settles
    obtain ⟨resultAdmitted, keeps⟩ := narrows admitted notUnion narrowed
    refine ⟨by simpa using resultAdmitted, fun value proper belongs passes =>
      ⟨result, by simp, keeps value proper belongs passes⟩⟩

/-- Narrowing every member of a type keeps the values that pass the test. -/
theorem narrowMembers_narrows
    {narrow : Ty → Check Ty}
    [∀ member, Appends (narrow member)]
    (narrows : NarrowsMember checker.arena narrow test) :
    Narrows checker.arena (checker.narrowMembers · narrow) test := by
  intro type result admitted settles
  unfold narrowMembers at settles
  obtain ⟨members, membersSettle, settles⟩ := settles_bind.mp settles
  obtain ⟨narrowed, visits, settles⟩ := settles_bind.mp settles
  have parts := membersOf_settles admitted membersSettle
  have related := visits.of_mapM
  have each :
      ∀ member ∈ members, ∀ results,
        Settles (narrowMember narrow member) results →
        (∀ result ∈ results,
          result ≠ .absent → Fragment.narrowing.admits result = true) ∧
          ∀ value : Value,
            value.NaNFree →
            Belongs checker.arena member value →
            test value →
            ∃ result ∈ results,
              result ≠ .absent ∧ Belongs checker.arena result value :=
    fun member inMembers results settles =>
      narrowMember_settles narrows (parts.admits member inMembers)
        (parts.flat member inMembers) settles
  have keptAdmitted :
      Fragment.narrowing.admits
        (.ofUnion (narrowed.flatten.filter fun member =>
          !member.isAbsent)) = true := by
    refine Fragment.admits_union.mpr fun result kept => ?_
    obtain ⟨inNarrowed, present⟩ := List.mem_filter.mp kept
    obtain ⟨results, inResults, member⟩ := List.mem_flatten.mp inNarrowed
    obtain ⟨source, inMembers, settles⟩ :=
      exists_related_left related inResults
    refine (each source inMembers results settles).1 result member ?_
    rintro rfl
    simp [Ty.isAbsent] at present
  have normal := normalize_settles keptAdmitted settles
  refine ⟨normal.admits, fun value proper belongs passes => ?_⟩
  obtain ⟨member, inMembers, belongs⟩ := (parts.holds value).mp belongs
  obtain ⟨results, inNarrowed, settles⟩ :=
    exists_related_right related inMembers
  obtain ⟨result, inResults, present, belongs⟩ :=
    (each member inMembers results settles).2 value proper belongs passes
  refine (normal.holds value).mpr (.union ?_ belongs)
  refine List.mem_filter.mpr
    ⟨List.mem_flatten.mpr ⟨results, inNarrowed, inResults⟩, ?_⟩
  cases result <;> simp_all [Ty.isAbsent]

/-- A type may be kept on a condition that values passing the test meet. -/
theorem Keeps.keepIf
    {arena : Arena}
    {member kept : Ty}
    {test : Value → Prop}
    (admitted : Fragment.narrowing.admits kept = true)
    (keeps : ∀ value : Value,
      value.NaNFree →
      Belongs arena member value →
      test value →
      keep = true ∧ Belongs arena kept value) :
    Keeps arena test member (keepIf keep kept) := by
  constructor
  · intro present
    cases keep <;> simp_all [Checker.keepIf]
  · intro value proper belongs passes
    obtain ⟨rfl, belongs⟩ := keeps value proper belongs passes
    exact ⟨Fragment.ne_absent admitted, belongs⟩

/-- A member that stays as it is keeps all its values. -/
theorem Keeps.self
    {arena : Arena}
    {member : Ty}
    {test : Value → Prop}
    (admitted : Fragment.narrowing.admits member = true) :
    Keeps arena test member member :=
  ⟨fun _ => admitted, fun _ _ belongs _ =>
    ⟨Fragment.ne_absent admitted, belongs⟩⟩

/-- A value that satisfies a condition belongs to no member that never does. -/
theorem not_alwaysFalsy
    {arena : Arena}
    {member : Ty}
    (belongs : Belongs arena member value)
    (truthy : value.truthy = true) :
    alwaysFalsy member = false := by
  unfold alwaysFalsy
  split
  · cases value <;> simp_all [Primitive.holds, Value.truthy]
  · cases value <;> simp_all [Primitive.holds, Value.truthy]
  · cases value <;> simp_all [Primitive.holds, Value.truthy]
  · obtain ⟨actual, rfl, equal⟩ := holds_literal.mp belongs
    simp only [Value.truthy, Bool.not_eq_true', Bool.or_eq_false_iff]
      at truthy
    rw [Literal.falsy_eq_of_equal equal]
    exact truthy.1
  · rfl

/-- The truthy part of a type holds its values that satisfy a condition. -/
theorem truthy_narrows :
    Narrows checker.arena checker.truthy (·.truthy = true) := by
  refine narrowMembers_narrows ?_
  intro member result admitted _ settles
  cases settles_pure.mp settles
  exact .keepIf admitted fun value _ belongs truthy =>
    ⟨by simp [not_alwaysFalsy belongs truthy], belongs⟩

/-- Objects, sequences and functions satisfy every condition. -/
theorem truthy_of_isObjectLike
    {arena : Arena}
    {member : Ty}
    (isObjectLike : member.isObjectLike = true)
    (belongs : Belongs arena member value) :
    value.truthy = true := by
  cases member <;> simp [Ty.isObjectLike] at isObjectLike
  · have isObject := (holds_object.mp belongs).1
    cases value <;>
      simp_all [Reading.isObject, Reading.narrowing, Value.isPlainObject,
        Value.truthy]
  · obtain ⟨_, rfl, _⟩ := holds_array.mp belongs
    rfl
  · obtain ⟨_, rfl, _⟩ := holds_tuple.mp belongs
    rfl
  · obtain ⟨_, rfl⟩ := holds_function.mp belongs
    rfl

/-- A text that fails a condition is empty, a number zero. -/
theorem falsyMember_narrows :
    NarrowsMember checker.arena checker.falsyMember
      (·.truthy = false) := by
  intro member result admitted _ settles
  unfold falsyMember at settles
  split at settles
  · cases settles_pure.mp settles
    refine ⟨fun _ => rfl, fun value _ belongs falsy =>
      ⟨by simp [Ty.ofLiteral], ?_⟩⟩
    cases value with
    | constant literal =>
        cases literal <;> simp [Primitive.holds] at belongs
        rename_i text _
        have empty : text.letters = [] := by
          simpa [Value.truthy, Literal.falsy, Literal.isNaN,
            Text.RawText.isEmpty] using falsy
        refine .literal ?_
        obtain ⟨letters⟩ := text
        subst empty
        rfl
    | _ =>
        simp [Primitive.holds] at belongs
  · cases settles_pure.mp settles
    refine ⟨fun _ => rfl, fun value proper belongs falsy =>
      ⟨by simp [Ty.ofLiteral], ?_⟩⟩
    cases value with
    | constant literal =>
        cases literal <;> simp [Primitive.holds] at belongs
        next number =>
        cases proper with
        | constant isNumber =>
        simp only [Literal.isNaN] at isNumber
        have isZero : number.isZero = true := by
          simpa [Value.truthy, Literal.falsy, Literal.isNaN, isNumber]
            using falsy
        have zero : (Number.ofNat 0).isZero = true := by decide
        refine .literal ?_
        simp [Literal.equal, Number.equal, isNumber, isZero, zero,
          Number.isNaN_ofNat]
    | _ =>
        simp [Primitive.holds] at belongs
  · cases settles_pure.mp settles
    exact .self admitted
  · cases settles_pure.mp settles
    refine .keepIf admitted fun value proper belongs falsy =>
      ⟨?_, belongs⟩
    obtain ⟨actual, rfl, equal⟩ := holds_literal.mp belongs
    cases proper with
    | constant isNumber =>
    rw [Literal.falsy_eq_of_equal equal]
    simpa [Value.truthy, isNumber] using falsy
  · simp [Fragment.admits, Fragment.narrowing] at admitted
  · cases settles_pure.mp settles
    refine .keepIf admitted fun value _ belongs falsy => ⟨?_, belongs⟩
    by_contra isObjectLike
    rw [truthy_of_isObjectLike (by simpa using isObjectLike) belongs] at falsy
    cases falsy

/-- The falsy part of a type holds its values that fail a condition. -/
theorem falsy_narrows :
    Narrows checker.arena checker.falsy (·.truthy = false) :=
  narrowMembers_narrows falsyMember_narrows

/-- What remains of a condition holds the values with its outcome. -/
theorem truthiness_narrows
    (branch : Bool) :
    Narrows checker.arena (checker.truthiness branch)
      (·.truthy = branch) := by
  cases branch with
  | false =>
      exact falsy_narrows
  | true =>
      exact truthy_narrows

/-- All values of a type with a tag have this tag. -/
theorem tag_of_typeofTag
    {arena : Arena}
    {member : Ty}
    (belongs : Belongs arena member value)
    (tagged : member.typeofTag? = some tag) :
    value.tag = tag := by
  unfold Ty.typeofTag? at tagged
  split at tagged <;> cases tagged
  case h_7 =>
    obtain ⟨actual, rfl, equal⟩ := holds_literal.mp belongs
    rw [Literal.base_eq_of_equal equal]
    rfl
  case h_8 =>
    have isObject := (holds_object.mp belongs).1
    cases value <;>
      simp_all [Reading.isObject, Reading.narrowing, Value.isPlainObject,
        Value.tag]
  case h_9 =>
    obtain ⟨_, rfl, _⟩ := holds_array.mp belongs
    rfl
  case h_10 =>
    obtain ⟨_, rfl, _⟩ := holds_tuple.mp belongs
    rfl
  case h_11 =>
    obtain ⟨_, rfl⟩ := holds_function.mp belongs
    rfl
  all_goals
    cases value with
    | constant literal =>
        cases literal <;> simp_all [Primitive.holds, Value.tag] <;> rfl
    | _ =>
        simp_all [Primitive.holds, Value.tag]

/-- The tag of a type of the narrowing fragment needs no arena. -/
theorem typeofTag_eq
    {arena : Arena}
    {member : Ty}
    (admitted : Fragment.narrowing.admits member = true) :
    arena.typeofTag? member = member.typeofTag? := by
  have resolved :
      arena.resolve member Arena.defaultHops = .resolved member := by
    cases member <;>
      simp_all [Fragment.admits, Fragment.narrowing, Arena.resolve,
        Arena.defaultHops, Arena.followReferences]
  rw [Arena.typeofTag?, resolved]

/-- Without the replacement character a text stands for its own characters. -/
theorem letters_of_replaced
    {letters : List Text.RawLetter}
    {characters : List Char}
    (proper : Char.ofNat 0xfffd ∉ characters)
    (same :
      letters.map (fun letter =>
        (Text.RawText.character? letter).getD (Char.ofNat 0xfffd)) =
          characters) :
    letters = characters.map .character := by
  induction letters generalizing characters with
  | nil =>
      subst same
      rfl
  | cons letter rest inductionHypothesis =>
      subst same
      simp only [List.map_cons, List.mem_cons, not_or] at proper
      cases letter with
      | byte value =>
          exact absurd rfl proper.1
      | character value =>
          simpa [Text.RawText.character?] using
            inductionHypothesis proper.2 rfl

/-- A tag is compared with the text that it is. -/
theorem tag_eq_replaced
    (value : Value)
    (text : Text.RawText) :
    (value.tag == text.replaced) =
      (Text.RawText.ofString value.tag == text) := by
  have proper : Char.ofNat 0xfffd ∉ value.tag.toList := by
    cases value with
    | constant literal =>
        cases literal <;>
          (simp only [Value.tag, Literal.base, Primitive.name]; decide)
    | _ =>
        simp only [Value.tag]
        decide
  rw [Bool.eq_iff_iff, beq_iff_eq, beq_iff_eq]
  constructor
  · intro same
    obtain ⟨letters⟩ := text
    have characters : letters = value.tag.toList.map .character :=
      letters_of_replaced proper (by simp [same, Text.RawText.replaced])
    simp [Text.RawText.ofString, characters]
  · rintro rfl
    simp [Text.RawText.replaced, Text.RawText.ofString, Function.comp_def,
      Text.RawText.character?]

/-- Every value belongs to `any` and `unknown`. -/
theorem belongs_of_isAnyOrUnknown
    {arena : Arena}
    {member : Ty}
    (isTop : isAnyOrUnknown member = true)
    (value : Value) :
    Belongs arena member value := by
  rcases Bool.or_eq_true_iff.mp isTop with isAny | isUnknown
  · cases eq_of_isPrimitive isAny
    exact .primitive rfl
  · cases eq_of_isPrimitive isUnknown
    exact .primitive rfl

/-- A tag names a type of the narrowing fragment. -/
theorem admits_of_tagPrimitive
    (named : tagPrimitive? tag = some type) :
    Fragment.narrowing.admits type = true := by
  unfold tagPrimitive? at named
  split at named <;> cases named <;> rfl

/-- A tag names the primitive type of the values that have it. -/
theorem belongs_of_tagPrimitive
    {arena : Arena}
    {value : Value}
    (named : tagPrimitive? value.tag = some type) :
    Belongs arena type value := by
  cases value with
  | constant literal =>
      cases literal <;> cases named <;> exact .primitive rfl
  | _ =>
      cases named <;> exact .primitive rfl

/-- Narrowing by a type tag keeps the values with, or without, this tag. -/
theorem narrowTypeof_narrows
    (tag : String)
    (branch : Bool) :
    Narrows checker.arena (checker.narrowTypeof tag branch)
      (fun value => (value.tag == tag) = branch) := by
  refine narrowMembers_narrows ?_
  intro member result admitted notUnion settles
  unfold typeofMember at settles
  split at settles
  · next isTop =>
    split at settles
    · cases settles_pure.mp settles
      cases named : tagPrimitive? tag with
      | none =>
          exact .self admitted
      | some primitive =>
          refine ⟨fun _ => admits_of_tagPrimitive named,
            fun value _ _ passes => ?_⟩
          have sameTag : value.tag = tag := by simp_all
          subst sameTag
          exact ⟨Fragment.ne_absent (admits_of_tagPrimitive named),
            belongs_of_tagPrimitive named⟩
    · cases settles_pure.mp settles
      exact .self admitted
  · rw [expand_eq_pure admitted notUnion, pure_bind,
      typeofTag_eq admitted] at settles
    split at settles
    · cases settles_pure.mp settles
      exact .self admitted
    · next actual tagged =>
      cases settles_pure.mp settles
      refine .keepIf admitted fun value _ belongs passes => ⟨?_, belongs⟩
      rw [← tag_of_typeofTag belongs tagged, passes, beq_self_eq_true]

end Checker

end StructuralTyping
