import StructuralTyping.Proofs.NarrowingEquality
import StructuralTyping.Proofs.PropertyReads

namespace StructuralTyping

/-!
# The meaning of facts

Facts hold in an environment when the values of their names belong to the types
proved for them. Layering facts, joining the facts of two paths and narrowing
one name keep this, for every entry that the facts have.
-/

open Check

/-- Entries of names with their types that are all within the fragment. -/
def Facts.Admitted
    (facts : Facts) :
    Prop :=
  ∀ entry ∈ facts.entries, Fragment.narrowing.admits entry.2 = true

/-- The values of names belong to the types proved for the names. -/
def Facts.Hold
    (arena : Arena)
    (environment : Environment)
    (facts : Facts) :
    Prop :=
  ∀ entry ∈ facts.entries,
    ∀ value, environment entry.1 = some value → Belongs arena entry.2 value

namespace Facts

/-- A fact that was found is an entry. -/
theorem mem_of_find?
    {facts : Facts}
    (found : facts.find? name = some type) :
    (name, type) ∈ facts.entries := by
  obtain ⟨⟨other, proved⟩, first, rfl⟩ := Option.map_eq_some_iff.mp found
  have same : other = name := by
    simpa using List.find?_some first
  subst same
  exact List.mem_of_find?_eq_some first

/-- An entry of extended facts is the new one or an old one. -/
theorem mem_insertEntry
    {entries : List (String × Ty)}
    (member : entry ∈ insertEntry name type entries) :
    entry = (name, type) ∨ entry ∈ entries := by
  induction entries with
  | nil =>
      exact .inl (List.mem_singleton.mp member)
  | cons first rest inductionHypothesis =>
      obtain ⟨other, otherType⟩ := first
      unfold insertEntry at member
      split at member
      · rcases List.mem_cons.mp member with same | inRest
        · exact .inl same
        · exact .inr (.tail _ inRest)
      split at member
      · rcases List.mem_cons.mp member with same | inRest
        · exact .inl same
        · exact .inr inRest
      · rcases List.mem_cons.mp member with rfl | inRest
        · exact .inr (by simp)
        · rcases inductionHypothesis inRest with same | inRest
          · exact .inl same
          · exact .inr (.tail _ inRest)

/-- An entry of layered facts is one of either layer. -/
theorem mem_overlay
    {facts later : Facts}
    (member : entry ∈ (facts.overlay later).entries) :
    entry ∈ facts.entries ∨ entry ∈ later.entries := by
  obtain ⟨added⟩ := later
  unfold overlay at member
  induction added generalizing facts with
  | nil =>
      exact .inl member
  | cons first rest inductionHypothesis =>
      rcases inductionHypothesis member with inFacts | inRest
      · rcases mem_insertEntry inFacts with rfl | inFacts
        · exact .inr (by simp)
        · exact .inl inFacts
      · exact .inr (.tail _ inRest)

/-- No facts are within the fragment. -/
theorem admitted_empty :
    Facts.Admitted {} := by
  simp [Facts.Admitted]

/-- No facts hold everywhere. -/
theorem hold_empty :
    Facts.Hold arena environment {} := by
  simp [Facts.Hold]

/-- Layered facts are within the fragment when both layers are. -/
theorem Admitted.overlay
    {facts later : Facts}
    (first : facts.Admitted)
    (second : later.Admitted) :
    (facts.overlay later).Admitted := by
  intro entry member
  rcases mem_overlay member with inFacts | inLater
  · exact first entry inFacts
  · exact second entry inLater

/-- Layered facts hold when both layers do. -/
theorem Hold.overlay
    {facts later : Facts}
    (first : facts.Hold arena environment)
    (second : later.Hold arena environment) :
    (facts.overlay later).Hold arena environment := by
  intro entry member
  rcases mem_overlay member with inFacts | inLater
  · exact first entry inFacts
  · exact second entry inLater

end Facts

namespace View

/-- The types that a view knows are within the fragment. -/
structure Admitted
    (view : View) :
    Prop where
  facts : view.facts.Admitted
  lookup :
    ∀ {name type},
      view.lookup name = some type → Fragment.narrowing.admits type = true

/-- The values of names belong to the types that a view knows. -/
structure Holds
    (arena : Arena)
    (environment : Environment)
    (view : View) :
    Prop where
  facts : view.facts.Hold arena environment
  lookup :
    ∀ {name type value},
      view.lookup name = some type →
      environment name = some value →
      Belongs arena type value

/-- A view knows a name by a fact or by its binding. -/
def Knows
    (view : View)
    (name : String) :
    Prop :=
  (∃ type, (name, type) ∈ view.facts.entries) ∨
    ∃ type, view.lookup name = some type

/-- The type of a name was proved or is that of its binding. -/
theorem mem_of_typeOf?
    {view : View}
    (known : view.typeOf? name = some type) :
    (name, type) ∈ view.facts.entries ∨ view.lookup name = some type := by
  unfold typeOf? at known
  cases found : view.facts.find? name with
  | none =>
      rw [found] at known
      exact .inr known
  | some proved =>
      rw [found] at known
      cases known
      exact .inl (Facts.mem_of_find? found)

/-- A name with a type is known. -/
theorem knows_of_typeOf?
    {view : View}
    (known : view.typeOf? name = some type) :
    view.Knows name := by
  rcases mem_of_typeOf? known with inFacts | declared
  · exact .inl ⟨type, inFacts⟩
  · exact .inr ⟨type, declared⟩

/-- Facts about known names make no further names known. -/
theorem Knows.of_withFacts
    {view : View}
    {facts : Facts}
    (factsKnown : ∀ entry ∈ facts.entries, view.Knows entry.1)
    (known : (view.withFacts facts).Knows name) :
    view.Knows name := by
  rcases known with ⟨type, member⟩ | declared
  · rcases Facts.mem_overlay member with inView | inFacts
    · exact .inl ⟨type, inView⟩
    · exact factsKnown _ inFacts
  · exact .inr declared

/-- The type of a name is within the fragment. -/
theorem Admitted.typeOf
    {view : View}
    (admitted : view.Admitted)
    (known : view.typeOf? name = some type) :
    Fragment.narrowing.admits type = true := by
  rcases mem_of_typeOf? known with inFacts | declared
  · exact admitted.facts _ inFacts
  · exact admitted.lookup declared

/-- The value of a name belongs to the type of the name. -/
theorem Holds.typeOf
    {view : View}
    (holds : view.Holds arena environment)
    (known : view.typeOf? name = some type)
    (valued : environment name = some value) :
    Belongs arena type value := by
  rcases mem_of_typeOf? known with inFacts | declared
  · exact holds.facts _ inFacts value valued
  · exact holds.lookup declared valued

/-- More facts within the fragment keep a view there. -/
theorem Admitted.withFacts
    {view : View}
    {facts : Facts}
    (admitted : view.Admitted)
    (factsAdmitted : facts.Admitted) :
    (view.withFacts facts).Admitted :=
  ⟨admitted.facts.overlay factsAdmitted, admitted.lookup⟩

/-- More facts that hold keep what a view knows. -/
theorem Holds.withFacts
    {view : View}
    {facts : Facts}
    (holds : view.Holds arena environment)
    (factsHold : facts.Hold arena environment) :
    (view.withFacts facts).Holds arena environment :=
  ⟨holds.facts.overlay factsHold, holds.lookup⟩

end View

namespace Checker

variable {checker : Checker}

/-- Joined facts are about names of both paths, each with its types united. -/
theorem joinFacts_settles
    {first second : Facts}
    (firstAdmitted : first.Admitted)
    (secondAdmitted : second.Admitted)
    (settles : Settles (checker.joinFacts first second) facts) :
    ∀ entry ∈ facts.entries,
      ∃ type other,
        (entry.1, type) ∈ first.entries ∧
        (entry.1, other) ∈ second.entries ∧
        IsNormalOf .narrowing .narrowing checker.arena
          (.ofUnion [type, other]) entry.2 := by
  unfold joinFacts at settles
  obtain ⟨entries, visits, settles⟩ := settles_bind.mp settles
  cases settles_pure.mp settles
  intro entry member
  obtain ⟨⟨name, type⟩, inFirst, joins⟩ :=
    visits.of_filterMapM
      (fun entry => by dsimp only; split <;> infer_instance) entry member
  dsimp only at joins
  split at joins
  · cases settles_pure.mp joins
  · next other found =>
    obtain ⟨result, normalizes, joins⟩ := settles_bind.mp joins
    cases settles_pure.mp joins
    have inSecond := Facts.mem_of_find? found
    refine ⟨type, other, inFirst, inSecond, normalize_settles ?_ normalizes⟩
    refine Fragment.admits_union.mpr fun member inUnion => ?_
    rcases List.mem_cons.mp inUnion with rfl | inUnion
    · exact firstAdmitted _ inFirst
    · cases List.mem_singleton.mp inUnion
      exact secondAdmitted _ inSecond

/--
The facts are about known names and within the fragment, and they hold in every
environment that a view describes and that satisfies a condition.
-/
structure Proves
    (arena : Arena)
    (view : View)
    (condition : Environment → Prop)
    (facts : Facts) :
    Prop where
  known : ∀ entry ∈ facts.entries, view.Knows entry.1
  admitted : facts.Admitted
  hold :
    ∀ environment : Environment,
      environment.NaNFree →
      view.Holds arena environment →
      condition environment →
      facts.Hold arena environment

/-- No facts are proved under every condition. -/
theorem proves_empty
    {arena : Arena}
    {view : View}
    {condition : Environment → Prop} :
    Proves arena view condition {} :=
  ⟨by simp, Facts.admitted_empty, fun _ _ _ _ => Facts.hold_empty⟩

/-- What a weaker condition proves, a stronger one does too. -/
theorem Proves.of_imp
    {arena : Arena}
    {view : View}
    {strong weak : Environment → Prop}
    (proves : Proves arena view weak facts)
    (implies :
      ∀ environment : Environment,
        environment.NaNFree →
        strong environment →
        weak environment) :
    Proves arena view strong facts :=
  ⟨proves.known, proves.admitted, fun environment proper holds strong =>
    proves.hold environment proper holds
      (implies environment proper strong)⟩

/-- Narrowing the type of a name proves a fact about it. -/
theorem refineName_settles
    {arena : Arena}
    {view : View}
    {narrow : Ty → Check Ty}
    [∀ type, Appends (narrow type)]
    {test : Value → Prop}
    (narrows :
      ∀ {type result},
        view.typeOf? name = some type →
        Settles (narrow type) result →
        Retains arena test type result)
    (settles : Settles (refineName view name narrow) facts) :
    Proves arena view
      (fun environment =>
        ∀ value, environment name = some value → test value) facts := by
  unfold refineName at settles
  split at settles
  · cases settles_pure.mp settles
    exact proves_empty
  · next type known =>
    obtain ⟨result, narrowed, settles⟩ := settles_bind.mp settles
    cases settles_pure.mp settles
    obtain ⟨resultAdmitted, keeps⟩ := narrows known narrowed
    constructor
    · intro entry member
      cases List.mem_singleton.mp member
      exact View.knows_of_typeOf? known
    · intro entry member
      cases List.mem_singleton.mp member
      exact resultAdmitted
    · intro environment proper holds passes entry member value valued
      cases List.mem_singleton.mp member
      exact keeps value (proper valued) (holds.typeOf known valued)
        (passes value valued)

/-- A member survives a test that the accessed property passes. -/
theorem memberSurvives_settles
    {test : Ty → Check Ty}
    [∀ type, Appends (test type)]
    {passes : Value → Prop}
    (narrows : Narrows checker.arena test passes)
    {member : Ty}
    (admitted : Fragment.narrowing.admits member = true)
    (notUnion : member.isUnion = false)
    (undeclared : member.indexAnswers property = false)
    {value found : Value}
    (belongs : Belongs checker.arena member value)
    (accesses : value.Accesses property chained found)
    (proper : found.NaNFree)
    (passed : passes found) :
    ¬ Settles
      (checker.memberSurvives property chained test member) false := by
  intro settles
  -- A test that a value of the type passes leaves something of the type.
  have survives :
      ∀ {type : Ty},
        Fragment.narrowing.admits type = true →
        Belongs checker.arena type found →
        ¬ Settles (do
          return !(← checker.normalize (← test type)).isNever) false := by
    intro type typeAdmitted typeBelongs settles
    obtain ⟨result, tested, settles⟩ := settles_bind.mp settles
    obtain ⟨normalized, normalizes, settles⟩ := settles_bind.mp settles
    obtain ⟨resultAdmitted, keeps⟩ := narrows typeAdmitted tested
    have normal := normalize_settles resultAdmitted normalizes
    refine not_holds_of_isNever (by simpa using settles_pure.mp settles) <|
      (normal.holds found).mpr (keeps found proper typeBelongs passed)
  unfold memberSurvives at settles
  dsimp only at settles
  by_cases isTop : isAnyOrUnknown member = true
  · have notNullish : isNullishOrVoid member = false := by
      rcases Bool.or_eq_true_iff.mp isTop with isAny | isUnknown
      · cases eq_of_isPrimitive isAny
        rfl
      · cases eq_of_isPrimitive isUnknown
        rfl
    rw [notNullish, isTop] at settles
    cases settles_pure.mp settles
  · have isNullish :=
      isNullishOrVoid_eq admitted notUnion (by simpa using isTop) belongs
    rw [if_neg isTop, isNullish] at settles
    cases accesses with
    | shortCircuit isChained nullish =>
        subst isChained
        rw [nullish] at settles
        exact survives rfl (.primitive rfl) settles
    | reads reads =>
        rw [reads.not_isNullish] at settles
        obtain ⟨type, answers, settles⟩ := settles.of_bind fun type => by
          cases type <;> (dsimp only; infer_instance)
        cases type with
        | none =>
            cases settles_pure.mp settles
        | some type =>
            have readBelongs := propertyOf_settles admitted undeclared answers
            exact survives readBelongs.admits
              (readBelongs.belongs value found belongs reads) settles

/-- Narrowing by a property keeps the values whose property passes the test. -/
theorem refineProperty_settles
    {view : View}
    {test : Ty → Check Ty}
    [∀ type, Appends (test type)]
    {passes : Value → Prop}
    (viewAdmitted : view.Admitted)
    (narrows : Narrows checker.arena test passes)
    (undeclared :
      ∀ {type},
        view.typeOf? name = some type →
        type.indexAnswers property = false)
    (settles :
      Settles
        (checker.refineProperty view (.name name) property chained test)
        facts) :
    Proves checker.arena view
      (fun environment =>
        ∀ value,
          environment name = some value →
          ∃ found : Value,
            value.Accesses property chained found ∧ found.NaNFree ∧
              passes found) facts := by
  refine refineName_settles ?_ settles
  intro type result known narrowed
  have admitted := viewAdmitted.typeOf known
  obtain ⟨members, membersSettle, narrowed⟩ := settles_bind.mp narrowed
  obtain ⟨kept, selects, narrowed⟩ := settles_bind.mp narrowed
  have parts := membersOf_settles admitted membersSettle
  obtain ⟨fromMembers, decided⟩ := selects.of_filterM
  have keptAdmitted : Fragment.narrowing.admits (.ofUnion kept) = true :=
    Fragment.admits_union.mpr fun member inKept =>
      parts.admits member (fromMembers member inKept)
  have normal := normalize_settles keptAdmitted narrowed
  refine ⟨normal.admits, fun value _ belongs passed => ?_⟩
  obtain ⟨found, accesses, proper, passed⟩ := passed
  obtain ⟨member, inMembers, belongs⟩ := (parts.holds value).mp belongs
  rcases decided member inMembers with inKept | dropped
  · exact (normal.holds value).mpr (.union inKept belongs)
  · exact absurd dropped
      (memberSurvives_settles narrows (parts.admits member inMembers)
        (parts.flat member inMembers)
        (parts.positions (undeclared known) member inMembers)
        belongs accesses proper passed)

end Checker

end StructuralTyping
