import StructuralTyping.Proofs.MethodFree
import StructuralTyping.Proofs.NormalizedOperands

namespace StructuralTyping

/-!
# Explanations are failing paths

All comparisons of a run collect their reasons in one list. What a comparison
adds to the list depends on how it ends. It never takes anything away that was
there before, and it adds something when it fails. Where no method signature is
compared it adds nothing when it succeeds, and one path when it fails: the cause
first, and then one step for each type around it.

The parameters of methods may be compared in either direction. If only the
second direction succeeds, the reasons of the first one stay in the list, and so
they may turn up in the explanation of a later failure.
-/

namespace Reason

/-- Whether the reason says in which part of the types the cause lies. -/
def leadsInside :
    Reason →
    Bool
  | unionMember _ _ => true
  | intersectionMember _ => true
  | inProperty _ => true
  | outsideIndex _ _ => true
  | indexValue _ _ => true
  | inArrayElement => true
  | inTupleElement _ => true
  | inParameter _ => true
  | inRestParameterAt _ => true
  | inRestParameter => true
  | inReturnType => true
  | _ => false

end Reason

/-- A cause, and the way out of the parts that it lies in. -/
inductive FailingPath :
    List Reason →
    Prop
  | cause :
      reason.leadsInside = false →
      FailingPath [reason]
  | step :
      FailingPath path →
      reason.leadsInside = true →
      FailingPath (path ++ [reason])

/-- What comparisons may add to the reasons, by whether they hold. -/
abbrev Account :=
  Bool → List Reason → Prop

namespace Account

/-- An account that single reasons, ways out of parts and sequences fit into. -/
structure Regular
    (account : Account) :
    Prop where
  success : account true []
  cause :
    ∀ reason,
      reason.leadsInside = false →
      account false [reason]
  step :
    ∀ added reason,
      account false added →
      reason.leadsInside = true →
      account false (added ++ [reason])
  sequence :
    ∀ holds first second,
      account true first →
      account holds second →
      account holds (first ++ second)

/-- What a failure adds may come before anything else. -/
def Leaks
    (account : Account) :
    Prop :=
  ∀ holds first second,
    account false first →
    account holds second →
    account holds (first ++ second)

/-- Failures add something. -/
def noted :
    Account :=
  fun holds added => holds = false → added ≠ []

/-- Successes add nothing, failures add one path. -/
def exact :
    Account :=
  fun holds added => if holds then added = [] else FailingPath added

theorem noted_regular :
    noted.Regular where
  success impossible := by cases impossible
  cause reason _ _ := List.cons_ne_nil reason []
  step added reason _ _ _ := by simp
  sequence holds first second _ noted failed :=
    List.append_ne_nil_of_right_ne_nil first (noted failed)

theorem noted_leaks :
    noted.Leaks :=
  fun _ first _ _ noted failed =>
    List.append_ne_nil_of_right_ne_nil first (noted failed)

theorem exact_regular :
    exact.Regular where
  success := rfl
  cause reason leaf := FailingPath.cause leaf
  step added reason path inside := FailingPath.step path inside
  sequence holds first second nothing rest := by
    have empty : first = [] := nothing
    simpa [empty] using rest

end Account

namespace Relating

/-- A comparison leaves the reasons there are and adds what the account says. -/
def Adds
    (account : Account)
    (comparison : Relating Bool) :
    Prop :=
  ∀ ⦃findings holds after log last⦄,
    comparison findings log = .ok ((holds, after), last) →
    ∃ added,
      after.reasons = findings.reasons ++ added ∧ account holds added

/-- A computation leaves the reasons alone and answers with what is wanted. -/
def Quietly
    (computation : Relating α)
    (wanted : α → Prop) :
    Prop :=
  ∀ ⦃findings value after log last⦄,
    computation findings log = .ok ((value, after), last) →
    after.reasons = findings.reasons ∧ wanted value

section Sequences

variable {account : Account} {wanted : α → Prop}

/-- A value is answered quietly. -/
theorem Quietly.pure
    (holds : wanted value) :
    Quietly (pure value) wanted := by
  intro findings answer after log last run
  cases run
  exact ⟨rfl, holds⟩

/-- A computation that knows no reasons leaves them alone. -/
theorem Quietly.lift
    {computation : Check α}
    (answers : ∀ value, Check.Answers computation value → wanted value) :
    Quietly (liftM computation) wanted := by
  intro findings value after log last run
  obtain ⟨⟨answer, middle⟩, asked, ends⟩ := Except.bind_eq_ok.mp run
  cases ends
  exact ⟨rfl, answers value ⟨log, last, asked⟩⟩

/-- Quiet computations in a row are quiet. -/
theorem Quietly.bind
    {first : Relating α}
    {next : α → Relating β}
    {result : β → Prop}
    (quiet : Quietly first wanted)
    (quietNext : ∀ value, wanted value → Quietly (next value) result) :
    Quietly (first >>= next) result := by
  intro findings answer after log last run
  obtain ⟨⟨⟨value, between⟩, middle⟩, firstRun, nextRun⟩ :=
    Except.bind_eq_ok.mp run
  obtain ⟨same, holds⟩ := quiet firstRun
  obtain ⟨sameAfter, holdsAfter⟩ := quietNext value holds nextRun
  exact ⟨sameAfter.trans same, holdsAfter⟩

/-- What follows a quiet computation adds what the whole adds. -/
theorem Quietly.adds
    {first : Relating α}
    {next : α → Relating Bool}
    (quiet : Quietly first wanted)
    (adds : ∀ value, wanted value → Adds account (next value)) :
    Adds account (first >>= next) := by
  intro findings answer after log last run
  obtain ⟨⟨⟨value, between⟩, middle⟩, firstRun, nextRun⟩ :=
    Except.bind_eq_ok.mp run
  obtain ⟨same, holds⟩ := quiet firstRun
  obtain ⟨added, appended, told⟩ := adds value holds nextRun
  exact ⟨added, same ▸ appended, told⟩

/-- After a comparison, what is added is judged by how the rest ends. -/
theorem Adds.bind
    {first : Relating Bool}
    {next : Bool → Relating Bool}
    {result : Account}
    (adds : Adds account first)
    (addsNext :
      ∀ holds added,
        account holds added →
        Adds (fun last more => result last (added ++ more)) (next holds)) :
    Adds result (first >>= next) := by
  intro findings answer after log last run
  obtain ⟨⟨⟨holds, between⟩, middle⟩, firstRun, nextRun⟩ :=
    Except.bind_eq_ok.mp run
  obtain ⟨added, appended, told⟩ := adds firstRun
  obtain ⟨more, appendedMore, toldMore⟩ := addsNext holds added told nextRun
  exact ⟨added ++ more, by rw [appendedMore, appended, List.append_assoc],
    toldMore⟩

/-- An answer adds nothing. -/
theorem Adds.pure
    (told : account holds []) :
    Adds account (pure holds) := by
  intro findings answer after log last run
  cases run
  exact ⟨[], (List.append_nil _).symm, told⟩

/-- A failure adds its reason. -/
theorem Adds.fail
    (told : account false [reason]) :
    Adds account (fail reason) := by
  intro findings answer after log last run
  cases run
  exact ⟨[reason], rfl, told⟩

/-- A choice adds what is chosen adds. -/
theorem Adds.ite
    {condition : Prop}
    [Decidable condition]
    {first second : Relating Bool}
    (adds : condition → Adds account first)
    (addsElse : ¬ condition → Adds account second) :
    Adds account (if condition then first else second) := by
  split
  · next holds => exact adds holds
  · next fails => exact addsElse fails

/-- Keeping as many reasons as there were drops those that were added. -/
theorem take_reasons
    {findings after : Findings}
    (appended : after.reasons = findings.reasons ++ added) :
    after.reasons.take findings.reasons.length = findings.reasons := by
  rw [appended, List.take_left]

/-- What is compared silently leaves no reasons. -/
theorem Adds.silently
    {comparison : Relating Bool}
    (adds : Adds account comparison) :
    Quietly (silently comparison) fun _ => True := by
  intro findings answer after log last run
  obtain ⟨⟨⟨holds, between⟩, middle⟩, compared, ends⟩ :=
    Except.bind_eq_ok.mp run
  cases ends
  obtain ⟨added, appended, -⟩ := adds compared
  exact ⟨take_reasons appended, trivial⟩

/-- An attempt adds nothing if it succeeds, else what the comparison adds. -/
theorem Adds.attempt
    {comparison : Relating Bool}
    (adds : Adds account comparison) :
    Adds (fun holds added => if holds then added = [] else account false added)
      (attempt comparison) := by
  intro findings answer after log last run
  obtain ⟨⟨⟨holds, between⟩, middle⟩, compared, ends⟩ :=
    Except.bind_eq_ok.mp run
  obtain ⟨added, appended, told⟩ := adds compared
  cases holds with
  | true =>
      cases ends
      exact ⟨[], by simpa using take_reasons appended, rfl⟩
  | false =>
      cases ends
      exact ⟨added, appended, told⟩

/-- A search leaves no reasons. -/
theorem anyOf_quietly
    {comparisons : List (Relating Bool)}
    (each : ∀ comparison ∈ comparisons, Adds account comparison) :
    Quietly (anyOf comparisons) fun _ => True := by
  induction comparisons with
  | nil =>
      exact .pure trivial
  | cons comparison rest inductionHypothesis =>
      rw [List.forall_mem_cons] at each
      unfold anyOf
      refine each.1.silently.bind fun holds _ => ?_
      cases holds with
      | true => exact .pure trivial
      | false => exact inductionHypothesis each.2

variable (regular : account.Regular)
include regular

/-- A failed comparison of parts is explained by where they are. -/
theorem Adds.orFail
    {comparison : Relating Bool}
    (adds : Adds account comparison)
    (inside : reason.leadsInside = true) :
    Adds account (orFail comparison reason) := by
  refine adds.bind fun holds added told => ?_
  cases holds with
  | true => exact .pure (by simpa using told)
  | false => exact .fail (regular.step added reason told inside)

/-- A failed search is explained by one reason. -/
theorem Quietly.orFail
    {comparison : Relating Bool}
    (quiet : Quietly comparison fun _ => True)
    (leaf : reason.leadsInside = false) :
    Adds account (orFail comparison reason) := by
  refine quiet.adds fun holds _ => ?_
  cases holds with
  | true => exact .pure regular.success
  | false => exact .fail (regular.cause reason leaf)

/-- A comparison after one that holds adds what it adds on its own. -/
theorem Adds.andThen
    {first second : Relating Bool}
    (adds : Adds account first)
    (addsNext : Adds account second) :
    Adds account (do if ← first then second else return false) := by
  refine adds.bind fun holds added told => ?_
  cases holds with
  | true =>
      intro findings answer after log last run
      obtain ⟨more, appended, toldMore⟩ := addsNext run
      exact ⟨more, appended, regular.sequence answer added more told toldMore⟩
  | false => exact .pure (by simpa using told)

/-- Comparisons in a row add what the last of them adds. -/
theorem Adds.allOf
    {comparisons : List (Relating Bool)}
    (each : ∀ comparison ∈ comparisons, Adds account comparison) :
    Adds account (allOf comparisons) := by
  induction comparisons with
  | nil =>
      exact .pure regular.success
  | cons comparison rest inductionHypothesis =>
      rw [List.forall_mem_cons] at each
      exact each.1.andThen regular (inductionHypothesis each.2)

end Sequences

end Relating

/--
A kind of types that comparing them does not lead out of, through their parts,
what stands behind them, what they are normalized to and what they expose.
-/
structure Checker.Confines
    (checker : Checker)
    (kind : Ty → Prop) :
    Prop where
  unknown : kind .unknown
  void : kind .void
  optional :
    ∀ {type},
      kind type →
      kind type.optional
  part :
    ∀ {type part},
      kind type →
      type.isReference = false →
      part ∈ type.parts →
      kind part
  definition :
    ∀ {reference},
      kind (.named reference) →
      checker.arena.definition reference ≠ .absent →
      kind (checker.arena.definition reference)
  evaluated :
    ∀ {occurrence application depth type},
      kind (.generic occurrence application) →
      Check.Answers (checker.evaluation.evaluate application depth).run
        (.ok type) →
      kind type
  normalized :
    ∀ {type depth result},
      kind type →
      (type.isUnion || RelationStep.isIntersection type) = true →
      Check.Answers (checker.evaluation.normalizeOperand depth type) result →
      kind result
  merged :
    ∀ {members depth result},
      (∀ member ∈ members, kind member) →
      Check.Answers (checker.evaluation.mergeMembers depth members)
        (some result) →
      kind result
  exposed :
    ∀ {type shape},
      kind type →
      Check.Answers (checker.apparent type) (some shape) →
      kind (.ofShape shape)

/-- Every type is of the kind that nothing is asked of. -/
theorem Checker.confines_all
    (checker : Checker) :
    checker.Confines fun _ => True := by
  constructor <;> intros <;> trivial

/-- Types without method signatures do not lead to any. -/
theorem Checker.confines_methodFree
    {checker : Checker}
    (free : checker.arena.MethodFree) :
    checker.Confines Ty.MethodFree where
  unknown := .primitive
  void := .primitive
  optional typeFree := typeFree.optional
  part typeFree _ inside := typeFree.parts _ inside
  definition _ _ := free _
  evaluated typeFree answers :=
    (evaluation_addsNoMethods free).evaluates
      (fun _ => typeFree.parts _ List.mem_cons_self) answers
  normalized typeFree _ answers :=
    (evaluation_addsNoMethods free).normalizeOperand typeFree answers
  merged membersFree answers :=
    (evaluation_addsNoMethods free).mergeMembers membersFree answers
  exposed typeFree answers :=
    Ty.MethodFree.object.mpr (apparentWithin_methodFree free typeFree answers)

namespace RelationStep

open Relating

/-- One level of a comparison whose parts add what an account says. -/
structure Adds
    (kind : Ty → Prop)
    (account : Account)
    (step : RelationStep) :
    Prop where
  regular : account.Regular
  confines : step.checker.Confines kind
  compare :
    ∀ {assumptions source target},
      kind source →
      kind target →
      Relating.Adds account (step.compare assumptions source target)
  methods :
    ∀ {occurrence signature},
      kind (.function occurrence signature) →
      signature.method = true →
      account.Leaks

namespace Adds

variable
  {kind : Ty → Prop} {account : Account} {step : RelationStep}
  (adds : step.Adds kind account)
  {source target : Ty}
include adds

/-- A failure for a cause in the types themselves is in the account. -/
theorem fails
    (leaf : reason.leadsInside = false) :
    Relating.Adds account (Relating.fail reason) :=
  .fail (adds.regular.cause reason leaf)

/-- A success is in the account. -/
theorem succeeds :
    Relating.Adds account (pure true) :=
  .pure adds.regular.success

/-- What a reference stands for is of the kind of the reference. -/
theorem expandReference
    (isKind : kind source) :
    Quietly (step.expandReference source) fun result =>
      match result with
      | .ok type => kind type
      | .error reason => reason.leadsInside = false := by
  unfold RelationStep.expandReference
  split
  · split
    · exact .pure rfl
    · next defined =>
      exact .pure (adds.confines.definition isKind defined)
  · refine (Quietly.lift fun result => id).bind fun result answers => ?_
    cases result with
    | ok type => exact .pure (adds.confines.evaluated isKind answers)
    | error error => exact .pure rfl
  · exact .pure isKind

theorem viaReference
    (sourceKind : kind source)
    (targetKind : kind target) :
    Relating.Adds account (step.viaReference assumptions source target) := by
  unfold RelationStep.viaReference
  dsimp only
  split
  · exact adds.succeeds
  split
  · exact adds.succeeds
  refine (adds.expandReference sourceKind).adds fun expandedSource first => ?_
  cases expandedSource with
  | error reason => exact adds.fails first
  | ok type =>
      refine (adds.expandReference targetKind).adds
        fun expandedTarget second => ?_
      cases expandedTarget with
      | error reason => exact adds.fails second
      | ok other => exact adds.compare first second

/-- A union or intersection is normalized to a type of its kind. -/
theorem normalizeOperand
    (isKind : kind source)
    (several : (source.isUnion || isIntersection source) = true) :
    Quietly
      (liftM (step.checker.evaluation.normalizeOperand step.depth source))
      kind :=
  .lift fun _ => adds.confines.normalized isKind several

theorem fromUnion
    (sourceKind : kind source)
    (targetKind : kind target)
    (isUnion : source.isUnion = true) :
    Relating.Adds account (step.fromUnion assumptions source target) := by
  unfold RelationStep.fromUnion
  refine (adds.normalizeOperand sourceKind (by simp [isUnion])).adds
    fun normalized normalKind => ?_
  split
  · refine .allOf adds.regular
      (List.forall_mem_map.mpr fun member inMembers => ?_)
    have memberKind := adds.confines.part normalKind rfl inMembers
    exact .orFail adds.regular (adds.compare memberKind targetKind) rfl
  · exact adds.compare normalKind targetKind

theorem toUnion
    (sourceKind : kind source)
    (targetKind : kind target)
    (isUnion : target.isUnion = true) :
    Relating.Adds account (step.toUnion assumptions source target) := by
  unfold RelationStep.toUnion
  refine (adds.normalizeOperand targetKind (by simp [isUnion])).adds
    fun normalized normalKind => ?_
  split
  · next occurrence members =>
    have each :
        ∀ comparison ∈
            members.map fun member => step.compare assumptions source member,
          Relating.Adds account comparison :=
      List.forall_mem_map.mpr fun member inMembers =>
        adds.compare sourceKind (adds.confines.part normalKind rfl inMembers)
    exact (anyOf_quietly each).orFail adds.regular rfl
  · exact adds.compare sourceKind normalKind

theorem toIntersection
    (sourceKind : kind source)
    (targetKind : kind target)
    (isMeet : isIntersection target = true) :
    Relating.Adds account (step.toIntersection assumptions source target) := by
  unfold RelationStep.toIntersection
  refine (adds.normalizeOperand targetKind (by simp [isMeet])).adds
    fun normalized normalKind => ?_
  split
  · refine .allOf adds.regular
      (List.forall_mem_map.mpr fun member inMembers => ?_)
    have memberKind := adds.confines.part normalKind rfl inMembers
    exact .orFail adds.regular (adds.compare sourceKind memberKind) rfl
  · exact adds.compare sourceKind normalKind

theorem fromIntersection
    (sourceKind : kind source)
    (targetKind : kind target)
    (isMeet : isIntersection source = true) :
    Relating.Adds account
      (step.fromIntersection assumptions source target) := by
  unfold RelationStep.fromIntersection
  refine (adds.normalizeOperand sourceKind (by simp [isMeet])).adds
    fun normalized normalKind => ?_
  split
  · next occurrence members =>
    have membersKind : ∀ member ∈ members, kind member :=
      fun member => adds.confines.part normalKind rfl
    have each :
        ∀ comparison ∈
            members.map fun member => step.compare assumptions member target,
          Relating.Adds account comparison :=
      List.forall_mem_map.mpr fun member inMembers =>
        adds.compare (membersKind member inMembers) targetKind
    have searched := anyOf_quietly each
    refine searched.adds fun found _ => ?_
    split
    · exact adds.succeeds
    · refine (Quietly.lift fun result => id).adds fun result answers => ?_
      cases result with
      | none => exact adds.fails rfl
      | some merged =>
          exact adds.compare (adds.confines.merged membersKind answers)
            targetKind
  · exact adds.compare normalKind targetKind

/-- A test adds its reason if it fails. -/
theorem accepts
    (accepted : Bool)
    (leaf : reason.leadsInside = false) :
    Relating.Adds account
      (if accepted then pure true else Relating.fail reason) :=
  .ite (fun _ => adds.succeeds) fun _ => adds.fails leaf

theorem toPrimitive :
    Relating.Adds account (RelationStep.toPrimitive source primitive) :=
  adds.accepts _ rfl

theorem toLiteral :
    Relating.Adds account (RelationStep.toLiteral source target value) :=
  adds.accepts _ rfl

theorem toProperty
    {members : Shape Ty}
    (membersKind : members.All kind)
    (propertyKind : kind property.type) :
    Relating.Adds account
      (step.toProperty assumptions source target members property) := by
  unfold RelationStep.toProperty
  split
  · split
    · exact adds.succeeds
    · exact adds.fails rfl
  · next actual found =>
    dsimp only
    split
    · exact adds.fails rfl
    · have actualKind :=
        membersKind.properties actual (List.mem_of_find?_eq_some found)
      refine .orFail adds.regular (adds.compare actualKind ?_) rfl
      split
      · exact adds.confines.optional propertyKind
      · exact propertyKind

theorem toIndex
    {members : Shape Ty}
    (membersKind : members.All kind)
    (valueKind : kind index.value) :
    Relating.Adds account (step.toIndex assumptions members index) := by
  unfold RelationStep.toIndex
  refine .andThen adds.regular (.allOf adds.regular ?_) ?_
  · refine List.forall_mem_map.mpr fun property member => ?_
    have propertyKind :=
      membersKind.properties property (List.mem_filter.mp member).1
    exact .orFail adds.regular (adds.compare propertyKind valueKind) rfl
  · split
    · exact adds.succeeds
    · next actual isIndex =>
      have actualKind := membersKind.values actual isIndex
      exact .orFail adds.regular (adds.compare actualKind valueKind) rfl

theorem toMembers
    {members shape : Shape Ty}
    (membersKind : members.All kind)
    (shapeKind : shape.All kind) :
    Relating.Adds account
      (step.toMembers assumptions source target members shape) := by
  unfold RelationStep.toMembers
  refine .andThen adds.regular (.allOf adds.regular ?_) ?_
  · exact List.forall_mem_map.mpr fun property member =>
      adds.toProperty membersKind (shapeKind.properties property member)
  · split
    · exact adds.succeeds
    · next index isIndex =>
      exact adds.toIndex membersKind (shapeKind.values index isIndex)

/-- The types of an object are of its kind. -/
theorem object
    (isKind : kind (.object occurrence shape)) :
    shape.All kind :=
  Ty.forall_parts_object.mp fun _ => adds.confines.part isKind rfl

theorem toObject
    {shape : Shape Ty}
    (sourceKind : kind source)
    (shapeKind : shape.All kind) :
    Relating.Adds account
      (step.toObject assumptions source target shape) := by
  unfold RelationStep.toObject
  split
  · exact adds.fails rfl
  split
  · exact adds.succeeds
  refine (Quietly.lift fun result => id).adds fun result answers => ?_
  cases result with
  | none => exact adds.fails rfl
  | some members =>
      have membersKind := adds.object (adds.confines.exposed sourceKind answers)
      dsimp only
      split
      · split
        · exact adds.succeeds
        · exact adds.toMembers membersKind shapeKind
      · exact adds.toMembers membersKind shapeKind

/-- Every comparison of an element with one type is in the account. -/
theorem elementsTo
    (elementsKind : ∀ type ∈ elements, kind type)
    (elementKind : kind element) :
    ∀ comparison ∈ step.elementsTo assumptions element position elements,
      Relating.Adds account comparison := by
  induction elements generalizing position with
  | nil => exact List.forall_mem_nil _
  | cons type rest inductionHypothesis =>
      rw [List.forall_mem_cons] at elementsKind
      refine List.forall_mem_cons.mpr ⟨?_, inductionHypothesis elementsKind.2⟩
      exact .orFail adds.regular (adds.compare elementsKind.1 elementKind) rfl

/-- Every comparison of elements in pairs is in the account. -/
theorem elementPairs
    (firstKind : ∀ type ∈ first, kind type)
    (secondKind : ∀ type ∈ second, kind type) :
    ∀ comparison ∈ step.elementPairs assumptions position first second,
      Relating.Adds account comparison := by
  induction first generalizing position second with
  | nil => simp [RelationStep.elementPairs]
  | cons type rest inductionHypothesis =>
      cases second with
      | nil => simp [RelationStep.elementPairs]
      | cons other others =>
          rw [List.forall_mem_cons] at firstKind secondKind
          refine List.forall_mem_cons.mpr
            ⟨?_, inductionHypothesis firstKind.2 secondKind.2⟩
          exact .orFail adds.regular (adds.compare firstKind.1 secondKind.1) rfl

theorem toArray
    (sourceKind : kind source)
    (elementKind : kind element) :
    Relating.Adds account
      (step.toArray assumptions source target element readonly) := by
  unfold RelationStep.toArray
  split
  · next actual _ =>
    split
    · exact adds.fails rfl
    · have actualKind :=
        adds.confines.part sourceKind rfl (List.mem_singleton_self actual)
      exact .orFail adds.regular (adds.compare actualKind elementKind) rfl
  · split
    · exact adds.fails rfl
    · exact .allOf adds.regular (adds.elementsTo
        (fun type => adds.confines.part sourceKind rfl) elementKind)
  · exact adds.fails rfl

theorem toTuple
    (sourceKind : kind source)
    (elementsKind : ∀ type ∈ elements, kind type) :
    Relating.Adds account
      (step.toTuple assumptions source target elements readonly) := by
  unfold RelationStep.toTuple
  split
  · split
    · exact adds.fails rfl
    split
    · exact adds.fails rfl
    · exact .allOf adds.regular (adds.elementPairs
        (fun type => adds.confines.part sourceKind rfl) elementsKind)
  · exact adds.fails rfl

/-- A second direction adds to what a first one that failed has left. -/
theorem toArgument
    (leaks : bivariant = true → account.Leaks)
    (parameterKind : kind parameter)
    (argumentKind : kind argument) :
    Relating.Adds account
      (step.toArgument assumptions bivariant parameter argument) := by
  have forward :
      Relating.Adds account (step.compare assumptions argument parameter) :=
    adds.compare argumentKind parameterKind
  have backward :
      Relating.Adds account (step.compare assumptions parameter argument) :=
    adds.compare parameterKind argumentKind
  unfold RelationStep.toArgument
  split
  · next both =>
    refine forward.attempt.bind fun holds added told => ?_
    cases holds with
    | true =>
        have nothing : added = [] := told
        exact .pure (by simpa [nothing] using adds.regular.success)
    | false =>
        -- What the failed direction left stays in front, so the account of a
        -- method has to bear it whatever the other direction answers.
        intro findings answer after log last run
        obtain ⟨more, appended, toldMore⟩ := backward run
        exact ⟨more, appended, leaks both answer added more told toldMore⟩
  · exact forward

/-- The kind of the parts of a signature. -/
theorem signature
    {signature : Signature Ty}
    (isKind : kind (.function occurrence signature)) :
    (∀ parameter ∈ signature.parameters, kind parameter.type) ∧
      kind signature.rest ∧ kind signature.result :=
  Ty.forall_parts_function.mp fun _ => adds.confines.part isKind rfl

/-- Every comparison of a supplied parameter is in the account. -/
theorem suppliedParameters
    (leaks : bivariant = true → account.Leaks)
    (parametersKind : ∀ parameter ∈ parameters, kind parameter.type)
    {target : Signature Ty}
    (targetKind : kind (.function occurrence target)) :
    ∀ comparison ∈
        step.suppliedParameters assumptions bivariant target position
          parameters,
      Relating.Adds account comparison := by
  obtain ⟨targetParameters, targetRest, -⟩ := adds.signature targetKind
  induction parameters generalizing position with
  | nil => exact List.forall_mem_nil _
  | cons parameter rest inductionHypothesis =>
      rw [List.forall_mem_cons] at parametersKind
      refine List.forall_mem_cons.mpr ⟨?_, inductionHypothesis parametersKind.2⟩
      have compared (argument : Ty) (argumentKind : kind argument) :
          Relating.Adds account
            (orFail
              (step.toArgument assumptions bivariant parameter.type argument)
              (.inParameter position)) :=
        .orFail adds.regular
          (adds.toArgument leaks parametersKind.1 argumentKind) rfl
      cases supplied : target.parameters[position]? with
      | some other =>
          exact compared other.type
            (targetParameters other (List.mem_of_getElem? supplied))
      | none =>
          by_cases noRest : target.rest.isAbsent = true
          · simp only [noRest, if_true]
            split
            · exact adds.succeeds
            · exact adds.fails rfl
          · simp only [noRest]
            exact compared target.rest targetRest

/-- Every comparison with a rest parameter is in the account. -/
theorem restParameters
    (leaks : bivariant = true → account.Leaks)
    (restKind : kind rest)
    (parametersKind : ∀ parameter ∈ parameters, kind parameter.type) :
    ∀ comparison ∈
        step.restParameters assumptions bivariant rest position parameters,
      Relating.Adds account comparison := by
  induction parameters generalizing position with
  | nil => exact List.forall_mem_nil _
  | cons parameter others inductionHypothesis =>
      rw [List.forall_mem_cons] at parametersKind
      refine List.forall_mem_cons.mpr ⟨?_, inductionHypothesis parametersKind.2⟩
      exact .orFail adds.regular
        (adds.toArgument leaks restKind parametersKind.1) rfl

/-- Every comparison of rest parameters is in the account. -/
theorem restTo
    {source target : Signature Ty}
    (leaks : bivariant = true → account.Leaks)
    (sourceKind : kind (.function i source))
    (targetKind : kind (.function j target)) :
    ∀ comparison ∈ step.restTo assumptions bivariant source target,
      Relating.Adds account comparison := by
  obtain ⟨-, sourceRest, -⟩ := adds.signature sourceKind
  obtain ⟨targetParameters, targetRest, -⟩ := adds.signature targetKind
  unfold RelationStep.restTo
  split
  · exact List.forall_mem_nil _
  · refine List.forall_mem_append.mpr ⟨adds.restParameters leaks sourceRest
      fun parameter member => targetParameters parameter
        (List.mem_of_mem_drop member), ?_⟩
    split
    · exact List.forall_mem_nil _
    · exact List.forall_mem_singleton.mpr
        (.orFail adds.regular (adds.toArgument leaks sourceRest targetRest) rfl)

theorem resultTo
    (sourceKind : kind source)
    (targetKind : kind target) :
    Relating.Adds account (step.resultTo assumptions source target) := by
  unfold RelationStep.resultTo
  split
  · exact adds.succeeds
  · have resultKind := Ty.orElse_of_kind sourceKind adds.confines.void
    exact .orFail adds.regular (adds.compare resultKind targetKind) rfl

theorem toFunction
    {target : Signature Ty}
    (sourceKind : kind source)
    (targetKind : kind (.function occurrence target)) :
    Relating.Adds account (step.toFunction assumptions source target) := by
  unfold RelationStep.toFunction
  split
  · next own signature =>
    obtain ⟨parameters, -, result⟩ := adds.signature sourceKind
    have leaks :
        (signature.method || target.method) = true → account.Leaks := by
      intro either
      rcases Bool.or_eq_true_iff.mp either with method | method
      · exact adds.methods sourceKind method
      · exact adds.methods targetKind method
    refine .allOf adds.regular (List.forall_mem_append.mpr
      ⟨List.forall_mem_append.mpr
        ⟨adds.suppliedParameters leaks parameters targetKind,
          adds.restTo leaks sourceKind targetKind⟩, ?_⟩)
    exact List.forall_mem_singleton.mpr
      (adds.resultTo result (adds.signature targetKind).2.2)
  · exact adds.fails rfl

theorem compareShapes
    (sourceKind : kind source)
    (targetKind : kind target) :
    Relating.Adds account (step.compareShapes assumptions source target) := by
  unfold RelationStep.compareShapes
  split
  · exact adds.toPrimitive
  · exact adds.toLiteral
  · exact adds.toObject sourceKind (adds.object targetKind)
  · next element _ =>
    exact adds.toArray sourceKind
      (adds.confines.part targetKind rfl (List.mem_singleton_self element))
  · exact adds.toTuple sourceKind fun _ => adds.confines.part targetKind rfl
  · exact adds.toFunction sourceKind targetKind
  · exact adds.fails rfl

/-- One level of the comparison adds what the account says. -/
theorem relate
    (sourceKind : kind source)
    (targetKind : kind target) :
    Relating.Adds account (step.relate assumptions source target) := by
  unfold RelationStep.relate
  refine .ite (fun _ => adds.succeeds) fun _ => ?_
  refine .ite (fun _ => adds.succeeds) fun _ => ?_
  refine .ite (fun _ => adds.viaReference sourceKind targetKind) fun _ => ?_
  refine .ite (fun _ => adds.fails rfl) fun _ => ?_
  refine .ite (fun _ => adds.fails rfl) fun _ => ?_
  refine .ite (fun _ => adds.succeeds) fun _ => ?_
  refine .ite (adds.fromUnion sourceKind targetKind) fun _ => ?_
  refine .ite (adds.toUnion sourceKind targetKind) fun _ => ?_
  refine .ite (adds.toIntersection sourceKind targetKind) fun _ => ?_
  refine .ite (adds.fromIntersection sourceKind targetKind) fun _ => ?_
  exact adds.compareShapes sourceKind targetKind

end Adds

end RelationStep

namespace Checker

open Relating

variable {checker : Checker} {kind : Ty → Prop} {account : Account}

/-- The depth bound is a cause of its own. -/
theorem failAtBound_adds
    (regular : account.Regular)
    (target : Ty) :
    Adds account (checker.failAtBound target) := by
  intro findings holds after log last run
  have told :=
    regular.cause (Reason.depthBound checker.options.maxDepth) rfl
  obtain ⟨reasons, tooComplex⟩ := findings
  cases tooComplex with
  | false =>
      cases run
      exact ⟨_, rfl, told⟩
  | true =>
      cases run
      exact ⟨_, rfl, told⟩

/-- Comparing adds what the account says, however much of the bound is left. -/
theorem compareWithin_adds
    (regular : account.Regular)
    (confines : checker.Confines kind)
    (methods :
      ∀ occurrence signature,
        kind (.function occurrence signature) →
        signature.method = true →
        account.Leaks)
    (remaining : Nat)
    {assumptions : Assumptions}
    {source target : Ty}
    (sourceKind : kind source)
    (targetKind : kind target) :
    Adds account
      (checker.compareWithin remaining assumptions source target) := by
  have sourceDefault := Ty.orElse_of_kind sourceKind confines.unknown
  have targetDefault := Ty.orElse_of_kind targetKind confines.unknown
  induction remaining generalizing assumptions source target with
  | zero =>
      unfold compareWithin
      dsimp only
      split
      · exact .pure regular.success
      · exact failAtBound_adds regular _
  | succ remaining inductionHypothesis =>
      unfold compareWithin
      dsimp only
      split
      · exact .pure regular.success
      · refine RelationStep.Adds.relate ⟨regular, confines, ?_, ?_⟩
          sourceDefault targetDefault
        · intro assumptions source target sourceKind targetKind
          exact inductionHypothesis sourceKind targetKind
            (Ty.orElse_of_kind sourceKind confines.unknown)
            (Ty.orElse_of_kind targetKind confines.unknown)
        · exact methods _ _

/--
What the reasons that a comparison adds tell about its outcome. There is one if
it fails. Where no method signature is compared they are a failing path, and
there is none if the comparison holds.
-/
structure Explains
    (checker : Checker)
    (source target : Ty)
    (holds : Bool)
    (added : List Reason) :
    Prop where
  noted : Account.noted holds added
  exact :
    checker.arena.MethodFree →
    source.MethodFree →
    target.MethodFree →
    Account.exact holds added

/-- A comparison leaves the reasons there are, and those it adds explain it. -/
theorem compareWithin_reasons
    {remaining : Nat}
    {assumptions : Assumptions}
    {source target : Ty}
    {findings after : Findings}
    (run :
      checker.compareWithin remaining assumptions source target findings log =
        .ok ((holds, after), last)) :
    ∃ added,
      after.reasons = findings.reasons ++ added ∧
        checker.Explains source target holds added := by
  obtain ⟨added, appended, noted⟩ :=
    compareWithin_adds Account.noted_regular checker.confines_all
      (fun _ _ _ _ => Account.noted_leaks) remaining trivial trivial run
  refine ⟨added, appended, noted, fun free sourceFree targetFree => ?_⟩
  obtain ⟨same, appendedSame, exact⟩ :=
    compareWithin_adds Account.exact_regular (confines_methodFree free)
      (fun occurrence signature signatureFree method => by
        cases method.symm.trans signatureFree.here)
      remaining sourceFree targetFree run
  cases List.append_cancel_left (appended.symm.trans appendedSame)
  exact exact

/--
Every comparison leaves the reasons that were there before, and the reasons that
it adds explain its outcome; and so do the reasons of a failed assignment, from
the last to the first.
-/
theorem reasons_explain
    (checker : Checker)
    (source target : Ty) :
    (∀ remaining assumptions findings log holds after last,
      checker.compareWithin remaining assumptions source target findings log =
        .ok ((holds, after), last) →
      ∃ added,
        after.reasons = findings.reasons ++ added ∧
          checker.Explains source target holds added) ∧
      ∀ mismatch,
        Check.Answers (checker.assign source target) (some mismatch) →
        checker.Explains source target false mismatch.reasons.reverse := by
  refine ⟨fun _ _ _ _ _ _ _ => compareWithin_reasons, ?_⟩
  rintro mismatch answers
  obtain ⟨⟨holds, findings⟩, ⟨log, last, run⟩, answers⟩ := answers.of_bind
  obtain ⟨added, appended, explains⟩ := compareWithin_reasons run
  cases holds with
  | true => cases Check.answers_pure.mp answers
  | false =>
      cases Check.answers_pure.mp answers
      have only : findings.reasons = added := appended
      rw [List.reverse_reverse, only]
      exact explains

section Callbacks

/-- A function with one parameter, which may be a method. -/
def callback
    (method : Bool)
    (parameter result : Ty) :
    Ty :=
  .function none
    { parameters := [{ name := "x", type := parameter, optional := false }]
      rest := .absent
      result := result
      method := method }

/-- A wrong result of a function is explained by the way to it alone. -/
theorem reasons_explain_callback :
    let source := callback false (.primitive .string) (.primitive .boolean)
    let target := callback false (.primitive .string) (.primitive .string)
    plainChecker.arena.MethodFree ∧ source.MethodFree ∧ target.MethodFree ∧
      ∃ mismatch,
        Check.Answers (plainChecker.assign source target) (some mismatch) ∧
          FailingPath mismatch.reasons.reverse := by
  intro source target
  have free (result : Primitive) :
      (callback false (.primitive .string) (.primitive result)).MethodFree := by
    refine .node rfl (Ty.forall_parts_function.mpr ⟨?_, .leaf rfl rfl, ?_⟩)
    · exact List.forall_mem_singleton.mpr Ty.MethodFree.primitive
    · exact Ty.MethodFree.primitive
  have arenaFree : plainChecker.arena.MethodFree := by
    intro reference
    have absent : plainChecker.arena.definition reference = .absent := by
      simp [plainChecker, Arena.definition, Arena.lookup]
    rw [absent]
    exact .leaf rfl rfl
  have answers :
      Check.Answers (plainChecker.assign source target)
        (some
          { source, target,
            reasons :=
              [.inReturnType,
                .notAssignable (.primitive .boolean) (.primitive .string)] }) :=
    ⟨[], [], by decide +kernel⟩
  exact ⟨arenaFree, free _, free _, _, answers,
    ((reasons_explain plainChecker source target).2 _ answers).exact arenaFree
      (free _) (free _)⟩

/--
The parameter of a method is accepted in one of two directions, and the reasons
of the other one stay. They are reported where the result is wrong.
-/
theorem reasons_keep_failed_direction :
    let parameter := Ty.ofUnion [.primitive .string, .primitive .number]
    let source := callback true (.primitive .string) (.primitive .boolean)
    let failed : List Reason :=
      [.notAssignable (.primitive .number) (.primitive .string),
        .unionMember (.primitive .number) (.primitive .string)]
    plainChecker.compareWithin 100 {} source
          (callback false parameter (.primitive .boolean)) {} [] =
        .ok ((true, { reasons := failed }), []) ∧
      Check.Answers
        (plainChecker.assign source
          (callback false parameter (.primitive .string)))
        (some
          { source
            target := callback false parameter (.primitive .string)
            reasons :=
              [.inReturnType,
                  .notAssignable (.primitive .boolean) (.primitive .string)] ++
                failed.reverse }) :=
  ⟨by decide +kernel, [], [], by decide +kernel⟩

end Callbacks

end Checker

end StructuralTyping
