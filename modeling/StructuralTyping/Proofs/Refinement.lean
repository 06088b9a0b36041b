import StructuralTyping.Proofs.FactsMeaning

namespace StructuralTyping

/-!
# Refinement is sound

A guard that evaluates to a truthy value proves the facts of its true branch,
one that evaluates to a falsy value those of its false branch. The proof follows
the guard: facts of the left operand of a logical operator hold where the right
one is evaluated, and at a merge the facts of the path that was taken hold.
-/

open Check

namespace Expression

variable (checker : Checker)

/-- A property read of a name is not answered by an index signature. -/
def ReadDeclared
    (view : View) :
    Expression →
    Prop
  | member (.name binding) property _ =>
      ∀ type,
        view.typeOf? binding = some type →
        type.indexAnswers property = false
  | _ => True

/--
No property read that refinement looks at is answered by an index signature.
The right operand of a logical operator is looked at under the facts of the
left one.
-/
def GuardsDeclared
    (view : View) :
    Expression →
    Prop
  | member operand property optional =>
      (member operand property optional).ReadDeclared view
  | not operand => operand.GuardsDeclared view
  | binary .and left right =>
      left.GuardsDeclared view ∧
        ∀ facts,
          Settles (checker.refine view left true) facts →
          right.GuardsDeclared (view.withFacts facts)
  | binary .or left right =>
      left.GuardsDeclared view ∧
        ∀ facts,
          Settles (checker.refine view left false) facts →
          right.GuardsDeclared (view.withFacts facts)
  | binary .coalesce left _ => left.GuardsDeclared view
  | binary _ left right => left.ReadDeclared view ∧ right.ReadDeclared view
  | conditional test positive negative =>
      test.GuardsDeclared view ∧
        (∀ facts,
          Settles (checker.refine view test true) facts →
          positive.GuardsDeclared (view.withFacts facts)) ∧
        ∀ facts,
          Settles (checker.refine view test false) facts →
          negative.GuardsDeclared (view.withFacts facts)
  | _ => True

end Expression

/-- A condition on a truth value succeeds when it is true. -/
@[simp] theorem Value.truthy_ofBool
    (value : Bool) :
    (Value.ofBool value).truthy = value := by
  cases value <;> rfl

/-- The operands evaluate to values that compare as given. -/
def Compares
    (arena : Arena)
    (environment : Environment)
    (left right : Expression)
    (equal loose : Bool) :
    Prop :=
  ∃ first second,
    Evaluates arena environment left first ∧
      Evaluates arena environment right second ∧
      if loose then
        (first.isNullish && second.isNullish) = equal
      else
        first.StrictEqual second equal ∨ second.StrictEqual first equal

/-- Comparison does not depend on the order of its operands. -/
theorem Compares.symm
    (compares : Compares arena environment left right equal loose) :
    Compares arena environment right left equal loose := by
  obtain ⟨first, second, leftEvaluates, rightEvaluates, compared⟩ := compares
  refine ⟨second, first, rightEvaluates, leftEvaluates, ?_⟩
  cases loose with
  | false =>
      exact compared.symm
  | true =>
      rw [Bool.and_comm]
      exact compared

/-- What an access to a name evaluates to is accessed from its value. -/
theorem Evaluates.accesses
    {environment : Environment}
    (evaluates :
      Evaluates arena environment (.member (.name binding) property chained)
        found) :
    ∃ value,
      environment binding = some value ∧
        value.Accesses property chained found := by
  cases evaluates with
  | member operandEvaluates reads =>
      cases operandEvaluates with
      | name valued =>
          exact ⟨_, valued, .reads reads⟩
  | shortCircuit ends =>
      cases ends with
      | here operandEvaluates nullish =>
          cases operandEvaluates with
          | name valued =>
              exact ⟨_, valued, .shortCircuit rfl nullish⟩
      | earlier ends =>
          cases ends

namespace Checker

variable {checker : Checker}

/-- Comparing a name with a constant tests the value of the name. -/
theorem comparesTo_of_compares
    {arena : Arena}
    {first second : Value}
    {type : Ty}
    {equal loose : Bool}
    (nullish : loose = true → type.isNullish = true)
    (constant : Belongs arena type second)
    (compared :
      if loose then
        (first.isNullish && second.isNullish) = equal
      else
        first.StrictEqual second equal ∨ second.StrictEqual first equal) :
    ComparesTo arena type equal loose first := by
  unfold ComparesTo
  cases loose with
  | false =>
      exact fun isUnit => strictEqual_iff isUnit constant compared
  | true =>
      have isNullish := nullish rfl
      have secondNullish : second.isNullish = true := by
        rcases Bool.or_eq_true_iff.mp isNullish with isNull | isUndefined
        · cases eq_of_isPrimitive isNull
          cases holds_null.mp constant
          rfl
        · cases eq_of_isPrimitive isUndefined
          cases holds_undefined.mp constant
          rfl
      simpa [isNullish, secondNullish] using compared

/-- Comparing a tag with a text tests the value that has the tag. -/
theorem tag_of_compares
    {arena : Arena}
    {first : Value}
    {second : Value}
    {equal : Bool}
    (constant : Belongs arena (.literal occurrence (.string text)) second)
    (compared :
      (Value.ofString first.tag).StrictEqual second equal ∨
        second.StrictEqual (Value.ofString first.tag) equal) :
    (first.tag == text.replaced) = equal := by
  have decides := strictEqual_literal_iff constant compared
  rw [tag_eq_replaced, Bool.eq_iff_iff, decides, beq_iff_eq]
  constructor
  · rintro rfl
    exact .literal (by simp [Literal.equal])
  · intro belongs
    obtain ⟨actual, same, equal⟩ := holds_literal.mp belongs
    cases same
    exact (beq_iff_eq.mp equal).symm

/-- A comparison proves its facts about the subject. -/
theorem refineEquality_settles
    {view : View}
    {subject value : Expression}
    {equal loose : Bool}
    (viewAdmitted : view.Admitted)
    (supported : value.supported false = true)
    (nullish :
      loose = true →
      (subject.isNullishConstant || value.isNullishConstant) = true)
    (declared : subject.ReadDeclared view)
    (settles :
      Settles (checker.refineEquality? view subject value equal loose)
        (some facts)) :
    Proves checker.arena view
      (fun environment =>
        Compares checker.arena environment subject value equal loose)
      facts := by
  unfold refineEquality? at settles
  split at settles
  · next type =>
    have admitted : Fragment.narrowing.admits type = true := supported
    split at settles
    · cases settles_pure.mp settles
    split at settles
    · next name occurrence tag _ =>
      obtain ⟨result, narrowed, settles⟩ := settles_bind.mp settles
      cases settles_pure.mp settles
      have strict : loose = false := by
        cases loose with
        | false =>
            rfl
        | true =>
            cases nullish rfl
      subst strict
      refine (refineName_settles (fun known settles =>
        narrowTypeof_narrows tag.replaced equal (viewAdmitted.typeOf known)
          settles) narrowed).of_imp ?_
      rintro environment proper ⟨_, second, evaluates, constant, compared⟩ value
        valued
      cases constant with
      | constant belongs _ =>
      cases evaluates with
      | typeof operandEvaluates =>
      cases operandEvaluates with
      | name sameValued =>
      cases sameValued.symm.trans valued
      exact tag_of_compares belongs compared
    · next name =>
      obtain ⟨result, narrowed, settles⟩ := settles_bind.mp settles
      cases settles_pure.mp settles
      refine (refineName_settles (fun known settles =>
        narrowEqual_narrows admitted equal loose (viewAdmitted.typeOf known)
          settles) narrowed).of_imp ?_
      rintro environment proper ⟨first, second, evaluates, constant, compared⟩ value
        valued
      cases constant with
      | constant belongs _ =>
      cases evaluates with
      | name sameValued =>
      cases sameValued.symm.trans valued
      exact comparesTo_of_compares nullish belongs compared
    · next operand property optional =>
      obtain ⟨result, narrowed, settles⟩ := settles_bind.mp settles
      cases settles_pure.mp settles
      cases operand with
      | name name =>
          refine (refineProperty_settles viewAdmitted
            (narrowEqual_narrows admitted equal loose) (declared _)
            narrowed).of_imp ?_
          rintro environment proper
            ⟨first, second, evaluates, constant, compared⟩ value valued
          cases constant with
          | constant belongs _ =>
          obtain ⟨_, sameValued, accesses⟩ := evaluates.accesses
          cases sameValued.symm.trans valued
          exact ⟨first, accesses, evaluates.nanFree proper,
            comparesTo_of_compares nullish belongs compared⟩
      | _ =>
          cases settles_pure.mp narrowed
          exact proves_empty
    · cases settles_pure.mp settles
  · cases settles_pure.mp settles

/-- A comparison proves its facts, with either operand as its subject. -/
theorem refineComparison_settles
    {view : View}
    {left right : Expression}
    {equal loose : Bool}
    (viewAdmitted : view.Admitted)
    (leftSupported : left.supported false = true)
    (rightSupported : right.supported false = true)
    (nullish :
      loose = true →
      (left.isNullishConstant || right.isNullishConstant) = true)
    (declared : left.ReadDeclared view ∧ right.ReadDeclared view)
    (settles :
      Settles (checker.refineComparison view left right equal loose) facts) :
    Proves checker.arena view
      (fun environment =>
        Compares checker.arena environment left right equal loose)
      facts := by
  unfold refineComparison at settles
  obtain ⟨first, compares, settles⟩ := settles.of_bind fun first => by
    cases first <;> (dsimp only; infer_instance)
  cases first with
  | some first =>
      cases settles_pure.mp settles
      exact refineEquality_settles viewAdmitted rightSupported nullish
        declared.1 compares
  | none =>
      obtain ⟨second, compares, settles⟩ := settles_bind.mp settles
      cases settles_pure.mp settles
      cases second with
      | some second =>
          refine (refineEquality_settles viewAdmitted leftSupported
            (fun isLoose => ?_) declared.2 compares).of_imp
            fun _ _ => Compares.symm
          rw [Bool.or_comm]
          exact nullish isLoose
      | none =>
          exact proves_empty

/-- The guard evaluates to a value with the given truth. -/
def TakesBranch
    (arena : Arena)
    (guard : Expression)
    (branch : Bool)
    (environment : Environment) :
    Prop :=
  ∃ value, Evaluates arena environment guard value ∧ value.truthy = branch

/-- A constant that is never truthy does not evaluate to a truthy value. -/
theorem not_takesBranch_of_neverTruthy
    {expression : Expression}
    (supported : expression.supported guarding = true)
    (settles : Settles (checker.neverTruthy expression) true) :
    ¬ TakesBranch checker.arena expression true environment := by
  rintro ⟨value, evaluates, truthy⟩
  unfold neverTruthy at settles
  split at settles
  · next type =>
    split at settles
    · cases settles_pure.mp settles
    · obtain ⟨result, narrowed, settles⟩ := settles_bind.mp settles
      cases evaluates with
      | constant belongs proper =>
      have admitted : Fragment.narrowing.admits type = true := by
        simpa [Expression.supported] using supported
      obtain ⟨_, keeps⟩ := truthy_narrows admitted narrowed
      exact not_holds_of_isNever (settles_pure.mp settles).symm
        (keeps value proper belongs truthy)
  · cases settles_pure.mp settles

section Operators

variable {view : View} {left right : Expression}

/-- Facts that follow on a first path and those of a later guard under them. -/
theorem proves_overlay
    {arena : Arena}
    {condition : Environment → Prop}
    {early later : Facts}
    (earlyProves : Proves arena view first early)
    (laterProves : Proves arena (view.withFacts early) second later)
    (implies :
      ∀ environment,
        condition environment → first environment ∧ second environment) :
    Proves arena view condition (early.overlay later) := by
  refine ⟨?_, earlyProves.admitted.overlay laterProves.admitted, ?_⟩
  · intro entry member
    rcases Facts.mem_overlay member with inEarly | inLater
    · exact earlyProves.known entry inEarly
    · exact (laterProves.known entry inLater).of_withFacts earlyProves.known
  · intro environment proper holds met
    obtain ⟨firstMet, secondMet⟩ := implies environment met
    have earlyHold := earlyProves.hold environment proper holds firstMet
    exact earlyHold.overlay
      (laterProves.hold environment proper (holds.withFacts earlyHold)
        secondMet)

/-- Facts of two paths, joined, when one of the paths was taken. -/
theorem proves_join
    {condition first second : Environment → Prop}
    {firstFacts secondFacts : Facts}
    (firstProves : Proves checker.arena view first firstFacts)
    (secondProves : Proves checker.arena view second secondFacts)
    (either :
      ∀ environment,
        condition environment → first environment ∨ second environment)
    (settles : Settles (checker.joinFacts firstFacts secondFacts) facts) :
    Proves checker.arena view condition facts := by
  have joined :=
    joinFacts_settles firstProves.admitted secondProves.admitted settles
  constructor
  · intro entry member
    obtain ⟨type, other, inFirst, _, _⟩ := joined entry member
    exact firstProves.known (entry.1, type) inFirst
  · intro entry member
    obtain ⟨type, other, _, _, normal⟩ := joined entry member
    exact normal.admits
  · intro environment proper holds met entry member value valued
    obtain ⟨type, other, inFirst, inSecond, normal⟩ := joined entry member
    refine (normal.holds value).mpr ?_
    rcases either environment met with firstMet | secondMet
    · exact .union (by simp) (firstProves.hold environment proper holds
        firstMet _ inFirst value valued)
    · exact .union (by simp) (secondProves.hold environment proper holds
        secondMet _ inSecond value valued)

variable
  (leftProves :
    ∀ {branch facts},
      Settles (checker.refine view left branch) facts →
      Proves checker.arena view (TakesBranch checker.arena left branch) facts)

include leftProves

/-- A conjunction proves the facts of its operands in evaluation order. -/
theorem refineAnd_settles
    (rightProves :
      ∀ {early branch facts},
        Settles (checker.refine view left true) early →
        Settles (checker.refine (view.withFacts early) right branch) facts →
        Proves checker.arena (view.withFacts early)
          (TakesBranch checker.arena right branch) facts)
    (settles :
      Settles (checker.refine view (.binary .and left right) branch) facts) :
    Proves checker.arena view
      (TakesBranch checker.arena (.binary .and left right) branch) facts := by
  unfold refine at settles
  obtain ⟨earlyFacts, early, settles⟩ := settles_bind.mp settles
  cases branch with
  | true =>
      obtain ⟨lateFacts, late, settles⟩ := settles_bind.mp settles
      cases settles_pure.mp settles
      refine proves_overlay (leftProves early) (rightProves early late) ?_
      rintro environment ⟨value, evaluates, truthy⟩
      cases evaluates with
      | andLeft _ falsy =>
          rw [falsy] at truthy
          cases truthy
      | andRight leftEvaluates leftTruthy rightEvaluates =>
          exact ⟨⟨_, leftEvaluates, leftTruthy⟩, ⟨_, rightEvaluates, truthy⟩⟩
  | false =>
      obtain ⟨shortFacts, short, settles⟩ := settles_bind.mp settles
      obtain ⟨longFacts, long, settles⟩ := settles_bind.mp settles
      refine proves_join (leftProves short)
        (proves_overlay (leftProves early) (rightProves early long)
          fun _ => id) ?_ settles
      rintro environment ⟨value, evaluates, falsy⟩
      cases evaluates with
      | andLeft leftEvaluates leftFalsy =>
          exact .inl ⟨_, leftEvaluates, leftFalsy⟩
      | andRight leftEvaluates leftTruthy rightEvaluates =>
          exact .inr
            ⟨⟨_, leftEvaluates, leftTruthy⟩, ⟨_, rightEvaluates, falsy⟩⟩

/-- A disjunction proves the facts of its operands in evaluation order. -/
theorem refineOr_settles
    (rightProves :
      ∀ {early branch facts},
        Settles (checker.refine view left false) early →
        Settles (checker.refine (view.withFacts early) right branch) facts →
        Proves checker.arena (view.withFacts early)
          (TakesBranch checker.arena right branch) facts)
    (settles :
      Settles (checker.refine view (.binary .or left right) branch) facts) :
    Proves checker.arena view
      (TakesBranch checker.arena (.binary .or left right) branch) facts := by
  unfold refine at settles
  obtain ⟨earlyFacts, early, settles⟩ := settles_bind.mp settles
  cases branch with
  | true =>
      obtain ⟨shortFacts, short, settles⟩ := settles_bind.mp settles
      obtain ⟨longFacts, long, settles⟩ := settles_bind.mp settles
      refine proves_join (leftProves short)
        (proves_overlay (leftProves early) (rightProves early long)
          fun _ => id) ?_ settles
      rintro environment ⟨value, evaluates, truthy⟩
      cases evaluates with
      | orLeft leftEvaluates leftTruthy =>
          exact .inl ⟨_, leftEvaluates, leftTruthy⟩
      | orRight leftEvaluates leftFalsy rightEvaluates =>
          exact .inr
            ⟨⟨_, leftEvaluates, leftFalsy⟩, ⟨_, rightEvaluates, truthy⟩⟩
  | false =>
      obtain ⟨lateFacts, late, settles⟩ := settles_bind.mp settles
      cases settles_pure.mp settles
      refine proves_overlay (leftProves early) (rightProves early late) ?_
      rintro environment ⟨value, evaluates, falsy⟩
      cases evaluates with
      | orLeft _ truthy =>
          rw [truthy] at falsy
          cases falsy
      | orRight leftEvaluates leftFalsy rightEvaluates =>
          exact ⟨⟨_, leftEvaluates, leftFalsy⟩, ⟨_, rightEvaluates, falsy⟩⟩

/-- A conditional proves the facts of the path that is taken. -/
theorem refineConditional_settles
    {positive negative : Expression}
    (positiveProves :
      ∀ {early facts},
        Settles (checker.refine view left true) early →
        Settles (checker.refine (view.withFacts early) positive branch)
          facts →
        Proves checker.arena (view.withFacts early)
          (TakesBranch checker.arena positive branch) facts)
    (negativeProves :
      ∀ {early facts},
        Settles (checker.refine view left false) early →
        Settles (checker.refine (view.withFacts early) negative branch)
          facts →
        Proves checker.arena (view.withFacts early)
          (TakesBranch checker.arena negative branch) facts)
    (settles :
      Settles
        (checker.refine view (.conditional left positive negative) branch)
        facts) :
    Proves checker.arena view
      (TakesBranch checker.arena (.conditional left positive negative) branch)
      facts := by
  unfold refine at settles
  obtain ⟨trueFacts, onTrue, settles⟩ := settles_bind.mp settles
  obtain ⟨falseFacts, onFalse, settles⟩ := settles_bind.mp settles
  obtain ⟨firstFacts, first, settles⟩ := settles_bind.mp settles
  obtain ⟨secondFacts, second, settles⟩ := settles_bind.mp settles
  refine proves_join
    (proves_overlay (leftProves onTrue) (positiveProves onTrue first)
      fun _ => id)
    (proves_overlay (leftProves onFalse) (negativeProves onFalse second)
      fun _ => id) ?_ settles
  rintro environment ⟨value, evaluates, taken⟩
  cases evaluates with
  | conditionalTrue testEvaluates truthy evaluates =>
      exact .inl ⟨⟨_, testEvaluates, truthy⟩, ⟨_, evaluates, taken⟩⟩
  | conditionalFalse testEvaluates falsy evaluates =>
      exact .inr ⟨⟨_, testEvaluates, falsy⟩, ⟨_, evaluates, taken⟩⟩

omit leftProves in
/-- Nullish values fail every condition. -/
theorem not_truthy_of_isNullish
    {value : Value}
    (nullish : value.isNullish = true) :
    value.truthy = false := by
  cases value <;> simp_all [Value.isNullish, Value.truthy]

/-- A coalesced guard proves what its left operand does. -/
theorem refineCoalesce_settles
    (supported : right.supported guarding = true)
    (settles :
      Settles (checker.refine view (.binary .coalesce left right) branch)
        facts) :
    Proves checker.arena view
      (TakesBranch checker.arena (.binary .coalesce left right) branch)
      facts := by
  unfold refine at settles
  cases branch with
  | true =>
      obtain ⟨never, decides, settles⟩ := settles_bind.mp settles
      cases never with
      | false =>
          cases settles_pure.mp settles
          exact proves_empty
      | true =>
          refine (leftProves settles).of_imp ?_
          rintro environment proper ⟨value, evaluates, truthy⟩
          cases evaluates with
          | coalesceLeft evaluates _ =>
              exact ⟨value, evaluates, truthy⟩
          | coalesceRight _ _ evaluates =>
              exact absurd ⟨value, evaluates, truthy⟩
                (not_takesBranch_of_neverTruthy supported decides)
  | false =>
      refine (leftProves settles).of_imp ?_
      rintro environment proper ⟨value, evaluates, falsy⟩
      cases evaluates with
      | coalesceLeft evaluates _ =>
          exact ⟨value, evaluates, falsy⟩
      | coalesceRight evaluates nullish _ =>
          exact ⟨_, evaluates, not_truthy_of_isNullish nullish⟩

end Operators

section Comparisons

variable
  {view : View}
  {left right guard : Expression}
  (viewAdmitted : view.Admitted)
  (declared : left.ReadDeclared view ∧ right.ReadDeclared view)

include viewAdmitted declared

/-- A strict comparison proves what its outcome says. -/
theorem refineStrict_settles
    (supported : (left.supported false && right.supported false) = true)
    (settles :
      Settles (checker.refineComparison view left right answer false) facts)
    (compares :
      ∀ {environment value},
        Evaluates checker.arena environment guard value →
        value.truthy = branch →
        ∃ first second,
          Evaluates checker.arena environment left first ∧
            Evaluates checker.arena environment right second ∧
            first.StrictEqual second answer) :
    Proves checker.arena view (TakesBranch checker.arena guard branch)
      facts := by
  simp only [Bool.and_eq_true] at supported
  refine (refineComparison_settles viewAdmitted supported.1 supported.2
    (by simp) declared settles).of_imp ?_
  rintro environment proper ⟨value, evaluates, taken⟩
  obtain ⟨first, second, leftEvaluates, rightEvaluates, compared⟩ :=
    compares evaluates taken
  exact ⟨first, second, leftEvaluates, rightEvaluates, .inl compared⟩

/-- A loose comparison proves what its outcome says. -/
theorem refineLoose_settles
    (supported :
      (left.supported false && right.supported false &&
        (left.isNullishConstant || right.isNullishConstant)) = true)
    (settles :
      Settles (checker.refineComparison view left right answer true) facts)
    (compares :
      ∀ {environment value},
        Evaluates checker.arena environment guard value →
        value.truthy = branch →
        ∃ first second,
          Evaluates checker.arena environment left first ∧
            Evaluates checker.arena environment right second ∧
            (first.isNullish && second.isNullish) = answer) :
    Proves checker.arena view (TakesBranch checker.arena guard branch)
      facts := by
  rw [Bool.and_eq_true, Bool.and_eq_true] at supported
  obtain ⟨⟨leftSupported, rightSupported⟩, nullish⟩ := supported
  refine (refineComparison_settles viewAdmitted leftSupported rightSupported
    (fun _ => nullish) declared settles).of_imp ?_
  rintro environment proper ⟨value, evaluates, taken⟩
  exact compares evaluates taken

end Comparisons

/-- Refinement proves its facts on the branch that the guard takes. -/
theorem refine_settles
    {view : View}
    {guard : Expression}
    {branch : Bool}
    (viewAdmitted : view.Admitted)
    (supported : guard.supported true = true)
    (declared : guard.GuardsDeclared checker view)
    (settles : Settles (checker.refine view guard branch) facts) :
    Proves checker.arena view (TakesBranch checker.arena guard branch)
      facts := by
  induction guard generalizing view branch facts with
  | name binding =>
      unfold refine at settles
      refine (refineName_settles (fun known settles =>
        truthiness_narrows branch (viewAdmitted.typeOf known) settles)
        settles).of_imp ?_
      rintro environment proper ⟨value, evaluates, taken⟩ other valued
      cases evaluates with
      | name sameValued =>
      cases sameValued.symm.trans valued
      exact taken
  | constant type =>
      cases settles_pure.mp settles
      exact proves_empty
  | typeof operand _ =>
      cases settles_pure.mp settles
      exact proves_empty
  | instanceOf operand instanceType _ =>
      simp [Expression.supported] at supported
  | isArray operand _ =>
      cases operand with
      | name binding =>
          unfold refine at settles
          refine (refineName_settles (fun known settles =>
            narrowArray_narrows branch (viewAdmitted.typeOf known) settles)
            settles).of_imp ?_
          rintro environment proper ⟨value, evaluates, taken⟩ other valued
          cases evaluates with
          | isArray operandEvaluates =>
          cases operandEvaluates with
          | name sameValued =>
          cases sameValued.symm.trans valued
          simpa using taken
      | _ =>
          cases settles_pure.mp settles
          exact proves_empty
  | member operand property optional _ =>
      unfold refine at settles
      cases operand with
      | name binding =>
          refine (refineProperty_settles viewAdmitted
            (truthiness_narrows branch) (declared _) settles).of_imp ?_
          rintro environment proper ⟨found, evaluates, taken⟩ value valued
          obtain ⟨_, sameValued, accesses⟩ := evaluates.accesses
          cases sameValued.symm.trans valued
          exact ⟨found, accesses, evaluates.nanFree proper, taken⟩
      | _ =>
          cases settles_pure.mp settles
          exact proves_empty
  | not operand inductionHypothesis =>
      unfold refine at settles
      refine (inductionHypothesis viewAdmitted supported declared
        settles).of_imp ?_
      rintro environment proper ⟨_, evaluates, taken⟩
      cases evaluates with
      | not operandEvaluates =>
      rw [Value.truthy_ofBool] at taken
      exact ⟨_, operandEvaluates, by simp [← taken]⟩
  | binary operator left right leftHypothesis rightHypothesis =>
      cases operator with
      | and =>
          rw [Expression.supported, Bool.and_eq_true] at supported
          have leftProves {branch facts} :=
            @leftHypothesis facts view branch viewAdmitted supported.1
              declared.1
          exact refineAnd_settles leftProves (fun early =>
            rightHypothesis
              (viewAdmitted.withFacts (leftProves early).admitted)
              supported.2 (declared.2 _ early)) settles
      | or =>
          rw [Expression.supported, Bool.and_eq_true] at supported
          have leftProves {branch facts} :=
            @leftHypothesis facts view branch viewAdmitted supported.1
              declared.1
          exact refineOr_settles leftProves (fun early =>
            rightHypothesis
              (viewAdmitted.withFacts (leftProves early).admitted)
              supported.2 (declared.2 _ early)) settles
      | coalesce =>
          rw [Expression.supported, Bool.and_eq_true] at supported
          exact refineCoalesce_settles
            (leftHypothesis viewAdmitted supported.1 declared) supported.2
            settles
      | strictEqual =>
          refine refineStrict_settles viewAdmitted declared supported settles
            fun evaluates taken => ?_
          cases evaluates with
          | strictEqual leftEvaluates rightEvaluates compared =>
          rw [Value.truthy_ofBool] at taken
          subst taken
          exact ⟨_, _, leftEvaluates, rightEvaluates, compared⟩
      | strictNotEqual =>
          refine refineStrict_settles viewAdmitted declared supported settles
            fun evaluates taken => ?_
          cases evaluates with
          | strictNotEqual leftEvaluates rightEvaluates compared =>
          rw [Value.truthy_ofBool] at taken
          subst taken
          rw [Bool.not_not]
          exact ⟨_, _, leftEvaluates, rightEvaluates, compared⟩
      | equal =>
          refine refineLoose_settles viewAdmitted declared supported settles
            fun evaluates taken => ?_
          cases evaluates with
          | equal leftEvaluates rightEvaluates _ =>
          rw [Value.truthy_ofBool] at taken
          exact ⟨_, _, leftEvaluates, rightEvaluates, taken⟩
      | notEqual =>
          refine refineLoose_settles viewAdmitted declared supported settles
            fun evaluates taken => ?_
          cases evaluates with
          | notEqual leftEvaluates rightEvaluates _ =>
          rw [Value.truthy_ofBool] at taken
          exact ⟨_, _, leftEvaluates, rightEvaluates, by simp [← taken]⟩
  | conditional test positive negative testHypothesis positiveHypothesis
      negativeHypothesis =>
      rw [Expression.supported, Bool.and_eq_true, Bool.and_eq_true]
        at supported
      obtain ⟨⟨testSupported, positiveSupported⟩, negativeSupported⟩ :=
        supported
      have testProves {branch facts} :=
        @testHypothesis facts view branch viewAdmitted testSupported
          declared.1
      exact refineConditional_settles testProves
        (fun early => positiveHypothesis
          (viewAdmitted.withFacts (testProves early).admitted)
          positiveSupported (declared.2.1 _ early))
        (fun early => negativeHypothesis
          (viewAdmitted.withFacts (testProves early).admitted)
          negativeSupported (declared.2.2 _ early)) settles

/-- The bindings that a scope shows have types of the narrowing fragment. -/
def ScopeAdmitted
    (scope : Scope)
    (table : BindingTable) :
    Prop :=
  ∀ name type,
    (scope.view table).lookup name = some type →
    Fragment.narrowing.admits type = true

/-- Every binding that a scope shows has a value of its current type. -/
def ScopeHolds
    (arena : Arena)
    (environment : Environment)
    (scope : Scope)
    (table : BindingTable) :
    Prop :=
  ∀ name type,
    (scope.view table).lookup name = some type →
    ∃ value, environment name = some value ∧ Belongs arena type value

/-- A scope of the fragment is seen through an admitted view. -/
theorem ScopeAdmitted.view
    {scope : Scope}
    {table : BindingTable}
    (admitted : ScopeAdmitted scope table) :
    (scope.view table).Admitted :=
  ⟨Facts.admitted_empty, fun {name type} => admitted name type⟩

/-- The view of a scope describes the values of its bindings. -/
theorem ScopeHolds.view
    {arena : Arena}
    {environment : Environment}
    {scope : Scope}
    {table : BindingTable}
    (holds : ScopeHolds arena environment scope table) :
    (scope.view table).Holds arena environment := by
  refine ⟨Facts.hold_empty, fun {name type value} known valued => ?_⟩
  obtain ⟨other, sameValued, belongs⟩ := holds name type known
  cases sameValued.symm.trans valued
  exact belongs

/--
Narrowing is sound. In every scope over the fragment and for every environment
whose values belong to the current types of the bindings, a guard that takes a
branch leaves every name with a value of the type proved for it there. An
exceeded depth bound, which gives up on a type, is ruled out.
-/
theorem refine_sound
    (checker : Checker)
    (scope : Scope)
    (table : BindingTable)
    (environment : Environment)
    (guard : Expression)
    (branch : Bool)
    (value : Value)
    (facts : Facts)
    (before added : Log)
    (scopeAdmitted : ScopeAdmitted scope table)
    (proper : environment.NaNFree)
    (scopeHolds : ScopeHolds checker.arena environment scope table)
    (supported : guard.supported true = true)
    (declared : guard.GuardsDeclared checker (scope.view table))
    (evaluates : Evaluates checker.arena environment guard value)
    (taken : value.truthy = branch)
    (run :
      checker.refine (scope.view table) guard branch before =
        .ok (facts, before ++ added))
    (quiet : Log.Quiet added) :
    ∀ entry ∈ facts.entries,
      ∃ found,
        environment entry.1 = some found ∧
          Belongs checker.arena entry.2 found := by
  have proves :=
    refine_settles scopeAdmitted.view supported declared
      (settles_of_run run quiet)
  intro entry member
  have bound : ∃ type, (scope.view table).lookup entry.1 = some type := by
    rcases proves.known entry member with ⟨_, inFacts⟩ | bound
    · exact absurd inFacts (by simp [Scope.view])
    · exact bound
  obtain ⟨type, shown⟩ := bound
  obtain ⟨found, valued, _⟩ := scopeHolds entry.1 type shown
  exact ⟨found, valued, proves.hold environment proper scopeHolds.view
    ⟨value, evaluates, taken⟩ entry member found valued⟩

section Tagged

/-- An object type with a literal tag and further properties. -/
def taggedType
    (tag : String)
    (further : List (Property Ty)) :
    Ty :=
  .ofShape
    { properties :=
        { name := "kind", type := .ofLiteral (.string (.ofString tag)) } ::
          further }

/-- A box, with or without a size. -/
def boxType : Ty :=
  taggedType "box" [{ name := "size", type := .number, optional := true }]

/-- The guard `x && x.kind === "box"`. -/
def boxGuard : Expression :=
  .binary .and (.name "x")
    (.binary .strictEqual (.member (.name "x") "kind" false)
      (.constant (.ofLiteral (.string (.ofString "box")))))

/-- The only binding is `x`: a dot, a box or `null`. -/
def boxScope : BindingTable × Scope :=
  Scope.ofTypes [("x", .ofUnion [taggedType "dot" [], boxType, .null])]

/-- The value of `x` is a box without a size. -/
def boxEnvironment : Environment :=
  fun name =>
    if name = "x" then some (.object [("kind", .ofString "box")]) else none

/-- The type of `x`. -/
theorem boxScope_lookup
    (shown : (boxScope.2.view boxScope.1).lookup name = some type) :
    name = "x" ∧
      type = .ofUnion [taggedType "dot" [], boxType, .null] := by
  by_cases isX : name = "x"
  · subst isX
    cases shown
    exact ⟨rfl, rfl⟩
  · have unbound : boxScope.2.lookup? name = none := by
      simp [boxScope, Scope.ofTypes, Scope.declare, Block.declare,
        Scope.lookup?, List.lookup_cons, beq_eq_false_iff_ne.mpr isX]
    simp [Scope.view, unbound] at shown

/-- On its true branch the guard leaves `x` with a value of the box type. -/
theorem refine_sound_box :
    ∃ found,
      boxEnvironment "x" = some found ∧ Belongs {} boxType found := by
  have box : Belongs {} boxType (.object [("kind", .ofString "box")]) := by
    refine holds_object.mpr ⟨rfl, fun property member => ?_⟩
    rcases List.mem_cons.mp member with rfl | member
    · exact .inr (.literal rfl)
    · cases List.mem_singleton.mp member
      exact rfl
  let checker : Checker := { budget := 8 }
  have early :
      checker.refine (boxScope.2.view boxScope.1) (.name "x") true [] =
        .ok (.single "x" (.ofUnion [taggedType "dot" [], boxType]), []) := by
    decide +kernel
  refine refine_sound checker boxScope.2 boxScope.1 boxEnvironment boxGuard
    true (.ofBool true) (.single "x" boxType) [] [] ?_ ?_ ?_ rfl ?_ ?_ rfl
    (by decide +kernel) Log.quiet_nil ("x", boxType) (by simp [Facts.single])
  · intro name type shown
    obtain ⟨rfl, rfl⟩ := boxScope_lookup shown
    decide +kernel
  · intro name value valued
    unfold boxEnvironment at valued
    split at valued <;> cases valued
    refine .object fun entry member => ?_
    cases List.mem_singleton.mp member
    exact .constant rfl
  · intro name type shown
    obtain ⟨rfl, rfl⟩ := boxScope_lookup shown
    exact ⟨_, rfl, .union (by simp) box⟩
  · refine ⟨trivial, ?_⟩
    rintro facts ⟨added, run, _⟩
    cases early.symm.trans run
    refine ⟨?_, trivial⟩
    intro type known
    cases known
    decide +kernel
  · have same :
        (Value.ofString "box").StrictEqual (.ofString "box") true :=
      .constant
    refine .andRight (.name rfl) rfl ?_
    exact .strictEqual (.member (.name rfl) (.exposed rfl))
      (.constant (.literal rfl) (.constant rfl)) same

end Tagged

end Checker

end StructuralTyping
