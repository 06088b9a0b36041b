import StructuralTyping.Checker.Coverage
import StructuralTyping.Proofs.Carrying

namespace StructuralTyping

/-!
# Larger limits change no answer

A run that meets no limit is the same run under larger limits. This is shown for
the whole checker at once: normalization, evaluation and comparison call each
other at shifted depths and test the bound in different ways, but each of them
either stays below both bounds or reports the smaller one. With equal depth
bounds the same statements say that a larger budget repeats every answer.
-/

open Check Stateful

/-- A checker whose limits are at least those of another one over the same arena. -/
class Checker.Widens
    (gap : Gap)
    (small large : Checker) :
    Prop where
  arena : small.arena = large.arena
  strict :
    small.options.strictNullChecks = large.options.strictNullChecks
  deeper : small.options.maxDepth ≤ large.options.maxDepth + gap.shift
  equal : gap.sameDepth → small.options = large.options
  longer : small.budget ≤ large.budget

/-- The parts of a pass carry over to those of another one. -/
class NormalPass.Carries
    (gap : Gap)
    (first second : NormalPass) :
    Prop where
  normalize :
    ∀ deep flat [gap.Apart deep flat] type,
      Stateful.Carries gap
        (first.normalize deep type) (second.normalize flat type)
  inner :
    ∀ deep flat [gap.Apart deep flat] type,
      Stateful.Carries gap (first.inner deep type) (second.inner flat type)
  intersection :
    ∀ deep flat [gap.Apart deep flat] members,
      Stateful.Carries gap
        (first.intersection deep members) (second.intersection flat members)

attribute [instance] NormalPass.Carries.normalize NormalPass.Carries.inner
  NormalPass.Carries.intersection

/-- Evaluating an application carries over. -/
class Evaluator.Carries
    (gap : Gap)
    (first second : Evaluator) :
    Prop where
  run :
    ∀ application deep flat [gap.Apart deep flat],
      Check.Carries gap
        (first application deep).run (second application flat).run

attribute [instance] Evaluator.Carries.run

/-- Two modes that differ only in limits. -/
class NormalMode.Widens
    (gap : Gap)
    (first second : NormalMode) :
    Prop where
  checker : Checker.Widens gap first.checker second.checker
  evaluate : Evaluator.Carries gap first.evaluate second.evaluate
  reports : first.evaluate.Reports
  references : first.keepReferences = second.keepReferences

attribute [instance] NormalMode.Widens.checker NormalMode.Widens.evaluate
  NormalMode.Widens.reports

variable {gap : Gap} {deep flat depth : Nat} [apart : gap.Apart deep flat]

section Normalization

variable
  (first second : NormalPass)
  [NormalPass.Carries gap first second]

namespace NormalPass

instance :
    Stateful.Carries gap
      (first.rebuild deep occurrence application)
      (second.rebuild flat occurrence application) := by
  unfold rebuild
  infer_instance

instance :
    Stateful.Carries gap
      (first.union arena deep members)
      (second.union arena flat members) := by
  unfold union
  infer_instance

instance :
    Stateful.Carries gap
      (first.mergeProperty arena deep shape property)
      (second.mergeProperty arena flat shape property) := by
  unfold mergeProperty
  cases shape.property? property.name <;> (dsimp only; infer_instance)

instance :
    Stateful.Carries gap
      (first.mergeIndex arena deep one other)
      (second.mergeIndex arena flat one other) := by
  cases one <;> cases other <;> (simp only [mergeIndex]; infer_instance)

instance :
    Stateful.Carries gap
      (first.mergeShape arena deep one other)
      (second.mergeShape arena flat one other) := by
  unfold mergeShape
  infer_instance

instance :
    Stateful.Carries gap
      (first.mergeObjects arena deep members)
      (second.mergeObjects arena flat members) := by
  unfold mergeObjects
  rcases shapesOf members with _ | ⟨one, _ | ⟨other, rest⟩⟩ <;>
    (dsimp only; infer_instance)

instance :
    Stateful.Carries gap
      (first.meetMembers arena deep types)
      (second.meetMembers arena flat types) := by
  unfold meetMembers
  cases types.find? fun type => type.isNever || type.isPrimitive .any with
  | some type =>
      dsimp only
      infer_instance
  | none =>
      dsimp only
      cases reduceAtoms
          ((types.filter fun type => !type.isPrimitive .unknown).foldl
            arena.appendUnique []) with
      | none =>
          dsimp only
          infer_instance
      | some members =>
          refine @Stateful.Carries.ofBind _ _ _ _ _ _ _ _ _ _ fun merged => ?_
          rcases merged with _ | ⟨one, _ | ⟨other, rest⟩⟩ <;>
            (dsimp only; infer_instance)

instance :
    Stateful.Carries gap
      (first.nextIntersection arena deep members)
      (second.nextIntersection arena flat members) := by
  unfold nextIntersection
  refine @Stateful.Carries.ofBind _ _ _ _ _ _ _ _ _ _ fun types => ?_
  dsimp only
  cases distribute? (flattenIntersection types) <;>
    (dsimp only; infer_instance)

instance :
    Stateful.Carries gap
      (first.normalizeShape deep shape)
      (second.normalizeShape flat shape) := by
  unfold normalizeShape
  refine @Stateful.Carries.ofBind _ _ _ _ _ _ _ _ _ _ fun properties => ?_
  cases shape.index <;>
    (simp only [Option.mapM_none, Option.mapM_some]; infer_instance)

instance :
    Stateful.Carries gap
      (first.normalizeSignature deep signature)
      (second.normalizeSignature flat signature) := by
  unfold normalizeSignature
  infer_instance

section Modes

variable
  (firstMode secondMode : NormalMode)
  [widens : NormalMode.Widens gap firstMode secondMode]

instance :
    Stateful.Carries gap
      (first.normalizeApplication firstMode deep occurrence application)
      (second.normalizeApplication secondMode flat occurrence application) := by
  unfold normalizeApplication
  refine @Stateful.Carries.ofBind _ _ _ _ _ _ _ _ _ _ fun result => ?_
  cases result <;> (dsimp only; infer_instance)

instance :
    Stateful.Carries gap
      (first.normalizeNode firstMode deep type)
      (second.normalizeNode secondMode flat type) := by
  have arena := widens.checker.arena
  have references := widens.references
  cases type <;> simp only [normalizeNode] <;>
    first
    | infer_instance
    | (rw [arena]; infer_instance)
    | (rw [references]; infer_instance)

/-- Normalization reports the smaller bound, or meets none of the two. -/
instance :
    Stateful.Carries gap
      (first.nextNormalize firstMode deep type)
      (second.nextNormalize secondMode flat type) := by
  unfold nextNormalize
  split
  · infer_instance
  by_cases beyond : firstMode.checker.options.maxDepth ≤ deep
  · rw [if_pos beyond]
    refine Stateful.Carries.ofLoud ?_ fun equal => ?_
    · rintro (_ | _) log value after reported run
      · cases run
        rfl
      · cases run
        rfl
    · have options := widens.checker.equal equal
      have sameDepth : deep = flat := by
        rw [apart.same, gap.level equal, Nat.add_zero]
      rw [options, sameDepth] at beyond
      rw [if_pos beyond]
      unfold reportOnce Checker.reportTooComplex Checker.depthDiagnostic
      rw [options]
  · have deeper := widens.checker.deeper
    have same := apart.same
    rw [if_neg beyond, if_neg (by omega)]
    infer_instance

instance :
    Stateful.Carries gap
      (first.nextInner deep type)
      (second.nextInner flat type) := by
  cases type <;> (dsimp only [nextInner]; infer_instance)

instance :
    NormalPass.Carries gap
      (first.next firstMode)
      (second.next secondMode) where
  normalize deep flat apart type := by
    change
      Stateful.Carries gap
        (first.nextNormalize firstMode deep type)
        (second.nextNormalize secondMode flat type)
    infer_instance
  inner deep flat apart type := by
    change
      Stateful.Carries gap
        (first.nextInner deep type) (second.nextInner flat type)
    infer_instance
  intersection deep flat apart members := by
    change
      Stateful.Carries gap
        (first.nextIntersection firstMode.checker.arena deep members)
        (second.nextIntersection secondMode.checker.arena flat members)
    rw [widens.checker.arena]
    infer_instance

end Modes

end NormalPass

/-- Normalization carries over to more budget and a deeper bound. -/
theorem normalPass_carries
    {firstMode secondMode : NormalMode}
    [NormalMode.Widens gap firstMode secondMode]
    {budget enough : Nat}
    (longer : budget ≤ enough) :
    NormalPass.Carries gap
      (normalPass firstMode budget)
      (normalPass secondMode enough) := by
  induction budget generalizing enough with
  | zero =>
      exact
        { normalize := fun _ _ _ _ => Stateful.Carries.ofExhausted _
          inner := fun _ _ _ _ => Stateful.Carries.ofExhausted _
          intersection := fun _ _ _ _ => Stateful.Carries.ofExhausted _ }
  | succ budget inductionHypothesis =>
      obtain ⟨enough, rfl⟩ : ∃ more, enough = more + 1 :=
        ⟨enough - 1, by omega⟩
      have passes := inductionHypothesis (Nat.le_of_succ_le_succ longer)
      rw [normalPass_succ, normalPass_succ]
      infer_instance

/-- Normalizing at a depth carries over to more budget and a deeper bound. -/
theorem normalizeIn_carries
    {firstMode secondMode : NormalMode}
    [NormalMode.Widens gap firstMode secondMode]
    {budget enough : Nat}
    (longer : budget ≤ enough) :
    Check.Carries gap
      (normalizeIn firstMode budget deep type)
      (normalizeIn secondMode enough flat type) := by
  unfold normalizeIn
  rw [StateT.run'_eq, StateT.run'_eq, map_eq_pure_bind, map_eq_pure_bind]
  have passes :
      NormalPass.Carries gap
        (normalPass firstMode budget)
        (normalPass secondMode enough) :=
    normalPass_carries longer
  have started :=
    (passes.normalize deep flat type).started
      (show Flagged.raised false = false from rfl)
  exact @Check.Carries.ofBind _ _ _ _ _ _ _ started _

end Normalization

/-- Two evaluations that differ only in limits. -/
class Evaluation.Widens
    (gap : Gap)
    (first second : Evaluation) :
    Prop where
  checker : Checker.Widens gap first.checker second.checker
  evaluate : Evaluator.Carries gap first.evaluate second.evaluate
  reports : first.evaluate.Reports
  longer : first.budget ≤ second.budget

attribute [instance] Evaluation.Widens.checker Evaluation.Widens.evaluate
  Evaluation.Widens.reports

section Evaluation

/-- A failure at the depth bound is told by the bound alone. -/
theorem failTooComplex_eq
    {small large : Checker}
    (options : small.options = large.options)
    (type : Ty) :
    (small.failTooComplex type : Evaluate α) = large.failTooComplex type := by
  unfold Checker.failTooComplex Checker.reportTooComplex Checker.depthDiagnostic
  rw [options]

/-- An exceeded depth is reported before it makes an evaluation fail. -/
theorem failTooComplex_carries
    {checker : Checker}
    {second : Evaluate α}
    (same : gap.sameDepth → checker.failTooComplex type = second) :
    Check.Carries gap (checker.failTooComplex type).run second.run := by
  refine Check.Carries.ofLoud ?_ fun equal => congrArg ExceptT.run (same equal)
  intro log value after run
  cases run
  exact fun quiet =>
    quiet _ (List.mem_append_right _ (List.mem_singleton.mpr rfl)) rfl

namespace Evaluation

variable
  (first second : Evaluation)
  [widens : Evaluation.Widens gap first second]

instance :
    Check.Carries gap
      (first.normalizeAt deep type)
      (second.normalizeAt flat type) := by
  unfold normalizeAt
  have modes :
      NormalMode.Widens gap
        { checker := first.checker
          evaluate := first.evaluate
          keepReferences := false }
        { checker := second.checker
          evaluate := second.evaluate
          keepReferences := false } :=
    ⟨widens.checker, widens.evaluate, widens.reports, rfl⟩
  exact normalizeIn_carries widens.longer

instance :
    Check.Carries gap
      (first.normalizeOperand deep type)
      (second.normalizeOperand flat type) := by
  unfold normalizeOperand
  have modes :
      NormalMode.Widens gap
        { checker := first.checker
          evaluate := first.evaluate
          keepReferences := true }
        { checker := second.checker
          evaluate := second.evaluate
          keepReferences := true } :=
    ⟨widens.checker, widens.evaluate, widens.reports, rfl⟩
  exact normalizeIn_carries widens.longer

/-- Following references carries over to a longer way to the bound. -/
theorem resolveWithin_carries
    {remaining further : Nat}
    (within : remaining ≤ further)
    (same : gap.sameDepth → remaining = further)
    (deep flat : Nat)
    [gap.Apart deep flat]
    (type : Ty) :
    Check.Carries gap
      (first.resolveWithin remaining deep type).run
      (second.resolveWithin further flat type).run := by
  induction remaining generalizing further deep flat type with
  | zero =>
      unfold resolveWithin
      refine failTooComplex_carries fun equal => ?_
      cases same equal
      exact failTooComplex_eq (widens.checker.equal equal) type
  | succ remaining inductionHypothesis =>
      obtain ⟨further, rfl⟩ : ∃ more, further = more + 1 :=
        ⟨further - 1, by omega⟩
      have follows :=
        inductionHypothesis (Nat.le_of_succ_le_succ within)
          (fun equal => Nat.succ.inj (same equal)) (deep + 1) (flat + 1)
      cases type with
      | named reference =>
          unfold resolveWithin
          rw [widens.checker.arena]
          split <;> infer_instance
      | _ =>
          unfold resolveWithin
          infer_instance

variable (gap) in
include widens apart in
/-- The way to a deeper bound is longer. -/
theorem remainingFrom_le :
    first.remainingFrom deep ≤ second.remainingFrom flat := by
  have deeper := widens.checker.deeper
  have same := apart.same
  unfold remainingFrom
  omega

variable (gap) in
include widens apart in
/-- The way to the same bound is the same. -/
theorem remainingFrom_eq
    (equal : gap.sameDepth) :
    first.remainingFrom deep = second.remainingFrom flat := by
  have same := apart.same
  rw [gap.level equal, Nat.add_zero] at same
  unfold remainingFrom
  rw [widens.checker.equal equal, same]

instance :
    Check.Carries gap
      (first.resolve deep type).run
      (second.resolve flat type).run :=
  first.resolveWithin_carries second (remainingFrom_le gap first second)
    (remainingFrom_eq gap first second) deep flat type

instance :
    Check.Carries gap
      (first.mergeMembers deep members)
      (second.mergeMembers flat members) := by
  unfold mergeMembers
  split
  · have expands :
        Check.Carries gap
          (members.mapM fun member : Ty =>
            if member.isReference then
              first.resolve deep member
            else
              (pure member : Evaluate Ty)).run
          (members.mapM fun member : Ty =>
            if member.isReference then
              second.resolve flat member
            else
              (pure member : Evaluate Ty)).run :=
      Check.Carries.ofEvaluateMapM members fun _ => inferInstance
    refine @Check.Carries.ofBind _ _ _ _ _ _ _ expands fun result => ?_
    cases result <;> (dsimp only; infer_instance)
  · infer_instance

instance :
    Check.Carries gap
      (first.normalizeMerged deep type)
      (second.normalizeMerged flat type) := by
  unfold normalizeMerged
  refine @Check.Carries.ofBind _ _ _ _ _ _ _ _ fun normalized => ?_
  cases normalized with
  | intersection occurrence members =>
      refine @Check.Carries.ofBind _ _ _ _ _ _ _ _ fun merged => ?_
      cases merged <;> (dsimp only; infer_instance)
  | _ =>
      dsimp only
      infer_instance

/-- Looking behind references carries over to a longer way to the bound. -/
theorem structuralWithin_carries
    {remaining further : Nat}
    (within : remaining ≤ further)
    (deep flat : Nat)
    [gap.Apart deep flat]
    (type : Ty) :
    Check.Carries gap
      (first.structuralWithin remaining deep type).run
      (second.structuralWithin further flat type).run := by
  induction remaining generalizing further deep flat type with
  | zero =>
      have never :
          ∀ second : Evaluate Ty,
            Check.Carries gap
              (ExceptT.run (Check.exhausted : Check (Except UtilityError Ty)))
              second.run :=
        fun second => Check.Carries.ofExhausted second.run
      unfold structuralWithin
      refine @Check.Carries.ofEvaluateBind _ _ _ _ _ _ _ _ fun resolved => ?_
      cases resolved <;> (dsimp only; infer_instance)
  | succ remaining inductionHypothesis =>
      obtain ⟨further, rfl⟩ : ∃ more, further = more + 1 :=
        ⟨further - 1, by omega⟩
      have follows :=
        inductionHypothesis (Nat.le_of_succ_le_succ within) (deep + 1) (flat + 1)
      unfold structuralWithin
      refine @Check.Carries.ofEvaluateBind _ _ _ _ _ _ _ _ fun resolved => ?_
      cases resolved <;> (dsimp only; infer_instance)

instance :
    Check.Carries gap
      (first.structural deep type).run
      (second.structural flat type).run :=
  first.structuralWithin_carries second (remainingFrom_le gap first second) deep
    flat type

instance :
    Check.Carries gap
      (first.objectBase utility deep base).run
      (second.objectBase utility flat base).run := by
  unfold objectBase
  refine @Check.Carries.ofEvaluateBind _ _ _ _ _ _ _ _ fun type => ?_
  cases type <;> (dsimp only; infer_instance)

instance :
    Check.Carries gap
      (first.functionBase utility deep base).run
      (second.functionBase utility flat base).run := by
  unfold functionBase
  refine @Check.Carries.ofEvaluateBind _ _ _ _ _ _ _ _ fun type => ?_
  cases type <;> (dsimp only; infer_instance)

omit widens in
/-- A key set is read from the arena alone. -/
theorem keySet_eq
    (arena : first.checker.arena = second.checker.arena)
    (utility : String)
    (keys : Ty) :
    first.keySet utility keys = second.keySet utility keys := by
  unfold keySet
  rw [arena]

instance :
    Check.Carries gap
      (first.keyedBase application deep).run
      (second.keyedBase application flat).run := by
  have same := first.keySet_eq second widens.checker.arena
  unfold keyedBase
  rcases application.arguments with _ | ⟨keys, _ | ⟨other, rest⟩⟩
  · dsimp only
    infer_instance
  · dsimp only
    rw [same]
    infer_instance
  · dsimp only
    infer_instance

/-- Applying a utility carries over to a deeper bound. -/
instance :
    Check.Carries gap
      (first.apply application deep).run
      (second.apply application flat).run := by
  unfold apply
  split
  · infer_instance
  have same := apart.same
  by_cases beyond : first.checker.options.maxDepth < deep
  · rw [if_pos beyond]
    refine failTooComplex_carries fun equal => ?_
    have options := widens.checker.equal equal
    rw [gap.level equal, Nat.add_zero] at same
    rw [options, same] at beyond
    rw [if_pos beyond]
    exact failTooComplex_eq options _
  have deeper := widens.checker.deeper
  rw [if_neg beyond, if_neg (by omega)]
  cases Utility.ofName? application.utility with
  | none =>
      dsimp only
      infer_instance
  | some utility =>
  cases utility with
  | pickKeys =>
      dsimp only
      unfold applyPick
      refine @Check.Carries.ofEvaluateBind _ _ _ _ _ _ _ _ fun keyed => ?_
      obtain ⟨shape, keys⟩ := keyed
      dsimp only
      split <;> infer_instance
  | omitKeys =>
      dsimp only
      unfold applyOmit
      infer_instance
  | allOptional =>
      dsimp only
      unfold applyOptional
      infer_instance
  | allRequired =>
      dsimp only
      unfold applyOptional
      infer_instance
  | allReadonly =>
      dsimp only
      unfold applyReadonly
      refine @Check.Carries.ofEvaluateBind _ _ _ _ _ _ _ _ fun _ => ?_
      refine @Check.Carries.ofEvaluateBind _ _ _ _ _ _ _ _ fun type => ?_
      cases type <;> (dsimp only; infer_instance)
  | returnType =>
      dsimp only
      unfold applyReturnType
      infer_instance
  | parameters =>
      dsimp only
      unfold applyParameters
      infer_instance
  | nonNullable =>
      dsimp only
      unfold applyNonNullable
      infer_instance

end Evaluation

namespace Checker

variable
  (small large : Checker)
  [widens : Checker.Widens gap small large]

/-- Evaluating applications carries over to more budget and a deeper bound. -/
theorem evaluateWithin_carries
    {budget enough : Nat}
    (longer : budget ≤ enough) :
    Evaluator.Carries gap
      (small.evaluateWithin budget)
      (large.evaluateWithin enough) := by
  induction budget generalizing enough with
  | zero =>
      exact ⟨fun _ _ _ _ => Check.Carries.ofExhausted _⟩
  | succ budget inductionHypothesis =>
      obtain ⟨enough, rfl⟩ : ∃ more, enough = more + 1 :=
        ⟨enough - 1, by omega⟩
      have within := Nat.le_of_succ_le_succ longer
      constructor
      intro application deep flat apart
      have evaluations :
          Evaluation.Widens gap
            { checker := small
              evaluate := small.evaluateWithin budget
              budget }
            { checker := large
              evaluate := large.evaluateWithin enough
              budget := enough } :=
        ⟨widens, inductionHypothesis within, inferInstance, within⟩
      unfold evaluateWithin
      infer_instance

instance :
    Evaluation.Widens gap small.evaluation large.evaluation :=
  ⟨widens, small.evaluateWithin_carries large widens.longer, inferInstance,
    widens.longer⟩

variable [gap.Level]

instance :
    Check.Carries gap
      (small.normalize type)
      (large.normalize type) := by
  unfold normalize
  infer_instance

instance :
    Check.Carries gap
      (small.structural depth type)
      (large.structural depth type) := by
  unfold structural
  infer_instance

instance :
    Check.Carries gap
      (small.expand type)
      (large.expand type) := by
  unfold expand
  refine @Check.Carries.ofBind _ _ _ _ _ _ _ _ fun result => ?_
  cases result <;> (dsimp only; infer_instance)

instance :
    Check.Carries gap
      (small.applyUtility application)
      (large.applyUtility application) := by
  unfold applyUtility
  refine @Check.Carries.ofBind _ _ _ _ _ _ _ _ fun result => ?_
  cases result <;> (dsimp only; infer_instance)

instance :
    Check.Carries gap
      (small.tupleElement elements)
      (large.tupleElement elements) := by
  unfold tupleElement
  infer_instance

/-- Computing the members of a type carries over. -/
theorem apparentWithin_carries
    {budget enough : Nat}
    (longer : budget ≤ enough)
    (type : Ty) :
    Check.Carries gap
      (small.apparentWithin budget type)
      (large.apparentWithin enough type) := by
  induction budget generalizing enough type with
  | zero =>
      exact Check.Carries.ofExhausted _
  | succ budget inductionHypothesis =>
      obtain ⟨enough, rfl⟩ : ∃ more, enough = more + 1 :=
        ⟨enough - 1, by omega⟩
      have inside := inductionHypothesis (Nat.le_of_succ_le_succ longer)
      unfold apparentWithin
      split
      case h_10 =>
        -- The members of an intersection add their own members in turn.
        refine
          @Check.Carries.ofBind _ _ _ _ _ _ _
            (@Check.Carries.ofFoldlM _ _ _ _ _ _ _ fun shape member => ?_) _
        refine @Check.Carries.ofBind _ _ _ _ _ _ _ _ fun result => ?_
        cases result with
        | error _ =>
            dsimp only
            infer_instance
        | ok resolved =>
            refine @Check.Carries.ofBind _ _ _ _ _ _ _ _ fun found => ?_
            cases found <;> (dsimp only; infer_instance)
      all_goals infer_instance

instance :
    Check.Carries gap
      (small.apparent type)
      (large.apparent type) :=
  small.apparentWithin_carries large widens.longer type

/-- Reading a property carries over. -/
theorem propertyWithin_carries
    {budget enough : Nat}
    (longer : budget ≤ enough)
    (type : Ty)
    (name : String) :
    Check.Carries gap
      (small.propertyWithin budget type name)
      (large.propertyWithin enough type name) := by
  induction budget generalizing enough type with
  | zero =>
      exact Check.Carries.ofExhausted _
  | succ budget inductionHypothesis =>
      obtain ⟨enough, rfl⟩ : ∃ more, enough = more + 1 :=
        ⟨enough - 1, by omega⟩
      have inside := inductionHypothesis (Nat.le_of_succ_le_succ longer)
      unfold propertyWithin
      refine @Check.Carries.ofBind _ _ _ _ _ _ _ _ fun result => ?_
      split
      · infer_instance
      · next members =>
        have visits :
            Check.Carries gap
              (members.mapM fun member =>
                OptionT.mk (small.propertyWithin budget member name)).run
              (members.mapM fun member =>
                OptionT.mk (large.propertyWithin enough member name)).run :=
          Check.Carries.ofOptionMapM members inside
        refine @Check.Carries.ofBind _ _ _ _ _ _ _ visits fun found => ?_
        cases found <;> (dsimp only; infer_instance)
      · infer_instance
      · refine @Check.Carries.ofBind _ _ _ _ _ _ _ _ fun found => ?_
        cases found <;> (dsimp only; infer_instance)

instance :
    Check.Carries gap
      (small.propertyOf type name)
      (large.propertyOf type name) :=
  small.propertyWithin_carries large widens.longer type name

end Checker

end Evaluation

section Comparison

namespace Relating

variable
  (first second : Relating Bool)
  [Stateful.Carries gap first second]

instance :
    Stateful.Carries gap (orFail first reason) (orFail second reason) := by
  unfold orFail
  infer_instance

instance :
    Stateful.Carries gap (attempt first) (attempt second) := by
  unfold attempt
  infer_instance

instance :
    Stateful.Carries gap (silently first) (silently second) := by
  unfold silently
  infer_instance

omit first second in
/-- Comparisons made one after the other carry over when each of them does. -/
theorem allOf_carries
    {firsts seconds : List (Relating Bool)}
    (each : List.Forall₂ (Stateful.Carries gap) firsts seconds) :
    Stateful.Carries gap (allOf firsts) (allOf seconds) := by
  induction each with
  | nil =>
      unfold allOf
      infer_instance
  | cons head _ inductionHypothesis =>
      unfold allOf
      infer_instance

omit first second in
/-- A search for a comparison that holds carries over when each comparison does. -/
theorem anyOf_carries
    {firsts seconds : List (Relating Bool)}
    (each : List.Forall₂ (Stateful.Carries gap) firsts seconds) :
    Stateful.Carries gap (anyOf firsts) (anyOf seconds) := by
  induction each with
  | nil =>
      unfold anyOf
      infer_instance
  | cons head _ inductionHypothesis =>
      unfold anyOf
      infer_instance

omit first second in
/-- Visits to the items of a list carry over item by item. -/
theorem forall₂_map_carries
    {first second : α → Relating Bool}
    (items : List α)
    (each : ∀ item, Stateful.Carries gap (first item) (second item)) :
    List.Forall₂ (Stateful.Carries gap)
      (items.map first) (items.map second) := by
  rw [List.forall₂_map_left_iff, List.forall₂_map_right_iff]
  exact List.forall₂_same.mpr fun item _ => each item

instance
    (first second : α → Relating Bool)
    (items : List α)
    [each : ∀ item, Stateful.Carries gap (first item) (second item)] :
    Stateful.Carries gap
      (allOf (items.map first)) (allOf (items.map second)) :=
  allOf_carries (forall₂_map_carries items each)

instance
    (first second : α → Relating Bool)
    (items : List α)
    [each : ∀ item, Stateful.Carries gap (first item) (second item)] :
    Stateful.Carries gap
      (anyOf (items.map first)) (anyOf (items.map second)) :=
  anyOf_carries (forall₂_map_carries items each)

end Relating

open Relating

/--
Two levels of the comparison that differ only in limits. The members of a type do
not depend on the depth at which they are asked for.
-/
class RelationStep.Widens
    (gap : Gap)
    (first second : RelationStep) :
    Prop where
  checker : Checker.Widens gap first.checker second.checker
  apart : gap.Apart first.depth second.depth
  apparent :
    ∀ type,
      Check.Carries gap
        (first.checker.apparent type) (second.checker.apparent type)
  compare :
    ∀ assumptions source target,
      Stateful.Carries gap
        (first.compare assumptions source target)
        (second.compare assumptions source target)

attribute [instance] RelationStep.Widens.checker RelationStep.Widens.apart
  RelationStep.Widens.apparent RelationStep.Widens.compare

namespace RelationStep

variable
  (first second : RelationStep)
  [widens : RelationStep.Widens gap first second]

instance :
    Stateful.Carries gap
      (first.expandReference type)
      (second.expandReference type) := by
  cases type with
  | named reference =>
      unfold expandReference
      rw [widens.checker.arena]
      dsimp only
      split <;> infer_instance
  | generic occurrence application =>
      unfold expandReference
      refine @Stateful.Carries.ofBind _ _ _ _ _ _ _ _ _ _ fun result => ?_
      cases result <;> (dsimp only; infer_instance)
  | _ =>
      unfold expandReference
      infer_instance

instance :
    Stateful.Carries gap
      (first.viaReference assumptions source target)
      (second.viaReference assumptions source target) := by
  unfold viaReference
  rw [widens.checker.arena]
  dsimp only
  split
  · infer_instance
  split
  · infer_instance
  refine @Stateful.Carries.ofBind _ _ _ _ _ _ _ _ _ _ fun expandedSource => ?_
  cases expandedSource with
  | error reason =>
      dsimp only
      infer_instance
  | ok one =>
      refine
        @Stateful.Carries.ofBind _ _ _ _ _ _ _ _ _ _ fun expandedTarget => ?_
      cases expandedTarget <;> (dsimp only; infer_instance)

instance :
    Stateful.Carries gap
      (first.fromUnion assumptions source target)
      (second.fromUnion assumptions source target) := by
  unfold fromUnion
  refine @Stateful.Carries.ofBind _ _ _ _ _ _ _ _ _ _ fun normalized => ?_
  cases normalized <;> (dsimp only; infer_instance)

instance :
    Stateful.Carries gap
      (first.toUnion assumptions source target)
      (second.toUnion assumptions source target) := by
  unfold toUnion
  refine @Stateful.Carries.ofBind _ _ _ _ _ _ _ _ _ _ fun normalized => ?_
  cases normalized <;> (dsimp only; infer_instance)

instance :
    Stateful.Carries gap
      (first.toIntersection assumptions source target)
      (second.toIntersection assumptions source target) := by
  unfold toIntersection
  refine @Stateful.Carries.ofBind _ _ _ _ _ _ _ _ _ _ fun normalized => ?_
  cases normalized <;> (dsimp only; infer_instance)

instance :
    Stateful.Carries gap
      (first.fromIntersection assumptions source target)
      (second.fromIntersection assumptions source target) := by
  unfold fromIntersection
  refine @Stateful.Carries.ofBind _ _ _ _ _ _ _ _ _ _ fun normalized => ?_
  cases normalized with
  | intersection occurrence members =>
      refine @Stateful.Carries.ofBind _ _ _ _ _ _ _ _ _ _ fun found => ?_
      refine @Stateful.Carries.ofIte _ _ _ _ _ _ _ _ _ _ _ ?_
      refine @Stateful.Carries.ofBind _ _ _ _ _ _ _ _ _ _ fun merged => ?_
      cases merged <;> (dsimp only; infer_instance)
  | _ =>
      dsimp only
      infer_instance

instance :
    Stateful.Carries gap
      (first.toProperty assumptions source target members property)
      (second.toProperty assumptions source target members property) := by
  unfold toProperty
  cases members.property? property.name <;> (dsimp only; infer_instance)

instance :
    Stateful.Carries gap
      (first.toIndex assumptions members index)
      (second.toIndex assumptions members index) := by
  unfold toIndex
  dsimp only
  cases members.index <;> (dsimp only; infer_instance)

instance :
    Stateful.Carries gap
      (first.toMembers assumptions source target members shape)
      (second.toMembers assumptions source target members shape) := by
  unfold toMembers
  cases shape.index <;> (dsimp only; infer_instance)

instance :
    Stateful.Carries gap
      (first.toObject assumptions source target shape)
      (second.toObject assumptions source target shape) := by
  unfold toObject
  split
  · infer_instance
  split
  · infer_instance
  refine @Stateful.Carries.ofBind _ _ _ _ _ _ _ _ _ _ fun members => ?_
  cases members <;> (dsimp only; infer_instance)

/-- Elements are compared with one type position by position. -/
theorem elementsTo_carries
    (elements : List Ty) :
    List.Forall₂ (Stateful.Carries gap)
      (first.elementsTo assumptions element position elements)
      (second.elementsTo assumptions element position elements) := by
  induction elements generalizing position with
  | nil =>
      exact .nil
  | cons type rest inductionHypothesis =>
      exact .cons inferInstance inductionHypothesis

/-- Elements are compared in pairs position by position. -/
theorem elementPairs_carries
    (elements others : List Ty) :
    List.Forall₂ (Stateful.Carries gap)
      (first.elementPairs assumptions position elements others)
      (second.elementPairs assumptions position elements others) := by
  induction elements generalizing position others with
  | nil =>
      exact .nil
  | cons type rest inductionHypothesis =>
      cases others with
      | nil =>
          exact .nil
      | cons other others =>
          exact .cons inferInstance (inductionHypothesis others)

instance :
    Stateful.Carries gap
      (first.toArray assumptions source target element readonly)
      (second.toArray assumptions source target element readonly) := by
  cases source with
  | tuple occurrence elements actualReadonly =>
      unfold toArray
      refine @Stateful.Carries.ofIte _ _ _ _ _ _ _ _ _ _ _ ?_
      exact allOf_carries (first.elementsTo_carries second elements)
  | _ =>
      unfold toArray
      infer_instance

instance :
    Stateful.Carries gap
      (first.toTuple assumptions source target elements readonly)
      (second.toTuple assumptions source target elements readonly) := by
  cases source with
  | tuple occurrence actual actualReadonly =>
      unfold toTuple
      refine @Stateful.Carries.ofIte _ _ _ _ _ _ _ _ _ _ _ ?_
      refine @Stateful.Carries.ofIte _ _ _ _ _ _ _ _ _ _ _ ?_
      exact allOf_carries (first.elementPairs_carries second actual elements)
  | _ =>
      unfold toTuple
      infer_instance

instance :
    Stateful.Carries gap
      (first.toArgument assumptions bivariant parameter argument)
      (second.toArgument assumptions bivariant parameter argument) := by
  unfold toArgument
  infer_instance

/-- Parameters are compared with the supplied ones position by position. -/
theorem suppliedParameters_carries
    (target : Signature Ty)
    (parameters : List (Parameter Ty)) :
    List.Forall₂ (Stateful.Carries gap)
      (first.suppliedParameters assumptions bivariant target position
        parameters)
      (second.suppliedParameters assumptions bivariant target position
        parameters) := by
  induction parameters generalizing position with
  | nil =>
      exact .nil
  | cons parameter rest inductionHypothesis =>
      refine .cons ?_ inductionHypothesis
      cases target.parameters[position]? with
      | some other =>
          dsimp only
          infer_instance
      | none =>
          split <;> infer_instance

/-- A rest parameter is compared position by position. -/
theorem restParameters_carries
    (parameters : List (Parameter Ty)) :
    List.Forall₂ (Stateful.Carries gap)
      (first.restParameters assumptions bivariant rest position parameters)
      (second.restParameters assumptions bivariant rest position parameters) := by
  induction parameters generalizing position with
  | nil =>
      exact .nil
  | cons parameter others inductionHypothesis =>
      exact .cons inferInstance inductionHypothesis

/-- The comparisons of a rest parameter carry over one by one. -/
theorem restTo_carries
    (source target : Signature Ty) :
    List.Forall₂ (Stateful.Carries gap)
      (first.restTo assumptions bivariant source target)
      (second.restTo assumptions bivariant source target) := by
  unfold restTo
  split
  · exact .nil
  · refine List.rel_append (first.restParameters_carries second _) ?_
    split
    · exact .nil
    · exact .cons inferInstance .nil

instance :
    Stateful.Carries gap
      (first.resultTo assumptions source target)
      (second.resultTo assumptions source target) := by
  unfold resultTo
  infer_instance

instance :
    Stateful.Carries gap
      (first.toFunction assumptions source target)
      (second.toFunction assumptions source target) := by
  cases source with
  | function occurrence signature =>
      exact allOf_carries
        (List.rel_append
          (List.rel_append
            (first.suppliedParameters_carries second target
              signature.parameters)
            (first.restTo_carries second signature target))
          (.cons inferInstance .nil))
  | _ =>
      unfold toFunction
      infer_instance

instance :
    Stateful.Carries gap
      (first.compareShapes assumptions source target)
      (second.compareShapes assumptions source target) := by
  cases target with
  | primitive kind =>
      unfold compareShapes toPrimitive
      infer_instance
  | literal occurrence value =>
      unfold compareShapes toLiteral
      infer_instance
  | _ =>
      unfold compareShapes
      infer_instance

instance :
    Stateful.Carries gap
      (first.relate assumptions source target)
      (second.relate assumptions source target) := by
  unfold relate
  rw [widens.checker.strict]
  infer_instance

end RelationStep

namespace Checker

variable
  (small large : Checker)
  [widens : Checker.Widens gap small large]

/--
A comparison carries over to a longer way to the bound, from the depths that the
gap is about. The ways to the bound are what is left of it at those depths.
-/
theorem compareWithin_carries
    [apparent :
      ∀ type, Check.Carries gap (small.apparent type) (large.apparent type)]
    {remaining further : Nat}
    (within : remaining ≤ small.options.maxDepth)
    (farther : further ≤ large.options.maxDepth)
    (depth :
      small.options.maxDepth - remaining =
        large.options.maxDepth - further + gap.shift)
    (assumptions : Assumptions)
    (source target : Ty) :
    Stateful.Carries gap
      (small.compareWithin remaining assumptions source target)
      (large.compareWithin further assumptions source target) := by
  have deeper := widens.deeper
  have same : gap.sameDepth → remaining = further := by
    intro equal
    have options := widens.equal equal
    have level := gap.level equal
    rw [options] at within depth
    omega
  induction remaining generalizing further assumptions source target with
  | zero =>
      unfold compareWithin
      dsimp only
      split
      · infer_instance
      refine Stateful.Carries.ofLoud ?_ fun equal => ?_
      · rintro ⟨reasons, _ | _⟩ log value after reported run
        · cases run
          rfl
        · cases run
          rfl
      · cases same equal
        dsimp only
        unfold failAtBound reportTooComplex depthDiagnostic
        rw [widens.equal equal]
  | succ remaining inductionHypothesis =>
      obtain ⟨further, rfl⟩ : ∃ more, further = more + 1 :=
        ⟨further - 1, by omega⟩
      unfold compareWithin
      dsimp only
      split
      · infer_instance
      have steps :
          RelationStep.Widens gap
            { checker := small
              depth := small.options.maxDepth - remaining
              compare := small.compareWithin remaining }
            { checker := large
              depth := large.options.maxDepth - further
              compare := large.compareWithin further } :=
        { checker := widens
          apart := ⟨by dsimp only; omega⟩
          apparent
          compare := fun assumptions source target =>
            inductionHypothesis (by omega) (by omega) (by omega) assumptions
              source target fun equal => Nat.succ.inj (same equal) }
      infer_instance

variable [level : gap.Level]

instance :
    Check.Carries gap
      (small.compare source target)
      (large.compare source target) :=
  (small.compareWithin_carries large (Nat.le_refl _) (Nat.le_refl _)
    (by rw [level.shift]; omega) {} source target).started rfl

instance :
    Check.Carries gap
      (small.isAssignable source target)
      (large.isAssignable source target) := by
  unfold isAssignable
  infer_instance

instance :
    Check.Carries gap
      (small.assign source target)
      (large.assign source target) := by
  unfold assign
  infer_instance

end Checker

end Comparison

section Coverage

namespace Checker

variable
  (small large : Checker)
  [widens : Checker.Widens gap small large]
  [level : gap.Level]

instance :
    Check.Carries gap
      (small.memberShape member).run
      (large.memberShape member).run := by
  unfold memberShape
  refine @Check.Carries.ofOptionBind _ _ _ _ _ _ _ _ fun result => ?_
  split <;> infer_instance

instance :
    Check.Carries gap
      (small.objectUnion? type)
      (large.objectUnion? type) := by
  unfold objectUnion?
  refine @Check.Carries.ofBind _ _ _ _ _ _ _ _ fun result => ?_
  split
  · next occurrence members =>
    have shapes :
        Check.Carries gap
          (members.mapM small.memberShape).run
          (members.mapM large.memberShape).run :=
      Check.Carries.ofOptionMapM members fun _ => inferInstance
    infer_instance
  · infer_instance

instance :
    Check.Carries gap
      (small.discriminant? type)
      (large.discriminant? type) := by
  unfold discriminant?
  rw [widens.arena]
  refine @Check.Carries.ofBind _ _ _ _ _ _ _ _ fun union => ?_
  split <;> infer_instance

instance :
    Check.Carries gap
      (small.literalCoverage? type)
      (large.literalCoverage? type) := by
  unfold literalCoverage?
  refine @Check.Carries.ofBind _ _ _ _ _ _ _ _ fun result => ?_
  split
  · infer_instance
  · split <;> infer_instance

instance :
    Check.Carries gap
      (small.coverage? type)
      (large.coverage? type) := by
  unfold coverage?
  refine @Check.Carries.ofBind _ _ _ _ _ _ _ _ fun union => ?_
  cases union <;> (dsimp only; infer_instance)

instance
    (coverage : Coverage) :
    Check.Carries gap
      (coverage.residual small)
      (coverage.residual large) := by
  unfold Coverage.residual
  infer_instance

instance :
    Check.Carries gap
      (small.checkExhaustive type handled)
      (large.checkExhaustive type handled) := by
  unfold checkExhaustive
  refine @Check.Carries.ofBind _ _ _ _ _ _ _ _ fun coverage => ?_
  cases coverage <;> (dsimp only; infer_instance)

end Checker

end Coverage

/-- The questions about types that a checker answers. -/
inductive Query where
  | isAssignable (source target : Ty)
  | assign (source target : Ty)
  | normalize (type : Ty)
  | expand (type : Ty)
  | propertyOf (type : Ty) (name : String)
  | applyUtility (application : Application Ty)
  | discriminant (type : Ty)
  | checkExhaustive (type : Ty) (handled : List Literal)
  deriving Repr, DecidableEq

/-- What a question is answered with. -/
def Query.Answer :
    Query →
    Type
  | isAssignable _ _ => Bool
  | assign _ _ => Option Mismatch
  | normalize _ => Ty
  | expand _ => Ty
  | propertyOf _ _ => Option Ty
  | applyUtility _ => Except UtilityError Ty
  | discriminant _ => Option DiscriminatedUnion
  | checkExhaustive _ _ => Exhaustiveness

namespace Checker

/-- Ask a checker a question. -/
def ask
    (checker : Checker) :
    (query : Query) →
    Check query.Answer
  | .isAssignable source target => checker.isAssignable source target
  | .assign source target => checker.assign source target
  | .normalize type => checker.normalize type
  | .expand type => checker.expand type
  | .propertyOf type name => checker.propertyOf type name
  | .applyUtility application => checker.applyUtility application
  | .discriminant type => checker.discriminant? type
  | .checkExhaustive type handled => checker.checkExhaustive type handled

instance
    (small large : Checker)
    [Checker.Widens gap small large]
    [gap.Level]
    (query : Query) :
    Check.Carries gap (small.ask query) (large.ask query) := by
  cases query <;> (dsimp only [ask, Query.Answer]; infer_instance)

/-- More budget repeats every answer, with all that was reported on the way. -/
theorem ask_longer
    {arena : Arena}
    {options : Options}
    {budget enough : Nat}
    {query : Query}
    {answer : query.Answer}
    {log after : Log}
    (run : ask { arena, options, budget } query log = .ok (answer, after))
    (longer : budget ≤ enough) :
    ask { arena, options, budget := enough } query log =
      .ok (answer, after) := by
  have widens :
      Checker.Widens .budgets
        { arena, options, budget }
        { arena, options, budget := enough } :=
    ⟨rfl, rfl, (Nat.le_refl _), fun _ => rfl, longer⟩
  have carries :=
    (inferInstance :
      Check.Carries .budgets
        (ask { arena, options, budget } query)
        (ask { arena, options, budget := enough } query))
  exact (carries.repeats run (.inl trivial)).2

/--
The depth bound is only a safety net. A question that is answered without
reporting an exceeded depth is answered alike under every deeper bound, with
the same diagnostics in the same order.
-/
theorem ask_deeper
    {arena : Arena}
    {options : Options}
    {bound budget : Nat}
    {query : Query}
    {answer : query.Answer}
    {log : Log}
    (run : ask { arena, options, budget } query [] = .ok (answer, log))
    (quiet : log.Quiet)
    (deeper : options.maxDepth ≤ bound) :
    ∀ enough, budget ≤ enough →
      ask { arena, options := { options with maxDepth := bound },
            budget := enough } query [] =
        .ok (answer, log) := by
  intro enough longer
  have widens :
      Checker.Widens (.bounds 0)
        { arena, options, budget }
        { arena, options := { options with maxDepth := bound },
          budget := enough } :=
    ⟨rfl, rfl, deeper, nofun, longer⟩
  have carries :=
    (inferInstance :
      Check.Carries (.bounds 0)
        (ask { arena, options, budget } query)
        (ask { arena, options := { options with maxDepth := bound },
               budget := enough } query))
  exact (carries.repeats run (.inr quiet)).2

/-- A user with a name. -/
def userArena : Arena :=
  { declarations :=
      [{ name := "User"
         definition :=
          .ofShape { properties := [{ name := "name", type := .string }] } }] }

/-- The age of a user, which users do not have. -/
def pickAge : Application Ty :=
  { utility := "Pick"
    base := .named { arena := 0, id := 0, name := "User" }
    arguments := [.ofLiteral (.string (.ofString "age"))] }

/-- A missing property is reported alike at every bound from three on. -/
theorem ask_deeper_pickAge :
    ∃ diagnostic : Diagnostic,
      diagnostic.code = .unknownProperty ∧
        ∀ bound, 3 ≤ bound → ∀ enough, 5 ≤ enough →
          ask { arena := userArena, options := { maxDepth := bound },
                budget := enough } (.normalize (.generic none pickAge)) [] =
            .ok (.generic none pickAge, [diagnostic]) := by
  have run :
      normalize
          { arena := userArena, options := { maxDepth := 3 }, budget := 5 }
          (.generic none pickAge) [] =
        .ok
          (.generic none pickAge,
            [{ stage := .utility
               severity := .error
               code := .unknownProperty
               message :=
                "Pick: unknown property: property \"age\" does not exist on \x7b name: string \x7d" }]) := by
    decide +kernel
  refine ⟨_, ?_, fun bound deeper enough longer =>
    @ask_deeper userArena { maxDepth := 3 } bound 5
      (.normalize (.generic none pickAge)) _ _ run ?_ deeper enough longer⟩
  · rfl
  · simp [Log.Quiet]

end Checker

end StructuralTyping
