import StructuralTyping.Proofs.Limits
import StructuralTyping.Proofs.Outcomes

namespace StructuralTyping

/-!
# Runs at lower depths

What is reached at some depth without exceeding the depth bound is reached alike
at every lower depth, and with more budget. A run settles in one way only, so the
answers of runs at different depths are the same.
-/

open Check

/-- A run that exceeds no depth settles wherever it carries over. -/
theorem Check.Settles.carried
    {first second : Check α}
    (settles : Settles first value)
    (carries : Carries (.bounds shift) first second) :
    Settles second value := by
  obtain ⟨added, run, quiet⟩ := settles
  exact ⟨added, (carries.repeats run (.inr quiet)).2, quiet⟩

/-- Normalization that exceeds no depth settles wherever it carries over. -/
theorem Stateful.Settles.carried
    {first second : Normalizing α}
    (settles : Settles first value)
    (carries : Carries (.bounds shift) first second) :
    Settles second value := by
  obtain ⟨state, after, lowered, still, added, run, quiet⟩ := settles
  exact ⟨state, after, lowered, still, added,
    (carries.repeats run (.inr ⟨still, quiet⟩)).2, quiet⟩

/-- Normalization settles in one way. -/
theorem Stateful.Settles.unique
    {computation : Normalizing α}
    (one : Settles computation first)
    (other : Settles computation second) :
    first = second := by
  obtain ⟨_, _, rfl, _, _, run, _⟩ := one
  obtain ⟨_, _, rfl, _, _, again, _⟩ := other
  cases run.symm.trans again
  rfl

namespace Checker

variable {checker : Checker} {base : Ty} {fewer more deep flat : Nat}

/-- The evaluation of references with some budget. -/
def evaluationWithin
    (checker : Checker)
    (budget : Nat) :
    Evaluation :=
  { checker, evaluate := checker.evaluateWithin budget, budget }

instance
    (checker : Checker)
    (budget : Nat) :
    (checker.evaluationWithin budget).evaluate.Reports :=
  inferInstanceAs (checker.evaluateWithin budget).Reports

/-- What is found behind a type at some depth is found behind it at lower ones. -/
theorem settles_structural_flatter
    (within : fewer ≤ more)
    (below : flat ≤ deep)
    (settles :
      Settles ((checker.evaluationWithin fewer).structural deep base).run outcome) :
    Settles ((checker.evaluationWithin more).structural flat base).run outcome := by
  have widens : Checker.Widens (.bounds (deep - flat)) checker checker :=
    ⟨rfl, rfl, Nat.le_add_right _ _, nofun, Nat.le_refl _⟩
  have evaluations :
      Evaluation.Widens (.bounds (deep - flat))
        (checker.evaluationWithin fewer) (checker.evaluationWithin more) :=
    ⟨widens, checker.evaluateWithin_carries checker within,
      inferInstanceAs (checker.evaluateWithin fewer).Reports, within⟩
  have apart : (Gap.bounds (deep - flat)).Apart deep flat :=
    ⟨(Nat.add_sub_of_le below).symm⟩
  have carries :
      Carries (.bounds (deep - flat))
        ((checker.evaluationWithin fewer).structural deep base).run
        ((checker.evaluationWithin more).structural flat base).run :=
    inferInstance
  exact settles.carried carries

/-- The mode of normalization inside an evaluation with a budget. -/
def modeWithin
    (checker : Checker)
    (budget : Nat) :
    NormalMode :=
  { checker
    evaluate := checker.evaluateWithin budget
    keepReferences := false }

instance
    (checker : Checker)
    (budget : Nat) :
    (checker.modeWithin budget).evaluate.Reports :=
  inferInstanceAs (checker.evaluateWithin budget).Reports

/-- Normalization that settles does so at lower depths and with more budget. -/
theorem settles_flatter
    {inner outer : Nat}
    (wider : inner ≤ outer)
    (within : fewer ≤ more)
    (below : flat ≤ deep)
    (settles :
      Stateful.Settles
        ((normalPass (checker.modeWithin inner) fewer).normalize deep type)
        result) :
    Stateful.Settles
      ((normalPass (checker.modeWithin outer) more).normalize flat type)
      result := by
  have apart : (Gap.bounds (deep - flat)).Apart deep flat :=
    ⟨(Nat.add_sub_of_le below).symm⟩
  have widens : Checker.Widens (.bounds (deep - flat)) checker checker :=
    ⟨rfl, rfl, Nat.le_add_right _ _, nofun, Nat.le_refl _⟩
  have modes :
      NormalMode.Widens (.bounds (deep - flat))
        (checker.modeWithin inner) (checker.modeWithin outer) :=
    ⟨widens, checker.evaluateWithin_carries checker wider, inferInstance, rfl⟩
  have passes :
      NormalPass.Carries (.bounds (deep - flat))
        (normalPass (checker.modeWithin inner) fewer)
        (normalPass (checker.modeWithin outer) more) :=
    normalPass_carries within
  exact settles.carried (passes.normalize deep flat type)

/-- All settled normalizations of a type give one answer, wherever they happen. -/
theorem settles_unique
    {inner outer budget enough deep flat : Nat}
    {type result other : Ty}
    (first :
      Stateful.Settles
        ((normalPass (checker.modeWithin inner) budget).normalize deep type)
        result)
    (second :
      Stateful.Settles
        ((normalPass (checker.modeWithin outer) enough).normalize flat type)
        other) :
    result = other := by
  have firstRun :=
    settles_flatter (le_max_left inner outer) (le_max_left budget enough)
      (min_le_left deep flat) first
  have secondRun :=
    settles_flatter (le_max_right inner outer) (le_max_right budget enough)
      (min_le_right deep flat) second
  exact firstRun.unique secondRun

/-- Normalization at some depth goes on alike at lower ones. -/
theorem normalPass_flatter
    (within : fewer ≤ more)
    (below : flat ≤ deep) :
    NormalPass.Carries (.bounds (deep - flat))
        (normalPass checker.normalMode fewer)
        (normalPass checker.normalMode more) ∧
      (Gap.bounds (deep - flat)).Apart deep flat := by
  have widens : Checker.Widens (.bounds (deep - flat)) checker checker :=
    ⟨rfl, rfl, Nat.le_add_right _ _, nofun, Nat.le_refl _⟩
  have modes :
      NormalMode.Widens (.bounds (deep - flat))
        checker.normalMode checker.normalMode :=
    ⟨widens, checker.evaluateWithin_carries checker (Nat.le_refl _),
      inferInstance, rfl⟩
  exact ⟨normalPass_carries within, ⟨(Nat.add_sub_of_le below).symm⟩⟩

/-- What is reached inside a type at some depth is reached at lower ones. -/
theorem settles_inner_flatter
    (within : fewer ≤ more)
    (below : flat ≤ deep)
    (settles :
      Stateful.Settles
        ((normalPass checker.normalMode fewer).inner deep type) result) :
    Stateful.Settles
      ((normalPass checker.normalMode more).inner flat type) result := by
  obtain ⟨passes, apart⟩ := @normalPass_flatter checker _ _ _ _ within below
  exact settles.carried (passes.inner deep flat type)

/-- The normal form that is reached at some depth is reached from the top. -/
theorem settles_normalize_of_deeper
    (within : fewer ≤ checker.budget)
    (settles :
      Stateful.Settles
        ((normalPass checker.normalMode fewer).normalize deep type) result) :
    Settles (checker.normalize type) result := by
  obtain ⟨passes, apart⟩ :=
    @normalPass_flatter checker _ _ _ _ within (Nat.zero_le deep)
  obtain ⟨_, after, rfl, _, added, run, quiet⟩ :=
    settles.carried (passes.normalize deep 0 type)
  refine ⟨added, ?_, quiet⟩
  change
    ((normalPass checker.normalMode checker.budget).normalize 0 type).run' false
      [] = _
  rw [StateT.run'_eq, map_eq_pure_bind]
  exact Except.bind_eq_ok.mpr ⟨((result, after), added), run, rfl⟩

end Checker

end StructuralTyping
