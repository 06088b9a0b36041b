import StructuralTyping.Proofs.Carrying
import StructuralTyping.Proofs.Convergence

namespace StructuralTyping

/-!
# Computations that come to an end

A computation of each budget ends when, from some budget on, its runs agree. The
notion is the one of normalization without its flag; evaluations end with values
of a kind or with a failure. What repeats the runs of something that ends does so
too, so that a question may be followed while the budget in it grows.
-/

open Check Stateful

namespace Check

/--
From some budget on, all runs from one log end in the same way, with a value of
the given kind.
-/
def Ends
    (family : Nat → Check α)
    (yields : α → Prop) :
    Prop :=
  ∀ log, ∃ value after enough,
    yields value ∧
      ∀ budget, enough ≤ budget → family budget log = .ok (value, after)

namespace Ends

variable {family : Nat → Check α} {yields : α → Prop}

/-- A value is its own end. -/
theorem pure
    (kind : yields value) :
    Ends (fun _ => Pure.pure value) yields :=
  fun log => ⟨value, log, 0, kind, fun _ _ => rfl⟩

/-- Runs that end in one way end in every more general way. -/
theorem weaken
    (ends : Ends family yields)
    (implies : ∀ value, yields value → wanted value) :
    Ends family wanted := by
  intro log
  obtain ⟨value, after, enough, kind, runs⟩ := ends log
  exact ⟨value, after, enough, implies value kind, runs⟩

/-- A sequence ends when its parts do. -/
theorem bind
    {next : Nat → α → Check β}
    (first : Ends family yields)
    (second :
      ∀ value, yields value → Ends (fun budget => next budget value) wanted) :
    Ends (fun budget => family budget >>= next budget) wanted := by
  intro log
  obtain ⟨value, between, enough, kind, firstRuns⟩ := first log
  obtain ⟨answer, after, more, found, nextRuns⟩ := second value kind between
  refine ⟨answer, after, max enough more, found, fun budget fits => ?_⟩
  change (family budget log).bind _ = _
  rw [firstRuns budget (by omega)]
  exact nextRuns budget (by omega)

/-- What ends with one unit of budget more ends. -/
theorem ofSucc
    (ends : Ends (fun budget => family (budget + 1)) yields) :
    Ends family yields := by
  intro log
  obtain ⟨value, after, enough, kind, runs⟩ := ends log
  refine ⟨value, after, enough + 1, kind, fun budget fits => ?_⟩
  obtain ⟨rest, rfl⟩ := Nat.exists_eq_add_of_le' fits
  exact runs (rest + enough) (by omega)

/-- What repeats the runs of something that ends does so too. -/
theorem carried
    {other : Nat → Check α}
    (ends : Ends family yields)
    (carries : ∀ budget, Carries .budgets (family budget) (other budget)) :
    Ends other yields := by
  intro log
  obtain ⟨value, after, enough, kind, runs⟩ := ends log
  exact ⟨value, after, enough, kind, fun budget fits =>
    ((carries budget).repeats (runs budget fits) (.inl trivial)).2⟩

end Ends

/-- An evaluation that succeeds only with values of a kind. -/
def Succeeding
    (yields : α → Prop)
    (result : Except UtilityError α) :
    Prop :=
  ∀ value, result = .ok value → yields value

namespace Ends

/-- A value is what its evaluation succeeds with. -/
theorem succeed
    {yields : α → Prop}
    (kind : yields value) :
    Ends (fun _ => (Pure.pure value : Evaluate α).run) (Succeeding yields) :=
  pure (by rintro _ ⟨⟩; exact kind)

/-- A failure succeeds with nothing. -/
theorem fail
    {yields : α → Prop}
    (error : UtilityError) :
    Ends (fun _ => (throw error : Evaluate α).run) (Succeeding yields) :=
  pure fun _ impossible => by cases impossible

/-- A failure at the depth bound is reported and succeeds with nothing. -/
theorem failTooComplex
    {yields : α → Prop}
    (checker : Checker)
    (type : Ty) :
    Ends (fun _ => (checker.failTooComplex type : Evaluate α).run)
      (Succeeding yields) := by
  intro log
  refine ⟨.error { utility := "", cause := .depthExceeded _ type }, _, 0, ?_,
    fun _ _ => rfl⟩
  intro _ impossible
  cases impossible

/-- Reporting a failure ends. -/
theorem reportFailure
    (error : UtilityError) :
    Ends (fun _ => Checker.reportFailure error) (fun _ => True) := by
  unfold Checker.reportFailure
  split
  · exact pure trivial
  · exact fun _ => ⟨_, _, 0, trivial, fun _ _ => rfl⟩

/-- A sequence of evaluations ends when its parts do. -/
theorem evaluateBind
    {first : Nat → Evaluate α}
    {next : Nat → α → Evaluate β}
    {yields : α → Prop}
    {wanted : β → Prop}
    (head : Ends (fun budget => (first budget).run) (Succeeding yields))
    (tail :
      ∀ value, yields value →
        Ends (fun budget => (next budget value).run) (Succeeding wanted)) :
    Ends (fun budget => (first budget >>= next budget).run)
      (Succeeding wanted) := by
  refine head.bind fun result found => ?_
  cases result with
  | ok value =>
      exact tail value (found value rfl)
  | error error =>
      exact fail error

/-- What a computation ends with is what its evaluation succeeds with. -/
theorem evaluateLift
    {family : Nat → Check α}
    {yields : α → Prop}
    (ends : Ends family yields) :
    Ends (fun budget => (liftM (family budget) : Evaluate α).run)
      (Succeeding yields) :=
  ends.bind fun _ kind => succeed kind

/-- Evaluating a list ends when evaluating each item does. -/
theorem evaluateMapM
    {visit : Nat → α → Evaluate β}
    {yields : α → β → Prop}
    {items : List α}
    (each :
      ∀ item ∈ items,
        Ends (fun budget => (visit budget item).run)
          (Succeeding (yields item))) :
    Ends (fun budget => (items.mapM (visit budget)).run)
      (Succeeding (List.Forall₂ yields items)) := by
  induction items with
  | nil =>
      exact succeed .nil
  | cons item rest inductionHypothesis =>
      simp only [List.mapM_cons]
      refine (each item (by simp)).evaluateBind fun value head => ?_
      refine (inductionHypothesis fun other inRest =>
        each other (by simp [inRest])).evaluateBind fun values tail => ?_
      exact succeed (.cons head tail)

end Ends

end Check

section Convergence

variable {family : Nat → Normalizing α} {yields : α → Prop}

/-- Convergence that does not depend on the index converges along any choice of it. -/
theorem Converges.along
    {family : ι → Nat → Normalizing α}
    (converges : Converges family yields)
    (index : Nat → ι) :
    Converges (fun (_ : Unit) budget => family (index budget) budget) yields := by
  intro flag log
  obtain ⟨value, after, last, enough, kind, runs⟩ := converges flag log
  exact ⟨value, after, last, enough, kind, fun _ budget fits =>
    runs (index budget) budget fits⟩

/-- What repeats the runs of something that converges does so too. -/
theorem Converges.carried
    {other : Nat → Normalizing α}
    (converges : Converges (fun (_ : Unit) budget => family budget) yields)
    (carries :
      ∀ budget, Stateful.Carries .budgets (family budget) (other budget)) :
    Converges (fun (_ : Unit) budget => other budget) yields := by
  intro flag log
  obtain ⟨value, after, last, enough, kind, runs⟩ := converges flag log
  exact ⟨value, after, last, enough, kind, fun _ budget fits =>
    ((carries budget).repeats (runs () budget fits) (.inl trivial)).2⟩

/-- A computation that ends converges inside normalization. -/
theorem Converges.ofEnds
    {family : Nat → Check α}
    (ends : Ends family yields) :
    Converges
      (fun (_ : Unit) budget => (liftM (family budget) : Normalizing α))
      yields := by
  intro flag log
  obtain ⟨value, after, enough, kind, runs⟩ := ends log
  refine ⟨value, flag, after, enough, kind, fun _ budget fits => ?_⟩
  change (family budget log).bind _ = _
  rw [runs budget fits]
  rfl

/-- Normalization that converges ends. -/
theorem Converges.ends
    (converges : Converges (fun (_ : Unit) budget => family budget) yields) :
    Ends (fun budget => (family budget).run' false) yields := by
  intro log
  obtain ⟨value, after, last, enough, kind, runs⟩ := converges false log
  refine ⟨value, last, enough, kind, fun budget fits => ?_⟩
  change (family budget).run' false log = _
  rw [StateT.run'_eq, map_eq_pure_bind]
  have run : family budget false log = .ok ((value, after), last) :=
    runs () budget fits
  change (family budget false log).bind _ = _
  rw [run]
  rfl

end Convergence

end StructuralTyping
