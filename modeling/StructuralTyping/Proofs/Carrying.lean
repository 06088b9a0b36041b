import StructuralTyping.Proofs.Reporting

namespace StructuralTyping

/-!
# Runs that carry over

Two computations that differ only in their limits run alike until a limit is
met. One carries over to the other when the second repeats the runs of the
first, with the same answer and the same log. The depth bound leaves its mark in
the log. Between different bounds, or when the second run starts at a smaller
depth, only runs without that mark carry over; otherwise all of them do, and the
computations differ in their budgets alone.
-/

open Check Stateful

/-- How far the depths of two runs are apart. -/
structure Gap where
  /-- Whether the two runs meet the depth bound at the same places. -/
  sameDepth : Prop
  /-- How much deeper than the second run the first one is. -/
  shift : Nat
  level : sameDepth → shift = 0

namespace Gap

/-- The runs differ in their budgets alone. -/
def budgets : Gap :=
  ⟨True, 0, fun _ => rfl⟩

/-- The runs differ in their bounds, and the first is deeper by some levels. -/
def bounds
    (shift : Nat) :
    Gap :=
  ⟨False, shift, nofun⟩

/-- The runs are at the same depth. -/
class Level
    (gap : Gap) :
    Prop where
  shift : gap.shift = 0

instance :
    budgets.Level :=
  ⟨rfl⟩

instance :
    (bounds 0).Level :=
  ⟨rfl⟩

/-- The depths of two runs are apart by what the gap says. -/
class Apart
    (gap : Gap)
    (deep flat : Nat) :
    Prop where
  same : deep = flat + gap.shift

instance
    (gap : Gap)
    [apart : gap.Apart deep flat] :
    gap.Apart (deep + 1) (flat + 1) where
  same := by
    rw [apart.same]
    omega

instance
    (gap : Gap)
    [level : gap.Level] :
    gap.Apart depth depth where
  same := by
    rw [level.shift, Nat.add_zero]

end Gap

/-- Nothing stands in the way of a log carrying over. -/
def Log.Carried
    (gap : Gap)
    (log : Log) :
    Prop :=
  gap.sameDepth ∨ log.Quiet

namespace Check

/--
The second computation repeats every run of the first, unless the run reports an
exceeded depth and the depth bounds differ.
-/
class Carries
    (gap : Gap)
    (first second : Check α) :
    Prop where
  repeats :
    ∀ {log value after},
      first log = .ok (value, after) →
      after.Carried gap →
      log.Carried gap ∧ second log = .ok (value, after)

variable {gap : Gap}

/-- A computation that never answers without a report carries over to its equal. -/
theorem Carries.ofLoud
    {first second : Check α}
    (loud :
      ∀ {log value after}, first log = .ok (value, after) → ¬ after.Quiet)
    (same : gap.sameDepth → first = second) :
    Carries gap first second where
  repeats run carried := by
    rcases carried with equal | quiet
    · exact ⟨.inl equal, same equal ▸ run⟩
    · exact absurd quiet (loud run)

namespace Carries

/-- What does not depend on limits carries over to itself. -/
instance ofSelf
    (computation : Check α)
    [appends : Appends computation] :
    Carries gap computation computation where
  repeats {log value after} run carried := by
    refine ⟨carried.imp_right fun quiet => ?_, run⟩
    rw [appends.shift log] at run
    obtain ⟨⟨_, added⟩, _, same⟩ := Except.map_eq_ok.mp run
    cases same
    exact (Log.quiet_append.mp quiet).1

instance ofBind
    (first second : Check α)
    (firstNext secondNext : α → Check β)
    [head : Carries gap first second]
    [tail : ∀ value, Carries gap (firstNext value) (secondNext value)] :
    Carries gap (first >>= firstNext) (second >>= secondNext) where
  repeats {log value after} run carried := by
    obtain ⟨⟨early, between⟩, firstRun, nextRun⟩ :=
      Except.bind_eq_ok.mp run
    obtain ⟨betweenCarried, nextRepeats⟩ := (tail early).repeats nextRun carried
    obtain ⟨logCarried, firstRepeats⟩ := head.repeats firstRun betweenCarried
    exact ⟨logCarried,
      Except.bind_eq_ok.mpr ⟨_, firstRepeats, nextRepeats⟩⟩

instance ofExhausted
    (second : Check α) :
    Carries gap Check.exhausted second where
  repeats run := by
    cases run

instance ofIte
    (condition : Prop)
    [Decidable condition]
    (first second otherFirst otherSecond : Check α)
    [Carries gap first second]
    [Carries gap otherFirst otherSecond] :
    Carries gap
      (if condition then first else otherFirst)
      (if condition then second else otherSecond) := by
  split <;> assumption

instance ofFoldlM
    (first second : β → α → Check β)
    (start : β)
    (items : List α)
    [each : ∀ state item, Carries gap (first state item) (second state item)] :
    Carries gap (items.foldlM first start) (items.foldlM second start) := by
  induction items generalizing start with
  | nil =>
      exact ofSelf (pure start)
  | cons item rest inductionHypothesis =>
      rw [List.foldlM_cons, List.foldlM_cons]
      infer_instance

instance ofEvaluateBind
    (first second : Evaluate α)
    (firstNext secondNext : α → Evaluate β)
    [head : Carries gap first.run second.run]
    [tail :
      ∀ value,
        Carries gap (firstNext value).run (secondNext value).run] :
    Carries gap
      (first >>= firstNext).run
      (second >>= secondNext).run := by
  refine @ofBind _ _ _ first.run second.run _ _ head fun result => ?_
  cases result with
  | ok value =>
      exact tail value
  | error error =>
      exact ofSelf (pure (Except.error error))

instance ofEvaluateLift
    (first second : Check α)
    [Carries gap first second] :
    Carries gap
      (liftM first : Evaluate α).run
      (liftM second : Evaluate α).run :=
  ofBind first second (fun value => pure (Except.ok value)) fun value =>
    pure (Except.ok value)

instance ofEvaluateIte
    (condition : Prop)
    [Decidable condition]
    (first second otherFirst otherSecond : Evaluate α)
    [Carries gap first.run second.run]
    [Carries gap otherFirst.run otherSecond.run] :
    Carries gap
      (if condition then first else otherFirst).run
      (if condition then second else otherSecond).run := by
  split <;> assumption

/-- Evaluating a list carries over when evaluating each item does. -/
theorem ofEvaluateMapM
    {first second : α → Evaluate β}
    (items : List α)
    (each : ∀ item, Carries gap (first item).run (second item).run) :
    Carries gap (items.mapM first).run (items.mapM second).run := by
  induction items with
  | nil =>
      exact ofSelf (pure (Except.ok []))
  | cons item rest inductionHypothesis =>
      rw [List.mapM_cons, List.mapM_cons]
      infer_instance

instance ofOptionBind
    (first second : OptionT Check α)
    (firstNext secondNext : α → OptionT Check β)
    [head : Carries gap first.run second.run]
    [tail :
      ∀ value,
        Carries gap (firstNext value).run (secondNext value).run] :
    Carries gap
      (first >>= firstNext).run
      (second >>= secondNext).run := by
  rw [OptionT.run_bind, OptionT.run_bind]
  refine @ofBind _ _ _ first.run second.run _ _ head fun result => ?_
  cases result with
  | some value =>
      exact tail value
  | none =>
      exact ofSelf (pure none)

instance ofOptionLift
    (first second : Check α)
    [Carries gap first second] :
    Carries gap
      (liftM first : OptionT Check α).run
      (liftM second : OptionT Check α).run :=
  ofBind first second (fun value => pure (some value)) fun value =>
    pure (some value)

/-- Visiting a list that may stop carries over when visiting each item does. -/
theorem ofOptionMapM
    {first second : α → OptionT Check β}
    (items : List α)
    (each : ∀ item, Carries gap (first item).run (second item).run) :
    Carries gap (items.mapM first).run (items.mapM second).run := by
  induction items with
  | nil =>
      exact ofSelf (pure (some []))
  | cons item rest inductionHypothesis =>
      rw [List.mapM_cons, List.mapM_cons]
      infer_instance

end Carries

end Check

namespace Stateful

variable {σ : Type} [Flagged σ] {gap : Gap}

/-- Nothing stands in the way of a state and a log carrying over. -/
def Carried
    (gap : Gap)
    (state : σ)
    (log : Log) :
    Prop :=
  gap.sameDepth ∨ Flagged.raised state = false ∧ log.Quiet

@[inherit_doc Check.Carries]
class Carries
    (gap : Gap)
    (first second : StateT σ Check α) :
    Prop where
  repeats :
    ∀ {state log value after reported},
      first state log = .ok ((value, after), reported) →
      Carried gap after reported →
      Carried gap state log ∧
        second state log = .ok ((value, after), reported)

/-- A computation that always raises the flag carries over to its equal. -/
theorem Carries.ofLoud
    {first second : StateT σ Check α}
    (loud :
      ∀ {state log value after reported},
        first state log = .ok ((value, after), reported) →
        Flagged.raised after = true)
    (same : gap.sameDepth → first = second) :
    Carries gap first second where
  repeats run carried := by
    rcases carried with equal | ⟨lowered, _⟩
    · exact ⟨.inl equal, same equal ▸ run⟩
    · rw [loud run] at lowered
      cases lowered

/-- Started with its flag down, a computation carries over together with its state. -/
theorem Carries.started
    {first second : StateT σ Check α}
    (carries : Carries gap first second)
    [accountable : Accountable first]
    {state : σ}
    (lowered : Flagged.raised state = false) :
    Check.Carries gap (first state) (second state) where
  repeats {log result after} run carried := by
    obtain ⟨value, last⟩ := result
    have stays : gap.sameDepth ∨ Flagged.raised last = false ∧ after.Quiet := by
      refine carried.imp_right fun quiet => ⟨?_, quiet⟩
      rw [(accountable.appends state).shift log] at run
      obtain ⟨⟨_, added⟩, fresh, same⟩ := Except.map_eq_ok.mp run
      cases same
      rcases accountable.reported fresh with still | ⟨_, loud⟩
      · exact still.trans lowered
      · exact absurd (Log.quiet_append.mp quiet).2 loud
    obtain ⟨stateCarried, repeated⟩ := carries.repeats run stays
    exact ⟨stateCarried.imp_right And.right, repeated⟩

namespace Carries

/-- What does not depend on limits carries over to itself. -/
instance ofSelf
    (computation : StateT σ Check α)
    [accountable : Accountable computation] :
    Carries gap computation computation where
  repeats {state log value after reported} run carried := by
    refine ⟨carried.imp_right fun ⟨lowered, quiet⟩ => ?_, run⟩
    rw [(accountable.appends state).shift log] at run
    obtain ⟨⟨_, added⟩, fresh, same⟩ := Except.map_eq_ok.mp run
    cases same
    refine ⟨?_, (Log.quiet_append.mp quiet).1⟩
    rcases accountable.reported fresh with still | ⟨raised, _⟩
    · exact still ▸ lowered
    · rw [lowered] at raised
      cases raised

instance ofBind
    (first second : StateT σ Check α)
    (firstNext secondNext : α → StateT σ Check β)
    [head : Carries gap first second]
    [tail : ∀ value, Carries gap (firstNext value) (secondNext value)] :
    Carries gap (first >>= firstNext) (second >>= secondNext) where
  repeats run carried := by
    obtain ⟨⟨⟨early, between⟩, reported⟩, firstRun, nextRun⟩ :=
      Except.bind_eq_ok.mp run
    obtain ⟨betweenCarried, nextRepeats⟩ := (tail early).repeats nextRun carried
    obtain ⟨startCarried, firstRepeats⟩ := head.repeats firstRun betweenCarried
    exact ⟨startCarried,
      Except.bind_eq_ok.mpr ⟨_, firstRepeats, nextRepeats⟩⟩

/-- What never answers carries over to anything. -/
theorem ofExhausted
    (second : StateT σ Check α) :
    Carries gap (fun _ => Check.exhausted) second where
  repeats run := by
    cases run

instance ofIte
    (condition : Prop)
    [Decidable condition]
    (first second otherFirst otherSecond : StateT σ Check α)
    [Carries gap first second]
    [Carries gap otherFirst otherSecond] :
    Carries gap
      (if condition then first else otherFirst)
      (if condition then second else otherSecond) := by
  split <;> assumption

instance ofMap
    (change : α → β)
    (first second : StateT σ Check α)
    [Carries gap first second] :
    Carries gap (change <$> first) (change <$> second) := by
  rw [map_eq_pure_bind, map_eq_pure_bind]
  infer_instance

instance ofLift
    (first second : Check α)
    [carries : Check.Carries gap first second] :
    Carries gap
      (liftM first : StateT σ Check α)
      (liftM second : StateT σ Check α) where
  repeats {state log value after reported} run carried := by
    obtain ⟨⟨early, between⟩, firstRun, nextRun⟩ :=
      Except.bind_eq_ok.mp run
    cases nextRun
    obtain ⟨logCarried, repeated⟩ :=
      carries.repeats firstRun (carried.imp_right And.right)
    refine ⟨?_, Except.bind_eq_ok.mpr ⟨_, repeated, rfl⟩⟩
    rcases carried with equal | ⟨lowered, quiet⟩
    · exact .inl equal
    · exact logCarried.imp_right fun quiet => ⟨lowered, quiet⟩

instance ofMapM
    (first second : α → StateT σ Check β)
    (items : List α)
    [each : ∀ item, Carries gap (first item) (second item)] :
    Carries gap (items.mapM first) (items.mapM second) := by
  induction items with
  | nil =>
      exact ofSelf (pure [])
  | cons item rest inductionHypothesis =>
      rw [List.mapM_cons, List.mapM_cons]
      infer_instance

instance ofFoldlM
    (first second : β → α → StateT σ Check β)
    (start : β)
    (items : List α)
    [each :
      ∀ state item, Carries gap (first state item) (second state item)] :
    Carries gap (items.foldlM first start) (items.foldlM second start) := by
  induction items generalizing start with
  | nil =>
      exact ofSelf (pure start)
  | cons item rest inductionHypothesis =>
      rw [List.foldlM_cons, List.foldlM_cons]
      infer_instance

end Carries

end Stateful

end StructuralTyping
