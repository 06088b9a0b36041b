import StructuralTyping.Proofs.Limits

namespace StructuralTyping

/-!
# Comparisons do not look at the reasons that were collected

The reasons of failed comparisons are collected on the way and dropped where a
comparison succeeds after all, but no rule reads them. From findings that differ
in their reasons alone, a comparison answers the same and reports the same. What
is compared inside other types is therefore assignable on its own, with a longer
way to the depth bound.
-/

open Check Stateful

namespace Relating

/--
The second computation answers and reports like the first one, from findings
that differ in reasons alone.
-/
def Echoes
    (first second : Relating α) :
    Prop :=
  ∀ ⦃findings value after log last⦄ (other : Findings),
    other.tooComplex = findings.tooComplex →
    first findings log = .ok ((value, after), last) →
    ∃ otherAfter : Findings,
      otherAfter.tooComplex = after.tooComplex ∧
        second other log = .ok ((value, otherAfter), last)

/-- The computation goes on alike from findings that differ in reasons alone. -/
class Unmoved
    (computation : Relating α) :
    Prop where
  echoes : Echoes computation computation

/-- Sequences echo each other when their parts do. -/
theorem Echoes.bind
    {first second : Relating α}
    {firstNext secondNext : α → Relating β}
    (echoes : Echoes first second)
    (next : ∀ value, Echoes (firstNext value) (secondNext value)) :
    Echoes (first >>= firstNext) (second >>= secondNext) := by
  intro findings answer after log last other same run
  obtain ⟨⟨⟨value, between⟩, middle⟩, firstRun, nextRun⟩ :=
    Except.bind_eq_ok.mp run
  obtain ⟨otherBetween, sameBetween, otherFirst⟩ := echoes other same firstRun
  obtain ⟨otherAfter, sameAfter, otherNext⟩ :=
    next value otherBetween sameBetween nextRun
  exact ⟨otherAfter, sameAfter,
    Except.bind_eq_ok.mpr
      ⟨((value, otherBetween), middle), otherFirst, otherNext⟩⟩

/-- Changes of the reasons alone echo each other. -/
theorem Echoes.modify
    (change otherChange : List Reason → List Reason) :
    Echoes
      (modify fun findings : Findings =>
        { findings with reasons := change findings.reasons } :
        Relating PUnit)
      (modify fun findings : Findings =>
        { findings with reasons := otherChange findings.reasons }) := by
  intro findings value after log last other same run
  cases run
  exact ⟨{ other with reasons := otherChange other.reasons }, same, rfl⟩

/-- Sequences that start by reading the findings echo each other. -/
theorem Echoes.get
    {next otherNext : Findings → Relating α}
    (each : ∀ findings other, Echoes (next findings) (otherNext other)) :
    Echoes (get >>= next) (get >>= otherNext) := by
  intro findings value after log last other same run
  exact each findings other other same run

namespace Unmoved

instance ofPure
    (value : α) :
    Unmoved (pure value : Relating α) where
  echoes findings answer after log last other same run := by
    cases run
    exact ⟨other, same, rfl⟩

instance ofBind
    (first : Relating α)
    (next : α → Relating β)
    [unmoved : Unmoved first]
    [each : ∀ value, Unmoved (next value)] :
    Unmoved (first >>= next) where
  echoes := unmoved.echoes.bind fun value => (each value).echoes

instance ofIte
    (condition : Prop)
    [Decidable condition]
    (first second : Relating α)
    [Unmoved first]
    [Unmoved second] :
    Unmoved (if condition then first else second) := by
  split <;> assumption

instance ofLift
    (computation : Check α) :
    Unmoved (liftM computation : Relating α) where
  echoes findings answer after log last other same run := by
    obtain ⟨result, asked, ends⟩ := Except.bind_eq_ok.mp run
    cases ends
    exact ⟨other, same, Except.bind_eq_ok.mpr ⟨_, asked, rfl⟩⟩

end Unmoved

/-- Keeping any number of reasons echoes keeping any other number of them. -/
theorem keepReasons_echoes
    (count other : Nat) :
    Echoes (keepReasons count) (keepReasons other) :=
  Echoes.modify (List.take count) (List.take other)

instance :
    Unmoved (fail reason) := by
  have leaves :
      Unmoved
        (modify fun findings : Findings =>
          { findings with reasons := findings.reasons ++ [reason] } :
          Relating PUnit) :=
    ⟨Echoes.modify (· ++ [reason]) (· ++ [reason])⟩
  unfold fail
  infer_instance

variable (comparison : Relating Bool) [unmoved : Unmoved comparison]

instance :
    Unmoved (orFail comparison reason) := by
  unfold orFail
  infer_instance

instance :
    Unmoved (attempt comparison) where
  echoes := by
    refine Echoes.get fun findings other =>
      unmoved.echoes.bind fun holds => ?_
    cases holds with
    | true =>
        exact (keepReasons_echoes _ _).bind fun _ => (Unmoved.ofPure true).echoes
    | false => exact (Unmoved.ofPure false).echoes

instance :
    Unmoved (silently comparison) where
  echoes :=
    Echoes.get fun _ _ => unmoved.echoes.bind fun holds =>
      (keepReasons_echoes _ _).bind fun _ => (Unmoved.ofPure holds).echoes

omit comparison unmoved in
/-- A run of comparisons is unmoved when each of them is. -/
theorem allOf_unmoved
    {comparisons : List (Relating Bool)}
    (each : ∀ comparison ∈ comparisons, Unmoved comparison) :
    Unmoved (allOf comparisons) := by
  induction comparisons with
  | nil =>
      unfold allOf
      infer_instance
  | cons comparison rest inductionHypothesis =>
      rw [List.forall_mem_cons] at each
      have head := each.1
      have tail := inductionHypothesis each.2
      unfold allOf
      infer_instance

omit comparison unmoved in
/-- A search for a comparison that holds is unmoved when each of them is. -/
theorem anyOf_unmoved
    {comparisons : List (Relating Bool)}
    (each : ∀ comparison ∈ comparisons, Unmoved comparison) :
    Unmoved (anyOf comparisons) := by
  induction comparisons with
  | nil =>
      unfold anyOf
      infer_instance
  | cons comparison rest inductionHypothesis =>
      rw [List.forall_mem_cons] at each
      have head := each.1
      have tail := inductionHypothesis each.2
      unfold anyOf
      infer_instance

instance
    (items : List α)
    (visit : α → Relating Bool)
    [each : ∀ item, Unmoved (visit item)] :
    Unmoved (allOf (items.map visit)) :=
  allOf_unmoved (List.forall_mem_map.mpr fun item _ => each item)

instance
    (items : List α)
    (visit : α → Relating Bool)
    [each : ∀ item, Unmoved (visit item)] :
    Unmoved (anyOf (items.map visit)) :=
  anyOf_unmoved (List.forall_mem_map.mpr fun item _ => each item)

end Relating

open Relating

/-- Comparing two types is unmoved by the reasons collected before. -/
class Comparison.Unmoved
    (compare : Comparison) :
    Prop where
  run :
    ∀ assumptions source target,
      Relating.Unmoved (compare assumptions source target)

attribute [instance] Comparison.Unmoved.run

namespace RelationStep

variable (step : RelationStep) [step.compare.Unmoved]

instance :
    Relating.Unmoved (step.expandReference type) := by
  unfold expandReference
  split
  · split <;> infer_instance
  · refine @Unmoved.ofBind _ _ _ _ _ fun result => ?_
    cases result <;> (dsimp only; infer_instance)
  · infer_instance

instance :
    Relating.Unmoved (step.viaReference assumptions source target) := by
  unfold viaReference
  dsimp only
  split
  · infer_instance
  split
  · infer_instance
  refine @Unmoved.ofBind _ _ _ _ _ fun expandedSource => ?_
  cases expandedSource with
  | error reason =>
      dsimp only
      infer_instance
  | ok first =>
      refine @Unmoved.ofBind _ _ _ _ _ fun expandedTarget => ?_
      cases expandedTarget <;> (dsimp only; infer_instance)

instance :
    Relating.Unmoved (step.fromUnion assumptions source target) := by
  unfold fromUnion
  refine @Unmoved.ofBind _ _ _ _ _ fun normalized => ?_
  split <;> infer_instance

instance :
    Relating.Unmoved (step.toUnion assumptions source target) := by
  unfold toUnion
  refine @Unmoved.ofBind _ _ _ _ _ fun normalized => ?_
  split <;> infer_instance

instance :
    Relating.Unmoved (step.toIntersection assumptions source target) := by
  unfold toIntersection
  refine @Unmoved.ofBind _ _ _ _ _ fun normalized => ?_
  split <;> infer_instance

instance :
    Relating.Unmoved (step.fromIntersection assumptions source target) := by
  unfold fromIntersection
  refine @Unmoved.ofBind _ _ _ _ _ fun normalized => ?_
  split
  · refine @Unmoved.ofBind _ _ _ _ _ fun found => ?_
    refine @Unmoved.ofIte _ _ _ _ _ _ ?_
    refine @Unmoved.ofBind _ _ _ _ _ fun merged => ?_
    cases merged <;> (dsimp only; infer_instance)
  · infer_instance

instance :
    Relating.Unmoved
      (step.toProperty assumptions source target members property) := by
  unfold toProperty
  split
  · infer_instance
  · dsimp only
    infer_instance

instance :
    Relating.Unmoved (step.toIndex assumptions members index) := by
  unfold toIndex
  dsimp only
  refine @Unmoved.ofBind _ _ _ _ _ fun fits => ?_
  split
  · split <;> infer_instance
  · infer_instance

instance :
    Relating.Unmoved (step.toMembers assumptions source target members shape) := by
  unfold toMembers
  refine @Unmoved.ofBind _ _ _ _ _ fun fits => ?_
  split
  · split <;> infer_instance
  · infer_instance

instance :
    Relating.Unmoved (step.toObject assumptions source target shape) := by
  unfold toObject
  split
  · infer_instance
  split
  · infer_instance
  refine @Unmoved.ofBind _ _ _ _ _ fun members => ?_
  cases members <;> (dsimp only; infer_instance)

/-- Every comparison of elements with one type is unmoved. -/
theorem elementsTo_unmoved
    {comparison : Relating Bool}
    (member :
      comparison ∈ step.elementsTo assumptions element position elements) :
    Relating.Unmoved comparison := by
  induction elements generalizing position with
  | nil => cases member
  | cons type rest inductionHypothesis =>
      rcases List.mem_cons.mp member with rfl | inRest
      · infer_instance
      · exact inductionHypothesis inRest

/-- Every comparison of elements in pairs is unmoved. -/
theorem elementPairs_unmoved
    {comparison : Relating Bool}
    (member :
      comparison ∈ step.elementPairs assumptions position first second) :
    Relating.Unmoved comparison := by
  induction first generalizing position second with
  | nil => simp [elementPairs] at member
  | cons type rest inductionHypothesis =>
      cases second with
      | nil => simp [elementPairs] at member
      | cons other others =>
          rcases List.mem_cons.mp member with rfl | inRest
          · infer_instance
          · exact inductionHypothesis inRest

instance :
    Relating.Unmoved
      (step.toArray assumptions source target element readonly) := by
  unfold toArray
  split
  · infer_instance
  · refine @Unmoved.ofIte _ _ _ _ _ _ ?_
    exact allOf_unmoved fun _ member => step.elementsTo_unmoved member
  · infer_instance

instance :
    Relating.Unmoved
      (step.toTuple assumptions source target elements readonly) := by
  unfold toTuple
  split
  · refine @Unmoved.ofIte _ _ _ _ _ _ ?_
    refine @Unmoved.ofIte _ _ _ _ _ _ ?_
    exact allOf_unmoved fun _ member => step.elementPairs_unmoved member
  · infer_instance

instance :
    Relating.Unmoved
      (step.toArgument assumptions bivariant parameter argument) := by
  unfold toArgument
  infer_instance

/-- Every comparison of a supplied parameter is unmoved. -/
theorem suppliedParameters_unmoved
    {comparison : Relating Bool}
    (member :
      comparison ∈
        step.suppliedParameters assumptions bivariant target position
          parameters) :
    Relating.Unmoved comparison := by
  induction parameters generalizing position with
  | nil => cases member
  | cons parameter rest inductionHypothesis =>
      rcases List.mem_cons.mp member with rfl | inRest
      · split <;> infer_instance
      · exact inductionHypothesis inRest

/-- Every comparison with a rest parameter is unmoved. -/
theorem restParameters_unmoved
    {comparison : Relating Bool}
    (member :
      comparison ∈
        step.restParameters assumptions bivariant rest position parameters) :
    Relating.Unmoved comparison := by
  induction parameters generalizing position with
  | nil => cases member
  | cons parameter others inductionHypothesis =>
      rcases List.mem_cons.mp member with rfl | inRest
      · infer_instance
      · exact inductionHypothesis inRest

/-- Every comparison of rest parameters is unmoved. -/
theorem restTo_unmoved
    {comparison : Relating Bool}
    (member : comparison ∈ step.restTo assumptions bivariant source target) :
    Relating.Unmoved comparison := by
  unfold restTo at member
  split at member
  · cases member
  · rcases List.mem_append.mp member with positions | rests
    · exact step.restParameters_unmoved positions
    · split at rests
      · cases rests
      · rcases List.mem_singleton.mp rests with rfl
        infer_instance

instance :
    Relating.Unmoved (step.resultTo assumptions source target) := by
  unfold resultTo
  infer_instance

instance :
    Relating.Unmoved (step.toFunction assumptions source target) := by
  unfold toFunction
  split
  · refine allOf_unmoved fun comparison member => ?_
    rcases List.mem_append.mp member with earlier | result
    · rcases List.mem_append.mp earlier with supplied | rest
      · exact step.suppliedParameters_unmoved supplied
      · exact step.restTo_unmoved rest
    · rcases List.mem_singleton.mp result with rfl
      infer_instance
  · infer_instance

instance :
    Relating.Unmoved (step.compareShapes assumptions source target) := by
  unfold compareShapes
  split
  · unfold toPrimitive
    infer_instance
  · unfold toLiteral
    infer_instance
  all_goals infer_instance

instance :
    Relating.Unmoved (step.relate assumptions source target) := by
  unfold relate
  infer_instance

end RelationStep

namespace Checker

variable (checker : Checker)

/-- Whether the depth bound was reported before is all that is asked for. -/
instance :
    Relating.Unmoved (checker.failAtBound target) where
  echoes {findings value after log last} other same run := by
    obtain ⟨reasons, tooComplex⟩ := findings
    obtain ⟨otherReasons, otherTooComplex⟩ := other
    cases same
    let reasonsAfter :=
      otherReasons ++ [Reason.depthBound checker.options.maxDepth]
    cases tooComplex with
    | false =>
        cases run
        exact ⟨{ reasons := reasonsAfter, tooComplex := true }, rfl, rfl⟩
    | true =>
        cases run
        exact ⟨{ reasons := reasonsAfter, tooComplex := true }, rfl, rfl⟩

/-- Comparing is unmoved by reasons, however much of the bound is left. -/
instance
    (remaining : Nat) :
    Comparison.Unmoved (checker.compareWithin remaining) := by
  induction remaining with
  | zero =>
      constructor
      intro assumptions source target
      unfold compareWithin
      infer_instance
  | succ remaining inductionHypothesis =>
      constructor
      intro assumptions source target
      unfold compareWithin
      infer_instance

variable {checker : Checker}

/--
What is compared inside other types, with nothing under comparison, is answered
in the same way on its own: reasons do not matter, and the depth bound is at
least as far away.
-/
theorem settles_isAssignable_of_inside
    (within : remaining ≤ checker.options.maxDepth)
    (settles :
      Stateful.Settles (checker.compareWithin remaining {} source target)
        answer) :
    Check.Settles (checker.isAssignable source target) answer := by
  obtain ⟨findings, after, lowered, stillLowered, added, run, quiet⟩ := settles
  have unmoved :
      Relating.Unmoved (checker.compareWithin remaining {} source target) :=
    inferInstance
  obtain ⟨otherAfter, sameAfter, again⟩ := unmoved.echoes {} lowered.symm run
  have widens :
      Checker.Widens (.bounds (checker.options.maxDepth - remaining))
        checker checker :=
    ⟨rfl, rfl, Nat.le_add_right _ _, nofun, (Nat.le_refl _)⟩
  have carries :=
    @compareWithin_carries _ checker checker widens
      (fun type => inferInstance) remaining checker.options.maxDepth within
      (Nat.le_refl _) (by simp [Gap.bounds]) {} source target
  obtain ⟨_, flat⟩ :=
    carries.repeats again (.inr ⟨sameAfter.trans stillLowered, quiet⟩)
  exact Check.settles_bind.mpr
    ⟨(answer, otherAfter), ⟨added, flat, quiet⟩, Check.settles_pure.mpr rfl⟩

end Checker

end StructuralTyping
