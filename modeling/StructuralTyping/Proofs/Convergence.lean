import StructuralTyping.Proofs.Nodes
import StructuralTyping.Proofs.Reporting

namespace StructuralTyping

/-!
# Convergence of normalization

A computation of each budget converges when its runs agree from some budget on;
sequences and traversals of convergent computations converge, and so do the
parts of normalization when the parts of a type do.
-/

section Convergence

/--
From some budget on, all runs from one state and log end in the same way, with
a value of the given kind. The runs of one budget may differ by an index.
-/
def Converges
    (family : ι → Nat → Normalizing α)
    (yields : α → Prop) :
    Prop :=
  ∀ flag log, ∃ value after last enough,
    yields value ∧
      ∀ index budget, enough ≤ budget →
        family index budget flag log = .ok ((value, after), last)

variable {family : ι → Nat → Normalizing α} {yields : α → Prop}

/-- A value is its own end. -/
theorem Converges.pure
    (kind : yields value) :
    Converges (fun (_ : ι) _ => Pure.pure value) yields :=
  fun flag log => ⟨value, flag, log, 0, kind, fun _ _ _ => rfl⟩

/-- Runs that end in one way end in every more general way. -/
theorem Converges.weaken
    (converges : Converges family yields)
    (implies : ∀ value, yields value → wanted value) :
    Converges family wanted := by
  intro flag log
  obtain ⟨value, after, last, enough, kind, runs⟩ := converges flag log
  exact ⟨value, after, last, enough, implies value kind, runs⟩

/-- A sequence converges when its parts do. -/
theorem Converges.bind
    {next : ι → Nat → α → Normalizing β}
    (first : Converges family yields)
    (second :
      ∀ value, yields value →
        Converges (fun index budget => next index budget value) wanted) :
    Converges (fun index budget => family index budget >>= next index budget)
      wanted := by
  intro flag log
  obtain ⟨value, between, middle, enough, kind, firstRuns⟩ := first flag log
  obtain ⟨answer, after, last, more, found, nextRuns⟩ :=
    second value kind between middle
  refine ⟨answer, after, last, max enough more, found,
    fun index budget fits => ?_⟩
  change (family index budget flag log).bind _ = _
  rw [firstRuns index budget (by omega)]
  exact nextRuns index budget (by omega)

/-- A visit to a list converges when every single visit does. -/
theorem Converges.mapM
    {visit : ι → Nat → α → Normalizing β}
    {yields : α → β → Prop}
    {items : List α}
    (each :
      ∀ item ∈ items,
        Converges (fun index budget => visit index budget item)
          (yields item)) :
    Converges (fun index budget => items.mapM (visit index budget))
      (List.Forall₂ yields items) := by
  induction items with
  | nil =>
      exact .pure .nil
  | cons item rest inductionHypothesis =>
      simp only [List.mapM_cons]
      refine (each item (by simp)).bind fun value head => ?_
      refine (inductionHypothesis fun other inRest =>
        each other (by simp [inRest])).bind fun values tail => ?_
      exact .pure (.cons head tail)

/-- A visit to something that may be missing converges when the visit does. -/
theorem Converges.optionMapM
    {visit : ι → Nat → α → Normalizing β}
    {yields : α → β → Prop}
    {written : Option α}
    (each :
      ∀ item, written = some item →
        Converges (fun index budget => visit index budget item)
          (yields item)) :
    Converges (fun index budget => written.mapM (visit index budget))
      (Option.Rel yields written) := by
  cases written with
  | none =>
      exact .pure .none
  | some item =>
      exact (each item rfl).bind fun value found => .pure (.some found)

/--
A fold over a list converges when every step does and keeps what is left to do
in line with the state.
-/
theorem Converges.foldlM
    {visit : ι → Nat → β → α → Normalizing β}
    {invariant : List α → β → Prop}
    {items : List α}
    (initial : invariant items start)
    (step :
      ∀ item rest state, invariant (item :: rest) state →
        Converges (fun index budget => visit index budget state item)
          (invariant rest)) :
    Converges (fun index budget => items.foldlM (visit index budget) start)
      (invariant []) := by
  induction items generalizing start with
  | nil =>
      exact .pure initial
  | cons item rest inductionHypothesis =>
      simp only [List.foldlM_cons]
      exact (step item rest start initial).bind fun _ kept =>
        inductionHypothesis kept

/-- What converges with one unit of budget more converges. -/
theorem Converges.ofSucc
    (converges :
      Converges (fun index budget => family index (budget + 1)) yields) :
    Converges family yields := by
  intro flag log
  obtain ⟨value, after, last, enough, kind, runs⟩ := converges flag log
  refine ⟨value, after, last, enough + 1, kind, fun index budget fits => ?_⟩
  obtain ⟨rest, rfl⟩ := Nat.exists_eq_add_of_le' fits
  exact runs index (rest + enough) (by omega)

section Parts

variable {pass : ι → Nat → NormalPass} {relation : Ty → Ty → Prop}

/-- Normalizing the members of an object converges when it does for each part. -/
theorem normalizeShape_converges
    {shape : Shape Ty}
    (inner :
      ∀ part ∈ (Ty.object none shape).parts,
        Converges
          (fun index budget => (pass index budget).inner depth part)
          (relation part)) :
    Converges
      (fun index budget => (pass index budget).normalizeShape depth shape)
      (fun result =>
        List.Forall₂ relation (Ty.object none shape).parts
          (Ty.object none result).parts) := by
  have all := Ty.forall_parts_object.mp inner
  unfold NormalPass.normalizeShape
  have properties :
      Converges
        (fun index budget =>
          shape.properties.mapM fun property => do
            let type ← (pass index budget).inner depth property.type
            return { property with type })
        (List.Forall₂ (fun before after => relation before.type after.type)
          shape.properties) :=
    .mapM fun property member =>
      (all.properties property member).bind fun _ found => .pure found
  refine properties.bind fun properties related => ?_
  have propertyTypes :
      List.Forall₂ relation (shape.properties.map Property.type)
        (properties.map Property.type) := by
    rwa [List.forall₂_map_left_iff, List.forall₂_map_right_iff]
  refine Converges.bind
    (Converges.optionMapM fun index written =>
      (all.keys index written).bind fun key keyFound =>
        (all.values index written).bind fun value valueFound =>
          show Converges _
              (fun result : IndexSignature Ty =>
                relation index.key result.key ∧
                  relation index.value result.value)
            from .pure ⟨keyFound, valueFound⟩)
    fun index indexRelated => .pure ?_
  refine List.rel_append propertyTypes ?_
  generalize shape.index = before at indexRelated ⊢
  cases indexRelated with
  | none => exact .nil
  | some found => exact .cons found.1 (.cons found.2 .nil)

/-- Normalizing a call signature converges when it does for each part. -/
theorem normalizeSignature_converges
    {signature : Signature Ty}
    (inner :
      ∀ part ∈ (Ty.function none signature).parts,
        Converges
          (fun index budget => (pass index budget).inner depth part)
          (relation part)) :
    Converges
      (fun index budget =>
        (pass index budget).normalizeSignature depth signature)
      (fun result =>
        List.Forall₂ relation (Ty.function none signature).parts
          (Ty.function none result).parts) := by
  obtain ⟨parameters, rest, result⟩ := Ty.forall_parts_function.mp inner
  unfold NormalPass.normalizeSignature
  have visits :
      Converges
        (fun index budget =>
          signature.parameters.mapM fun parameter => do
            let type ← (pass index budget).inner depth parameter.type
            return { parameter with type })
        (List.Forall₂ (fun before after => relation before.type after.type)
          signature.parameters) :=
    .mapM fun parameter member =>
      (parameters parameter member).bind fun _ found => .pure found
  refine visits.bind fun parameters related => ?_
  refine rest.bind fun rest restFound => ?_
  refine result.bind fun result resultFound => .pure ?_
  refine List.rel_append ?_ (.cons restFound (.cons resultFound .nil))
  rwa [List.forall₂_map_left_iff, List.forall₂_map_right_iff]

/-- Normalizing the operands of an application converges when each does. -/
theorem rebuild_converges
    {application : Application Ty}
    (inner :
      ∀ part ∈ (Ty.generic none application).parts,
        Converges
          (fun index budget => (pass index budget).inner depth part)
          (relation part)) :
    Converges
      (fun index budget =>
        (pass index budget).rebuild depth occurrence application)
      (fun result =>
        ∃ occurrence after,
          result = .generic occurrence after ∧
            List.Forall₂ relation (Ty.generic none application).parts
              (Ty.generic none after).parts) := by
  obtain ⟨base, arguments⟩ := Ty.forall_parts_generic.mp inner
  unfold NormalPass.rebuild
  refine base.bind fun base baseFound => ?_
  refine (Converges.mapM arguments).bind fun arguments argumentsFound => ?_
  split
  · next unchanged =>
    obtain ⟨rfl, rfl⟩ := unchanged
    exact .pure ⟨_, _, rfl, .cons baseFound argumentsFound⟩
  · exact .pure ⟨_, _, rfl, .cons baseFound argumentsFound⟩

end Parts

end Convergence

/-- A mode over a given arena and with given options. -/
abbrev ModeOver
    (arena : Arena)
    (options : Options) :=
  { mode : NormalMode //
    mode.checker.arena = arena ∧ mode.checker.options = options }

/-- The normalization pass of a mode. -/
abbrev ModeOver.pass
    (mode : ModeOver arena options)
    (budget : Nat) :
    NormalPass :=
  normalPass mode.val budget

section Modes

variable {arena : Arena} {options : Options}

/-- A report of an exceeded depth is made once, and then the run goes on. -/
theorem reportOnce_converges
    (type : Ty) :
    Converges
      (fun (mode : ModeOver arena options) _ =>
        NormalPass.reportOnce mode.val.checker type)
      (fun _ => True) := by
  intro flag log
  have sameReport :
      ∀ mode : ModeOver arena options,
        mode.val.checker.depthDiagnostic .normalize type =
          Checker.depthDiagnostic { arena, options, budget := 0 }
            .normalize type := by
    intro mode
    simp only [Checker.depthDiagnostic, mode.property.2]
  cases flag with
  | true =>
      exact ⟨(), true, log, 0, trivial, fun _ _ _ => rfl⟩
  | false =>
      refine ⟨(), true,
        log ++ [Checker.depthDiagnostic { arena, options, budget := 0 }
          .normalize type], 0, trivial, fun mode _ _ => ?_⟩
      rw [← sameReport mode]
      rfl

/-- Normalizing a type converges when normalizing its node does. -/
theorem normalize_converges
    {type : Ty}
    {yields : Ty → Prop}
    (kept : yields type)
    (node :
      ∀ depth,
        Converges
          (fun (mode : ModeOver arena options) budget =>
            (mode.pass budget).normalizeNode mode.val depth type)
          yields)
    (depth : Nat) :
    Converges
      (fun (mode : ModeOver arena options) budget =>
        (mode.pass budget).normalize depth type)
      yields := by
  refine .ofSucc ?_
  change Converges
    (fun (mode : ModeOver arena options) budget =>
      (mode.pass budget).nextNormalize mode.val depth type) _
  have sameBound :
      ∀ mode : ModeOver arena options,
        mode.val.checker.options.maxDepth = options.maxDepth :=
    fun mode => by rw [mode.property.2]
  simp only [NormalPass.nextNormalize, sameBound]
  split
  · exact .pure kept
  split
  · exact (reportOnce_converges type).bind fun _ _ => .pure kept
  · exact node (depth + 1)

end Modes

namespace Checker

/-- Normalization answers, with every budget from some on, if it converges. -/
theorem normalize_runs
    {arena : Arena}
    {options : Options}
    {type : Ty}
    {yields : Ty → Prop}
    (converges :
      Converges
        (fun (mode : ModeOver arena options) budget =>
          (mode.pass budget).normalize 0 type)
        yields) :
    ∃ result added enough,
      yields result ∧
        ∀ budget, enough ≤ budget → ∀ log,
          Checker.normalize { arena, options, budget } type log =
            .ok (result, log ++ added) := by
  obtain ⟨result, flag, added, enough, kind, runs⟩ := converges false []
  refine ⟨result, added, enough, kind, fun budget fits log => ?_⟩
  let checker : Checker := { arena, options, budget }
  have fresh : checker.normalize type [] = .ok (result, added) := by
    let mode : ModeOver arena options :=
      ⟨{ checker
         evaluate := checker.evaluation.evaluate
         keepReferences := false }, rfl, rfl⟩
    have run :
        (mode.pass budget).normalize 0 type false [] =
          .ok ((result, flag), added) :=
      runs mode budget fits
    unfold Checker.normalize Evaluation.normalizeAt normalizeIn
    rw [StateT.run'_eq, map_eq_pure_bind]
    change ((mode.pass budget).normalize 0 type false []).bind _ = _
    rw [run]
    rfl
  exact Check.Appends.run fresh log

end Checker

end StructuralTyping
