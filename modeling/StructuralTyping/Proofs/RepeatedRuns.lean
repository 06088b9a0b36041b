import StructuralTyping.Proofs.FittingForms
import StructuralTyping.Proofs.FlatterRuns
import StructuralTyping.Proofs.PlainRuns
import StructuralTyping.Proofs.RearrangedUnions

namespace StructuralTyping

/-!
# What settles from every state

That a computation settles is said by one run of it. The reasons of earlier
failures have no influence on what a comparison answers, so one comparison
repeats what another one answers, from whatever state. Where a type has been
normalized there was room for its parts, and there is room for all types that are
put together from these parts one level higher.
-/

open Stateful

namespace Stateful

variable {σ : Type} [Flagged σ]

/-- The computation settles with the value from every state with its flag down. -/
def SettlesAnywhere
    (computation : StateT σ Check α)
    (value : α) :
    Prop :=
  ∀ state,
    Flagged.raised state = false →
    ∃ after,
      Flagged.raised after = false ∧ Runs computation state value after

namespace SettlesAnywhere

/-- A value settles as itself. -/
theorem pure
    (value : α) :
    SettlesAnywhere (pure value : StateT σ Check α) value :=
  fun state lowered => ⟨state, lowered, Check.settles_pure.mpr rfl⟩

/-- A lifted computation leaves the state alone. -/
theorem lift
    {computation : Check α}
    (settles : Check.Settles computation value) :
    SettlesAnywhere (liftM computation : StateT σ Check α) value := by
  intro state lowered
  refine ⟨state, lowered, ?_⟩
  unfold Runs
  rw [run_lift]
  exact Check.settles_bind.mpr ⟨value, settles, Check.settles_pure.mpr rfl⟩

/-- A sequence settles where its parts do. -/
theorem bind
    {first : StateT σ Check α}
    {next : α → StateT σ Check β}
    [accountable : ∀ value, Accountable (next value)]
    (head : SettlesAnywhere first value)
    (tail : SettlesAnywhere (next value) answer) :
    SettlesAnywhere (first >>= next) answer := by
  intro state lowered
  obtain ⟨between, stillLowered, firstRuns⟩ := head state lowered
  obtain ⟨after, lastLowered, nextRuns⟩ := tail between stillLowered
  have appends :
      ∀ result : α × σ, Check.Appends (next result.1 result.2) :=
    fun result => (accountable result.1).appends result.2
  refine ⟨after, lastLowered, ?_⟩
  unfold Runs
  rw [run_bind]
  exact Check.settles_bind.mpr ⟨(value, between), firstRuns, nextRuns⟩

/-- A visit to a list settles where the visits to the items do. -/
theorem mapM
    {visit : α → StateT σ Check β}
    [∀ item, Accountable (visit item)]
    (each :
      List.Forall₂ (fun item value => SettlesAnywhere (visit item) value)
        items values) :
    SettlesAnywhere (items.mapM visit) values := by
  induction each with
  | nil => exact .pure []
  | cons head _ inductionHypothesis =>
      rw [List.mapM_cons]
      exact .bind head (.bind inductionHypothesis (.pure _))

/-- The state of normalization is its flag, so one run tells about all of them. -/
theorem of_settles
    {computation : Normalizing α}
    (settles : Settles computation value) :
    SettlesAnywhere computation value := by
  obtain ⟨state, after, lowered, stillLowered, runs⟩ := settles
  intro other otherLowered
  obtain rfl : other = state := otherLowered.trans lowered.symm
  exact ⟨after, stillLowered, runs⟩

/-- What settles from every state settles. -/
theorem settles
    {computation : Normalizing α}
    (anywhere : SettlesAnywhere computation value) :
    Settles computation value := by
  obtain ⟨after, stillLowered, runs⟩ := anywhere false rfl
  exact ⟨false, after, rfl, stillLowered, runs⟩

end SettlesAnywhere

end Stateful

namespace Relating

/-- What the first comparison settles with, the second one does from every state. -/
def Reproduces
    (first second : Relating Bool) :
    Prop :=
  ∀ answer, Settles first answer → SettlesAnywhere second answer

/-- A failure settles from every state. -/
theorem settlesAnywhere_fail :
    SettlesAnywhere (fail reason) false :=
  fun findings lowered =>
    ⟨{ findings with reasons := findings.reasons ++ [reason] }, lowered,
      Check.settles_pure.mpr rfl⟩

/-- An explained comparison settles where the comparison does. -/
theorem settlesAnywhere_orFail
    {comparison : Relating Bool}
    (anywhere : SettlesAnywhere comparison answer) :
    SettlesAnywhere (orFail comparison reason) answer := by
  unfold orFail
  refine .bind anywhere ?_
  cases answer with
  | true => exact .pure true
  | false => exact settlesAnywhere_fail

/-- Dropping reasons changes no answer. -/
theorem settlesAnywhere_silently
    {comparison : Relating Bool}
    (anywhere : SettlesAnywhere comparison answer) :
    SettlesAnywhere (silently comparison) answer := by
  intro findings lowered
  obtain ⟨after, stillLowered, runs⟩ := anywhere findings lowered
  refine ⟨{ after with
    reasons := after.reasons.take findings.reasons.length }, stillLowered, ?_⟩
  change
    Check.Settles
      (comparison findings >>= fun result =>
        Pure.pure (result.1, { result.2 with
          reasons := result.2.reasons.take findings.reasons.length }))
      _
  exact Check.settles_bind.mpr ⟨_, runs, Check.settles_pure.mpr rfl⟩

namespace Reproduces

variable {first second : Relating Bool}

/-- What is decided outright is reproduced. -/
theorem decided
    (answer : Bool) :
    Reproduces (pure answer) (pure answer) :=
  fun _ settles => settles.of_pure ▸ .pure answer

/-- Failures are reproduced, whatever their reasons. -/
theorem fail :
    Reproduces (fail reason) (Relating.fail otherReason) :=
  fun _ settles => settles_fail settles ▸ settlesAnywhere_fail

/-- An explained comparison is reproduced if the comparison is. -/
theorem orFail
    (here : Reproduces first second) :
    Reproduces (orFail first reason) (Relating.orFail second otherReason) :=
  fun answer settles =>
    settlesAnywhere_orFail (here answer (settles_orFail settles))

/-- A sequence is reproduced if its parts are. -/
theorem bind
    {head : Relating α}
    {otherHead : Relating β}
    {next : α → Relating Bool}
    {otherNext : β → Relating Bool}
    [∀ value, Accountable (next value)]
    [∀ value, Accountable (otherNext value)]
    (each :
      ∀ value, Settles head value →
        ∃ other, SettlesAnywhere otherHead other ∧
          Reproduces (next value) (otherNext other)) :
    Reproduces (head >>= next) (otherHead >>= otherNext) := by
  intro answer settles
  obtain ⟨value, early, settles⟩ := settles.of_bind
  obtain ⟨other, anywhere, continues⟩ := each value early
  exact .bind anywhere (continues answer settles)

/-- Comparisons that all have to hold are reproduced one by one. -/
theorem allOf
    {firsts seconds : List (Relating Bool)}
    (accountable : ∀ comparison ∈ firsts, Accountable comparison)
    (otherAccountable : ∀ comparison ∈ seconds, Accountable comparison)
    (each : List.Forall₂ Reproduces firsts seconds) :
    Reproduces (allOf firsts) (Relating.allOf seconds) := by
  induction each with
  | nil => exact .decided true
  | cons head _ inductionHypothesis =>
      rw [List.forall_mem_cons] at accountable otherAccountable
      have := allOf_accountable accountable.2
      have := allOf_accountable otherAccountable.2
      refine .bind fun holds compares => ⟨holds, head holds compares, ?_⟩
      cases holds with
      | true => exact inductionHypothesis accountable.2 otherAccountable.2
      | false => exact .decided false

/-- A search for a comparison that holds is reproduced one by one. -/
theorem anyOf
    {firsts seconds : List (Relating Bool)}
    (accountable : ∀ comparison ∈ firsts, Accountable comparison)
    (otherAccountable : ∀ comparison ∈ seconds, Accountable comparison)
    (each : List.Forall₂ Reproduces firsts seconds) :
    Reproduces (anyOf firsts) (Relating.anyOf seconds) := by
  induction each with
  | nil => exact .decided false
  | cons head _ inductionHypothesis =>
      rw [List.forall_mem_cons] at accountable otherAccountable
      have := accountable.1
      have := anyOf_accountable accountable.2
      have := anyOf_accountable otherAccountable.2
      refine .bind fun holds compares =>
        ⟨holds, settlesAnywhere_silently
          (head holds (settles_silently compares)), ?_⟩
      cases holds with
      | true => exact .decided true
      | false => exact inductionHypothesis accountable.2 otherAccountable.2

section Mapped

variable
  {items : List α}
  {others : List β}
  {visit : α → Relating Bool}
  {otherVisit : β → Relating Bool}
  [∀ item, Accountable (visit item)]
  [∀ item, Accountable (otherVisit item)]
  (each :
    List.Forall₂ (fun item other => Reproduces (visit item) (otherVisit other))
      items others)

include each

/-- Items that all have to be compared with success are reproduced one by one. -/
theorem allOf_map :
    Reproduces (Relating.allOf (items.map visit))
      (Relating.allOf (others.map otherVisit)) := by
  refine .allOf (List.forall_mem_map.mpr fun _ _ => inferInstance)
    (List.forall_mem_map.mpr fun _ _ => inferInstance) ?_
  rw [List.forall₂_map_left_iff, List.forall₂_map_right_iff]
  exact each

/-- A search among items is reproduced one by one. -/
theorem anyOf_map :
    Reproduces (Relating.anyOf (items.map visit))
      (Relating.anyOf (others.map otherVisit)) := by
  refine .anyOf (List.forall_mem_map.mpr fun _ _ => inferInstance)
    (List.forall_mem_map.mpr fun _ _ => inferInstance) ?_
  rw [List.forall₂_map_left_iff, List.forall₂_map_right_iff]
  exact each

end Mapped

end Reproduces

end Relating

namespace Checker

/-- Normalizing the type at the depth, with the budget, exceeds no bound. -/
def HasRoom
    (checker : Checker)
    (budget depth : Nat)
    (type : Ty) :
    Prop :=
  ∃ form,
    Settles
      ((normalPass (checker.modeKeeping true) budget).normalize depth type) form

namespace HasRoom

variable {checker : Checker} {budget fewer more depth deep flat : Nat}

/-- There is room at lower depths and with more budget. -/
theorem flatter
    (room : checker.HasRoom fewer deep type)
    (within : fewer ≤ more)
    (below : flat ≤ deep) :
    checker.HasRoom more flat type := by
  have apart : (Gap.bounds (deep - flat)).Apart deep flat :=
    ⟨(Nat.add_sub_of_le below).symm⟩
  have widens : Checker.Widens (.bounds (deep - flat)) checker checker :=
    ⟨rfl, rfl, Nat.le_add_right _ _, nofun, Nat.le_refl _⟩
  have modes :
      NormalMode.Widens (.bounds (deep - flat))
        (checker.modeKeeping true) (checker.modeKeeping true) :=
    ⟨widens, checker.evaluateWithin_carries checker (Nat.le_refl _),
      inferInstance, rfl⟩
  have passes :
      NormalPass.Carries (.bounds (deep - flat))
        (normalPass (checker.modeKeeping true) fewer)
        (normalPass (checker.modeKeeping true) more) :=
    normalPass_carries within
  obtain ⟨form, settles⟩ := room
  exact ⟨form, settles.carried (passes.normalize deep flat type)⟩

/-- Room is left by a budget. -/
theorem exists_budget
    (room : checker.HasRoom budget depth type) :
    ∃ less, budget = less + 1 := by
  obtain ⟨form, settles⟩ := room
  cases budget with
  | zero => exact (not_answers_exhausted settles.answers).elim
  | succ less => exact ⟨less, rfl⟩

/-- Where there is room for a node, it is normalized below the depth bound. -/
theorem node
    (room : checker.HasRoom (budget + 1) depth type)
    (present : type.isAbsent = false) :
    depth < checker.options.maxDepth ∧
      ∃ form,
        Settles
          ((normalPass (checker.modeKeeping true) budget).normalizeNode
            (checker.modeKeeping true) (depth + 1) type)
          form := by
  obtain ⟨form, settles⟩ := room
  change
    Settles
      ((normalPass (checker.modeKeeping true) budget).nextNormalize
        (checker.modeKeeping true) depth type)
      form at settles
  unfold NormalPass.nextNormalize at settles
  rw [if_neg (by simp [present])] at settles
  split at settles
  · obtain ⟨_, reports, _⟩ := settles.of_bind
    exact absurd reports not_settles_reportOnce
  · next below => exact ⟨Nat.lt_of_not_le below, form, settles⟩

/-- There is room for a node below the depth bound that is normalized. -/
theorem of_node
    (below : depth < checker.options.maxDepth)
    (settles :
      Settles
        ((normalPass (checker.modeKeeping true) budget).normalizeNode
          (checker.modeKeeping true) (depth + 1) type)
        form) :
    checker.HasRoom (budget + 1) depth type := by
  cases absent : type.isAbsent with
  | true =>
      refine ⟨type, SettlesAnywhere.settles ?_⟩
      change
        SettlesAnywhere
          ((normalPass (checker.modeKeeping true) budget).nextNormalize
            (checker.modeKeeping true) depth type)
          type
      unfold NormalPass.nextNormalize
      rw [if_pos absent]
      exact .pure type
  | false =>
      refine ⟨form, ?_⟩
      change
        Settles
          ((normalPass (checker.modeKeeping true) budget).nextNormalize
            (checker.modeKeeping true) depth type)
          form
      unfold NormalPass.nextNormalize
      have above :
          ¬ (checker.modeKeeping true).checker.options.maxDepth ≤ depth :=
        Nat.not_le_of_lt below
      rw [if_neg (by simp [absent]), if_neg above]
      exact settles

/-- Where there is room for a union, there is room for its members. -/
theorem member
    (room : checker.HasRoom (budget + 1) depth (.union occurrence members))
    (inMembers : type ∈ members) :
    checker.HasRoom budget (depth + 1) type := by
  obtain ⟨_, form, settles⟩ := room.node rfl
  obtain ⟨types, visits, _⟩ := NormalPass.union_cases settles
  obtain ⟨form, -, settles⟩ := exists_related_right visits.of_mapM inMembers
  exact ⟨form, settles⟩

/-- There is room for a union if there is room for its members. -/
theorem union
    (below : depth < checker.options.maxDepth)
    (each : ∀ type ∈ members, checker.HasRoom budget (depth + 1) type) :
    checker.HasRoom (budget + 1) depth (.union occurrence members) := by
  have visited :
      ∃ types,
        List.Forall₂
          (fun member form =>
            SettlesAnywhere
              ((normalPass (checker.modeKeeping true) budget).normalize
                (depth + 1) member)
              form)
          members types := by
    induction members with
    | nil => exact ⟨[], .nil⟩
    | cons first rest inductionHypothesis =>
        rw [List.forall_mem_cons] at each
        obtain ⟨form, settles⟩ := each.1
        obtain ⟨forms, visits⟩ := inductionHypothesis each.2
        exact ⟨form :: forms, .cons (.of_settles settles) visits⟩
  obtain ⟨types, visits⟩ := visited
  have joined :
      SettlesAnywhere
        ((normalPass (checker.modeKeeping true) budget).union checker.arena
          (depth + 1) members)
        (checker.arena.joinMembers (flattenUnion types)) :=
    .bind (.mapM visits) (.pure _)
  exact of_node below joined.settles

/-- Where there is room for a type, there is room for its alternatives. -/
theorem alternative
    {type alternative : Ty}
    (room : checker.HasRoom budget depth type)
    (chosen : type.Alternative alternative) :
    checker.HasRoom budget depth alternative := by
  induction chosen generalizing budget depth with
  | self => exact room
  | member inMembers _ inductionHypothesis =>
      obtain ⟨less, rfl⟩ := room.exists_budget
      exact (inductionHypothesis (room.member inMembers)).flatter
        (Nat.le_succ less) (Nat.le_succ depth)

/-- Where a type is normalized inside of another one there is room for it. -/
theorem of_inner
    (notApplication : type.isApplication = false)
    (settles :
      Settles
        ((normalPass (checker.modeKeeping true) budget).inner depth type)
        form) :
    checker.HasRoom budget depth type := by
  cases budget with
  | zero => exact (not_answers_exhausted settles.answers).elim
  | succ less =>
      have room : checker.HasRoom less depth type := by
        cases type with
        | generic => cases notApplication
        | _ => exact ⟨form, settles⟩
      exact room.flatter (Nat.le_succ less) (Nat.le_refl depth)

section Objects

variable
  {shape : Shape Ty}
  (room : checker.HasRoom (budget + 1) depth (.object occurrence shape))

include room

/-- Where there is room for an object, there is room for its properties. -/
theorem property
    {property : Property Ty}
    (member : property ∈ shape.properties)
    (plain : property.type.Plain) :
    checker.HasRoom budget (depth + 1) property.type := by
  obtain ⟨_, form, settles⟩ := room.node rfl
  obtain ⟨result, normalizes, _⟩ := settles.of_bind
  obtain ⟨_, -, -, inner⟩ :=
    exists_related_right (NormalPass.normalizeShape_cases normalizes).1 member
  exact .of_inner plain.notApplication inner

/-- Where there is room for an object, there is room for what its index yields. -/
theorem index
    {index : IndexSignature Ty}
    (written : shape.index = some index)
    (plain : index.value.Plain) :
    checker.HasRoom budget (depth + 1) index.value := by
  obtain ⟨_, form, settles⟩ := room.node rfl
  obtain ⟨result, normalizes, _⟩ := settles.of_bind
  have indices := (NormalPass.normalizeShape_cases normalizes).2
  rw [written] at indices
  generalize result.index = normal at indices
  cases indices with
  | some both => exact .of_inner plain.notApplication both.2

end Objects

/-- There is room to take up `undefined`, one level higher. -/
theorem optional
    (room : checker.HasRoom budget (depth + 1) type)
    (below : depth + 1 < checker.options.maxDepth) :
    checker.HasRoom (budget + 1) depth type.optional := by
  obtain ⟨less, rfl⟩ := room.exists_budget
  unfold Ty.optional
  split
  · exact room.flatter (Nat.le_succ _) (Nat.le_succ _)
  · refine union (Nat.lt_of_succ_lt below) fun member inMembers => ?_
    rcases List.mem_append.mp inMembers with inMembers | inMembers
    · cases isUnion : type.isUnion with
      | false =>
          rw [Ty.members_eq isUnion, List.mem_singleton] at inMembers
          exact inMembers ▸ room
      | true =>
          cases type with
          | union =>
              exact (room.member inMembers).flatter (Nat.le_succ _)
                (Nat.le_succ _)
          | _ => cases isUnion
    · rw [List.mem_singleton.mp inMembers]
      exact of_node below (SettlesAnywhere.pure _).settles

/-- Where there is room for a plain type, it is normalized to its normal form. -/
theorem normalizes
    (room : checker.HasRoom checker.budget depth type)
    (plain : type.Every Ty.Plain) :
    Check.Settles (checker.evaluation.normalizeOperand depth type)
      (checker.arena.plainForm type) := by
  obtain ⟨form, settles⟩ := room
  obtain ⟨after, _, added, run, quiet⟩ :=
    SettlesAnywhere.of_settles settles false rfl
  have settled :
      Check.Settles (checker.evaluation.normalizeOperand depth type) form := by
    refine ⟨added, ?_, quiet⟩
    change
      ((normalPass (checker.modeKeeping true) checker.budget).normalize depth
        type).run' false [] = _
    rw [StateT.run'_eq, map_eq_pure_bind]
    exact Except.bind_eq_ok.mpr ⟨((form, after), added), run, rfl⟩
  exact (@normalizeIn_yields checker true _ plain depth).eq_of_settles settled ▸
    settled

/-- Where a type is normalized there was room for it. -/
theorem of_normalizes
    (settles :
      Check.Settles (checker.evaluation.normalizeOperand depth type) form) :
    checker.HasRoom checker.budget depth type :=
  ⟨form, @settles_of_normalizeIn _ _ _ _ (checker.modeKeeping true) _ settles⟩

end HasRoom

end Checker

end StructuralTyping
