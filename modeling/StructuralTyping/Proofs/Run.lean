import Mathlib.Data.List.Forall2
import StructuralTyping.Checker.Assign
import StructuralTyping.Narrowing.Binding

namespace StructuralTyping

/-!
# Runs of computations

A computation answers when some run of it does, and it settles when it answers
without reporting an exceeded depth bound. Both notions split along sequencing.
For settling this needs that the later part neither reads the log nor takes
anything from it, and that a flag which silences further reports is only raised
together with a report.
-/

/-- Each item of the first of two related lists is related to one of the second. -/
theorem exists_related_right
    {relation : α → β → Prop}
    (related : List.Forall₂ relation items values)
    (member : item ∈ items) :
    ∃ value ∈ values, relation item value := by
  induction related with
  | nil =>
      simp at member
  | cons head _ inductionHypothesis =>
      rcases List.mem_cons.mp member with rfl | inRest
      · exact ⟨_, by simp, head⟩
      · obtain ⟨value, inValues, holds⟩ := inductionHypothesis inRest
        exact ⟨value, by simp [inValues], holds⟩

/-- Each item of the second of two related lists is related to one of the first. -/
theorem exists_related_left
    {relation : α → β → Prop}
    (related : List.Forall₂ relation items values)
    (member : value ∈ values) :
    ∃ item ∈ items, relation item value :=
  exists_related_right related.flip member

/-- A sequence of results is one if both of its parts are. -/
theorem Except.bind_eq_ok
    {first : Except ε α}
    {next : α → Except ε β}
    {result : β} :
    first.bind next = .ok result ↔
      ∃ value, first = .ok value ∧ next value = .ok result := by
  cases first <;> simp [Except.bind]

/-- A changed result is one that was changed. -/
theorem Except.map_eq_ok
    {first : Except ε α}
    {change : α → β}
    {result : β} :
    first.map change = .ok result ↔
      ∃ value, first = .ok value ∧ change value = result := by
  cases first <;> simp [Except.map]

/-- A result that is not an error has a value. -/
theorem Except.exists_of_isOk
    {result : Except ε α}
    (isOk : result.isOk = true) :
    ∃ value, result = .ok value := by
  cases result with
  | error => cases isOk
  | ok value => exact ⟨value, rfl⟩

/-- Whether a diagnostic is about the end of a function without a return. -/
def Diagnostic.isFallOff
    (diagnostic : Diagnostic) :
    Bool :=
  diagnostic.code = .nonExhaustive ∨ diagnostic.code = .missingReturn

/-- No diagnostic of the log reports an exceeded depth bound. -/
def Log.Quiet
    (log : Log) :
    Prop :=
  ∀ diagnostic ∈ log, diagnostic.code ≠ .typeTooComplex

namespace Log

/-- Nothing was reported. -/
theorem quiet_nil :
    Log.Quiet [] := by
  simp [Log.Quiet]

/-- A log is quiet exactly when both of its parts are. -/
theorem quiet_append
    {first second : Log} :
    Log.Quiet (first ++ second) ↔ Log.Quiet first ∧ Log.Quiet second := by
  simp only [Log.Quiet, List.mem_append]
  constructor
  · intro quiet
    exact ⟨fun diagnostic member => quiet diagnostic (.inl member),
      fun diagnostic member => quiet diagnostic (.inr member)⟩
  · rintro ⟨firstQuiet, secondQuiet⟩ diagnostic (member | member)
    · exact firstQuiet diagnostic member
    · exact secondQuiet diagnostic member

/-- Nothing in the log is about the end of a function. -/
def Ordinary
    (log : Log) :
    Prop :=
  ∀ diagnostic ∈ log, diagnostic.isFallOff = false

theorem ordinary_nil :
    Ordinary [] := by
  intro diagnostic member
  cases member

theorem ordinary_append
    {first second : Log} :
    Ordinary (first ++ second) ↔ Ordinary first ∧ Ordinary second :=
  List.forall_mem_append

end Log

namespace Check

/-- Some run of the computation answers with the value. -/
def Answers
    (computation : Check α)
    (value : α) :
    Prop :=
  ∃ log after, computation log = .ok (value, after)

/-- The computation answers with the value and reports no exceeded depth. -/
def Settles
    (computation : Check α)
    (value : α) :
    Prop :=
  ∃ added, computation [] = .ok (value, added) ∧ Log.Quiet added

/-- The computation adds to the log and is not influenced by it. -/
class OnlyAdds
    (computation : Check α) :
    Prop where
  shift :
    ∀ log,
      computation log =
        (computation []).map fun result => (result.1, log ++ result.2)

/--
The computation adds to the log and is not influenced by it, and nothing that it
adds is about the end of a function.
-/
class Appends
    (computation : Check α) :
    Prop extends OnlyAdds computation where
  ordinary :
    ∀ {value added},
      computation [] = .ok (value, added) →
      Log.Ordinary added

/-- A run from the empty log tells what happens from every other one. -/
theorem Appends.run
    {computation : Check α}
    [appends : Appends computation]
    {value : α}
    {added : Log}
    (fresh : computation [] = .ok (value, added))
    (log : Log) :
    computation log = .ok (value, log ++ added) := by
  rw [appends.shift log, fresh]
  rfl

/-- What settles answers. -/
theorem Settles.answers
    {computation : Check α}
    {value : α}
    (settles : Settles computation value) :
    Answers computation value := by
  obtain ⟨added, run, _⟩ := settles
  exact ⟨[], added, run⟩

/-- A computation settles with one value. -/
theorem Settles.unique
    {computation : Check α}
    {value other : α}
    (settles : Settles computation value)
    (again : Settles computation other) :
    value = other := by
  obtain ⟨added, run, -⟩ := settles
  obtain ⟨_, repeated, -⟩ := again
  cases run.symm.trans repeated
  rfl

/-- A run that adds no report of an exceeded depth settles. -/
theorem settles_of_run
    {computation : Check α}
    [appends : OnlyAdds computation]
    {value : α}
    {log added : Log}
    (run : computation log = .ok (value, log ++ added))
    (quiet : Log.Quiet added) :
    Settles computation value := by
  rw [appends.shift log] at run
  obtain ⟨⟨answer, reported⟩, fresh, same⟩ := Except.map_eq_ok.mp run
  simp only [Prod.mk.injEq, List.append_cancel_left_eq] at same
  obtain ⟨rfl, rfl⟩ := same
  exact ⟨reported, fresh, quiet⟩

@[simp] theorem answers_pure
    {value answer : α} :
    Answers (pure value : Check α) answer ↔ answer = value := by
  constructor
  · rintro ⟨log, after, run⟩
    cases run
    rfl
  · rintro rfl
    exact ⟨[], [], rfl⟩

@[simp] theorem settles_pure
    {value answer : α} :
    Settles (pure value : Check α) answer ↔ answer = value := by
  constructor
  · rintro ⟨added, run, _⟩
    cases run
    rfl
  · rintro rfl
    exact ⟨[], rfl, Log.quiet_nil⟩

/-- What halts does not answer. -/
theorem not_answers_halt
    {reason : Halt}
    {value : α} :
    ¬ Answers (Check.halt reason) value := by
  rintro ⟨log, after, run⟩
  cases run

/-- What runs out of its budget does not settle. -/
theorem not_settles_exhausted
    {value : α} :
    ¬ Settles Check.exhausted value :=
  fun settles => not_answers_halt settles.answers

/-- A sequence answers through an answer of its first part. -/
theorem Answers.of_bind
    {first : Check α}
    {next : α → Check β}
    {answer : β}
    (answers : Answers (first >>= next) answer) :
    ∃ value, Answers first value ∧ Answers (next value) answer := by
  obtain ⟨log, after, run⟩ := answers
  obtain ⟨⟨value, between⟩, firstRun, nextRun⟩ :=
    Except.bind_eq_ok.mp run
  exact ⟨value, ⟨log, between, firstRun⟩, ⟨between, after, nextRun⟩⟩

/-- A sequence answers exactly when its parts do, one after the other. -/
theorem answers_bind
    {first : Check α}
    {next : α → Check β}
    [appends : ∀ value, Appends (next value)]
    {answer : β} :
    Answers (first >>= next) answer ↔
      ∃ value, Answers first value ∧ Answers (next value) answer := by
  refine ⟨Answers.of_bind, ?_⟩
  rintro ⟨value, ⟨log, between, firstRun⟩, otherLog, after, nextRun⟩
  rw [(appends value).shift otherLog] at nextRun
  obtain ⟨⟨last, added⟩, fresh, same⟩ := Except.map_eq_ok.mp nextRun
  cases same
  refine ⟨log, between ++ added, ?_⟩
  change Except.bind (first log) _ = _
  rw [firstRun]
  exact (appends value).run fresh between

/-- All runs of a computation that answer give the same answer. -/
theorem Answers.unique
    {computation : Check α}
    [appends : Appends computation]
    (first : Answers computation value)
    (second : Answers computation other) :
    value = other := by
  obtain ⟨log, after, run⟩ := first
  obtain ⟨otherLog, otherAfter, otherRun⟩ := second
  rw [appends.shift log] at run
  rw [appends.shift otherLog] at otherRun
  obtain ⟨⟨answer, _⟩, fresh, same⟩ := Except.map_eq_ok.mp run
  obtain ⟨_, again, otherSame⟩ := Except.map_eq_ok.mp otherRun
  cases fresh.symm.trans again
  cases same
  cases otherSame
  rfl

/-- A sequence settles exactly when its parts do. -/
theorem settles_bind
    {first : Check α}
    {next : α → Check β}
    [appends : ∀ value, OnlyAdds (next value)]
    {answer : β} :
    Settles (first >>= next) answer ↔
      ∃ value, Settles first value ∧ Settles (next value) answer := by
  constructor
  · rintro ⟨added, run, quiet⟩
    obtain ⟨⟨value, reported⟩, firstRun, nextRun⟩ :=
      Except.bind_eq_ok.mp run
    change next value reported = .ok (answer, added) at nextRun
    rw [(appends value).shift reported] at nextRun
    obtain ⟨⟨last, later⟩, fresh, same⟩ := Except.map_eq_ok.mp nextRun
    simp only [Prod.mk.injEq] at same
    obtain ⟨rfl, rfl⟩ := same
    obtain ⟨firstQuiet, laterQuiet⟩ := Log.quiet_append.mp quiet
    exact ⟨value, ⟨reported, firstRun, firstQuiet⟩,
      ⟨later, fresh, laterQuiet⟩⟩
  · rintro ⟨value, ⟨reported, firstRun, firstQuiet⟩,
      ⟨later, fresh, laterQuiet⟩⟩
    refine ⟨reported ++ later, ?_,
      Log.quiet_append.mpr ⟨firstQuiet, laterQuiet⟩⟩
    change Except.bind (first []) _ = _
    rw [firstRun]
    change next value reported = _
    rw [(appends value).shift reported, fresh]
    rfl

/-- A sequence settles only if its parts do. -/
theorem Settles.of_bind
    {first : Check α}
    {next : α → Check β}
    {answer : β}
    (settles : Settles (first >>= next) answer)
    (appends : ∀ value, Appends (next value)) :
    ∃ value, Settles first value ∧ Settles (next value) answer :=
  settles_bind.mp settles

namespace OnlyAdds

theorem bind
    {first : Check α}
    {next : α → Check β}
    (firstAdds : OnlyAdds first)
    (nextAdds : ∀ value, OnlyAdds (next value)) :
    OnlyAdds (first >>= next) where
  shift log := by
    change Except.bind (first log) _ = Except.map _ (Except.bind (first []) _)
    rw [firstAdds.shift log]
    cases first [] with
    | error =>
        rfl
    | ok result =>
        obtain ⟨value, reported⟩ := result
        dsimp only [Except.map, Except.bind]
        rw [(nextAdds value).shift (log ++ reported),
          (nextAdds value).shift reported]
        cases next value [] <;> simp [Except.map]

theorem report
    (diagnostic : Diagnostic) :
    OnlyAdds (Check.report diagnostic) where
  shift _ := rfl

end OnlyAdds

namespace Appends

instance ofPure
    (value : α) :
    Appends (pure value : Check α) where
  shift log := by
    change Except.ok _ = Except.map _ (Except.ok _)
    simp [Except.map]
  ordinary run := by
    cases run
    exact Log.ordinary_nil

instance ofBind
    (first : Check α)
    (next : α → Check β)
    [firstAppends : Appends first]
    [nextAppends : ∀ value, Appends (next value)] :
    Appends (first >>= next) where
  toOnlyAdds :=
    firstAppends.toOnlyAdds.bind fun value => (nextAppends value).toOnlyAdds
  ordinary run := by
    obtain ⟨⟨value, reported⟩, firstRun, nextRun⟩ :=
      Except.bind_eq_ok.mp run
    change next value reported = .ok _ at nextRun
    rw [(nextAppends value).shift reported] at nextRun
    obtain ⟨⟨last, later⟩, fresh, same⟩ := Except.map_eq_ok.mp nextRun
    cases same
    exact Log.ordinary_append.mpr
      ⟨firstAppends.ordinary firstRun, (nextAppends value).ordinary fresh⟩

instance ofIte
    (condition : Prop)
    [Decidable condition]
    (first second : Check α)
    [Appends first]
    [Appends second] :
    Appends (if condition then first else second) := by
  split <;> assumption

/-- A report that is not about the end of a function. -/
theorem ofReport
    {diagnostic : Diagnostic}
    (ordinary : diagnostic.isFallOff = false) :
    Appends (Check.report diagnostic) where
  toOnlyAdds := .report diagnostic
  ordinary run := by
    cases run
    exact List.forall_mem_singleton.mpr ordinary

instance ofHalt
    (reason : Halt) :
    Appends (Check.halt reason : Check α) where
  shift _ := rfl
  ordinary run := by
    cases run

instance ofExhausted :
    Appends (Check.exhausted : Check α) :=
  ofHalt .exhausted

instance ofItem
    (items : List α)
    (index : Nat) :
    Appends (Check.item items index) := by
  unfold Check.item
  split <;> infer_instance

end Appends

namespace Appends

/-- Visiting a list adds to the log when every visit does. -/
theorem ofMapM
    {visit : α → Check β}
    {items : List α}
    (each : ∀ item ∈ items, Appends (visit item)) :
    Appends (items.mapM visit) := by
  induction items with
  | nil =>
      exact ofPure []
  | cons item rest inductionHypothesis =>
      rw [List.mapM_cons]
      have head := each item (by simp)
      have tail :=
        inductionHypothesis fun other member => each other (by simp [member])
      infer_instance

instance
    (visit : α → Check β)
    (items : List α)
    [each : ∀ item, Appends (visit item)] :
    Appends (items.mapM visit) :=
  ofMapM fun item _ => each item

instance ofFoldlM
    (visit : β → α → Check β)
    (start : β)
    (items : List α)
    [each : ∀ state item, Appends (visit state item)] :
    Appends (items.foldlM visit start) := by
  induction items generalizing start with
  | nil =>
      exact ofPure start
  | cons item rest inductionHypothesis =>
      rw [List.foldlM_cons]
      infer_instance

instance ofFilterMapM
    (visit : α → Check (Option β))
    (items : List α)
    [each : ∀ item, Appends (visit item)] :
    Appends (items.filterMapM visit) := by
  induction items with
  | nil =>
      exact ofPure []
  | cons item rest inductionHypothesis =>
      rw [List.filterMapM_cons]
      refine @ofBind _ _ _ _ (each item) fun found => ?_
      cases found <;> infer_instance

end Appends

/-- What is selected with some items kept already. -/
theorem filterAuxM_eq
    (keep : α → Check Bool)
    (items kept : List α) :
    items.filterAuxM keep kept =
      items.filterAuxM keep [] >>= fun others =>
        pure (others ++ kept) := by
  induction items generalizing kept with
  | nil =>
      simp [List.filterAuxM]
  | cons item rest inductionHypothesis =>
      simp only [List.filterAuxM, bind_assoc]
      congr 1
      funext answer
      rw [inductionHypothesis (cond answer (item :: kept) kept),
        inductionHypothesis (cond answer [item] [])]
      cases answer <;> simp

/-- Selecting from a list asks about its items one after the other. -/
theorem filterM_cons
    (keep : α → Check Bool)
    (item : α)
    (rest : List α) :
    (item :: rest).filterM keep =
      keep item >>= fun kept =>
        rest.filterM keep >>= fun others =>
          pure (if kept then item :: others else others) := by
  simp only [List.filterM, List.filterAuxM, bind_assoc, pure_bind]
  congr 1
  funext answer
  rw [filterAuxM_eq]
  cases answer <;> simp

instance Appends.ofFilterM
    (keep : α → Check Bool)
    (items : List α)
    [each : ∀ item, Appends (keep item)] :
    Appends (items.filterM keep) := by
  induction items with
  | nil =>
      exact Appends.ofPure []
  | cons item rest inductionHypothesis =>
      rw [filterM_cons]
      infer_instance

/-- A visit to a list settles item by item. -/
theorem Settles.of_mapM
    {visit : α → Check β}
    [each : ∀ item, Appends (visit item)]
    {items : List α}
    {values : List β}
    (settles : Settles (items.mapM visit) values) :
    List.Forall₂ (fun item value => Settles (visit item) value)
      items values := by
  induction items generalizing values with
  | nil =>
      cases settles_pure.mp settles
      exact .nil
  | cons item rest inductionHypothesis =>
      rw [List.mapM_cons] at settles
      obtain ⟨value, head, settles⟩ := settles_bind.mp settles
      obtain ⟨others, tail, settles⟩ := settles_bind.mp settles
      cases settles_pure.mp settles
      exact .cons head (inductionHypothesis tail)

/-- A selection settles item by item; it contains the items that were kept. -/
theorem Settles.of_filterM
    {keep : α → Check Bool}
    [each : ∀ item, Appends (keep item)]
    {items kept : List α}
    (settles : Settles (items.filterM keep) kept) :
    (∀ item ∈ kept, item ∈ items) ∧
      ∀ item ∈ items, item ∈ kept ∨ Settles (keep item) false := by
  induction items generalizing kept with
  | nil =>
      cases settles_pure.mp settles
      simp
  | cons item rest inductionHypothesis =>
      rw [filterM_cons] at settles
      obtain ⟨answer, head, settles⟩ := settles_bind.mp settles
      obtain ⟨others, tail, settles⟩ := settles_bind.mp settles
      cases settles_pure.mp settles
      obtain ⟨fromItems, decided⟩ := inductionHypothesis tail
      cases answer with
      | false =>
          constructor
          · intro other member
            exact .tail _ (fromItems other (by simpa using member))
          · intro other member
            rcases List.mem_cons.mp member with rfl | inRest
            · exact .inr head
            · simpa using decided other inRest
      | true =>
          constructor
          · intro other member
            rcases List.mem_cons.mp (by simpa using member) with rfl | inRest
            · simp
            · exact .tail _ (fromItems other inRest)
          · intro other member
            rcases List.mem_cons.mp member with rfl | inRest
            · exact .inl (by simp)
            · rcases decided other inRest with inOthers | dropped
              · exact .inl (by simp [inOthers])
              · exact .inr dropped

/-- Whatever a selecting visit yields was yielded for some item. -/
theorem Settles.of_filterMapM
    {visit : α → Check (Option β)}
    {items : List α}
    {values : List β}
    (settles : Settles (items.filterMapM visit) values)
    (each : ∀ item, Appends (visit item)) :
    ∀ value ∈ values,
      ∃ item ∈ items, Settles (visit item) (some value) := by
  induction items generalizing values with
  | nil =>
      cases settles_pure.mp settles
      simp
  | cons item rest inductionHypothesis =>
      rw [List.filterMapM_cons] at settles
      obtain ⟨found, head, settles⟩ := settles.of_bind fun found => by
        cases found <;> infer_instance
      intro value member
      cases found with
      | none =>
          obtain ⟨other, inRest, yields⟩ :=
            inductionHypothesis settles value member
          exact ⟨other, .tail _ inRest, yields⟩
      | some first =>
          obtain ⟨others, tail, settles⟩ := settles_bind.mp settles
          cases settles_pure.mp settles
          rcases List.mem_cons.mp member with rfl | inOthers
          · exact ⟨item, by simp, head⟩
          · obtain ⟨other, inRest, yields⟩ :=
              inductionHypothesis tail value inOthers
            exact ⟨other, .tail _ inRest, yields⟩

end Check

/-- States with a flag that silences further reports of an exceeded depth. -/
class Flagged
    (σ : Type) where
  raised : σ → Bool

instance : Flagged Bool where
  raised := id

instance : Flagged Findings where
  raised := Findings.tooComplex

instance : Flagged BindingTable where
  raised := fun _ => false

namespace Stateful

variable {σ : Type} [Flagged σ]

/-- Some run of the computation, from some state, answers with the value. -/
def Answers
    (computation : StateT σ Check α)
    (value : α) :
    Prop :=
  ∃ state after, Check.Answers (computation state) (value, after)

/-- The computation answers, and the flag is never up. -/
def Settles
    (computation : StateT σ Check α)
    (value : α) :
    Prop :=
  ∃ state after,
    Flagged.raised state = false ∧ Flagged.raised after = false ∧
      Check.Settles (computation state) (value, after)

/--
The computation only adds to the log, and it raises the flag only together with
a report of an exceeded depth.
-/
class Accountable
    (computation : StateT σ Check α) :
    Prop where
  appends :
    ∀ state, Check.Appends (computation state)
  reported :
    ∀ {state value after added},
      computation state [] = .ok ((value, after), added) →
      Flagged.raised after = Flagged.raised state ∨
        Flagged.raised after = true ∧ ¬ Log.Quiet added

omit [Flagged σ] in
/-- A sequence runs its parts one after the other. -/
theorem run_bind
    (first : StateT σ Check α)
    (next : α → StateT σ Check β)
    (state : σ) :
    (first >>= next) state =
      first state >>= fun result => next result.1 result.2 :=
  rfl

omit [Flagged σ] in
/-- A lifted computation leaves the state alone. -/
theorem run_lift
    (computation : Check α)
    (state : σ) :
    (liftM computation : StateT σ Check α) state =
      computation >>= fun value => pure (value, state) :=
  rfl

omit [Flagged σ] in
@[simp] theorem answers_pure
    [Inhabited σ]
    {value answer : α} :
    Answers (pure value : StateT σ Check α) answer ↔ answer = value := by
  constructor
  · rintro ⟨state, after, log, end', run⟩
    cases run
    rfl
  · rintro rfl
    exact ⟨default, default, [], [], rfl⟩

omit [Flagged σ] in
/-- A sequence answers through an answer of its first part. -/
theorem Answers.of_bind
    {first : StateT σ Check α}
    {next : α → StateT σ Check β}
    {answer : β}
    (answers : Answers (first >>= next) answer) :
    ∃ value, Answers first value ∧ Answers (next value) answer := by
  obtain ⟨state, after, run⟩ := answers
  rw [run_bind] at run
  obtain ⟨⟨value, between⟩, firstRun, nextRun⟩ := Check.Answers.of_bind run
  exact ⟨value, ⟨state, between, firstRun⟩, ⟨between, after, nextRun⟩⟩

omit [Flagged σ] in
/-- A lifted computation answers as the computation itself. -/
theorem Answers.of_lift
    {computation : Check α}
    {answer : α}
    (answers :
      Answers (liftM computation : StateT σ Check α) answer) :
    Check.Answers computation answer := by
  obtain ⟨state, after, run⟩ := answers
  rw [run_lift] at run
  obtain ⟨value, first, last⟩ := Check.Answers.of_bind run
  cases Check.answers_pure.mp last
  exact first

omit [Flagged σ] in
/-- The computation settles from a state, with a value and a state after it. -/
def Runs
    (computation : StateT σ Check α)
    (state : σ)
    (value : α)
    (after : σ) :
    Prop :=
  Check.Settles (computation state) (value, after)

omit [Flagged σ] in
/-- A value leaves the state alone. -/
theorem Runs.of_pure
    {value answer : α}
    (runs : Runs (pure value : StateT σ Check α) state answer after) :
    answer = value ∧ after = state := by
  cases Check.settles_pure.mp runs
  exact ⟨rfl, rfl⟩

omit [Flagged σ] in
/-- A lifted computation settles as itself and leaves the state alone. -/
theorem Runs.of_lift
    {computation : Check α}
    {answer : α}
    (runs :
      Runs (liftM computation : StateT σ Check α) state answer after) :
    Check.Settles computation answer ∧ after = state := by
  unfold Runs at runs
  rw [run_lift] at runs
  obtain ⟨value, first, last⟩ := Check.settles_bind.mp runs
  cases Check.settles_pure.mp last
  exact ⟨first, rfl⟩

omit [Flagged σ] in
/-- Reading the state leaves it alone. -/
theorem Runs.of_get
    (runs : Runs (get : StateT σ Check σ) state answer after) :
    answer = state ∧ after = state := by
  cases Check.settles_pure.mp runs
  exact ⟨rfl, rfl⟩

omit [Flagged σ] in
/-- Changing the state yields nothing else. -/
theorem Runs.of_modify
    {change : σ → σ}
    (runs : Runs (modify change : StateT σ Check PUnit) state answer after) :
    after = change state := by
  cases Check.settles_pure.mp runs
  rfl

omit [Flagged σ] in
/-- Setting the state yields nothing else. -/
theorem Runs.of_set
    (runs : Runs (set next : StateT σ Check PUnit) state answer after) :
    after = next := by
  cases Check.settles_pure.mp runs
  rfl

/-- A sequence runs through a state between its parts. -/
theorem Runs.of_bind
    {first : StateT σ Check α}
    {next : α → StateT σ Check β}
    {answer : β}
    (runs : Runs (first >>= next) state answer after)
    (accountable : ∀ value, Accountable (next value)) :
    ∃ value between,
      Runs first state value between ∧
        Runs (next value) between answer after := by
  unfold Runs at runs
  rw [run_bind] at runs
  obtain ⟨⟨value, between⟩, firstRuns, nextRuns⟩ :=
    Check.Settles.of_bind runs fun result =>
      (accountable result.1).appends result.2
  exact ⟨value, between, firstRuns, nextRuns⟩

/-- What settles answers. -/
theorem Settles.answers
    {computation : StateT σ Check α}
    {value : α}
    (settles : Settles computation value) :
    Answers computation value := by
  obtain ⟨state, after, _, _, run⟩ := settles
  exact ⟨state, after, run.answers⟩

/-- A value settles as itself. -/
theorem Settles.of_pure
    {value answer : α}
    (settles : Settles (pure value : StateT σ Check α) answer) :
    answer = value := by
  obtain ⟨state, after, _, _, run⟩ := settles
  cases Check.settles_pure.mp run
  rfl

/-- A sequence settles only if its parts do. -/
theorem Settles.of_bind
    {first : StateT σ Check α}
    {next : α → StateT σ Check β}
    [accountable : ∀ value, Accountable (next value)]
    {answer : β}
    (settles : Settles (first >>= next) answer) :
    ∃ value, Settles first value ∧ Settles (next value) answer := by
  obtain ⟨state, after, lowered, stillLowered, run⟩ := settles
  have appends :
      ∀ result : α × σ, Check.Appends (next result.1 result.2) :=
    fun result => (accountable result.1).appends result.2
  rw [run_bind] at run
  obtain ⟨⟨value, between⟩, firstRun, nextRun⟩ := Check.settles_bind.mp run
  have betweenLowered : Flagged.raised between = false := by
    obtain ⟨added, fresh, quiet⟩ := nextRun
    rcases (accountable value).reported fresh with same | ⟨up, _⟩
    · rw [← same]
      exact stillLowered
    · rw [stillLowered] at up
      cases up
  exact ⟨value, ⟨state, between, lowered, betweenLowered, firstRun⟩,
    ⟨between, after, betweenLowered, stillLowered, nextRun⟩⟩

/-- A lifted computation settles as the computation itself. -/
theorem Settles.of_lift
    {computation : Check α}
    {answer : α}
    (settles :
      Settles (liftM computation : StateT σ Check α) answer) :
    Check.Settles computation answer := by
  obtain ⟨state, after, _, _, run⟩ := settles
  rw [run_lift] at run
  obtain ⟨value, first, last⟩ := Check.settles_bind.mp run
  cases Check.settles_pure.mp last
  exact first

namespace Accountable

instance ofPure
    (value : α) :
    Accountable (pure value : StateT σ Check α) where
  appends state := Check.Appends.ofPure (value, state)
  reported run := by
    cases run
    exact .inl rfl

instance ofBind
    (first : StateT σ Check α)
    (next : α → StateT σ Check β)
    [firstAccountable : Accountable first]
    [nextAccountable : ∀ value, Accountable (next value)] :
    Accountable (first >>= next) where
  appends state :=
    @Check.Appends.ofBind _ _ (first state)
      (fun result => next result.1 result.2)
      (firstAccountable.appends state)
      fun result => (nextAccountable result.1).appends result.2
  reported {state answer after added} run := by
    obtain ⟨⟨⟨value, between⟩, early⟩, firstRun, nextRun⟩ :=
      Except.bind_eq_ok.mp run
    change next value between early = .ok ((answer, after), added) at nextRun
    rw [((nextAccountable value).appends between).shift early] at nextRun
    obtain ⟨⟨result, late⟩, fresh, same⟩ := Except.map_eq_ok.mp nextRun
    simp only [Prod.mk.injEq] at same
    obtain ⟨rfl, rfl⟩ := same
    rw [Log.quiet_append]
    rcases (nextAccountable value).reported fresh with sameLate | ⟨up, loud⟩
    · rcases firstAccountable.reported firstRun with sameEarly | ⟨up, loud⟩
      · exact .inl (sameLate.trans sameEarly)
      · exact .inr ⟨sameLate.trans up, fun quiet => loud quiet.1⟩
    · exact .inr ⟨up, fun quiet => loud quiet.2⟩

instance ofIte
    (condition : Prop)
    [Decidable condition]
    (first second : StateT σ Check α)
    [Accountable first]
    [Accountable second] :
    Accountable (if condition then first else second) := by
  split <;> assumption

instance ofMap
    (change : α → β)
    (computation : StateT σ Check α)
    [Accountable computation] :
    Accountable (change <$> computation) := by
  rw [map_eq_pure_bind]
  infer_instance

instance ofLift
    (computation : Check α)
    [Check.Appends computation] :
    Accountable (liftM computation : StateT σ Check α) where
  appends state :=
    @Check.Appends.ofBind _ _ computation
      (fun value => pure (value, state)) _ fun value =>
        Check.Appends.ofPure (value, state)
  reported run := by
    obtain ⟨⟨value, early⟩, firstRun, nextRun⟩ :=
      Except.bind_eq_ok.mp run
    cases nextRun
    exact .inl rfl

instance ofGet :
    Accountable (get : StateT σ Check σ) where
  appends state := Check.Appends.ofPure (state, state)
  reported run := by
    cases run
    exact .inl rfl

/-- A change of the state that leaves the flag alone. -/
theorem ofModify
    {change : σ → σ}
    (same : ∀ state, Flagged.raised (change state) = Flagged.raised state) :
    Accountable (modify change : StateT σ Check PUnit) where
  appends state := Check.Appends.ofPure (PUnit.unit, change state)
  reported run := by
    cases run
    exact .inl (same _)

instance ofMapM
    (visit : α → StateT σ Check β)
    (items : List α)
    [each : ∀ item, Accountable (visit item)] :
    Accountable (items.mapM visit) := by
  induction items with
  | nil =>
      exact ofPure []
  | cons item rest inductionHypothesis =>
      rw [List.mapM_cons]
      infer_instance

instance ofFoldlM
    (visit : β → α → StateT σ Check β)
    (start : β)
    (items : List α)
    [each : ∀ state item, Accountable (visit state item)] :
    Accountable (items.foldlM visit start) := by
  induction items generalizing start with
  | nil =>
      exact ofPure start
  | cons item rest inductionHypothesis =>
      rw [List.foldlM_cons]
      infer_instance

end Accountable

omit [Flagged σ] in
/-- A visit to a list answers item by item. -/
theorem Answers.of_mapM
    [Inhabited σ]
    {visit : α → StateT σ Check β}
    {items : List α}
    {values : List β}
    (answers : Answers (items.mapM visit) values) :
    List.Forall₂ (fun item value => Answers (visit item) value)
      items values := by
  induction items generalizing values with
  | nil =>
      cases answers_pure.mp answers
      exact .nil
  | cons item rest inductionHypothesis =>
      rw [List.mapM_cons] at answers
      obtain ⟨value, head, answers⟩ := answers.of_bind
      obtain ⟨others, tail, answers⟩ := answers.of_bind
      cases answers_pure.mp answers
      exact .cons head (inductionHypothesis tail)

/-- A visit to a list settles item by item. -/
theorem Settles.of_mapM
    {visit : α → StateT σ Check β}
    [each : ∀ item, Accountable (visit item)]
    {items : List α}
    {values : List β}
    (settles : Settles (items.mapM visit) values) :
    List.Forall₂ (fun item value => Settles (visit item) value)
      items values := by
  induction items generalizing values with
  | nil =>
      cases settles.of_pure
      exact .nil
  | cons item rest inductionHypothesis =>
      rw [List.mapM_cons] at settles
      obtain ⟨value, head, settles⟩ := settles.of_bind
      obtain ⟨others, tail, settles⟩ := settles.of_bind
      cases settles.of_pure
      exact .cons head (inductionHypothesis tail)

end Stateful

end StructuralTyping
