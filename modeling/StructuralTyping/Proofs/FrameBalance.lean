import StructuralTyping.Narrowing.Statement
import StructuralTyping.Narrowing.Workspace
import StructuralTyping.Proofs.Noninterference
import StructuralTyping.Proofs.WalkStatements

namespace StructuralTyping

/-!
# Balanced frames

Every frame that is pushed while an expression is typed, a branch runs or a
block is walked is dropped again, however the block ends. Dropping cuts a stack
back to the height it had before, so it also removes what was pushed on top in
between. A table is compared with an earlier one by what was added to each of
its stacks.
-/

open Check

/-- A stateful sequence answers through a state between its parts. -/
theorem Check.Answers.between
    {first : StateT σ Check α}
    {next : α → StateT σ Check β}
    {answer : β}
    (answers : Answers ((first >>= next) state) (answer, after)) :
    ∃ value between,
      Answers (first state) (value, between) ∧
        Answers (next value between) (answer, after) := by
  rw [Stateful.run_bind] at answers
  obtain ⟨⟨value, between⟩, firstAnswers, nextAnswers⟩ := answers.of_bind
  exact ⟨value, between, firstAnswers, nextAnswers⟩

/-- A lifted computation answers as itself and leaves the state alone. -/
theorem Check.Answers.lifted
    {computation : Check α}
    {answer : α}
    (answers :
      Answers ((liftM computation : StateT σ Check α) state)
        (answer, after)) :
    Answers computation answer ∧ after = state := by
  rw [Stateful.run_lift] at answers
  obtain ⟨value, first, last⟩ := answers.of_bind
  cases answers_pure.mp last
  exact ⟨first, rfl⟩

/-- A walk through a sequence answers through a walk between its parts. -/
theorem Check.Answers.walkBetween
    {first : Walking α}
    {next : α → Walking β}
    {answer : β}
    (answers :
      Answers ((first >>= next) walk table) ((answer, later), after)) :
    ∃ value between middle,
      Answers (first walk table) ((value, between), middle) ∧
        Answers (next value between middle) ((answer, later), after) := by
  have whole :
      Answers ((first walk >>= fun result => next result.1 result.2) table)
        ((answer, later), after) :=
    answers
  obtain ⟨⟨value, between⟩, middle, firstAnswers, nextAnswers⟩ :=
    whole.between
  exact ⟨value, between, middle, firstAnswers, nextAnswers⟩

/-- A lifted computation answers as itself and leaves the walk alone. -/
theorem Check.Answers.liftedWalk
    {computation : Narrowing α}
    {answer : α}
    (answers :
      Answers ((liftM computation : Walking α) walk table)
        ((answer, later), after)) :
    Answers (computation table) (answer, after) ∧ later = walk := by
  have run :
      Answers ((computation >>= fun value => pure (value, walk)) table)
        ((answer, later), after) :=
    answers
  obtain ⟨value, middle, computes, returns⟩ := run.between
  cases answers_pure.mp returns
  exact ⟨computes, rfl⟩

/-- The binding with further frames on top. -/
def Binding.under
    (binding : Binding)
    (frames : List Ty) :
    Binding :=
  { binding with frames := frames ++ binding.frames }

/-- The bindings that a scope shows under some names. -/
def Scope.Refers
    (scope : Scope)
    (names : List String)
    (slot : BindingId) :
    Prop :=
  ∃ name ∈ names, scope.lookup? name = some slot

namespace BindingTable

/-- The table is an earlier one with frames added on top of free bindings. -/
def Grown
    (free : BindingId → Prop)
    (before after : BindingTable) :
    Prop :=
  ∀ slot,
    ∃ frames,
      after[slot]? = before[slot]?.map (Binding.under · frames) ∧
        (frames ≠ [] → free slot)

namespace Grown

variable {free : BindingId → Prop} {before between after : BindingTable}

theorem refl :
    Grown free before before := by
  intro slot
  refine ⟨[], ?_, fun some => (some rfl).elim⟩
  cases before[slot]? <;> rfl

theorem trans
    (first : Grown free before between)
    (second : Grown free between after) :
    Grown free before after := by
  intro slot
  obtain ⟨early, firstSame, firstFree⟩ := first slot
  obtain ⟨late, secondSame, secondFree⟩ := second slot
  refine ⟨late ++ early, ?_, fun some => ?_⟩
  · rw [secondSame, firstSame, Option.map_map]
    congr 1
    funext binding
    simp [Binding.under, List.append_assoc]
  · by_cases empty : early = []
    · exact secondFree (by simpa [empty] using some)
    · exact firstFree empty

/-- Bindings that are free in one way are free in a weaker one. -/
theorem weaken
    {weaker : BindingId → Prop}
    (grown : Grown free before after)
    (implies : ∀ slot, free slot → weaker slot) :
    Grown weaker before after := by
  intro slot
  obtain ⟨frames, same, onlyFree⟩ := grown slot
  exact ⟨frames, same, fun some => implies slot (onlyFree some)⟩

/-- Where nothing is free, nothing was added. -/
theorem eq
    (grown : Grown free before after)
    (none : ∀ slot, ¬ free slot) :
    after = before := by
  apply List.ext_getElem?
  intro slot
  obtain ⟨frames, same, onlyFree⟩ := grown slot
  by_cases empty : frames = []
  · rw [same, empty]
    cases before[slot]? <;> rfl
  · exact (none slot (onlyFree empty)).elim

/-- Narrowing a free binding adds a frame. -/
theorem push
    (isFree : free slot) :
    Grown free before (BindingTable.push before slot type).2 := by
  intro position
  by_cases same : slot = position
  · subst same
    refine ⟨[type], ?_, fun _ => isFree⟩
    simp only [BindingTable.push, List.getElem?_modify_eq]
    rfl
  · refine ⟨[], ?_, fun some => (some rfl).elim⟩
    simp only [BindingTable.push, List.getElem?_modify_ne _ _ same]
    cases before[position]? <;> rfl

/-- Dropping the frame of a binding drops all that came on top of it. -/
theorem restore
    (grown :
      Grown (fun other => free other ∨ other = slot)
        (BindingTable.push before slot type).2 after) :
    Grown free before
      (BindingTable.restore after (BindingTable.push before slot type).1) := by
  intro position
  obtain ⟨frames, same, onlyFree⟩ := grown position
  simp only [BindingTable.push] at same
  simp only [BindingTable.restore, BindingTable.push]
  by_cases isSlot : slot = position
  · subst isSlot
    refine ⟨[], ?_, fun some => (some rfl).elim⟩
    rw [List.getElem?_modify_eq] at same ⊢
    rw [same]
    cases before[slot]? with
    | none =>
        rfl
    | some binding =>
        have dropped :
            (frames ++ type :: binding.frames).drop
                (frames.length + (binding.frames.length + 1) -
                  binding.frames.length) =
              binding.frames := by
          have height :
              frames.length + (binding.frames.length + 1) -
                  binding.frames.length =
                frames.length + 1 := by
            omega
          rw [height, List.drop_append]
          simp
        simpa [Binding.restoreTo, Binding.under, Binding.push, Binding.depth]
          using dropped
  · refine ⟨frames, ?_, fun some => ?_⟩
    · rw [List.getElem?_modify_ne _ _ isSlot] at same ⊢
      exact same
    · exact (onlyFree some).resolve_right fun equal => isSlot equal.symm

end Grown

/-- Dropping the frames of facts drops all that came on top of them. -/
theorem Grown.restoreAll_pushEntries
    {scope : Scope}
    {free : BindingId → Prop}
    {entries : List (String × Ty)}
    {state : List FrameMark × BindingTable}
    {after : BindingTable}
    (grown :
      Grown
        (fun slot => free slot ∨ scope.Refers (entries.map Prod.fst) slot)
        (entries.foldl (pushEntry scope) state).2 after) :
    ∃ between,
      Grown free state.2 between ∧
        restoreAll after (entries.foldl (pushEntry scope) state).1 =
          restoreAll between state.1 := by
  induction entries generalizing state free with
  | nil =>
      refine ⟨after, grown.weaken ?_, rfl⟩
      rintro slot (isFree | ⟨_, ⟨⟩, _⟩)
      exact isFree
  | cons entry rest inductionHypothesis =>
      obtain ⟨between, grownBetween, same⟩ :=
        @inductionHypothesis
          (fun slot => free slot ∨ scope.lookup? entry.1 = some slot)
          (pushEntry scope state entry)
          (grown.weaken fun slot isFree => by
            rcases isFree with isFree | ⟨name, member, shown⟩
            · exact .inl (.inl isFree)
            · rcases List.mem_cons.mp member with rfl | inRest
              · exact .inl (.inr shown)
              · exact .inr ⟨name, inRest, shown⟩)
      rw [List.foldl_cons, same]
      unfold pushEntry at grownBetween ⊢
      cases shown : scope.lookup? entry.1 with
      | none =>
          rw [shown] at grownBetween
          exact ⟨between,
            grownBetween.weaken fun slot isFree =>
              isFree.resolve_right (by simp), rfl⟩
      | some slot =>
          rw [shown] at grownBetween
          exact ⟨_,
            Grown.restore (grownBetween.weaken fun other isFree =>
              isFree.imp_right fun same => (Option.some.inj same).symm), rfl⟩

/-- What bodies add to the bindings of facts is dropped with the facts. -/
theorem Grown.restoreAll_pushFacts
    {scope : Scope}
    {free : BindingId → Prop}
    {facts : Facts}
    {before after : BindingTable}
    (grown :
      Grown (fun slot => free slot ∨ scope.Refers facts.names slot)
        (pushFacts before scope facts).2 after) :
    Grown free before
      (restoreAll after (pushFacts before scope facts).1) := by
  obtain ⟨between, grownBetween, same⟩ :=
    @Grown.restoreAll_pushEntries scope free facts.entries ([], before) after
      grown
  rw [pushFacts_eq, same]
  exact grownBetween

/-- Narrowing adds no bindings. -/
theorem length_pushEntries
    {scope : Scope}
    {entries : List (String × Ty)}
    {state : List FrameMark × BindingTable} :
    (entries.foldl (pushEntry scope) state).2.length = state.2.length := by
  induction entries generalizing state with
  | nil =>
      rfl
  | cons entry rest inductionHypothesis =>
      rw [List.foldl_cons, inductionHypothesis]
      unfold pushEntry
      split
      · rfl
      · exact List.length_modify _ _ _

theorem length_narrowedTable :
    (narrowedTable scope table facts).length = table.length :=
  length_pushEntries

/-- Dropping the frames of facts gives the table back. -/
theorem restoreAll_narrowedTable
    (scope : Scope)
    (table : BindingTable)
    (facts : Facts) :
    restoreAll (narrowedTable scope table facts)
        (pushFacts table scope facts).1 =
      table := by
  have nothing :
      Grown (fun _ => False) table
        (restoreAll (narrowedTable scope table facts)
          (pushFacts table scope facts).1) :=
    .restoreAll_pushFacts .refl
  exact nothing.eq fun _ impossible => impossible

end BindingTable

/-- The table is an earlier one with bindings added that are not narrowed. -/
def BindingTable.Extends
    (before after : BindingTable) :
    Prop :=
  ∃ added, after = before ++ added ∧ ∀ binding ∈ added, binding.frames = []

namespace BindingTable.Extends

variable {before between after : BindingTable}

theorem refl :
    before.Extends before :=
  ⟨[], (List.append_nil _).symm, fun _ impossible => nomatch impossible⟩

theorem trans
    (first : before.Extends between)
    (second : between.Extends after) :
    before.Extends after := by
  obtain ⟨early, rfl, earlyBare⟩ := first
  obtain ⟨late, rfl, lateBare⟩ := second
  refine ⟨early ++ late, List.append_assoc _ _ _, fun binding member => ?_⟩
  exact (List.mem_append.mp member).elim (earlyBare _) (lateBare _)

theorem length_le
    (extending : before.Extends after) :
    before.length ≤ after.length := by
  obtain ⟨added, rfl, _⟩ := extending
  simp

end BindingTable.Extends

/-- The bindings of a scope stand in front of a position of the table. -/
def Scope.Inside
    (scope : Scope)
    (size : Nat) :
    Prop :=
  ∀ name slot, scope.lookup? name = some slot → slot < size

/-- A scope inside a table is inside each larger one. -/
theorem Scope.Inside.mono
    {scope : Scope}
    (inside : scope.Inside size)
    (larger : size ≤ other) :
    scope.Inside other :=
  fun name slot shown => (inside name slot shown).trans_le larger

/-- Declaring a binding of the table keeps a scope inside. -/
theorem Scope.Inside.declare
    {scope : Scope}
    (inside : scope.Inside size)
    (slotInside : slot < size) :
    (scope.declare name slot).Inside size := by
  intro other found shown
  rw [Scope.lookup?_declare] at shown
  split at shown
  · cases shown
    exact slotInside
  · exact inside other found shown

/-- Further bindings stay behind while older ones get their frames dropped. -/
theorem BindingTable.restoreAll_append
    {frames : List FrameMark}
    {table : BindingTable}
    (added : BindingTable)
    (inside : ∀ frame ∈ frames, frame.binding < table.length) :
    restoreAll (table ++ added) frames = restoreAll table frames ++ added := by
  induction frames generalizing table with
  | nil =>
      rfl
  | cons frame rest inductionHypothesis =>
      have first : restore (table ++ added) frame = restore table frame ++ added := by
        have isInside := inside frame (by simp)
        apply List.ext_getElem?
        intro slot
        unfold restore
        by_cases same : frame.binding = slot
        · subst same
          rw [List.getElem?_modify_eq, List.getElem?_append_left isInside,
            List.getElem?_append_left (by simpa), List.getElem?_modify_eq]
        · rw [List.getElem?_modify_ne _ _ same, List.getElem?_append,
            List.getElem?_append, List.length_modify,
            List.getElem?_modify_ne _ _ same]
      change restoreAll (restore (table ++ added) frame) rest = _
      rw [first, inductionHypothesis]
      · rfl
      · intro other member
        simpa [restore] using inside other (.tail _ member)

/-- The frames of facts are those of bindings that the scope shows. -/
theorem BindingTable.mem_pushEntries
    {scope : Scope}
    {entries : List (String × Ty)}
    {state : List FrameMark × BindingTable}
    (member : frame ∈ (entries.foldl (pushEntry scope) state).1) :
    frame ∈ state.1 ∨ ∃ name, scope.lookup? name = some frame.binding := by
  induction entries generalizing state with
  | nil =>
      exact .inl member
  | cons entry rest inductionHypothesis =>
      rcases inductionHypothesis member with early | shown
      · unfold pushEntry at early
        split at early
        · exact .inl early
        · next slot shown =>
          rcases List.mem_cons.mp early with rfl | inState
          · exact .inr ⟨entry.1, shown⟩
          · exact .inl inState
      · exact .inr shown

/-- Dropping the frames of facts keeps the bindings that were added meanwhile. -/
theorem BindingTable.Extends.restoreAll_pushFacts
    {scope : Scope}
    {table inner : BindingTable}
    {facts : Facts}
    (extending : (narrowedTable scope table facts).Extends inner)
    (inside : scope.Inside table.length) :
    table.Extends (restoreAll inner (pushFacts table scope facts).1) := by
  obtain ⟨added, rfl, bare⟩ := extending
  refine ⟨added, ?_, bare⟩
  rw [restoreAll_append, restoreAll_narrowedTable]
  intro frame member
  rw [length_narrowedTable]
  rcases mem_pushEntries member with impossible | ⟨name, shown⟩
  · cases impossible
  · exact inside name _ shown

/-- A computation that gives the table back. -/
class Restores
    (body : Narrowing α) :
    Prop where
  same :
    ∀ {table value after},
      Answers (body table) (value, after) →
      after = table

namespace Restores

instance
    (value : α) :
    Restores (pure value : Narrowing α) where
  same answers := by
    cases answers_pure.mp answers
    rfl

instance ofBind
    (first : Narrowing α)
    (next : α → Narrowing β)
    [firstRestores : Restores first]
    [nextRestores : ∀ value, Restores (next value)] :
    Restores (first >>= next) where
  same answers := by
    obtain ⟨value, between, firstAnswers, nextAnswers⟩ := answers.between
    cases firstRestores.same firstAnswers
    exact (nextRestores value).same nextAnswers

instance :
    Restores (get : Narrowing BindingTable) where
  same answers := by
    cases answers_pure.mp answers
    rfl

instance
    (computation : Check α) :
    Restores (liftM computation : Narrowing α) where
  same answers := answers.lifted.2

instance
    (condition : Prop)
    [Decidable condition]
    (first second : Narrowing α)
    [Restores first]
    [Restores second] :
    Restores (if condition then first else second) := by
  split <;> assumption

end Restores

namespace Checker

variable {checker : Checker}

/-- A body under facts answers with narrowed bindings. -/
theorem withFacts_answers
    {body : Narrowing α}
    (answers : Answers (withFacts scope facts body table) (value, after)) :
    ∃ inner,
      Answers (body (narrowedTable scope table facts)) (value, inner) ∧
        after =
          BindingTable.restoreAll inner
            (BindingTable.pushFacts table scope facts).1 := by
  unfold withFacts at answers
  obtain ⟨_, _, reads, narrows⟩ := answers.between
  cases answers_pure.mp reads
  obtain ⟨_, _, pushes, continues⟩ := narrows.between
  cases answers_pure.mp pushes
  obtain ⟨result, inner, bodyAnswers, drops⟩ := continues.between
  obtain ⟨_, _, restores, returns⟩ := drops.between
  cases answers_pure.mp restores
  cases answers_pure.mp returns
  exact ⟨inner, bodyAnswers, rfl⟩

instance
    (body : Narrowing α)
    [restores : Restores body] :
    Restores (withFacts scope facts body) where
  same answers := by
    obtain ⟨inner, bodyAnswers, rfl⟩ := withFacts_answers answers
    cases restores.same bodyAnswers
    exact BindingTable.restoreAll_narrowedTable _ _ _

variable {guard : Expression}

instance :
    Restores (checker.refineScope scope guard branch) := by
  unfold refineScope
  infer_instance

instance
    (body : Narrowing α)
    [Restores body] :
    Restores (checker.onBranch scope guard branch body) := by
  unfold onBranch
  infer_instance

instance :
    Restores (typeOfName scope name) := by
  unfold typeOfName
  refine @Restores.ofBind _ _ _ _ _ fun table => ?_
  split <;> infer_instance

instance typeOf_giveBack :
    Restores (checker.typeOf scope expression) := by
  fun_induction checker.typeOf scope expression
  all_goals infer_instance

section Commands

mutual

/--
A command that types an expression, narrows a listed name or runs such commands
on a branch of a guard, where the names that the guard refines are listed too.
-/
def Confined
    (checker : Checker)
    (names : List String)
    (workspace : Workspace) :
    ScopeCommand →
    Prop
  | .typeOf _ => True
  | .push name _ _ => name ∈ names
  | .branch guard branch body _ =>
      ∀ facts,
        Answers
            (checker.refine (workspace.scope.view workspace.table) guard branch)
            facts →
          ConfinedAll checker (names ++ facts.names)
            (workspace.pushFacts facts).2 body
  | _ => False

/-- Commands of which each is confined in the workspace that it runs in. -/
def ConfinedAll
    (checker : Checker)
    (names : List String)
    (workspace : Workspace) :
    List ScopeCommand →
    Prop
  | [] => True
  | command :: rest =>
      Confined checker names workspace command ∧
        ∀ answer after,
          Answers (checker.runCommand command workspace) (answer, after) →
          ConfinedAll checker names after rest

end

/-- The same place in the same scopes, with frames added to listed names. -/
structure Stays
    (names : List String)
    (before after : Workspace) :
    Prop where
  nodes : after.nodes = before.nodes
  current : after.current = before.current
  grown :
    BindingTable.Grown (before.scope.Refers names) before.table after.table

namespace Stays

variable {names : List String} {before between after : Workspace}

theorem refl :
    Stays names before before :=
  ⟨rfl, rfl, .refl⟩

/-- At the same place the same scopes are visible. -/
theorem scope_eq
    (stays : Stays names before after) :
    after.scope = before.scope := by
  unfold Workspace.scope
  rw [stays.nodes, stays.current]

theorem trans
    (first : Stays names before between)
    (second : Stays names between after) :
    Stays names before after :=
  ⟨second.nodes.trans first.nodes, second.current.trans first.current,
    first.grown.trans (first.scope_eq ▸ second.grown)⟩

end Stays

/-- Looking at the workspace leaves it as it is. -/
theorem scopeAnswer_answers
    {yield : ScopeYield ScopeAnswer}
    {workspace : Workspace}
    (answers : Answers (scopeAnswer yield workspace) (answer, after)) :
    after = workspace := by
  unfold scopeAnswer at answers
  obtain ⟨_, _, looks, shows⟩ := answers.between
  obtain ⟨_, rfl⟩ := looks.lifted
  obtain ⟨_, _, reads, returns⟩ := shows.between
  cases answers_pure.mp reads
  cases answers_pure.mp returns
  rfl

/-- Typing an expression leaves the workspace as it is. -/
theorem typeOfHere_answers
    {workspace : Workspace}
    (answers :
      Answers (checker.typeOfHere expression workspace) (type, after)) :
    after = workspace := by
  unfold typeOfHere at answers
  obtain ⟨_, _, reads, answers⟩ := answers.between
  cases answers_pure.mp reads
  obtain ⟨⟨found, table⟩, _, types, answers⟩ := answers.between
  obtain ⟨typeAnswers, rfl⟩ := types.lifted
  obtain ⟨_, _, sets, returns⟩ := answers.between
  cases answers_pure.mp sets
  cases answers_pure.mp returns
  cases typeOf_giveBack.same typeAnswers
  rfl

/-- Refining in a workspace leaves it as it is. -/
theorem refineHere_answers
    {workspace : Workspace}
    (answers :
      Answers (checker.refineHere guard branch workspace) (facts, after)) :
    Answers
        (checker.refine (workspace.scope.view workspace.table) guard branch)
        facts ∧
      after = workspace := by
  unfold refineHere at answers
  obtain ⟨_, _, reads, refines⟩ := answers.between
  cases answers_pure.mp reads
  exact refines.lifted

/-- A change of a workspace is made where there is one. -/
theorem attemptChange_answers
    {change : Workspace → Option Workspace}
    {workspace : Workspace}
    (answers : Answers (attemptChange change workspace) (flag, after)) :
    after = workspace ∨ change workspace = some after := by
  unfold attemptChange at answers
  obtain ⟨_, _, reads, attempts⟩ := answers.between
  cases answers_pure.mp reads
  cases changed : change workspace with
  | none =>
      rw [changed] at attempts
      cases answers_pure.mp attempts
      exact .inl rfl
  | some later =>
      rw [changed] at attempts
      obtain ⟨_, _, sets, returns⟩ := attempts.between
      cases answers_pure.mp sets
      cases answers_pure.mp returns
      exact .inr rfl

mutual

/-- A confined command adds frames to listed names only. -/
theorem runCommand_stays
    (command : ScopeCommand)
    {names : List String}
    {workspace after : Workspace}
    (confined : Confined checker names workspace command)
    (answers :
      Answers (checker.runCommand command workspace) (answer, after)) :
    Stays names workspace after := by
  cases command with
  | typeOf expression =>
      unfold runCommand at answers
      obtain ⟨_, _, types, looks⟩ := answers.between
      cases typeOfHere_answers types
      cases scopeAnswer_answers looks
      exact .refl
  | push name type mark =>
      unfold runCommand at answers
      obtain ⟨_, between, attempts, looks⟩ := answers.between
      cases scopeAnswer_answers looks
      have isListed : name ∈ names := confined
      rcases attemptChange_answers attempts with rfl | changes
      · exact .refl
      · unfold Workspace.push? at changes
        obtain ⟨slot, shown, changed⟩ := Option.bind_eq_some_iff.mp changes
        cases changed
        exact ⟨rfl, rfl, .push ⟨name, isListed, shown⟩⟩
  | branch guard branch body exit =>
      unfold runCommand at answers
      obtain ⟨facts, _, refines, narrows⟩ := answers.between
      obtain ⟨refined, rfl⟩ := refineHere_answers refines
      obtain ⟨_, _, reads, pushes⟩ := narrows.between
      cases answers_pure.mp reads
      obtain ⟨_, _, sets, runs⟩ := pushes.between
      cases answers_pure.mp sets
      obtain ⟨replies, inner, bodyRuns, leaves⟩ := runs.between
      obtain ⟨_, _, restores, looks⟩ := leaves.between
      cases answers_pure.mp restores
      cases scopeAnswer_answers looks
      have stays := runCommands_stay body (confined facts refined) bodyRuns
      refine ⟨stays.nodes, rfl, ?_⟩
      refine BindingTable.Grown.restoreAll_pushFacts (stays.grown.weaken ?_)
      rintro slot ⟨name, isListed, shown⟩
      rcases List.mem_append.mp isListed with isListed | isFact
      · exact .inl ⟨name, isListed, shown⟩
      · exact .inr ⟨name, isFact, shown⟩
  | _ =>
      exact confined.elim

/-- Confined commands add frames to listed names only. -/
theorem runCommands_stay
    (commands : List ScopeCommand)
    {names : List String}
    {workspace after : Workspace}
    (confined : ConfinedAll checker names workspace commands)
    (answers :
      Answers (checker.runCommands commands workspace) (replies, after)) :
    Stays names workspace after := by
  cases commands with
  | nil =>
      unfold runCommands at answers
      cases answers_pure.mp answers
      exact .refl
  | cons command rest =>
      unfold runCommands at answers
      unfold ConfinedAll at confined
      obtain ⟨reply, between, first, answers⟩ := answers.between
      obtain ⟨_, _, others, returns⟩ := answers.between
      cases answers_pure.mp returns
      exact (runCommand_stays command confined.1 first).trans
        (runCommands_stay rest (confined.2 _ _ first) others)

end

end Commands

section Blocks

/-- From a table of some size on, the walk only adds bindings to it. -/
class Declares
    (size : Nat)
    (body : Walking α) :
    Prop where
  adds :
    ∀ {walk table value later after},
      size ≤ table.length →
      Answers (body walk table) ((value, later), after) →
      table.Extends after

namespace Declares

variable {size : Nat}

instance
    (value : α) :
    Declares size (pure value : Walking α) where
  adds _ answers := by
    cases answers_pure.mp answers
    exact .refl

instance ofBind
    (first : Walking α)
    (next : α → Walking β)
    [firstDeclares : Declares size first]
    [nextDeclares : ∀ value, Declares size (next value)] :
    Declares size (first >>= next) where
  adds inside answers := by
    obtain ⟨value, between, middle, firstAnswers, nextAnswers⟩ :=
      answers.walkBetween
    have early := firstDeclares.adds inside firstAnswers
    exact early.trans
      ((nextDeclares value).adds (inside.trans early.length_le) nextAnswers)

instance
    (computation : Narrowing α)
    [restores : Restores computation] :
    Declares size (liftM computation : Walking α) where
  adds _ answers := by
    cases restores.same answers.liftedWalk.1
    exact .refl

instance
    (computation : Check α) :
    Declares size (liftM computation : Walking α) :=
  inferInstanceAs
    (Declares size
      (liftM (liftM computation : Narrowing α) : Walking α))

instance
    (change : Walk → Walk) :
    Declares size (modify change : Walking PUnit) where
  adds _ answers := by
    cases answers_pure.mp answers
    exact .refl

instance
    (condition : Prop)
    [Decidable condition]
    (first second : Walking α)
    [Declares size first]
    [Declares size second] :
    Declares size (if condition then first else second) := by
  split <;> assumption

end Declares

instance :
    Declares size (setPending pending) := by
  unfold setPending
  infer_instance

/-- A walk under facts adds bindings behind the table that it gives back. -/
theorem walkWithFacts_declares
    (body : Walking α)
    [declares : Declares size body]
    (inside : scope.Inside size) :
    Declares size (walkWithFacts scope facts body) where
  adds sizeInside answers := by
    obtain ⟨inner, bodyAnswers, rfl⟩ := withFacts_answers answers
    refine (declares.adds ?_ bodyAnswers).restoreAll_pushFacts
      (inside.mono sizeInside)
    rwa [BindingTable.length_narrowedTable]

/-- A walk on a branch adds bindings behind the table that it gives back. -/
theorem walkBranch_declares
    (checker : Checker)
    (guard : Option Expression)
    (branch : Bool)
    (body : Walking α)
    [declares : Declares size body]
    (inside : scope.Inside size) :
    Declares size (checker.walkBranch scope guard branch body) := by
  cases guard with
  | none =>
      assumption
  | some guard =>
      constructor
      intro walk table value later after sizeInside answers
      obtain ⟨facts, _, refines, narrows⟩ := Answers.between answers
      cases Restores.same refines
      exact (walkWithFacts_declares body inside).adds sizeInside narrows

instance :
    Restores (checker.typeOfOptional scope expression) := by
  unfold typeOfOptional
  split <;> infer_instance

instance :
    Restores (checker.switchCoverage? scope subject subjectType) := by
  unfold switchCoverage?
  split
  · refine @Restores.ofBind _ _ _ _ _ fun table => ?_
    split <;> infer_instance
  · infer_instance
  · infer_instance

instance :
    Restores (checker.walkReturn scope result value) := by
  unfold walkReturn
  infer_instance

/-- Adding a binding puts it at the end of the table. -/
theorem add_answers
    {binding : Binding}
    (answers : Answers (BindingTable.add binding table) (slot, after)) :
    after = table ++ [binding] ∧ slot = table.length := by
  unfold BindingTable.add at answers
  obtain ⟨_, _, reads, sets⟩ := answers.between
  cases answers_pure.mp reads
  obtain ⟨_, _, writes, yields⟩ := sets.between
  cases answers_pure.mp writes
  cases answers_pure.mp yields
  exact ⟨rfl, rfl⟩

/-- A declaration adds one binding, which the scope shows. -/
theorem walkDeclaration_answers
    (answers :
      Answers
        (checker.walkDeclaration scope name ascription initial policy table)
        (next, after)) :
    ∃ binding : Binding,
      binding.frames = [] ∧ after = table ++ [binding] ∧
        next = scope.declare name table.length := by
  unfold walkDeclaration at answers
  obtain ⟨type, _, types, continues⟩ := answers.between
  cases Restores.same types
  dsimp only at continues
  split at continues
  · obtain ⟨binding, _, infers, adds⟩ := continues.between
    cases answers_pure.mp infers
    obtain ⟨slot, _, stores, returns⟩ := adds.between
    cases answers_pure.mp returns
    obtain ⟨rfl, rfl⟩ := add_answers stores
    exact ⟨_, rfl, rfl, rfl⟩
  · obtain ⟨_, _, compares, declares⟩ := continues.between
    obtain ⟨_, rfl⟩ := compares.lifted
    obtain ⟨binding, _, ascribes, adds⟩ := declares.between
    cases answers_pure.mp ascribes
    obtain ⟨slot, _, stores, returns⟩ := adds.between
    cases answers_pure.mp returns
    obtain ⟨rfl, rfl⟩ := add_answers stores
    exact ⟨_, rfl, rfl, rfl⟩

/-- How a conditional goes on, and that it leaves nothing pending. -/
theorem finishChoice_answers
    {guard : Expression}
    (answers :
      Answers
        (checker.finishChoice scope guard positiveReturns negativeReturns walk
          table)
        ((outcome, later), after)) :
    after = table ∧ later.pending = none ∧
      (outcome = .returned ∨ ∃ facts, outcome = .continued scope facts) := by
  unfold finishChoice setPending at answers
  obtain ⟨_, _, _, pends, decides⟩ := answers.walkBetween
  cases answers_pure.mp pends
  split at decides
  · cases answers_pure.mp decides
    exact ⟨rfl, rfl, .inl rfl⟩
  · split at decides
    · obtain ⟨facts, _, _, lifted, returns⟩ := decides.walkBetween
      cases answers_pure.mp returns
      obtain ⟨refines, rfl⟩ := lifted.liftedWalk
      exact ⟨Restores.same refines, rfl, .inr ⟨facts, rfl⟩⟩
    · cases answers_pure.mp decides
      exact ⟨rfl, rfl, .inr ⟨{}, rfl⟩⟩

/-- How a switch with default goes on, and that it leaves nothing pending. -/
theorem finishTotalSwitch_answers
    (answers :
      Answers (finishTotalSwitch scope allReturn walk table)
        ((outcome, later), after)) :
    after = table ∧ later.pending = none ∧
      (outcome = .returned ∨ ∃ facts, outcome = .continued scope facts) := by
  unfold finishTotalSwitch setPending at answers
  obtain ⟨_, _, _, pends, returns⟩ := answers.walkBetween
  cases answers_pure.mp pends
  cases answers_pure.mp returns
  cases allReturn <;> simp

/-- How a switch without default goes on, and what it leaves pending. -/
theorem decideSwitch_answers
    {residual : Option Exhaustiveness}
    (answers :
      Answers
        (decideSwitch checker scope noneMatched allReturn residual walk table)
        ((outcome, later), after)) :
    after = table ∧
      later.pending =
        residual.filter (fun residual => !residual.exhaustive) ∧
      (outcome = .returned ∨ ∃ facts, outcome = .continued scope facts) := by
  unfold decideSwitch setPending at answers
  split at answers
  · next exhausted =>
    obtain ⟨_, _, _, pends, returns⟩ := answers.walkBetween
    cases answers_pure.mp pends
    cases answers_pure.mp returns
    refine ⟨rfl, ?_, by cases allReturn <;> simp⟩
    cases residual with
    | none =>
        rfl
    | some residual =>
        exact (Option.filter_some_neg (by simpa using exhausted)).symm
  · next open' =>
    have kept : residual.filter (fun residual => !residual.exhaustive) =
        residual := by
      cases residual with
      | none =>
          rfl
      | some residual =>
          exact Option.filter_some_pos (by simpa using open')
    obtain ⟨_, _, _, pends, continues⟩ := answers.walkBetween
    cases answers_pure.mp pends
    split at continues
    · obtain ⟨facts, _, _, lifted, returns⟩ := continues.walkBetween
      cases answers_pure.mp returns
      obtain ⟨refines, rfl⟩ := lifted.liftedWalk
      exact ⟨Restores.same refines, kept.symm, .inr ⟨facts, rfl⟩⟩
    · cases answers_pure.mp continues
      exact ⟨rfl, kept.symm, .inr ⟨{}, rfl⟩⟩

/-- How a switch without default goes on, by its coverage. -/
theorem finishSwitch_answers
    {coverage : Option Coverage}
    (answers :
      Answers
        (checker.finishSwitch scope coverage noneMatched allReturn walk table)
        ((outcome, later), after)) :
    ∃ residual : Option Exhaustiveness,
      Option.Rel
          (fun coverage residual =>
            Answers (checker.switchResidual coverage) residual)
          coverage residual ∧
        after = table ∧
        later.pending =
          residual.filter (fun residual => !residual.exhaustive) ∧
        (outcome = .returned ∨
          ∃ facts, outcome = .continued scope facts) := by
  cases coverage with
  | none =>
      rw [finishSwitch_none] at answers
      exact ⟨none, .none, decideSwitch_answers answers⟩
  | some coverage =>
      rw [finishSwitch_some] at answers
      obtain ⟨residual, between, middle, lifted, decides⟩ :=
        answers.walkBetween
      have computed :
          Answers
              ((liftM (checker.switchResidual coverage) : Narrowing _) table)
              (residual, middle) ∧
            between = walk :=
        lifted.liftedWalk
      obtain ⟨computes, rfl⟩ := computed
      obtain ⟨found, rfl⟩ := computes.lifted
      exact ⟨some residual, .some found, decideSwitch_answers decides⟩

instance
    (guard : Expression) :
    Declares size
      (checker.finishChoice scope guard positiveReturns negativeReturns) where
  adds _ answers := by
    obtain ⟨rfl, _⟩ := finishChoice_answers answers
    exact .refl

instance :
    Declares size (finishTotalSwitch scope allReturn) where
  adds _ answers := by
    obtain ⟨rfl, _⟩ := finishTotalSwitch_answers answers
    exact .refl

instance :
    Declares size
      (checker.finishSwitch scope coverage noneMatched allReturn) where
  adds _ answers := by
    obtain ⟨_, _, rfl, _⟩ := finishSwitch_answers answers
    exact .refl

/-- A statement adds bindings, and its scope stays inside the table. -/
def StatementDeclares
    (checker : Checker)
    (result : Ty)
    (scope : Scope)
    (statement : Statement) :
    Prop :=
  ∀ walk table outcome later after,
    scope.Inside table.length →
    Answers (checker.walkStatement result scope statement walk table)
      ((outcome, later), after) →
    table.Extends after ∧
      ∀ next facts,
        outcome = .continued next facts →
        next.Inside after.length

/-- A statement that goes on in its scope keeps it inside the table. -/
theorem StatementDeclares.of_scope
    (declares :
      ∀ {size},
        scope.Inside size →
        Declares size (checker.walkStatement result scope statement))
    (stays :
      ∀ {walk table next facts later after},
        Answers (checker.walkStatement result scope statement walk table)
          ((.continued next facts, later), after) →
        next = scope) :
    StatementDeclares checker result scope statement := by
  intro walk table outcome later after inside answers
  have extending := (declares inside).adds le_rfl answers
  refine ⟨extending, ?_⟩
  rintro next facts rfl
  cases stays answers
  exact inside.mono extending.length_le

mutual

/-- Each statement adds bindings behind the table that it gives back. -/
theorem walkStatement_declares
    (result : Ty)
    (scope : Scope)
    (statement : Statement) :
    StatementDeclares checker result scope statement := by
  cases statement with
  | declare name ascription initial policy =>
      intro walk table outcome later after inside answers
      unfold walkStatement at answers
      obtain ⟨next, _, middle, lifted, returns⟩ := answers.walkBetween
      cases answers_pure.mp returns
      obtain ⟨declares, rfl⟩ := lifted.liftedWalk
      obtain ⟨binding, bare, rfl, rfl⟩ := walkDeclaration_answers declares
      refine ⟨⟨[binding], rfl, by simpa using bare⟩, ?_⟩
      rintro next facts ⟨⟩
      exact (inside.mono (by simp)).declare (by simp)
  | inspect label expression =>
      refine .of_scope (fun _ => by unfold walkStatement; infer_instance) ?_
      intro walk table next facts later after answers
      unfold walkStatement at answers
      obtain ⟨_, _, _, _, records⟩ := answers.walkBetween
      obtain ⟨_, _, _, _, returns⟩ := records.walkBetween
      cases answers_pure.mp returns
      rfl
  | «return» value =>
      refine .of_scope (fun _ => by unfold walkStatement; infer_instance) ?_
      intro walk table next facts later after answers
      unfold walkStatement at answers
      obtain ⟨_, _, _, _, returns⟩ := answers.walkBetween
      cases answers_pure.mp returns
  | choose guard positive negative =>
      refine .of_scope (fun inside => ?_) ?_
      · have first := walkBlock_declares result ([] :: scope) positive inside
        have second := walkBlock_declares result ([] :: scope) negative inside
        have onTrue :=
          walkBranch_declares checker (some guard) true
            (checker.walkBlock result ([] :: scope) positive) inside
        have onFalse :=
          walkBranch_declares checker (some guard) false
            (checker.walkBlock result ([] :: scope) negative) inside
        unfold walkStatement
        infer_instance
      · intro walk table next facts later after answers
        unfold walkStatement at answers
        obtain ⟨_, _, _, _, continues⟩ := answers.walkBetween
        obtain ⟨_, _, _, _, finishes⟩ := continues.walkBetween
        obtain ⟨_, _, ended | ⟨facts, same⟩⟩ := finishChoice_answers finishes
        · cases ended
        · cases same
          rfl
  | switch subject clauses otherwise =>
      refine .of_scope (fun inside => ?_) ?_
      · have handled := walkClauses_declares result scope subject clauses inside
        unfold walkStatement
        refine @Declares.ofBind _ _ _ _ _ _ fun subjectType => ?_
        refine @Declares.ofBind _ _ _ _ _ _ fun coverage => ?_
        refine @Declares.ofBind _ _ _ _ _ _ fun allReturn => ?_
        cases otherwise with
        | some body =>
            have last := walkBlock_declares result ([] :: scope) body inside
            have branch :=
              walkBranch_declares checker
                (noLabel subject (allLabels clauses)) true
                (checker.walkBlock result ([] :: scope) body) inside
            dsimp only
            infer_instance
        | none =>
            dsimp only
            infer_instance
      · intro walk table next facts later after answers
        unfold walkStatement at answers
        obtain ⟨_, _, _, _, covers⟩ := answers.walkBetween
        obtain ⟨_, _, _, _, handles⟩ := covers.walkBetween
        obtain ⟨_, _, _, _, ends⟩ := handles.walkBetween
        cases otherwise with
        | some body =>
            obtain ⟨_, _, _, _, finishes⟩ := ends.walkBetween
            obtain ⟨_, _, ended | ⟨facts, same⟩⟩ :=
              finishTotalSwitch_answers finishes
            · cases ended
            · cases same
              rfl
        | none =>
            obtain ⟨_, _, _, _, ended | ⟨facts, same⟩⟩ :=
              finishSwitch_answers ends
            · cases ended
            · cases same
              rfl

/-- A block adds bindings behind the table that it gives back. -/
theorem walkBlock_declares
    (result : Ty)
    (scope : Scope)
    (statements : List Statement)
    (inside : scope.Inside size) :
    Declares size (checker.walkBlock result scope statements) := by
  cases statements with
  | nil =>
      unfold walkBlock
      infer_instance
  | cons statement rest =>
      constructor
      intro walk table value later after sizeInside answers
      unfold walkBlock setPending at answers
      obtain ⟨_, _, _, pends, answers⟩ := answers.walkBetween
      cases answers_pure.mp pends
      obtain ⟨outcome, between, middle, walks, continues⟩ :=
        answers.walkBetween
      obtain ⟨extending, goesOn⟩ :=
        walkStatement_declares result scope statement _ _ _ _ _
          (inside.mono sizeInside) walks
      cases outcome with
      | returned =>
          cases answers_pure.mp continues
          exact extending
      | continued next facts =>
          have nextInside := goesOn next facts rfl
          have body := walkBlock_declares result next rest nextInside
          exact extending.trans
            ((walkWithFacts_declares _ nextInside).adds le_rfl continues)

/-- Clauses add bindings behind the table that they give back. -/
theorem walkClauses_declares
    (result : Ty)
    (scope : Scope)
    (subject : Expression)
    (clauses : List (Clause Statement))
    (inside : scope.Inside size) :
    Declares size (checker.walkClauses result scope subject clauses) := by
  cases clauses with
  | nil =>
      unfold walkClauses
      infer_instance
  | cons clause rest =>
      have first := walkBlock_declares result ([] :: scope) clause.body inside
      have others := walkClauses_declares result scope subject rest inside
      have branch (guard : Expression) :=
        walkBranch_declares checker (some guard) true
          (checker.walkBlock result ([] :: scope) clause.body) inside
      unfold walkClauses
      dsimp only
      split <;> infer_instance

end

/--
Narrowing frames are balanced. Typing, refinement and narrowing give every table
back. So does a branch, however it ends, when its body types expressions,
narrows names that an enclosing guard refines and runs such branches itself. The
walk through a block keeps all bindings in front of those that it declares.
-/
theorem frames_balanced
    (checker : Checker) :
    (∀ scope table expression type after,
        Answers (checker.typeOf scope expression table) (type, after) →
          after = table) ∧
      (∀ scope table guard branch facts after,
        Answers (checker.refineScope scope guard branch table) (facts, after) →
          after = table) ∧
      (∀ table binding guard branch type after,
        Answers
            ((checker.narrow binding guard branch : Narrowing Ty) table)
            (type, after) →
          after = table) ∧
      (∀ workspace guard branch body exit answer after,
        Confined checker [] workspace (.branch guard branch body exit) →
          Answers
            (checker.runCommand (.branch guard branch body exit) workspace)
            (answer, after) →
          after.table = workspace.table) ∧
      ∀ scope table result statements walk returns later after,
        scope.Inside table.length →
          Answers (checker.walkBlock result scope statements walk table)
            ((returns, later), after) →
          ∃ declared,
            after = table ++ declared ∧
              ∀ binding ∈ declared, binding.frames = [] := by
  refine ⟨?types, ?refines, ?narrows, ?branches, ?walks⟩
  case types =>
    exact fun _ _ _ _ _ answers => Restores.same answers
  case refines =>
    exact fun _ _ _ _ _ _ answers => Restores.same answers
  case narrows =>
    exact fun _ _ _ _ _ _ answers => Restores.same answers
  case branches =>
    intro workspace guard branch body exit answer after confined answers
    refine (runCommand_stays _ confined answers).grown.eq ?_
    rintro slot ⟨_, ⟨⟩, _⟩
  case walks =>
    intro scope table result statements walk returns later after inside answers
    exact (walkBlock_declares result scope statements inside).adds le_rfl
      answers

/-- A branch on `x` that branches on it again and narrows it further. -/
def narrowedTwice : ScopeCommand :=
  .branch (.name "x") true
    [.branch (.name "x") true [.push "x" .never "inner"] .abrupt,
      .push "x" .never "outer", .typeOf (.name "x")]
    .failed

/-- Only `x` is declared, a string or `null`. -/
def nullableWorkspace : Workspace :=
  Workspace.declare {}
    { name := "x", declared := .ofUnion [.string, .null] }

theorem narrowedTwice_confined :
    Confined checker [] nullableWorkspace narrowedTwice := by
  intro facts refines
  have known : "x" ∈ [] ++ facts.names := by
    change
      Answers (refineName _ "x" (checker.truthiness true)) facts at refines
    obtain ⟨type, _, same⟩ := refines.of_bind
    cases answers_pure.mp same
    exact List.mem_singleton.mpr rfl
  refine ⟨fun inner _ => ⟨List.mem_append_left _ known, fun _ _ _ => trivial⟩,
    fun _ _ _ => ⟨known, fun _ _ _ => ⟨trivial, fun _ _ _ => trivial⟩⟩⟩

/-- `if (x) { return x }`, then another `x` is declared. -/
def shadowingBlock : List Statement :=
  [.choose (.name "x") [.return (some (.name "x"))] [],
    .declare "x" .absent none .mutable,
    .inspect "x" (.name "x")]

/-- Both the branch and the block give the frames of `x` back. -/
theorem frames_balanced_nullable :
    let checker : Checker := { budget := 8 }
    ∃ answer after returns later walked,
      Answers (checker.runCommand narrowedTwice nullableWorkspace)
          (answer, after) ∧
        after.table = nullableWorkspace.table ∧
        Answers
          (checker.walkBlock .string nullableWorkspace.scope shadowingBlock {}
            nullableWorkspace.table)
          ((returns, later), walked) ∧
        ∃ declared, walked = nullableWorkspace.table ++ declared := by
  let checker : Checker := { budget := 8 }
  obtain ⟨_, _, _, branches, walks⟩ := frames_balanced checker
  have runs :
      (checker.runCommand narrowedTwice nullableWorkspace []).isOk = true := by
    decide +kernel
  have walked :
      (checker.walkBlock .string nullableWorkspace.scope shadowingBlock {}
        nullableWorkspace.table []).isOk = true := by
    decide +kernel
  obtain ⟨⟨⟨answer, after⟩, log⟩, run⟩ := Except.exists_of_isOk runs
  obtain ⟨⟨⟨⟨returns, later⟩, table⟩, walkLog⟩, walk⟩ :=
    Except.exists_of_isOk walked
  have answers :
      Answers (checker.runCommand narrowedTwice nullableWorkspace)
        (answer, after) :=
    ⟨[], log, run⟩
  have walkAnswers :
      Answers
        (checker.walkBlock .string nullableWorkspace.scope shadowingBlock {}
          nullableWorkspace.table)
        ((returns, later), table) :=
    ⟨[], walkLog, walk⟩
  have inside :
      nullableWorkspace.scope.Inside nullableWorkspace.table.length := by
    intro name slot shown
    change Scope.lookup? [[("x", 0)]] name = some slot at shown
    by_cases isX : name = "x"
    · subst isX
      cases shown
      exact Nat.one_pos
    · simp [Scope.lookup?, List.lookup_cons, beq_eq_false_iff_ne.mpr isX]
        at shown
  obtain ⟨declared, same, _⟩ :=
    walks _ _ _ _ _ _ _ _ inside walkAnswers
  exact ⟨answer, after, returns, later, table, answers,
    branches _ _ _ _ _ _ _ narrowedTwice_confined answers, walkAnswers,
    declared, same⟩

end Blocks

end Checker

end StructuralTyping
