import StructuralTyping.Proofs.Execution
import StructuralTyping.Proofs.TypingMeaning

namespace StructuralTyping

/-!
# What the walk through a body promises

Each part of a body keeps three promises when it is walked: the bindings of its
scope stay in place, what it records holds for every value that a run sees, and
the facts it hands to the rest of its block hold in every environment that a run
hands on.

A switch on something else than a property is taken apart by the discriminator of
its type as if that were empty for literals only. The promises are therefore made
for bodies in which no such switch is discriminated by the property of empty
name.
-/

open Check

open Stateful (Runs)

section Declarations

/-- Declaring a name changes what this name refers to only. -/
theorem Scope.lookup?_declare
    (scope : Scope)
    (name other : String)
    (slot : BindingId) :
    (scope.declare name slot).lookup? other =
      if other = name then some slot else scope.lookup? other := by
  have inBlock :
      ∀ block : Block,
        (block.declare name slot).lookup other =
          if other = name then some slot else block.lookup other := by
    intro block
    unfold Block.declare
    rw [List.lookup_cons]
    by_cases same : other = name
    · simp [same]
    · rw [if_neg same, beq_eq_false_iff_ne.mpr same]
      simp only
      induction block with
      | nil =>
          rfl
      | cons entry rest inductionHypothesis =>
          by_cases isName : entry.1 = name
          · have different : (other == entry.1) = false := by
              rw [isName]
              exact beq_eq_false_iff_ne.mpr same
            rw [List.filter_cons_of_neg (by simp [isName]),
              inductionHypothesis, List.lookup_cons, different]
          · rw [List.filter_cons_of_pos (by simp [isName]), List.lookup_cons,
              List.lookup_cons, inductionHypothesis]
  unfold Scope.declare Scope.lookup?
  cases scope with
  | nil =>
      rw [List.findSome?_cons, inBlock]
      by_cases same : other = name <;> simp [same]
  | cons block outer =>
      rw [List.findSome?_cons, List.findSome?_cons, inBlock]
      by_cases same : other = name <;> simp [same]

/-- A declared name refers to its binding at the end of the table. -/
theorem ScopeNamed.declare
    {scope : Scope}
    {table : BindingTable}
    (named : ScopeNamed scope table)
    (binding : Binding) :
    ScopeNamed (scope.declare binding.name table.length)
      (table ++ [binding]) := by
  intro other slot shown
  rw [Scope.lookup?_declare] at shown
  split at shown
  · next same =>
    cases shown
    exact ⟨binding, by simp, same.symm⟩
  · exact named.append [binding] other slot shown

/-- What a scope shows once one more binding is declared. -/
theorem Scope.view_declare
    {scope : Scope}
    {table : BindingTable}
    (named : ScopeNamed scope table)
    (binding : Binding)
    (other : String) :
    ((scope.declare binding.name table.length).view
        (table ++ [binding])).lookup other =
      if other = binding.name then some binding.current
      else (scope.view table).lookup other := by
  have outer :
      (scope.view (table ++ [binding])).lookup other =
        (scope.view table).lookup other := by
    rw [Scope.view_append named]
  unfold Scope.view at outer ⊢
  dsimp only at outer ⊢
  rw [Scope.lookup?_declare]
  by_cases same : other = binding.name
  · simp [same]
  · rw [if_neg same, if_neg same]
    exact outer

/-- Declaring a binding with a type of the fragment stays within it. -/
theorem ScopeFits.declare
    {scope : Scope}
    {table : BindingTable}
    (fits : ScopeFits scope table)
    {binding : Binding}
    (admitted : Fragment.narrowing.admits binding.current = true) :
    ScopeFits (scope.declare binding.name table.length)
      (table ++ [binding]) where
  named := fits.named.declare binding
  admitted := by
    refine ⟨Facts.admitted_empty, fun {other type} shown => ?_⟩
    rw [Scope.view_declare fits.named] at shown
    split at shown
    · cases shown
      exact admitted
    · exact fits.admitted.lookup shown

/-- Entering a block changes nothing. -/
theorem ScopeFits.enter
    {scope : Scope}
    {table : BindingTable}
    (fits : ScopeFits scope table) :
    ScopeFits ([] :: scope) table :=
  ⟨fits.named, fits.admitted⟩

/-- The values of an environment are proper and belong to what a view knows. -/
structure Environment.Fits
    (arena : Arena)
    (view : View)
    (environment : Environment) :
    Prop where
  proper : environment.NaNFree
  holds : view.Holds arena environment

/-- A declared value belongs to the type of its binding. -/
theorem Environment.Fits.declare
    {arena : Arena}
    {environment : Environment}
    {scope : Scope}
    {table : BindingTable}
    (fits : environment.Fits arena (scope.view table))
    (named : ScopeNamed scope table)
    {binding : Binding}
    (proper : value.NaNFree)
    (belongs : Belongs arena binding.current value) :
    (environment.declare binding.name value).Fits arena
      ((scope.declare binding.name table.length).view
        (table ++ [binding])) where
  proper := Environment.NaNFree.declare fits.proper proper
  holds := by
    refine ⟨Facts.hold_empty, fun {other type found} shown valued => ?_⟩
    rw [Scope.view_declare named] at shown
    unfold Environment.declare at valued
    split at shown
    · next same =>
      cases shown
      rw [if_pos same] at valued
      cases valued
      exact belongs
    · next different =>
      rw [if_neg different] at valued
      exact fits.holds.lookup shown valued

end Declarations

section Walks

variable {α β : Type}

/-- A walk settles from what it carries along and a table. -/
def WalkRuns
    (body : Walking α)
    (walk : Walk)
    (table : BindingTable)
    (value : α)
    (later : Walk)
    (after : BindingTable) :
    Prop :=
  Runs (body walk) table (value, later) after

namespace WalkRuns

/-- A value leaves everything alone. -/
theorem of_pure
    {value answer : α}
    (runs : WalkRuns (pure value) walk table answer later after) :
    answer = value ∧ later = walk ∧ after = table := by
  obtain ⟨same, rfl⟩ := Runs.of_pure runs
  cases same
  exact ⟨rfl, rfl, rfl⟩

/-- A sequence runs its parts one after the other. -/
theorem of_bind
    {first : Walking α}
    {next : α → Walking β}
    (runs : WalkRuns (first >>= next) walk table answer later after)
    (walks : ∀ value, Checker.Walks (next value)) :
    ∃ value between middle,
      WalkRuns first walk table value between middle ∧
        WalkRuns (next value) between middle answer later after := by
  have whole :
      Runs (first walk >>= fun result => next result.1 result.2) table
        (answer, later) after :=
    runs
  obtain ⟨⟨value, between⟩, middle, firstRuns, nextRuns⟩ :=
    whole.of_bind fun result => (walks result.1).run result.2
  exact ⟨value, between, middle, firstRuns, nextRuns⟩

/-- A lifted computation carries the walk through. -/
theorem of_lift
    {computation : Narrowing α}
    (runs :
      WalkRuns (liftM computation) walk table answer later after) :
    Runs computation table answer after ∧ later = walk := by
  have whole :
      Runs (computation >>= fun value => pure (value, walk)) table
        (answer, later) after :=
    runs
  obtain ⟨value, middle, computes, returns⟩ :=
    whole.of_bind fun _ => inferInstance
  obtain ⟨same, rfl⟩ := returns.of_pure
  cases same
  exact ⟨computes, rfl⟩

/-- A lifted question leaves the table alone, too. -/
theorem of_liftCheck
    {computation : Check α}
    (runs :
      WalkRuns (liftM computation) walk table answer later after) :
    Settles computation answer ∧ later = walk ∧ after = table := by
  have whole :
      WalkRuns (liftM (liftM computation : Narrowing α)) walk table answer
        later after :=
    runs
  obtain ⟨asks, rfl⟩ := whole.of_lift
  obtain ⟨settles, rfl⟩ := asks.of_lift
  exact ⟨settles, rfl, rfl⟩

/-- A change of what is carried along leaves the table alone. -/
theorem of_modify
    {change : Walk → Walk}
    (runs :
      WalkRuns (modify change : Walking PUnit) walk table answer later
        after) :
    later = change walk ∧ after = table := by
  obtain ⟨same, rfl⟩ := Runs.of_pure runs
  cases same
  exact ⟨rfl, rfl⟩

end WalkRuns

end Walks

section Records

variable {arena : Arena}

/--
Observations stand for the inspecting statements of the given numbers, and each
visit belongs to the type observed for its statement.
-/
structure Recorded
    (arena : Arena)
    (labels : List String)
    (reaches : Visit → Prop)
    (numbers : List Nat)
    (observations : List Observation) :
    Prop where
  ordered : numbers.Pairwise (· < ·)
  labelled :
    List.Forall₂
      (fun (number : Nat) observation =>
        labels[number]? = some observation.label)
      numbers observations
  holds :
    ∀ visit,
      reaches visit →
      ∃ observation,
        (visit.number, observation) ∈ numbers.zip observations ∧
          Belongs arena observation.type visit.value

/-- Nothing is recorded where nothing is visited. -/
theorem recorded_nothing
    {labels : List String} :
    Recorded arena labels (fun _ => False) [] [] :=
  ⟨.nil, .nil, fun _ impossible => impossible.elim⟩

/-- Records of two parts, one after the other. -/
theorem Recorded.append
    {firstLabels secondLabels : List String}
    (first : Recorded arena firstLabels early firstNumbers firstObservations)
    (second :
      Recorded arena secondLabels late secondNumbers secondObservations) :
    Recorded arena (firstLabels ++ secondLabels)
      (fun visit =>
        early visit ∨ ∃ inner, late inner ∧ visit = inner.shift firstLabels)
      (firstNumbers ++ secondNumbers.map (firstLabels.length + ·))
      (firstObservations ++ secondObservations) := by
  have sameLength := first.labelled.length_eq
  have inside : ∀ number ∈ firstNumbers, number < firstLabels.length := by
    intro number member
    obtain ⟨observation, _, labelled⟩ :=
      exists_related_right first.labelled member
    exact (List.getElem?_eq_some_iff.mp labelled).1
  constructor
  · refine List.pairwise_append.mpr ⟨first.ordered, ?_, ?_⟩
    · exact List.pairwise_map.mpr (second.ordered.imp (by omega))
    · intro number member shifted inSecond
      obtain ⟨other, _, rfl⟩ := List.mem_map.mp inSecond
      have := inside number member
      omega
  · refine List.rel_append ?_ ?_
    · refine first.labelled.imp fun number observation labelled => ?_
      rw [List.getElem?_append_left (List.getElem?_eq_some_iff.mp labelled).1]
      exact labelled
    · refine List.forall₂_map_left_iff.mpr (second.labelled.imp ?_)
      intro number observation labelled
      rw [List.getElem?_append_right (by omega), Nat.add_sub_cancel_left]
      exact labelled
  · rw [List.zip_append sameLength]
    rintro visit (reached | ⟨inner, reached, rfl⟩)
    · obtain ⟨observation, member, belongs⟩ := first.holds visit reached
      exact ⟨observation, List.mem_append_left _ member, belongs⟩
    · obtain ⟨observation, member, belongs⟩ := second.holds inner reached
      refine ⟨observation, List.mem_append_right _ ?_, belongs⟩
      rw [List.zip_map_left]
      exact List.mem_map.mpr ⟨_, member, rfl⟩

/--
What a part of the walk leaves behind: the table has grown at its end, and the
new observations are records of the part.
-/
structure Walked
    (arena : Arena)
    (labels : List String)
    (reaches : Visit → Prop)
    (walk later : Walk)
    (table after : BindingTable) :
    Prop where
  grows : ∃ extra, after = table ++ extra
  records :
    ∃ numbers added,
      later.observations = walk.observations ++ added ∧
        Recorded arena labels reaches numbers added

namespace Walked

/-- A part that records nothing and visits nothing. -/
theorem nothing
    {labels : List String}
    (same : later.observations = walk.observations) :
    Walked arena labels (fun _ => False) walk later table table :=
  ⟨⟨[], by simp⟩, [], [], by simpa using same, recorded_nothing⟩

/-- Only the observations matter of what the walk carries along. -/
theorem congr
    (walked : Walked arena labels reaches walk later table after)
    (before : start.observations = walk.observations)
    (behind : final.observations = later.observations) :
    Walked arena labels reaches start final table after := by
  obtain ⟨grows, numbers, added, same, recorded⟩ := walked
  exact ⟨grows, numbers, added, by rw [behind, same, before], recorded⟩

/-- Fewer visits are recorded by the same observations. -/
theorem weaken
    (walked : Walked arena labels reaches walk later table after)
    (fewer : ∀ visit, visited visit → reaches visit) :
    Walked arena labels visited walk later table after := by
  obtain ⟨grows, numbers, added, same, recorded⟩ := walked
  exact ⟨grows, numbers, added, same, recorded.ordered, recorded.labelled,
    fun visit reached => recorded.holds visit (fewer visit reached)⟩

/-- A part under facts, once the frames of the facts are dropped. -/
theorem restore
    {scope : Scope}
    {facts : Facts}
    {narrowed : BindingTable}
    (named : ScopeNamed scope table)
    (walked :
      Walked arena labels reaches walk later
        (narrowedTable scope table facts) narrowed) :
    Walked arena labels reaches walk later table
      (BindingTable.restoreAll narrowed
        (BindingTable.pushFacts table scope facts).1) := by
  obtain ⟨⟨extra, rfl⟩, records⟩ := walked
  exact ⟨⟨extra, BindingTable.restoreAll_pushFacts named facts extra⟩,
    records⟩

/-- Two parts of the walk, one after the other. -/
theorem append
    {firstLabels secondLabels : List String}
    (first : Walked arena firstLabels early walk between table middle)
    (second : Walked arena secondLabels late between later middle after) :
    Walked arena (firstLabels ++ secondLabels)
      (fun visit =>
        early visit ∨ ∃ inner, late inner ∧ visit = inner.shift firstLabels)
      walk later table after := by
  obtain ⟨⟨extra, rfl⟩, firstNumbers, firstAdded, firstSame, recorded⟩ := first
  obtain ⟨⟨more, rfl⟩, secondNumbers, secondAdded, secondSame, further⟩ :=
    second
  refine ⟨⟨extra ++ more, by simp⟩, _, _, ?_, recorded.append further⟩
  rw [secondSame, firstSame, List.append_assoc]

end Walked

end Records

namespace Checker

variable (checker : Checker) (result : Ty)

/-- The facts on a branch of a guard; without a guard there are none. -/
def BranchFacts
    (view : View)
    (branch : Bool)
    (facts : Facts) :
    Option Expression →
    Prop
  | none => facts = {}
  | some guard => Settles (checker.refine view guard branch) facts

/--
A switch on something else than a property is not taken apart by the property of
empty name.
-/
def SubjectNamed
    (scope : Scope)
    (table : BindingTable) :
    Expression →
    Prop
  | .member _ _ _ => True
  | subject =>
      ∀ type after union,
        Runs (checker.typeOf scope subject) table type after →
        Settles (checker.discriminant? type) (some union) →
        union.discriminator ≠ ""

mutual

/--
No property read that the walk looks at is answered by an index signature, and
switches are taken apart by named properties. Bindings of finished blocks may
stand at the end of the table.
-/
def StatementDeclared
    (scope : Scope)
    (table : BindingTable) :
    Statement →
    Prop
  | .declare _ _ initial _ =>
      ∀ expression,
        initial = some expression →
        expression.TypingDeclared checker scope table
  | .inspect _ expression => expression.TypingDeclared checker scope table
  | .return _ => True
  | .choose guard positive negative =>
      guard.GuardsDeclared checker (scope.view table) ∧
        (∀ extra facts,
          Settles (checker.refine (scope.view table) guard true) facts →
          BlockDeclared ([] :: scope)
            (narrowedTable scope (table ++ extra) facts) positive) ∧
        ∀ extra facts,
          Settles (checker.refine (scope.view table) guard false) facts →
          BlockDeclared ([] :: scope)
            (narrowedTable scope (table ++ extra) facts) negative
  | .switch subject clauses otherwise =>
      subject.TypingDeclared checker scope table ∧
        checker.SubjectNamed scope table subject ∧
        ClausesDeclared scope table subject clauses ∧
        (∀ guard,
          noLabel subject (allLabels clauses) = some guard →
          guard.GuardsDeclared checker (scope.view table)) ∧
        match otherwise with
        | none => True
        | some body =>
            ∀ extra facts,
              checker.BranchFacts (scope.view table) true facts
                (noLabel subject (allLabels clauses)) →
              BlockDeclared ([] :: scope)
                (narrowedTable scope (table ++ extra) facts) body

/-- What is required of the statements of a block, each where it is walked. -/
def BlockDeclared
    (scope : Scope)
    (table : BindingTable) :
    List Statement →
    Prop
  | [] => True
  | statement :: rest =>
      StatementDeclared scope table statement ∧
        ∀ walk next facts later after,
          WalkRuns (checker.walkStatement result scope statement) walk table
            (.continued next facts) later after →
          BlockDeclared next (narrowedTable next after facts) rest

/-- What is required of the clauses of a switch. -/
def ClausesDeclared
    (scope : Scope)
    (table : BindingTable)
    (subject : Expression) :
    List (Clause Statement) →
    Prop
  | [] => True
  | ⟨labels, body⟩ :: rest =>
      (∀ guard,
        anyLabel subject labels = some guard →
        guard.GuardsDeclared checker (scope.view table) ∧
          ∀ extra facts,
            Settles (checker.refine (scope.view table) guard true) facts →
            BlockDeclared ([] :: scope)
              (narrowedTable scope (table ++ extra) facts) body) ∧
        ClausesDeclared scope table subject rest

end

end Checker

mutual

/--
The statements that the walk is sound for: declarations without ascription,
expressions that typing and narrowing are sound for, and labels that are proper
constants.
-/
def Statement.supported :
    Statement →
    Bool
  | .declare _ ascription initial _ =>
      ascription.isAbsent && initial.all (Expression.supported false)
  | .inspect _ expression => expression.supported false
  | .return _ => true
  | .choose guard positive negative =>
      guard.supported true && blockSupported positive &&
        blockSupported negative
  | .switch subject clauses otherwise =>
      subject.supported false && clausesSupported clauses &&
        match otherwise with
        | none => true
        | some body => blockSupported body

/-- Whether the walk is sound for all statements of a block. -/
def blockSupported :
    List Statement →
    Bool
  | [] => true
  | statement :: rest => statement.supported && blockSupported rest

/-- Whether the walk is sound for all clauses of a switch. -/
def clausesSupported :
    List (Clause Statement) →
    Bool
  | [] => true
  | ⟨labels, body⟩ :: rest =>
      (labels.all fun label => !label.value.isNaN) && blockSupported body &&
        clausesSupported rest

end

namespace Checker

/-- An inspecting statement that some run of a block visits. -/
def BlockReaches
    (arena : Arena)
    (starts : Environment → Prop)
    (statements : List Statement)
    (visit : Visit) :
    Prop :=
  ∃ environment visits ending,
    starts environment ∧
      ExecutesBlock arena environment statements visits ending ∧
      visit ∈ visits

/--
What walking a block promises about the runs of the block: visits belong to what
was observed, and a block that returns on every path does not end otherwise.
-/
structure BlockWalked
    (arena : Arena)
    (starts : Environment → Prop)
    (statements : List Statement)
    (walk : Walk)
    (table : BindingTable)
    (returns : Bool)
    (later : Walk)
    (after : BindingTable) :
    Prop where
  walked :
    Walked arena (blockInspections statements)
      (BlockReaches arena starts statements) walk later table after
  returned :
    returns = true →
    ∀ environment visits ending,
      starts environment →
      ExecutesBlock arena environment statements visits ending →
      ending = .returned

/-- The promise about some runs is one about fewer of them. -/
theorem BlockWalked.weaken
    {arena : Arena}
    {starts begins : Environment → Prop}
    {statements : List Statement}
    (walked :
      BlockWalked arena starts statements walk table returns later after)
    (fewer : ∀ environment, begins environment → starts environment) :
    BlockWalked arena begins statements walk table returns later after := by
  constructor
  · refine walked.walked.weaken ?_
    rintro visit ⟨environment, visits, ending, starts, runs⟩
    exact ⟨environment, visits, ending, fewer environment starts, runs⟩
  · intro allReturn environment visits ending starts executes
    exact walked.returned allReturn environment visits ending
      (fewer environment starts) executes

/-- Walking a block keeps its promise in every scope. -/
def BlockSound
    (checker : Checker)
    (result : Ty)
    (statements : List Statement) :
    Prop :=
  ∀ ⦃scope table walk returns later after⦄,
    ScopeFits scope table →
    checker.BlockDeclared result scope table statements →
    WalkRuns (checker.walkBlock result scope statements) walk table returns
      later after →
    BlockWalked checker.arena
      (Environment.Fits checker.arena (scope.view table)) statements walk
      table returns later after

/-- What walking a statement promises about the runs of the statement. -/
structure StatementWalked
    (arena : Arena)
    (scope : Scope)
    (statement : Statement)
    (walk : Walk)
    (table : BindingTable)
    (outcome : StatementOutcome)
    (later : Walk)
    (after : BindingTable) :
    Prop where
  walked :
    Walked arena statement.inspections
      (fun visit =>
        ∃ environment visits ending,
          environment.Fits arena (scope.view table) ∧
            Executes arena environment statement visits ending ∧
            visit ∈ visits)
      walk later table after
  returned :
    outcome = .returned →
    ∀ environment visits ending,
      environment.Fits arena (scope.view table) →
      Executes arena environment statement visits ending →
      ending = .returned
  continued :
    ∀ next facts,
      outcome = .continued next facts →
      ScopeFits next after ∧ facts.Admitted ∧
        ∀ environment visits between,
          environment.Fits arena (scope.view table) →
          Executes arena environment statement visits (.completed between) →
          between.Fits arena (next.view after) ∧ facts.Hold arena between

/-- Walking a statement keeps its promise in every scope. -/
def StatementSound
    (checker : Checker)
    (result : Ty)
    (statement : Statement) :
    Prop :=
  ∀ ⦃scope table walk outcome later after⦄,
    ScopeFits scope table →
    checker.StatementDeclared result scope table statement →
    WalkRuns (checker.walkStatement result scope statement) walk table outcome
      later after →
    StatementWalked checker.arena scope statement walk table outcome later
      after

end Checker

end StructuralTyping
