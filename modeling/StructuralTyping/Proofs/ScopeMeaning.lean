import StructuralTyping.Proofs.FactsMeaning

namespace StructuralTyping

/-!
# Scopes and frames

Every name that a scope shows refers to a binding of that name. Facts narrow
the bindings of their own names only, and dropping the frames that were pushed
for them gives the table back, whatever was declared meanwhile.
-/

/-- Every name of a scope refers to a binding of this name in the table. -/
def ScopeNamed
    (scope : Scope)
    (table : BindingTable) :
    Prop :=
  ∀ name slot,
    scope.lookup? name = some slot →
    ∃ binding, table[slot]? = some binding ∧ binding.name = name

namespace ScopeNamed

variable {scope : Scope} {table : BindingTable}

/-- A name that a scope shows refers into the table. -/
theorem lt
    (named : ScopeNamed scope table)
    (shown : scope.lookup? name = some slot) :
    slot < table.length := by
  obtain ⟨binding, found, _⟩ := named _ _ shown
  exact (List.getElem?_eq_some_iff.mp found).1

/-- Different names refer to different bindings. -/
theorem name_eq
    (named : ScopeNamed scope table)
    (first : scope.lookup? name = some slot)
    (second : scope.lookup? other = some slot) :
    name = other := by
  obtain ⟨binding, found, rfl⟩ := named _ _ first
  obtain ⟨_, sameFound, rfl⟩ := named _ _ second
  cases found.symm.trans sameFound
  rfl

/-- Further bindings leave the names of a scope alone. -/
theorem append
    (named : ScopeNamed scope table)
    (extra : BindingTable) :
    ScopeNamed scope (table ++ extra) := by
  intro name slot shown
  obtain ⟨binding, found, same⟩ := named _ _ shown
  refine ⟨binding, ?_, same⟩
  rw [List.getElem?_append_left (named.lt shown)]
  exact found

/-- Narrowing a binding keeps its name. -/
theorem modify
    (named : ScopeNamed scope table)
    (change : Binding → Binding)
    (keeps : ∀ binding, (change binding).name = binding.name)
    (target : BindingId) :
    ScopeNamed scope (table.modify target change) := by
  intro name slot shown
  obtain ⟨binding, found, rfl⟩ := named _ _ shown
  by_cases same : target = slot
  · subst same
    exact ⟨change binding, by simp [found], keeps binding⟩
  · exact ⟨binding, by simp [same, found], rfl⟩

end ScopeNamed

namespace Scope

/-- The type that a view shows is the current one of the binding. -/
theorem view_lookup
    {scope : Scope}
    {table : BindingTable} :
    (scope.view table).lookup name = some type ↔
      ∃ slot binding,
        scope.lookup? name = some slot ∧
          table[slot]? = some binding ∧ binding.current = type := by
  simp [view, Option.bind_eq_some_iff]

/-- Further bindings leave the view of a scope alone. -/
theorem view_append
    {scope : Scope}
    {table : BindingTable}
    (named : ScopeNamed scope table)
    (extra : BindingTable) :
    scope.view (table ++ extra) = scope.view table := by
  unfold view
  congr 1
  funext name
  cases shown : scope.lookup? name with
  | none =>
      rfl
  | some slot =>
      simp only [Option.bind_some]
      rw [List.getElem?_append_left (named.lt shown)]

end Scope

namespace BindingTable

/-- Dropping a frame undoes that it was pushed. -/
theorem restore_push
    {table : BindingTable}
    (inside : slot < table.length)
    (type : Ty)
    (extra : BindingTable) :
    restore ((push table slot type).2 ++ extra) (push table slot type).1 =
      table ++ extra := by
  obtain ⟨binding, found⟩ : ∃ binding, table[slot]? = some binding :=
    ⟨table[slot], List.getElem?_eq_getElem inside⟩
  have undone :
      (binding.push type).restoreTo binding.depth = binding := by
    simp [Binding.restoreTo, Binding.push, Binding.depth]
  apply List.ext_getElem?
  intro position
  simp only [push, restore, found, Option.map_some, Option.getD_some]
  by_cases same : slot = position
  · subst same
    rw [List.getElem?_modify_eq, List.getElem?_append_left (by simpa),
      List.getElem?_append_left inside, List.getElem?_modify_eq, found]
    exact congrArg some undone
  · rw [List.getElem?_modify_ne _ _ same]
    by_cases inTable : position < table.length
    · rw [List.getElem?_append_left (by simpa),
        List.getElem?_append_left inTable, List.getElem?_modify_ne _ _ same]
    · rw [List.getElem?_append_right (by simpa using inTable),
        List.getElem?_append_right (by simpa using inTable)]
      simp

/-- What a property of names and types says about narrowed bindings. -/
theorem view_push
    {scope : Scope}
    {table : BindingTable}
    {holds : String → Ty → Prop}
    (named : ScopeNamed scope table)
    (shown : scope.lookup? target = some slot)
    (narrowed : holds target type)
    (each :
      ∀ {name type},
        (scope.view table).lookup name = some type → holds name type)
    (known :
      (scope.view (push table slot type).2).lookup name = some other) :
    holds name other := by
  obtain ⟨otherSlot, binding, nameShown, found, rfl⟩ :=
    Scope.view_lookup.mp known
  by_cases same : slot = otherSlot
  · subst same
    cases named.name_eq nameShown shown
    obtain ⟨old, oldFound, _⟩ := named _ _ shown
    simp only [push, List.getElem?_modify_eq, oldFound] at found
    cases found
    exact narrowed
  · simp only [push, List.getElem?_modify_ne _ _ same] at found
    exact each (Scope.view_lookup.mpr
      ⟨otherSlot, binding, nameShown, found, rfl⟩)

/-- One step of narrowing the bindings of a scope by facts. -/
def pushEntry
    (scope : Scope)
    (state : List FrameMark × BindingTable)
    (entry : String × Ty) :
    List FrameMark × BindingTable :=
  match scope.lookup? entry.1 with
  | none => state
  | some binding =>
      ((push state.2 binding entry.2).1 :: state.1,
        (push state.2 binding entry.2).2)

/-- Facts are pushed entry by entry. -/
theorem pushFacts_eq
    (table : BindingTable)
    (scope : Scope)
    (facts : Facts) :
    pushFacts table scope facts =
      facts.entries.foldl (pushEntry scope) ([], table) :=
  rfl

/-- Names stay in place while facts are pushed. -/
theorem named_pushEntries
    {scope : Scope}
    {entries : List (String × Ty)}
    {state : List FrameMark × BindingTable}
    (named : ScopeNamed scope state.2) :
    ScopeNamed scope (entries.foldl (pushEntry scope) state).2 := by
  induction entries generalizing state with
  | nil =>
      exact named
  | cons entry rest inductionHypothesis =>
      apply inductionHypothesis
      unfold pushEntry
      split
      · exact named
      · exact named.modify (Binding.push · entry.2) (fun _ => rfl) _

/-- Facts keep names in place. -/
theorem named_pushFacts
    {scope : Scope}
    {table : BindingTable}
    (named : ScopeNamed scope table)
    (facts : Facts) :
    ScopeNamed scope (pushFacts table scope facts).2 :=
  named_pushEntries named

/-- Dropping the frames of facts undoes that they were pushed. -/
theorem restoreAll_pushEntries
    {scope : Scope}
    {entries : List (String × Ty)}
    {state : List FrameMark × BindingTable}
    (named : ScopeNamed scope state.2)
    (extra : BindingTable) :
    restoreAll
        ((entries.foldl (pushEntry scope) state).2 ++ extra)
        (entries.foldl (pushEntry scope) state).1 =
      restoreAll (state.2 ++ extra) state.1 := by
  induction entries generalizing state with
  | nil =>
      rfl
  | cons entry rest inductionHypothesis =>
      have step : ScopeNamed scope (pushEntry scope state entry).2 :=
        @named_pushEntries scope [entry] state named
      rw [List.foldl_cons, inductionHypothesis step]
      unfold pushEntry
      split
      · rfl
      · next slot shown =>
        change
          restoreAll
            (restore ((push state.2 slot entry.2).2 ++ extra)
              (push state.2 slot entry.2).1) state.1 = _
        rw [restore_push (named.lt shown)]

/-- Dropping the frames of facts gives the table back. -/
theorem restoreAll_pushFacts
    {scope : Scope}
    {table : BindingTable}
    (named : ScopeNamed scope table)
    (facts : Facts)
    (extra : BindingTable) :
    restoreAll ((pushFacts table scope facts).2 ++ extra)
        (pushFacts table scope facts).1 =
      table ++ extra :=
  restoreAll_pushEntries named extra

/-- What a property of names and types says about bindings narrowed by facts. -/
theorem view_pushEntries
    {scope : Scope}
    {entries : List (String × Ty)}
    {state : List FrameMark × BindingTable}
    {holds : String → Ty → Prop}
    (named : ScopeNamed scope state.2)
    (proved : ∀ entry ∈ entries, holds entry.1 entry.2)
    (each :
      ∀ {name type},
        (scope.view state.2).lookup name = some type → holds name type)
    (known :
      (scope.view (entries.foldl (pushEntry scope) state).2).lookup name =
        some type) :
    holds name type := by
  induction entries generalizing state with
  | nil =>
      exact each known
  | cons entry rest inductionHypothesis =>
      have step : ScopeNamed scope (pushEntry scope state entry).2 :=
        @named_pushEntries scope [entry] state named
      refine inductionHypothesis step
        (fun other member => proved other (.tail _ member)) ?_ known
      intro name type known
      unfold pushEntry at known
      split at known
      · exact each known
      · next slot shown =>
        exact view_push named shown (proved entry (by simp)) each known

end BindingTable

/-- A scope with types of the fragment for names that refer to their bindings. -/
structure ScopeFits
    (scope : Scope)
    (table : BindingTable) :
    Prop where
  named : ScopeNamed scope table
  admitted : (scope.view table).Admitted

/-- The table of a scope that is narrowed by facts. -/
abbrev narrowedTable
    (scope : Scope)
    (table : BindingTable)
    (facts : Facts) :
    BindingTable :=
  (BindingTable.pushFacts table scope facts).2

namespace ScopeFits

variable {scope : Scope} {table : BindingTable} {facts : Facts}

/-- Narrowing by facts of the fragment stays within the fragment. -/
theorem pushFacts
    (fits : ScopeFits scope table)
    (factsAdmitted : facts.Admitted) :
    ScopeFits scope (narrowedTable scope table facts) where
  named := BindingTable.named_pushFacts fits.named facts
  admitted :=
    ⟨Facts.admitted_empty, fun {_ type} known =>
      @BindingTable.view_pushEntries _ type scope facts.entries ([], table)
        (fun _ type => Fragment.narrowing.admits type = true) fits.named
        factsAdmitted fits.admitted.lookup known⟩

/-- Further bindings keep a scope within the fragment. -/
theorem append
    (fits : ScopeFits scope table)
    (extra : BindingTable) :
    ScopeFits scope (table ++ extra) :=
  ⟨fits.named.append extra,
    Scope.view_append fits.named extra ▸ fits.admitted⟩

/-- Narrowing by facts that hold keeps what the view says. -/
theorem holds_pushFacts
    {arena : Arena}
    {environment : Environment}
    (fits : ScopeFits scope table)
    (holds : (scope.view table).Holds arena environment)
    (factsHold : facts.Hold arena environment) :
    (scope.view (narrowedTable scope table facts)).Holds arena
      environment :=
  ⟨Facts.hold_empty, fun {_ type _} known valued =>
    @BindingTable.view_pushEntries _ type scope facts.entries ([], table)
      (fun name type =>
        ∀ value, environment name = some value → Belongs arena type value)
      fits.named factsHold
      (fun shown _ valued => holds.lookup shown valued) known _ valued⟩

end ScopeFits

end StructuralTyping
