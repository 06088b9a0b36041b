import Mathlib.Data.List.Nodup
import Mathlib.Logic.Function.Basic
import StructuralTyping.Arena

namespace StructuralTyping

/-!
# Histories of two arenas

Two arenas are filled side by side: names are declared, references are defined,
and a reference of one arena may be handed to the other. Each arena keeps the
calls it got and its answers to them. What it holds can be read off these events
alone: its names in the order of their first declaration, the position of each
reference, and for each position the type that was put there last.
-/

namespace Arena

variable {arena : Arena} {name : String} {type : Ty}

@[simp] theorem definitionAt_natCast
    (id : Nat) :
    arena.definitionAt id = arena.lookup id := by
  rw [definitionAt, if_neg (by omega), Int.toNat_natCast]

/-- The declared names in order. -/
def declaredNames
    (arena : Arena) :
    List String :=
  arena.declarations.map Declaration.name

/-- The reference of a name, which points to the first position of the name. -/
def referenceOf
    (arena : Arena)
    (name : String) :
    Reference :=
  { arena := arena.tag, id := arena.declaredNames.idxOf name, name }

@[simp] theorem length_declaredNames :
    arena.declaredNames.length = arena.size := by
  simp [declaredNames, size]

section Declaring

/-- Exactly the declared names have a reference. -/
theorem reference?_eq :
    arena.reference? name =
      if name ∈ arena.declaredNames then
        some (arena.referenceOf name)
      else
        none := by
  have through :
      arena.declarations.findIdx?
          (fun declaration => declaration.name == name) =
        arena.declaredNames.findIdx? (· == name) := by
    rw [declaredNames, List.findIdx?_map]
    rfl
  unfold reference?
  rw [through]
  by_cases declared : name ∈ arena.declaredNames
  · have found :
        arena.declaredNames.findIdx? (· == name) =
          some (arena.declaredNames.idxOf name) :=
      List.findIdx?_eq_some_iff_findIdx_eq.mpr
        ⟨List.idxOf_lt_length_of_mem declared, rfl⟩
    rw [if_pos declared, found]
    rfl
  · have missing : arena.declaredNames.findIdx? (· == name) = none :=
      List.findIdx?_eq_none_iff.mpr fun other member => by
        simpa using fun same : other = name => declared (same ▸ member)
    rw [if_neg declared, missing]
    rfl

theorem reference?_eq_some_iff
    {reference : Reference} :
    arena.reference? name = some reference ↔
      name ∈ arena.declaredNames ∧ reference = arena.referenceOf name := by
  rw [reference?_eq]
  by_cases declared : name ∈ arena.declaredNames <;> simp [declared, eq_comm]

/-- A name that is declared already keeps its reference. -/
theorem declare_of_mem
    (declared : name ∈ arena.declaredNames) :
    arena.declare name = (arena.referenceOf name, arena) := by
  simp [declare, reference?_eq, declared]

/-- A new name is put behind all others. -/
theorem declare_of_not_mem
    (fresh : name ∉ arena.declaredNames) :
    arena.declare name =
      ({ arena := arena.tag, id := arena.size, name },
        { arena with declarations := arena.declarations ++ [{ name }] }) := by
  simp [declare, reference?_eq, fresh]

theorem declaredNames_declare :
    (arena.declare name).2.declaredNames =
      if name ∈ arena.declaredNames then
        arena.declaredNames
      else
        arena.declaredNames ++ [name] := by
  by_cases declared : name ∈ arena.declaredNames
  · rw [declare_of_mem declared, if_pos declared]
  · rw [declare_of_not_mem declared, if_neg declared]
    simp [declaredNames]

@[simp] theorem mem_declaredNames_declare :
    name ∈ (arena.declare name).2.declaredNames := by
  rw [declaredNames_declare]
  split
  · assumption
  · exact List.mem_append_right _ (List.mem_singleton_self name)

@[simp] theorem tag_declare : (arena.declare name).2.tag = arena.tag := by
  unfold declare
  split <;> rfl

/-- A declaration answers the reference that the name has from then on. -/
theorem reference_declare :
    (arena.declare name).1 = (arena.declare name).2.referenceOf name := by
  by_cases declared : name ∈ arena.declaredNames
  · rw [declare_of_mem declared]
  · rw [referenceOf, declaredNames_declare, if_neg declared, tag_declare,
      declare_of_not_mem declared, List.idxOf_append, if_neg declared]
    simp

@[simp] theorem lookup_declare
    (id : Nat) :
    (arena.declare name).2.lookup id = arena.lookup id := by
  by_cases declared : name ∈ arena.declaredNames
  · rw [declare_of_mem declared]
  · rw [declare_of_not_mem declared]
    unfold lookup
    rcases Nat.lt_trichotomy id arena.declarations.length with
      inside | last | outside
    · rw [List.getElem?_append_left inside]
    · simp [last]
    · rw [List.getElem?_eq_none (by simpa using Nat.succ_le_of_lt outside),
        List.getElem?_eq_none (Nat.le_of_lt outside)]

@[simp] theorem definitionAt_declare
    (position : Int) :
    (arena.declare name).2.definitionAt position =
      arena.definitionAt position := by
  simp [definitionAt]

end Declaring

section Defining

@[simp] theorem declaredNames_setDefinition
    (id : Nat) :
    (arena.setDefinition id type).declaredNames = arena.declaredNames := by
  apply List.ext_getElem?
  intro index
  simp only [declaredNames, setDefinition, List.getElem?_map,
    List.getElem?_modify]
  by_cases here : id = index
  · subst here
    cases arena.declarations[id]? <;> simp
  · simp [here]

@[simp] theorem tag_setDefinition
    (id : Nat) :
    (arena.setDefinition id type).tag = arena.tag :=
  rfl

/-- A definition is read at its position and leaves all others as they are. -/
theorem definitionAt_setDefinition
    {id : Nat}
    (inside : id < arena.size)
    (position : Int) :
    (arena.setDefinition id type).definitionAt position =
      if id = position then type else arena.definitionAt position := by
  unfold definitionAt
  by_cases negative : position < 0
  · rw [if_pos negative, if_pos negative, if_neg (by omega)]
  · obtain ⟨other, rfl⟩ := Int.eq_ofNat_of_zero_le (Int.not_lt.mp negative)
    rw [if_neg negative, if_neg negative, Int.toNat_natCast]
    simp only [lookup, setDefinition, List.getElem?_modify, Int.ofNat_inj]
    by_cases here : id = other
    · subst here
      rw [List.getElem?_eq_getElem inside]
      simp
    · simp [here]

/-- The reference of another arena is refused. -/
theorem define_foreign
    {reference : Reference}
    (foreign : reference.arena ≠ arena.tag) :
    arena.define reference type =
      .error (.foreignReference reference.name) := by
  rw [define, if_pos (.inl foreign)]

/-- A declared name can be defined as anything but itself. -/
theorem define_referenceOf
    (declared : name ∈ arena.declaredNames) :
    arena.define (arena.referenceOf name) type =
      if type = .named (arena.referenceOf name) then
        .error (.definedAsItself name)
      else
        .ok (arena.setDefinition (arena.declaredNames.idxOf name) type) := by
  have inside : (arena.referenceOf name).id < arena.size := by
    rw [← length_declaredNames]
    exact List.idxOf_lt_length_of_mem declared
  have own :
      ¬ ((arena.referenceOf name).arena ≠ arena.tag ∨
        arena.size ≤ (arena.referenceOf name).id) :=
    not_or.mpr ⟨not_not.mpr rfl, Nat.not_le.mpr inside⟩
  rw [define, if_neg own]
  rfl

/--
A definition succeeds for a reference of the arena unless the type is that
reference again.
-/
theorem define_eq_ok_iff
    {reference : Reference}
    {later : Arena} :
    arena.define reference type = .ok later ↔
      reference.arena = arena.tag ∧ reference.id < arena.size ∧
        type ≠ .named reference ∧
          later = arena.setDefinition reference.id type := by
  unfold define
  by_cases foreign : reference.arena ≠ arena.tag ∨ arena.size ≤ reference.id
  · rw [if_pos foreign]
    simp only [reduceCtorEq, false_iff]
    rintro ⟨own, inside, _⟩
    exact foreign.elim (· own) (Nat.not_le.mpr inside)
  · obtain ⟨own, inside⟩ := not_or.mp foreign
    rw [if_neg foreign]
    by_cases itself : type = .named reference
    · simp [itself]
    · simp [itself, not_not.mp own, Nat.not_le.mp inside, eq_comm]

end Defining

section Listing

/-- The declaration of a name is at the first position of the name. -/
theorem lookup_idxOf
    (distinct : arena.declaredNames.Nodup)
    {declaration : Declaration}
    (member : declaration ∈ arena.declarations) :
    arena.lookup (arena.declaredNames.idxOf declaration.name) =
      declaration.definition := by
  obtain ⟨id, inside, rfl⟩ := List.getElem_of_mem member
  have insideNames : id < arena.declaredNames.length := by
    simpa [declaredNames] using inside
  have named : arena.declaredNames[id] = arena.declarations[id].name :=
    List.getElem_map ..
  rw [← named, distinct.idxOf_getElem id insideNames, lookup,
    List.getElem?_eq_getElem inside]

/-- The names without a definition are those whose position has none. -/
theorem undefinedNames_eq
    (distinct : arena.declaredNames.Nodup) :
    arena.undefinedNames =
      arena.declaredNames.filter fun name =>
        (arena.lookup (arena.declaredNames.idxOf name)).isAbsent := by
  rw [undefinedNames, declaredNames, List.filter_map]
  refine congrArg (List.map Declaration.name)
    (List.filter_congr fun declaration member => ?_)
  exact congrArg Ty.isAbsent (lookup_idxOf distinct member).symm

end Listing

end Arena

/-- A call that may change an arena. -/
inductive ArenaCall where
  | declare (name : String)
  | define (reference : Reference) (type : Ty)
  | declareAs (name : String) (type : Ty)
  deriving Repr, DecidableEq

/-- The answer to a call. -/
inductive ArenaAnswer where
  | declared (reference : Reference)
  | defined
  | refused (error : ArenaError)
  deriving Repr, DecidableEq

/-- A call together with its answer. -/
structure ArenaEvent where
  call : ArenaCall
  answer : ArenaAnswer
  deriving Repr, DecidableEq

/-- The name that a call declares. -/
def ArenaCall.name? :
    ArenaCall →
    Option String
  | declare name => some name
  | define _ _ => none
  | declareAs name _ => some name

/-- Make a call: its answer, and the arena afterwards. -/
def Arena.perform
    (arena : Arena) :
    ArenaCall →
    ArenaAnswer × Arena
  | .declare name =>
      let (reference, later) := arena.declare name
      (.declared reference, later)
  | .define reference type =>
      match arena.define reference type with
      | .ok later => (.defined, later)
      | .error error => (.refused error, arena)
  | .declareAs name type =>
      let (reference, later) := arena.declareAs name type
      (.declared reference, later)

namespace ArenaEvent

/-- A name was declared, and the answer was the given reference. -/
def Declares
    (event : ArenaEvent)
    (name : String)
    (reference : Reference) :
    Prop :=
  event.call.name? = some name ∧ event.answer = .declared reference

/-- The type that was put at a position, if the call defined it. -/
def typeAt?
    (position : Int) :
    ArenaEvent →
    Option Ty
  | ⟨.define reference type, .defined⟩ =>
      if reference.id = position then some type else none
  | ⟨.declareAs _ type, .declared reference⟩ =>
      if reference.id = position then some type else none
  | _ => none

end ArenaEvent

/-- An arena with the calls that it got and its answers, in order. -/
structure ArenaHistory where
  arena : Arena
  events : List ArenaEvent := []

namespace ArenaHistory

/-- The history with one more call. -/
def perform
    (history : ArenaHistory)
    (call : ArenaCall) :
    ArenaHistory :=
  let (answer, arena) := history.arena.perform call
  { arena, events := history.events ++ [{ call, answer }] }

/-- The names of all declarations, in the order of the first one of each. -/
def declaredNames
    (history : ArenaHistory) :
    List String :=
  (history.events.filterMap fun event => event.call.name?).eraseDups

/-- The type that was put at a position last, `absent` if there is none. -/
def lastType
    (history : ArenaHistory)
    (position : Int) :
    Ty :=
  (history.events.filterMap (ArenaEvent.typeAt? position)).getLastD .absent

end ArenaHistory

namespace Arena

section Calls

variable {arena : Arena} {call : ArenaCall} {name : String}

/-- A definition is refused and changes nothing, or puts the type in place. -/
theorem perform_define_cases
    (arena : Arena)
    (reference : Reference)
    (type : Ty) :
    (∃ error,
        arena.perform (.define reference type) = (.refused error, arena)) ∨
      reference.id < arena.size ∧
        arena.perform (.define reference type) =
          (.defined, arena.setDefinition reference.id type) := by
  cases result : arena.define reference type with
  | ok later =>
      obtain ⟨_, inside, _, rfl⟩ := define_eq_ok_iff.mp result
      exact .inr ⟨inside, by simp [perform, result]⟩
  | error error =>
      exact .inl ⟨error, by simp [perform, result]⟩

@[simp] theorem tag_perform : (arena.perform call).2.tag = arena.tag := by
  cases call with
  | declare name =>
      exact tag_declare
  | define reference type =>
      obtain ⟨_, refused⟩ | ⟨_, defined⟩ :=
        perform_define_cases arena reference type
      · rw [refused]
      · rw [defined, tag_setDefinition]
  | declareAs name type =>
      exact tag_declare

/-- A call adds the name that it declares, if that is new. -/
theorem declaredNames_perform :
    (arena.perform call).2.declaredNames =
      match call.name? with
      | none => arena.declaredNames
      | some name =>
          if name ∈ arena.declaredNames then
            arena.declaredNames
          else
            arena.declaredNames ++ [name] := by
  cases call with
  | declare name =>
      exact declaredNames_declare
  | define reference type =>
      obtain ⟨_, refused⟩ | ⟨_, defined⟩ :=
        perform_define_cases arena reference type
      · rw [refused]
        rfl
      · rw [defined]
        exact declaredNames_setDefinition reference.id
  | declareAs name type =>
      exact (declaredNames_setDefinition _).trans declaredNames_declare

theorem mem_declaredNames_perform
    (declares : call.name? = some name) :
    name ∈ (arena.perform call).2.declaredNames := by
  rw [declaredNames_perform, declares]
  dsimp only
  split
  · assumption
  · exact List.mem_append_right _ (List.mem_singleton_self name)

/-- A call that declares a name answers the reference it has from then on. -/
theorem answer_perform
    (declares : call.name? = some name) :
    (arena.perform call).1 =
      .declared ((arena.perform call).2.referenceOf name) := by
  cases call with
  | declare other =>
      cases declares
      exact congrArg ArenaAnswer.declared reference_declare
  | define reference type =>
      cases declares
  | declareAs other type =>
      cases declares
      -- The type is put in place after the declaration and moves no name.
      refine congrArg ArenaAnswer.declared (reference_declare.trans ?_)
      simp [perform, declareAs, referenceOf]

/-- A call puts the type that its event tells, and no other one. -/
theorem definitionAt_perform
    (position : Int) :
    (arena.perform call).2.definitionAt position =
      (ArenaEvent.typeAt? position ⟨call, (arena.perform call).1⟩).getD
        (arena.definitionAt position) := by
  cases call with
  | declare name =>
      exact definitionAt_declare position
  | define reference type =>
      obtain ⟨_, refused⟩ | ⟨inside, defined⟩ :=
        perform_define_cases arena reference type
      · rw [refused]
        rfl
      · rw [defined]
        simp only [definitionAt_setDefinition inside, ArenaEvent.typeAt?]
        split <;> rfl
  | declareAs name type =>
      -- Once the name is declared, its position lies inside the arena.
      have inside :
          (arena.declare name).1.id < (arena.declare name).2.size := by
        rw [reference_declare, ← length_declaredNames]
        exact List.idxOf_lt_length_of_mem mem_declaredNames_declare
      simp only [perform, declareAs, definitionAt_setDefinition inside,
        definitionAt_declare, ArenaEvent.typeAt?]
      split <;> rfl

/-- No call takes a name away or moves it. -/
theorem reference?_perform
    {reference : Reference}
    (found : arena.reference? name = some reference) :
    (arena.perform call).2.reference? name = some reference := by
  obtain ⟨declared, rfl⟩ := reference?_eq_some_iff.mp found
  obtain ⟨added, names⟩ :
      ∃ added,
        (arena.perform call).2.declaredNames =
          arena.declaredNames ++ added := by
    rw [declaredNames_perform]
    split
    · exact ⟨[], (List.append_nil _).symm⟩
    · split
      · exact ⟨[], (List.append_nil _).symm⟩
      · exact ⟨_, rfl⟩
  refine reference?_eq_some_iff.mpr
    ⟨names ▸ List.mem_append_left added declared, ?_⟩
  rw [referenceOf, referenceOf, names, tag_perform, List.idxOf_append,
    if_pos declared]

end Calls

end Arena

namespace ArenaHistory

variable {history : ArenaHistory} {call : ArenaCall}

section Events

/-- The event of the last call. -/
theorem events_perform :
    (history.perform call).events =
      history.events ++ [⟨call, (history.arena.perform call).1⟩] :=
  rfl

/-- A name is put behind the others where it is listed for the first time. -/
theorem eraseDups_concat
    (names : List String)
    (name : String) :
    (names ++ [name]).eraseDups =
      if name ∈ names.eraseDups then
        names.eraseDups
      else
        names.eraseDups ++ [name] := by
  rw [List.eraseDups_append, List.removeAll]
  by_cases known : name ∈ names <;> simp [known, List.eraseDups_cons]

theorem declaredNames_perform :
    (history.perform call).declaredNames =
      match call.name? with
      | none => history.declaredNames
      | some name =>
          if name ∈ history.declaredNames then
            history.declaredNames
          else
            history.declaredNames ++ [name] := by
  unfold declaredNames
  rw [events_perform, List.filterMap_append]
  cases declares : call.name? with
  | none =>
      simp [declares]
  | some name =>
      simp only [List.filterMap_cons, List.filterMap_nil, declares]
      exact eraseDups_concat _ name

theorem lastType_perform
    (position : Int) :
    (history.perform call).lastType position =
      (ArenaEvent.typeAt? position ⟨call, (history.arena.perform call).1⟩).getD
        (history.lastType position) := by
  unfold lastType
  rw [events_perform, List.filterMap_append]
  cases put :
      ArenaEvent.typeAt? position ⟨call, (history.arena.perform call).1⟩ with
  | none =>
      simp [put]
  | some type =>
      simp [put]

end Events

/--
The arena of a history holds what the events tell: the names, the types, and for
each declaration the reference that was answered.
-/
structure Recorded
    (history : ArenaHistory) :
    Prop where
  distinct : history.arena.declaredNames.Nodup
  names : history.arena.declaredNames = history.declaredNames
  definitions :
    ∀ position,
      history.arena.definitionAt position = history.lastType position
  answers :
    ∀ event ∈ history.events, ∀ name,
      event.call.name? = some name →
      ∃ reference,
        event.answer = .declared reference ∧
          history.arena.reference? name = some reference

/-- A new arena holds nothing. -/
theorem recorded_new
    (tag : Nat) :
    Recorded { arena := { tag } } where
  distinct := List.nodup_nil
  names := rfl
  definitions position := by
    simp [Arena.definitionAt, Arena.lookup, lastType]
  answers event member := by
    cases member

namespace Recorded

/-- A call keeps the arena and the events in step. -/
theorem perform
    (recorded : Recorded history) :
    Recorded (history.perform call) where
  distinct := by
    change (history.arena.perform call).2.declaredNames.Nodup
    rw [Arena.declaredNames_perform]
    split
    · exact recorded.distinct
    · split
      · exact recorded.distinct
      · next fresh =>
        exact List.concat_eq_append ▸ recorded.distinct.concat fresh
  names := by
    rw [declaredNames_perform, ← recorded.names]
    exact Arena.declaredNames_perform
  definitions position := by
    rw [lastType_perform, ← recorded.definitions]
    exact Arena.definitionAt_perform position
  answers event member name declares := by
    rcases List.mem_append.mp member with before | last
    · obtain ⟨reference, answer, found⟩ :=
        recorded.answers event before name declares
      exact ⟨reference, answer, Arena.reference?_perform found⟩
    · cases List.mem_singleton.mp last
      exact ⟨_, Arena.answer_perform declares,
        Arena.reference?_eq_some_iff.mpr
          ⟨Arena.mem_declaredNames_perform declares, rfl⟩⟩

/-- A name finds the reference that the arena answered to its declaration. -/
theorem reference?_iff
    (recorded : Recorded history)
    {name : String}
    {reference : Reference} :
    history.arena.reference? name = some reference ↔
      ∃ event ∈ history.events, event.Declares name reference := by
  constructor
  · intro found
    have declared : name ∈ history.declaredNames :=
      recorded.names ▸ (Arena.reference?_eq_some_iff.mp found).1
    obtain ⟨event, member, declares⟩ :=
      List.mem_filterMap.mp (List.mem_eraseDups.mp declared)
    obtain ⟨answered, answer, same⟩ :=
      recorded.answers event member name declares
    cases found.symm.trans same
    exact ⟨event, member, declares, answer⟩
  · rintro ⟨event, member, declares, answer⟩
    obtain ⟨answered, same, found⟩ :=
      recorded.answers event member name declares
    cases answer.symm.trans same
    exact found

/-- The reference that was answered is the one that the name still has. -/
theorem eq_referenceOf
    (recorded : Recorded history)
    {event : ArenaEvent}
    {name : String}
    {reference : Reference}
    (member : event ∈ history.events)
    (declares : event.Declares name reference) :
    name ∈ history.arena.declaredNames ∧
      reference = history.arena.referenceOf name :=
  Arena.reference?_eq_some_iff.mp
    (recorded.reference?_iff.mpr ⟨event, member, declares⟩)

end Recorded

end ArenaHistory

/-- Which of two arenas. -/
inductive Side where
  | left
  | right
  deriving Repr, DecidableEq

/-- Two arenas that are filled side by side, each with its events. -/
abbrev ArenaPair :=
  Side → ArenaHistory

namespace ArenaPair

/-- The calls of a sequence that go to one of the arenas. -/
def callsTo
    (side : Side)
    (calls : List (Side × ArenaCall)) :
    List ArenaCall :=
  (calls.filter fun call => call.1 = side).map Prod.snd

/-- Two new arenas, told apart by their tags. -/
def empty
    (tags : Side → Nat) :
    ArenaPair :=
  fun side => { arena := { tag := tags side } }

/-- The pair after a call to one of the arenas. -/
def perform
    (pair : ArenaPair)
    (side : Side)
    (call : ArenaCall) :
    ArenaPair :=
  Function.update pair side ((pair side).perform call)

/-- The pair after a sequence of calls, each to one of the arenas. -/
def run
    (pair : ArenaPair)
    (calls : List (Side × ArenaCall)) :
    ArenaPair :=
  calls.foldl (fun pair (side, call) => pair.perform side call) pair

variable {pair : ArenaPair} {side other : Side} {call : ArenaCall}

section Calls

@[simp] theorem perform_same :
    pair.perform side call side = (pair side).perform call :=
  Function.update_self ..

theorem perform_other
    (differ : other ≠ side) :
    pair.perform side call other = pair other :=
  Function.update_of_ne differ ..

/-- A call that keeps its arena changes neither of the two. -/
theorem arena_perform_eq
    (same : ((pair side).arena.perform call).2 = (pair side).arena)
    (other : Side) :
    (pair.perform side call other).arena = (pair other).arena := by
  by_cases here : other = side
  · subst here
    rw [perform_same]
    exact same
  · rw [perform_other here]

@[simp] theorem tag_perform :
    (pair.perform side call other).arena.tag = (pair other).arena.tag := by
  by_cases here : other = side
  · subst here
    rw [perform_same]
    exact Arena.tag_perform
  · rw [perform_other here]

/-- The calls to an arena are put behind its events, in order. -/
theorem exists_events_run
    (pair : ArenaPair)
    (calls : List (Side × ArenaCall))
    (side : Side) :
    ∃ added,
      (pair.run calls side).events = (pair side).events ++ added ∧
        added.map ArenaEvent.call = callsTo side calls := by
  -- The other calls start from the pair after the first one.
  induction calls generalizing pair with
  | nil =>
      exact ⟨[], (List.append_nil _).symm, rfl⟩
  | cons first rest inductionHypothesis =>
      obtain ⟨target, call⟩ := first
      obtain ⟨added, events, same⟩ :=
        inductionHypothesis (pair.perform target call)
      change (pair.run ((target, call) :: rest) side).events = _ at events
      by_cases here : target = side
      · subst here
        rw [perform_same, ArenaHistory.events_perform, List.append_assoc]
          at events
        exact ⟨_, events, by simpa [callsTo] using same⟩
      · rw [perform_other (Ne.symm here)] at events
        exact ⟨added, events, by simpa [callsTo, here] using same⟩

end Calls

/-- Both arenas of a pair hold what their events tell, and are told apart. -/
structure Recorded
    (pair : ArenaPair) :
    Prop where
  apart : (pair .left).arena.tag ≠ (pair .right).arena.tag
  histories : ∀ side, (pair side).Recorded

theorem recorded_empty
    {tags : Side → Nat}
    (apart : tags .left ≠ tags .right) :
    Recorded (empty tags) where
  apart := apart
  histories side := ArenaHistory.recorded_new (tags side)

namespace Recorded

theorem tag_ne
    (recorded : Recorded pair)
    (differ : side ≠ other) :
    (pair side).arena.tag ≠ (pair other).arena.tag := by
  cases side <;> cases other
  · exact (differ rfl).elim
  · exact recorded.apart
  · exact recorded.apart.symm
  · exact (differ rfl).elim

/-- A call to one arena keeps both arenas and their events in step. -/
theorem perform
    (recorded : Recorded pair)
    (side : Side)
    (call : ArenaCall) :
    Recorded (pair.perform side call) where
  apart := by
    rw [tag_perform, tag_perform]
    exact recorded.apart
  histories other := by
    by_cases here : other = side
    · subst here
      rw [perform_same]
      exact (recorded.histories other).perform
    · rw [perform_other here]
      exact recorded.histories other

/-- No sequence of calls brings an arena and its events out of step. -/
theorem run
    (recorded : Recorded pair)
    (calls : List (Side × ArenaCall)) :
    Recorded (pair.run calls) := by
  induction calls generalizing pair with
  | nil =>
      exact recorded
  | cons call rest inductionHypothesis =>
      exact inductionHypothesis (recorded.perform call.1 call.2)

end Recorded

/-- What one of two arenas holds and answers, said by the events alone. -/
structure Consistent
    (pair : ArenaPair)
    (side : Side) :
    Prop where
  /-- Names are pairwise distinct. -/
  distinct : (pair side).arena.declaredNames.Nodup
  /-- They stand in the order of their first declarations. -/
  names : (pair side).arena.declaredNames = (pair side).declaredNames
  /-- The id of each reference that was answered is the position of its name. -/
  positions :
    ∀ event ∈ (pair side).events, ∀ name reference,
      event.Declares name reference →
        (pair side).declaredNames[reference.id]? = some name
  /-- A name finds the reference that was answered to its declarations. -/
  references :
    ∀ name reference,
      (pair side).arena.reference? name = some reference ↔
        ∃ event ∈ (pair side).events, event.Declares name reference
  /-- It keeps this reference whatever is called later. -/
  kept :
    ∀ calls name reference,
      (pair side).arena.reference? name = some reference →
        (pair.run calls side).arena.reference? name = some reference
  /-- At each id, in the arena or not, is the type that was put there last. -/
  definitions :
    ∀ id, (pair side).arena.definitionAt id = (pair side).lastType id
  /-- The undefined names are those whose last type is left out or missing. -/
  undefined :
    (pair side).arena.undefinedNames =
      (pair side).declaredNames.filter fun name =>
        ((pair side).lastType ((pair side).declaredNames.idxOf name)).isAbsent
  /-- Declaring a name again answers its reference and changes neither arena. -/
  redeclared :
    ∀ event ∈ (pair side).events, ∀ name reference,
      event.Declares name reference →
        ((pair side).arena.perform (.declare name)).1 = .declared reference ∧
          ∀ other,
            (pair.perform side (.declare name) other).arena = (pair other).arena
  /--
  A reference of either arena can be defined in its own arena only, and not as
  itself.
  -/
  outcomes :
    ∀ owner, ∀ event ∈ (pair owner).events, ∀ name reference,
      event.Declares name reference →
      ∀ type,
        ((pair side).arena.perform (.define reference type)).1 =
          if owner ≠ side then
            .refused (.foreignReference name)
          else if type = .named reference then
            .refused (.definedAsItself name)
          else
            .defined
  /-- A definition that is refused changes neither arena. -/
  refused :
    ∀ reference type error,
      ((pair side).arena.perform (.define reference type)).1 = .refused error →
      ∀ other,
        (pair.perform side (.define reference type) other).arena =
          (pair other).arena

/-- What the events tell of both arenas makes each of them consistent. -/
theorem Recorded.consistent
    (recorded : Recorded pair)
    (side : Side) :
    pair.Consistent side where
  distinct := (recorded.histories side).distinct
  names := (recorded.histories side).names
  positions event member name reference declares := by
    obtain ⟨declared, rfl⟩ :=
      (recorded.histories side).eq_referenceOf member declares
    rw [← (recorded.histories side).names]
    exact List.getElem?_idxOf declared
  references name reference := (recorded.histories side).reference?_iff
  kept calls name reference found := by
    obtain ⟨event, member, declares⟩ :=
      (recorded.histories side).reference?_iff.mp found
    obtain ⟨added, events, _⟩ := exists_events_run pair calls side
    refine ((recorded.run calls).histories side).reference?_iff.mpr
      ⟨event, ?_, declares⟩
    exact events ▸ List.mem_append_left added member
  definitions := (recorded.histories side).definitions
  undefined := by
    have history := recorded.histories side
    rw [Arena.undefinedNames_eq history.distinct, history.names]
    refine List.filter_congr fun name _ => ?_
    rw [← history.definitions, Arena.definitionAt_natCast]
  redeclared event member name reference declares := by
    obtain ⟨declared, rfl⟩ :=
      (recorded.histories side).eq_referenceOf member declares
    have again :
        (pair side).arena.perform (.declare name) =
          (.declared ((pair side).arena.referenceOf name),
            (pair side).arena) := by
      simp only [Arena.perform, Arena.declare_of_mem declared]
    exact ⟨congrArg Prod.fst again, arena_perform_eq (congrArg Prod.snd again)⟩
  outcomes owner event member name reference declares type := by
    obtain ⟨declared, rfl⟩ :=
      (recorded.histories owner).eq_referenceOf member declares
    by_cases foreign : owner ≠ side
    · rw [if_pos foreign, Arena.perform,
        Arena.define_foreign (recorded.tag_ne foreign)]
      rfl
    · cases not_not.mp foreign
      rw [if_neg foreign, Arena.perform, Arena.define_referenceOf declared]
      by_cases itself :
          type = .named ((pair side).arena.referenceOf name)
      · rw [if_pos itself, if_pos itself]
      · rw [if_neg itself, if_neg itself]
  refused reference type error answer := by
    obtain ⟨_, unchanged⟩ | ⟨_, defined⟩ :=
      Arena.perform_define_cases (pair side).arena reference type
    · exact arena_perform_eq (congrArg Prod.snd unchanged)
    · rw [defined] at answer
      cases answer

/--
Two new arenas stay consistent, whatever is declared and defined in them and in
which order, also where one gets references of the other. Their events are the
calls that went to them.
-/
theorem consistent_run
    {tags : Side → Nat}
    (apart : tags .left ≠ tags .right)
    (calls : List (Side × ArenaCall))
    (side : Side) :
    ((empty tags).run calls side).events.map ArenaEvent.call =
        callsTo side calls ∧
      ((empty tags).run calls).Consistent side := by
  obtain ⟨added, events, same⟩ := exists_events_run (empty tags) calls side
  have new : (empty tags side).events = [] := rfl
  rw [new, List.nil_append] at events
  exact ⟨events ▸ same, ((recorded_empty apart).run calls).consistent side⟩

/--
A list is declared, and twice it is not defined: by a reference of the other
arena, and as itself. It is then defined by its rest and declared once more.
-/
def listCalls : List (Side × ArenaCall) :=
  let list : Reference := { arena := 0, id := 0, name := "List" }
  let tree : Reference := { arena := 1, id := 0, name := "Tree" }
  [(.left, .declare "List"),
    (.right, .declareAs "Tree" .string),
    (.left, .define tree .number),
    (.left, .define list (.named list)),
    (.left, .define list (.array none (.named list) false)),
    (.left, .declare "Open"),
    (.left, .declare "List")]

/-- Two definitions are refused, and only the last name is left undefined. -/
theorem consistent_run_list :
    let tags : Side → Nat := fun
      | .left => 0
      | .right => 1
    let pair := (empty tags).run listCalls
    tags .left ≠ tags .right ∧
      pair.Consistent .left ∧ pair.Consistent .right ∧
        (pair .left).events.map ArenaEvent.answer =
          [.declared { arena := 0, id := 0, name := "List" },
            .refused (.foreignReference "Tree"),
            .refused (.definedAsItself "List"),
            .defined,
            .declared { arena := 0, id := 1, name := "Open" },
            .declared { arena := 0, id := 0, name := "List" }] ∧
          (pair .left).arena.undefinedNames = ["Open"] := by
  have apart : (0 : Nat) ≠ 1 := Nat.zero_ne_one
  exact ⟨apart, (consistent_run apart listCalls .left).2,
    (consistent_run apart listCalls .right).2, by decide, by decide⟩

end ArenaPair

end StructuralTyping
