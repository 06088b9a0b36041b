import StructuralTyping.Proofs.ArenaHistory

namespace StructuralTyping

/-!
# Arenas in three tables

An arena may keep its references, its definitions and the positions of its names
apart: two lists that are read at the same positions, and a map from names to
positions. Whatever is called, no list is read at a position that it does not
have, and calls and questions are answered as by the arena whose declarations are
the names and the definitions side by side.
-/

/-- The references and the definitions by position, and the position of each name. -/
structure ArenaTables where
  tag : Nat := 0
  references : List Reference := []
  definitions : List Ty := []
  positions : List (String × Nat) := []
  deriving Repr, DecidableEq

namespace ArenaTables

/-- How many names are declared. -/
def size
    (tables : ArenaTables) :
    Nat :=
  tables.references.length

/--
The reference declared under a name. There is no answer if the position of the name
is beyond the references.
-/
def reference?
    (tables : ArenaTables)
    (name : String) :
    Option (Option Reference) :=
  match tables.positions.lookup name with
  | some id => tables.references[id]?.map some
  | none => some none

/--
Declare a name. Its reference and its missing definition are put behind the others,
and its position is noted. A name that has a position keeps its reference.
-/
def declare
    (tables : ArenaTables)
    (name : String) :
    Option (Reference × ArenaTables) :=
  match tables.positions.lookup name with
  | some id => tables.references[id]?.map fun reference => (reference, tables)
  | none =>
      let reference : Reference :=
        { arena := tables.tag, id := tables.size, name }
      some
        ( reference,
          { tables with
            references := tables.references ++ [reference]
            definitions := tables.definitions ++ [.absent]
            positions := (name, reference.id) :: tables.positions } )

/-- Replace the definition at a position. -/
def setDefinition
    (tables : ArenaTables)
    (id : Nat)
    (type : Ty) :
    ArenaTables :=
  { tables with definitions := tables.definitions.set id type }

/-- Define a declared reference, under the conditions of an arena. -/
def define
    (tables : ArenaTables)
    (reference : Reference)
    (type : Ty) :
    Except ArenaError ArenaTables :=
  if reference.arena ≠ tables.tag ∨
      tables.definitions.length ≤ reference.id then
    .error (.foreignReference reference.name)
  else if type = .named reference then
    .error (.definedAsItself reference.name)
  else
    .ok (tables.setDefinition reference.id type)

/--
Declare and define a name in one step. There is no answer if the reference of the
name points beyond the definitions.
-/
def declareAs
    (tables : ArenaTables)
    (name : String)
    (type : Ty) :
    Option (Reference × ArenaTables) := do
  let (reference, tables) ← tables.declare name
  if reference.id < tables.definitions.length then
    return (reference, tables.setDefinition reference.id type)
  else
    none

/-- The definition at any position, `absent` if there is none. -/
def definitionAt
    (tables : ArenaTables)
    (position : Int) :
    Ty :=
  if position < 0 then
    .absent
  else
    tables.definitions[position.toNat]?.getD .absent

/--
The names without a definition, in order. There is no answer if there are more
definitions than references.
-/
def undefinedNames
    (tables : ArenaTables) :
    Option (List String) :=
  (tables.definitions.zipIdx.filter fun entry => entry.1.isAbsent).mapM
    fun entry => tables.references[entry.2]?.map Reference.name

/-- Make a call: its answer, and the tables afterwards. -/
def perform
    (tables : ArenaTables) :
    ArenaCall →
    Option (ArenaAnswer × ArenaTables)
  | .declare name =>
      (tables.declare name).map fun result => (.declared result.1, result.2)
  | .define reference type =>
      match tables.define reference type with
      | .ok later => some (.defined, later)
      | .error error => some (.refused error, tables)
  | .declareAs name type =>
      (tables.declareAs name type).map fun result =>
        (.declared result.1, result.2)

/-- Make calls one after the other: their answers, and the tables afterwards. -/
def run :
    ArenaTables →
    List ArenaCall →
    Option (List ArenaAnswer × ArenaTables)
  | tables, [] => some ([], tables)
  | tables, call :: rest => do
      let (answer, tables) ← tables.perform call
      let (answers, tables) ← tables.run rest
      return (answer :: answers, tables)

/-- A list is visited to its end if every visit to an item answers. -/
theorem mapM_eq_some
    {visit : α → Option β}
    {value : α → β}
    {items : List α}
    (answers : ∀ item ∈ items, visit item = some (value item)) :
    items.mapM visit = some (items.map value) := by
  induction items with
  | nil => rfl
  | cons item rest inductionHypothesis =>
      rw [List.mapM_cons, answers item (by simp),
        inductionHypothesis fun other member => answers other (by simp [member])]
      rfl

/--
The tables hold an arena: the references and the definitions are those of its
declarations, position by position, and the map has the first position of each of
its names.
-/
structure Holds
    (tables : ArenaTables)
    (arena : Arena) :
    Prop where
  tag : tables.tag = arena.tag
  references :
    tables.references =
      arena.declaredNames.mapIdx fun id name => { arena := arena.tag, id, name }
  definitions :
    tables.definitions = arena.declarations.map Declaration.definition
  positions :
    ∀ name,
      tables.positions.lookup name =
        if name ∈ arena.declaredNames then
          some (arena.declaredNames.idxOf name)
        else
          none

/-- Empty tables hold a new arena. -/
theorem holds_new
    (tag : Nat) :
    Holds { tag } { tag } where
  tag := rfl
  references := rfl
  definitions := rfl
  positions _ := rfl

namespace Holds

variable
  {tables : ArenaTables}
  {arena : Arena}
  {name : String}
  (holds : tables.Holds arena)

include holds

/-- There is a definition, present or not, for every declared name. -/
theorem length_definitions :
    tables.definitions.length = arena.size := by
  rw [holds.definitions, List.length_map, Arena.size]

/-- As many names are declared as in the arena. -/
theorem size_eq :
    tables.size = arena.size := by
  rw [size, holds.references, List.length_mapIdx, Arena.length_declaredNames]

/-- The reference of a name is found at the position of the name. -/
theorem reference_idxOf
    (declared : name ∈ arena.declaredNames) :
    tables.references[arena.declaredNames.idxOf name]? =
      some (arena.referenceOf name) := by
  rw [holds.references, List.getElem?_mapIdx, List.getElem?_idxOf declared]
  rfl

/-- The name of the reference at a position is the one that the arena has there. -/
theorem name_at
    (id : Nat) :
    tables.references[id]?.map Reference.name =
      arena.declarations[id]?.map Declaration.name := by
  rw [holds.references, List.getElem?_mapIdx, Arena.declaredNames,
    List.getElem?_map]
  cases arena.declarations[id]? <;> rfl

/-- Behind the others comes the reference of a new name, without a definition. -/
theorem append
    (fresh : name ∉ arena.declaredNames) :
    let reference : Reference := { arena := arena.tag, id := arena.size, name }
    Holds
      { tag := arena.tag
        references := tables.references ++ [reference]
        definitions := tables.definitions ++ [.absent]
        positions := (name, reference.id) :: tables.positions }
      { arena with declarations := arena.declarations ++ [{ name }] } where
  tag := rfl
  references := by
    rw [holds.references]
    simp [Arena.declaredNames, Arena.size]
  definitions := by
    rw [holds.definitions]
    simp
  positions other := by
    have behind :
        ({ arena with
            declarations := arena.declarations ++ [{ name }] } : Arena).declaredNames =
          arena.declaredNames ++ [name] := by
      simp [Arena.declaredNames]
    rw [List.lookup_cons, holds.positions, behind, List.idxOf_append]
    by_cases here : other = name
    · subst here
      rw [if_pos (List.mem_append_right _ (List.mem_singleton_self other)),
        if_neg fresh]
      simp [fresh]
    · rw [beq_false_of_ne here]
      by_cases declared : other ∈ arena.declaredNames <;>
        simp [declared, here]

/-- A name has the reference that it has in the arena. -/
theorem reference?_eq
    (name : String) :
    tables.reference? name = some (arena.reference? name) := by
  rw [Arena.reference?_eq, reference?, holds.positions]
  by_cases declared : name ∈ arena.declaredNames
  · rw [if_pos declared, if_pos declared]
    dsimp only
    rw [holds.reference_idxOf declared]
    rfl
  · rw [if_neg declared, if_neg declared]

/-- At each position is the definition that the arena has there. -/
theorem definitionAt_eq
    (position : Int) :
    tables.definitionAt position = arena.definitionAt position := by
  unfold definitionAt Arena.definitionAt Arena.lookup
  rw [holds.definitions, List.getElem?_map]
  cases arena.declarations[position.toNat]? <;> rfl

/-- The undefined names are those of the arena. -/
theorem undefinedNames_eq :
    tables.undefinedNames = some arena.undefinedNames := by
  have named :
      ∀ entry ∈ arena.declarations.zipIdx.filter
          (fun entry => entry.1.definition.isAbsent),
        tables.references[entry.2]?.map Reference.name = some entry.1.name := by
    intro entry member
    have placed : arena.declarations[entry.2]? = some entry.1 :=
      List.mem_zipIdx_iff_getElem?.mp (List.mem_of_mem_filter member)
    rw [holds.name_at, placed, Option.map_some]
  have unplaced :
      ((arena.declarations.zipIdx.filter
          fun entry => entry.1.definition.isAbsent).map Prod.fst) =
        arena.declarations.filter fun declaration =>
          declaration.definition.isAbsent := by
    conv_rhs => rw [← List.zipIdx_map_fst 0 arena.declarations]
    rw [List.filter_map]
    rfl
  rw [undefinedNames, holds.definitions, List.zipIdx_map, List.filter_map,
    List.mapM_map]
  refine (mapM_eq_some named).trans (congrArg some ?_)
  rw [Arena.undefinedNames, ← unplaced, List.map_map]
  rfl

/-- Declaring a name answers as in the arena, and the tables hold that again. -/
theorem declare
    (name : String) :
    ∃ later,
      tables.declare name = some ((arena.declare name).1, later) ∧
        later.Holds (arena.declare name).2 := by
  by_cases declared : name ∈ arena.declaredNames
  · rw [Arena.declare_of_mem declared]
    refine ⟨tables, ?_, holds⟩
    rw [ArenaTables.declare, holds.positions, if_pos declared]
    dsimp only
    rw [holds.reference_idxOf declared]
    rfl
  · rw [Arena.declare_of_not_mem declared, ArenaTables.declare,
      holds.positions, if_neg declared, holds.tag, holds.size_eq]
    exact ⟨_, rfl, holds.append declared⟩

/-- A definition is put at the same position. -/
theorem setDefinition
    (id : Nat)
    (type : Ty) :
    (tables.setDefinition id type).Holds (arena.setDefinition id type) where
  tag := holds.tag
  references := by
    rw [Arena.declaredNames_setDefinition]
    exact holds.references
  definitions := by
    apply List.ext_getElem?
    intro position
    simp only [ArenaTables.setDefinition, Arena.setDefinition, holds.definitions,
      List.set_eq_modify, List.getElem?_map, List.getElem?_modify]
    cases arena.declarations[position]? with
    | none => rfl
    | some declaration => by_cases here : id = position <;> simp [here]
  positions name := by
    rw [Arena.declaredNames_setDefinition]
    exact holds.positions name

/-- A definition answers as in the arena, and the tables hold what comes of it. -/
theorem define
    (reference : Reference)
    (type : Ty) :
    (∃ error,
        arena.define reference type = .error error ∧
          tables.define reference type = .error error) ∨
      ∃ later next,
        arena.define reference type = .ok next ∧
          tables.define reference type = .ok later ∧
            later.Holds next := by
  unfold ArenaTables.define Arena.define
  rw [holds.tag, holds.length_definitions]
  split
  · exact .inl ⟨_, rfl, rfl⟩
  · split
    · exact .inl ⟨_, rfl, rfl⟩
    · exact .inr ⟨_, _, rfl, rfl, holds.setDefinition reference.id type⟩

/-- A name is declared and defined as in the arena. -/
theorem declareAs
    (name : String)
    (type : Ty) :
    ∃ later,
      tables.declareAs name type = some ((arena.declareAs name type).1, later) ∧
        later.Holds (arena.declareAs name type).2 := by
  obtain ⟨later, declared, held⟩ := holds.declare name
  have inside : (arena.declare name).1.id < later.definitions.length := by
    rw [held.length_definitions, ← Arena.length_declaredNames,
      Arena.reference_declare]
    exact List.idxOf_lt_length_of_mem Arena.mem_declaredNames_declare
  refine ⟨_, ?_, held.setDefinition (arena.declare name).1.id type⟩
  rw [ArenaTables.declareAs, declared]
  exact if_pos inside

/-- A call is answered as by the arena, and the tables hold that afterwards. -/
theorem perform
    (call : ArenaCall) :
    ∃ later,
      tables.perform call = some ((arena.perform call).1, later) ∧
        later.Holds (arena.perform call).2 := by
  cases call with
  | declare name =>
      obtain ⟨later, declared, held⟩ := holds.declare name
      exact ⟨later, by rw [ArenaTables.perform, declared]; rfl, held⟩
  | define reference type =>
      obtain ⟨error, refused, same⟩ | ⟨later, next, defined, same, held⟩ :=
        holds.define reference type
      · refine ⟨tables, ?_, ?_⟩ <;>
          simp only [ArenaTables.perform, Arena.perform, refused, same]
        exact holds
      · refine ⟨later, ?_, ?_⟩ <;>
          simp only [ArenaTables.perform, Arena.perform, defined, same]
        exact held
  | declareAs name type =>
      obtain ⟨later, declared, held⟩ := holds.declareAs name type
      exact ⟨later, by rw [ArenaTables.perform, declared]; rfl, held⟩

end Holds

/--
Tables that hold an arena always answer: each call as the arena does, and they
hold the arena after the last one.
-/
theorem run_of_holds
    {tables : ArenaTables}
    (history : ArenaHistory)
    (holds : tables.Holds history.arena)
    (calls : List ArenaCall) :
    ∃ answers later,
      tables.run calls = some (answers, later) ∧
        later.Holds (calls.foldl ArenaHistory.perform history).arena ∧
          (calls.foldl ArenaHistory.perform history).events.map
              ArenaEvent.answer =
            history.events.map ArenaEvent.answer ++ answers := by
  -- The other calls start from the tables and the history after the first one.
  induction calls generalizing tables history with
  | nil => exact ⟨[], tables, rfl, holds, (List.append_nil _).symm⟩
  | cons call rest inductionHypothesis =>
      obtain ⟨next, first, held⟩ := holds.perform call
      obtain ⟨answers, later, others, heldLater, told⟩ :=
        inductionHypothesis (history.perform call) held
      refine ⟨(history.arena.perform call).1 :: answers, later, ?_, heldLater, ?_⟩
      · rw [run, first]
        change (next.run rest >>= _) = _
        rw [others]
        rfl
      · rw [List.foldl_cons, told, ArenaHistory.events_perform, List.map_append,
          List.append_assoc]
        rfl

/--
From empty tables, every sequence of calls is answered as by a new arena, and what
is asked afterwards as well: how many names there are, what a name refers to, what
is defined at a position, and which names are not defined.
-/
theorem run_new
    (tag : Nat)
    (calls : List ArenaCall) :
    ∃ answers tables,
      ({ tag } : ArenaTables).run calls = some (answers, tables) ∧
        let history := calls.foldl ArenaHistory.perform { arena := { tag } }
        history.events.map ArenaEvent.answer = answers ∧
          tables.size = history.arena.size ∧
          (∀ name,
            tables.reference? name = some (history.arena.reference? name)) ∧
          (∀ position,
            tables.definitionAt position = history.arena.definitionAt position) ∧
          tables.undefinedNames = some history.arena.undefinedNames := by
  obtain ⟨answers, tables, answered, holds, told⟩ :=
    run_of_holds { arena := { tag } } (holds_new tag) calls
  exact
    ⟨answers, tables, answered, told, holds.size_eq, holds.reference?_eq,
      holds.definitionAt_eq, holds.undefinedNames_eq⟩

end ArenaTables

end StructuralTyping
