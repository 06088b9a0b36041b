import StructuralTyping.Ty.Equality

namespace StructuralTyping

/-!
# Arenas of named types

An arena owns the definitions of named types. A name is declared first, which
gives it the next free position, and defined later, so that its definition may
mention it.
-/

/-- A declared name and its definition, `absent` while there is none. -/
structure Declaration where
  name : String
  definition : Ty := .absent
  deriving Repr, DecidableEq

/-- The declared names in order. Several arenas are told apart by `tag`. -/
structure Arena where
  tag : Nat := 0
  declarations : List Declaration := []
  deriving Repr, DecidableEq

/-- Why a reference could not be defined. -/
inductive ArenaError where
  | foreignReference (name : String)
  | definedAsItself (name : String)
  deriving Repr, DecidableEq

/-- The wording of an arena error. -/
def ArenaError.message :
    ArenaError →
    String
  | foreignReference name =>
      "type " ++ name ++ " does not belong to this arena"
  | definedAsItself name =>
      "type " ++ name ++ " cannot be defined as itself"

namespace Arena

/-- How many names are declared. -/
def size
    (arena : Arena) :
    Nat :=
  arena.declarations.length

/-- The reference declared under a name. -/
def reference?
    (arena : Arena)
    (name : String) :
    Option Reference :=
  (arena.declarations.findIdx? fun declaration => declaration.name == name).map
    fun id => { arena := arena.tag, id, name }

/--
Declare a name and return its reference. A name that is declared already keeps
its reference.
-/
def declare
    (arena : Arena)
    (name : String) :
    Reference × Arena :=
  match arena.reference? name with
  | some reference => (reference, arena)
  | none =>
      ( { arena := arena.tag, id := arena.size, name },
        { arena with
          declarations := arena.declarations ++ [{ name }] } )

/-- The definition at a position, `absent` if there is none. -/
def lookup
    (arena : Arena)
    (id : Nat) :
    Ty :=
  match arena.declarations[id]? with
  | some declaration => declaration.definition
  | none => .absent

/-- The definition at any position, `absent` also before the first one. -/
def definitionAt
    (arena : Arena)
    (position : Int) :
    Ty :=
  if position < 0 then
    .absent
  else
    arena.lookup position.toNat

/-- Replace the definition at a position. -/
def setDefinition
    (arena : Arena)
    (id : Nat)
    (type : Ty) :
    Arena :=
  { arena with
    declarations :=
      arena.declarations.modify id fun declaration =>
        { declaration with definition := type } }

/--
Define a declared reference. References of another arena are refused, and so
is a name as its own definition.
-/
def define
    (arena : Arena)
    (reference : Reference)
    (type : Ty) :
    Except ArenaError Arena :=
  if reference.arena ≠ arena.tag ∨ arena.size ≤ reference.id then
    .error (.foreignReference reference.name)
  else if type = .named reference then
    .error (.definedAsItself reference.name)
  else
    .ok (arena.setDefinition reference.id type)

/-- Declare and define a name in one step. -/
def declareAs
    (arena : Arena)
    (name : String)
    (type : Ty) :
    Reference × Arena :=
  let (reference, arena) := arena.declare name
  (reference, arena.setDefinition reference.id type)

/-- The declared names without a definition, in order. -/
def undefinedNames
    (arena : Arena) :
    List String :=
  (arena.declarations.filter fun declaration =>
    declaration.definition.isAbsent).map Declaration.name

/-- The definition a reference points to, `absent` if there is none. -/
def definition
    (arena : Arena)
    (reference : Reference) :
    Ty :=
  if reference.arena = arena.tag then
    arena.lookup reference.id
  else
    .absent

/-- How following a chain of references ended. -/
inductive Resolution where
  /-- A definition that is no reference was reached. -/
  | resolved (type : Ty)
  /-- The chain ended at an undefined name or ran past its limit. -/
  | unresolved (type : Ty)
  deriving Repr, DecidableEq

/-- Follow references through `hops` definitions. -/
def followReferences
    (arena : Arena) :
    (hops : Nat) →
    Ty →
    Resolution
  | 0, type => .unresolved type
  | hops + 1, .named reference =>
      match arena.definition reference with
      | .absent => .unresolved (.named reference)
      | next => followReferences arena hops next
  | _ + 1, type => .resolved type

/--
Follow references to a definition that is no reference, giving up once more
than `limit` of them have been followed.
-/
def resolve
    (arena : Arena)
    (type : Ty)
    (limit : Int) :
    Resolution :=
  arena.followReferences (limit + 1).toNat type

/-- How many references are followed where no other limit is given. -/
def defaultHops : Nat :=
  64

end Arena

end StructuralTyping
