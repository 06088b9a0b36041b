import StructuralTyping.Narrowing.Facts
import StructuralTyping.Widening

namespace StructuralTyping

/-!
# Bindings and scopes

A binding has a declared type and a stack of narrowed types, its frames; the
innermost frame is its current type. Bindings live in a table and are named by
their position there. A scope is a chain of blocks, innermost first, each of
which maps names to bindings.
-/

/-- A named value with its declared type and frames, innermost first. -/
structure Binding where
  name : String
  declared : Ty
  frames : List Ty := []
  deriving Repr, DecidableEq

namespace Binding

/-- A binding whose declared type is inferred from its initial value. -/
def inferred
    (arena : Arena)
    (name : String)
    (initial : Ty)
    (policy : WideningPolicy) :
    Binding :=
  { name, declared := policy.infer arena initial }

/-- The innermost narrowed type, or the declared type. -/
def current
    (binding : Binding) :
    Ty :=
  binding.frames.headD binding.declared

/-- How many frames are pushed. -/
def depth
    (binding : Binding) :
    Nat :=
  binding.frames.length

/-- Narrow the binding to a type. -/
def push
    (binding : Binding)
    (type : Ty) :
    Binding :=
  { binding with frames := type :: binding.frames }

/-- Drop all frames above a mark. -/
def restoreTo
    (binding : Binding)
    (mark : Nat) :
    Binding :=
  { binding with frames := binding.frames.drop (binding.depth - mark) }

end Binding

/-- The position of a binding in the table. -/
abbrev BindingId :=
  Nat

/-- All bindings, by position. -/
abbrev BindingTable :=
  List Binding

/-- The names declared in one block, each with its latest binding. -/
abbrev Block :=
  List (String × BindingId)

/-- Declare a name in a block, replacing an older binding of the name. -/
def Block.declare
    (block : Block)
    (name : String)
    (binding : BindingId) :
    Block :=
  (name, binding) :: block.filter fun entry => entry.1 != name

/-- The blocks visible at a place, innermost first. -/
abbrev Scope :=
  List Block

namespace Scope

/-- The binding that a name refers to. -/
def lookup?
    (scope : Scope)
    (name : String) :
    Option BindingId :=
  scope.findSome? fun block => block.lookup name

/-- Declare a name in the innermost block. -/
def declare
    (scope : Scope)
    (name : String)
    (binding : BindingId) :
    Scope :=
  match scope with
  | [] => [Block.declare [] name binding]
  | block :: outer => Block.declare block name binding :: outer

/-- The table and the scope of a block that declares names in order. -/
def ofTypes
    (types : List (String × Ty)) :
    BindingTable × Scope :=
  types.foldl
    (fun (table, scope) (name, type) =>
      (table ++ [{ name, declared := type }],
        Scope.declare scope name table.length))
    ([], [[]])

/-- The view of a scope: every name has its binding's current type. -/
def view
    (scope : Scope)
    (table : BindingTable) :
    View :=
  { lookup := fun name =>
      (scope.lookup? name).bind fun binding =>
        table[binding]?.map Binding.current }

end Scope

/-- The view in which only one binding is known. -/
def Binding.view
    (binding : Binding) :
    View :=
  { lookup := fun name =>
      if name = binding.name then some binding.current else none }

/-- A frame to be dropped again, with all frames above it. -/
structure FrameMark where
  binding : BindingId
  mark : Nat
  deriving Repr, DecidableEq

namespace BindingTable

/-- Narrow a binding, and return what drops the frame again. -/
def push
    (table : BindingTable)
    (binding : BindingId)
    (type : Ty) :
    FrameMark × BindingTable :=
  let mark := ((table[binding]?).map Binding.depth).getD 0
  ( { binding, mark },
    table.modify binding fun binding => binding.push type )

/-- Drop a frame and all frames above it. A second time changes nothing. -/
def restore
    (table : BindingTable)
    (frame : FrameMark) :
    BindingTable :=
  table.modify frame.binding fun binding => binding.restoreTo frame.mark

/-- Narrow all bindings of a scope that facts are known about. -/
def pushFacts
    (table : BindingTable)
    (scope : Scope)
    (facts : Facts) :
    List FrameMark × BindingTable :=
  facts.entries.foldl
    (fun (frames, table) (name, type) =>
      match scope.lookup? name with
      | none => (frames, table)
      | some binding =>
          let (frame, table) := BindingTable.push table binding type
          (frame :: frames, table))
    ([], table)

/-- Drop frames, the latest first. -/
def restoreAll
    (table : BindingTable)
    (frames : List FrameMark) :
    BindingTable :=
  frames.foldl BindingTable.restore table

end BindingTable

end StructuralTyping
