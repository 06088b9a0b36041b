import StructuralTyping.Narrowing.Typing

namespace StructuralTyping

/-!
# Workspaces

A workspace is a tree of scopes with one of them current, driven command by
command: names are declared, scopes entered and left, bindings narrowed by hand
or on a branch of a guard. A branch runs commands of its own and may end
regularly, with an error or abruptly; its frames are dropped in every case.
-/

/-- A scope of the tree: its parent and the names it declares. -/
structure ScopeNode where
  parent : Option Nat
  block : Block := []
  deriving Repr, DecidableEq

/-- The scopes, the current one, all bindings and the named frame marks. -/
structure Workspace where
  nodes : List ScopeNode := [{ parent := none }]
  current : Nat := 0
  table : BindingTable := []
  marks : List (String × FrameMark) := []
  deriving Repr, DecidableEq

/--
How the body of a branch ends: after its last command, with an error, or by
unwinding. The frames of the branch are dropped by a deferred restore, which runs
on every way out, so the end of a body is told in the answer and changes nothing
else. A body that stops early is the list of the commands that it ran until then.
-/
inductive BranchExit where
  | regular
  | failed
  | abrupt
  deriving Repr, DecidableEq

/-- A command to a workspace. -/
inductive ScopeCommand where
  | declare (name : String) (type : Ty)
  | infer (name : String) (initial : Ty) (policy : WideningPolicy)
  | enter
  | leave
  | lookup (name : String)
  | push (name : String) (type : Ty) (mark : String)
  | restore (mark : String)
  | typeOf (expression : Expression)
  | refine (guard : Expression) (branch : Bool)
  | branch
      (guard : Expression)
      (branch : Bool)
      (body : List ScopeCommand)
      (exit : BranchExit)
  deriving Repr

/-- A binding as seen from outside. -/
structure BindingSummary where
  name : String
  declared : Ty
  current : Ty
  depth : Nat
  deriving Repr, DecidableEq

/-- What a command yields. -/
inductive ScopeYield (Answer : Type) where
  | nothing
  | flag (value : Bool)
  | type (type : Option Ty)
  | facts (facts : Facts)
  | branch (exit : BranchExit) (body : List Answer)
  deriving Repr

/--
The answer to a command: what it yields, the visible scopes afterwards and how
many diagnostics there are.
-/
inductive ScopeAnswer where
  | mk
      (yield : ScopeYield ScopeAnswer)
      (scopes : List (List BindingSummary))
      (reported : Nat)
  deriving Repr

/-- A computation on a workspace. -/
abbrev Working :=
  StateT Workspace Check

namespace Workspace

/-- The blocks visible from a scope. A parent comes before its children. -/
def scopeFrom
    (nodes : List ScopeNode) :
    (fuel : Nat) →
    (id : Nat) →
    Scope
  | 0, _ => []
  | fuel + 1, id =>
      match nodes[id]? with
      | none => []
      | some node =>
          match node.parent with
          | none => [node.block]
          | some parent => node.block :: scopeFrom nodes fuel parent

/-- The scope at the current place. -/
def scope
    (workspace : Workspace) :
    Scope :=
  scopeFrom workspace.nodes workspace.nodes.length workspace.current

/-- A binding as seen from outside. -/
def summary
    (binding : Binding) :
    BindingSummary :=
  { name := binding.name
    declared := binding.declared
    current := binding.current
    depth := binding.depth }

/-- The bindings of a block, in the order of names. -/
def summaries
    (table : BindingTable)
    (block : Block) :
    List BindingSummary :=
  (block.filterMap fun entry => table[entry.2]?.map summary).mergeSort
    fun first second => !decide (second.name < first.name)

/-- The visible bindings, scope by scope. -/
def visible
    (workspace : Workspace) :
    List (List BindingSummary) :=
  workspace.scope.map (summaries workspace.table)

/-- Declare a binding in the current scope. -/
def declare
    (workspace : Workspace)
    (binding : Binding) :
    Workspace :=
  { workspace with
    table := workspace.table ++ [binding]
    nodes :=
      workspace.nodes.modify workspace.current fun node =>
        { node with
          block :=
            node.block.declare binding.name workspace.table.length } }

/-- Enter a new scope inside the current one. -/
def enter
    (workspace : Workspace) :
    Workspace :=
  { workspace with
    nodes := workspace.nodes ++ [{ parent := some workspace.current }]
    current := workspace.nodes.length }

/-- Go back to the parent of the current scope, if it has one. -/
def leave?
    (workspace : Workspace) :
    Option Workspace := do
  let node ← workspace.nodes[workspace.current]?
  let parent ← node.parent
  return { workspace with current := parent }

/-- Narrow a visible binding and keep a mark of the frame. -/
def push?
    (workspace : Workspace)
    (name : String)
    (type : Ty)
    (mark : String) :
    Option Workspace := do
  let binding ← workspace.scope.lookup? name
  let (frame, table) := BindingTable.push workspace.table binding type
  return { workspace with table, marks := (mark, frame) :: workspace.marks }

/-- Drop the frame of a mark. -/
def restore?
    (workspace : Workspace)
    (mark : String) :
    Option Workspace := do
  let frame ← workspace.marks.lookup mark
  let table := BindingTable.restore workspace.table frame
  return { workspace with table }

/-- Narrow bindings by facts. -/
def pushFacts
    (workspace : Workspace)
    (facts : Facts) :
    List FrameMark × Workspace :=
  let (frames, table) :=
    BindingTable.pushFacts workspace.table workspace.scope facts
  (frames, { workspace with table })

/-- Drop frames and go back to a scope. -/
def leaveBranch
    (workspace : Workspace)
    (frames : List FrameMark)
    (current : Nat) :
    Workspace :=
  { workspace with
    table := BindingTable.restoreAll workspace.table frames
    current }

end Workspace

namespace Checker

/-- Take a new workspace where there is one, and say whether there is. -/
def attemptChange
    (change : Workspace → Option Workspace) :
    Working (ScopeYield ScopeAnswer) := do
  match change (← get) with
  | none => return .flag false
  | some workspace =>
      set workspace
      return .flag true

/-- The answer with the current look of the workspace. -/
def scopeAnswer
    (yield : ScopeYield ScopeAnswer) :
    Working ScopeAnswer := do
  let log ← (get : Check Log)
  return .mk yield (← get).visible log.length

variable (checker : Checker)

/-- The facts of a guard in the current scope. -/
def refineHere
    (guard : Expression)
    (branch : Bool) :
    Working Facts := do
  let workspace ← get
  checker.refine (workspace.scope.view workspace.table) guard branch

/-- The type of an expression in the current scope. -/
def typeOfHere
    (expression : Expression) :
    Working Ty := do
  let workspace ← get
  let (type, table) ←
    (checker.typeOf workspace.scope expression).run workspace.table
  set { workspace with table }
  return type

mutual

/-- Run a command. -/
def runCommand :
    ScopeCommand →
    Working ScopeAnswer
  | .declare name type => do
      modify (Workspace.declare · { name, declared := type })
      scopeAnswer .nothing
  | .infer name initial policy => do
      modify (Workspace.declare ·
        (Binding.inferred checker.arena name initial policy))
      scopeAnswer .nothing
  | .enter => do
      modify Workspace.enter
      scopeAnswer .nothing
  | .leave => do
      scopeAnswer (← attemptChange Workspace.leave?)
  | .lookup name => do
      let workspace ← get
      scopeAnswer
        (.type ((workspace.scope.view workspace.table).lookup name))
  | .push name type mark => do
      scopeAnswer (← attemptChange (Workspace.push? · name type mark))
  | .restore mark => do
      scopeAnswer (← attemptChange (Workspace.restore? · mark))
  | .typeOf expression => do
      scopeAnswer (.type (some (← checker.typeOfHere expression)))
  | .refine guard branch => do
      scopeAnswer (.facts (← checker.refineHere guard branch))
  | .branch guard branch body exit => do
      let facts ← checker.refineHere guard branch
      let workspace ← get
      let (frames, narrowed) := workspace.pushFacts facts
      set narrowed
      let answers ← runCommands body
      modify (Workspace.leaveBranch · frames workspace.current)
      scopeAnswer (.branch exit answers)

/-- Run commands one after the other. -/
def runCommands :
    List ScopeCommand →
    Working (List ScopeAnswer)
  | [] => return []
  | command :: rest => do
      let answer ← runCommand command
      return answer :: (← runCommands rest)

end

end Checker

end StructuralTyping
