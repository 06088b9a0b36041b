import StructuralTyping.Suite.Problem
import StructuralTyping.Ty.Occurrence
import StructuralTyping.Widening
import StructuralTyping.Yaml.Node

namespace StructuralTyping

/-!
# Decoding nodes

The computations that turn the nodes of a document into types, expressions and
statements, and the constants among them. They number what was written and stop
at the first problem.
-/

/-- A computation that numbers written nodes and may meet a problem. -/
abbrev Decode :=
  StateT Nat (Except Problem)

namespace Decode

open Yaml

/-- Stop at a problem. -/
def stop
    (problem : Problem) :
    Decode α :=
  throw problem

/-- Stop at a fault on a line. -/
def fault
    (line : Nat)
    (fault : Fault) :
    Decode α :=
  throw (.located line fault)

/-- Name the part that problems of a computation lie in. -/
def within
    (place : Place)
    (computation : Decode α) :
    Decode α :=
  fun next => (computation next).mapError (.within place)

/-- The next unused occurrence number. -/
def occurrence :
    Decode Occurrence := do
  let (occurrence, next) := Ty.nextOccurrence.run (← get)
  set next
  return occurrence

/-- The constant of a scalar: a number, a truth value or a text. -/
def scalarLiteral
    (line : Nat)
    (kind : ScalarKind)
    (text : String) :
    Decode Literal :=
  let number : Decode Literal :=
    match Number.read? text with
    | some value => return .number value
    | none => fault line (.badNumber text)
  match kind with
  | .integer => number
  | .decimal => number
  | .boolean =>
      match truthValues.lookup text with
      | some value => return .boolean value
      | none => fault line (.badTruth text)
  | _ => return .string (.ofString text)

/-- The constant of a node. -/
def literal :
    Node →
    Decode Literal
  | .scalar line kind text => scalarLiteral line kind text
  | node => fault node.line .literalNotScalar

/-- The constants of a node: one of them, or a list. -/
def literals :
    Option Node →
    Decode (List Literal)
  | none => return []
  | some (.scalar line kind text) => do
      return [← scalarLiteral line kind text]
  | some (.sequence _ items) => items.mapM literal
  | some node => fault node.line .literalListExpected

/-- The widening policy under its names. -/
def policy
    (node : Node) :
    Decode WideningPolicy :=
  match node.text with
  | "" => return .mutable
  | "mutable" => return .mutable
  | "let" => return .mutable
  | "preserve" => return .preserve
  | "const" => return .preserve
  | "as-const" => return .asConst
  | name => fault node.line (.unknownPolicy name)

end Decode

end StructuralTyping
