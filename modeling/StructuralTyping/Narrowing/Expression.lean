import StructuralTyping.Ty.Equality
import StructuralTyping.Ty.Text

namespace StructuralTyping

/-!
# Expressions

The expressions whose types are computed and whose outcome, used as a guard,
narrows the types of bindings.
-/

/-- A binary operator. -/
inductive Operator where
  | strictEqual
  | strictNotEqual
  | equal
  | notEqual
  | and
  | or
  | coalesce
  deriving Repr, DecidableEq

namespace Operator

/-- The sign of an operator. -/
def sign :
    Operator →
    String
  | strictEqual => "==="
  | strictNotEqual => "!=="
  | equal => "=="
  | notEqual => "!="
  | and => "&&"
  | or => "||"
  | coalesce => "??"

/-- Every operator. -/
def all : List Operator :=
  [strictEqual, strictNotEqual, equal, notEqual, and, or, coalesce]

/-- The operator of the given sign. -/
def ofSign?
    (sign : String) :
    Option Operator :=
  all.find? fun operator => operator.sign == sign

end Operator

/-- An expression. -/
inductive Expression where
  /-- A binding, by name. -/
  | name (binding : String)
  /-- A value of a known type. -/
  | constant (type : Ty)
  /-- The run-time type tag of a value. -/
  | typeof (operand : Expression)
  /-- Whether a value is an instance of a class with the given instance type. -/
  | instanceOf (operand : Expression) (instanceType : Ty)
  /-- Whether a value is an array. -/
  | isArray (operand : Expression)
  /-- A property; an optional access yields `undefined` on nullish values. -/
  | member (operand : Expression) (property : String) (optional : Bool)
  /-- Logical negation. -/
  | not (operand : Expression)
  /-- A binary operator applied to two operands. -/
  | binary (operator : Operator) (left right : Expression)
  /-- One of two expressions, chosen by a test. -/
  | conditional (test positive negative : Expression)
  deriving Repr, DecidableEq

namespace Expression

/-- The form of an optional text inside a larger one. -/
def shownText
    (text : Option String) :
    String :=
  text.getD Ty.gapText

/--
The written form of an expression. There is none where it would show a type
that was left out, except inside an operator, a conditional or an instance
test, which show the gap.
-/
def text? :
    Expression →
    Option String
  | name binding => some binding
  | constant type => if type.isComplete then some type.text else none
  | typeof operand => operand.text?.map ("typeof " ++ ·)
  | instanceOf operand instanceType =>
      some (shownText operand.text? ++ " instanceof " ++ instanceType.shown)
  | isArray operand => operand.text?.map fun text => "Array.isArray(" ++ text ++ ")"
  | member operand property optional =>
      operand.text?.map fun text =>
        text ++ (if optional then "?." else ".") ++ property
  | not operand => operand.text?.map ("!" ++ ·)
  | binary operator left right =>
      some
        ("(" ++ shownText left.text? ++ " " ++ operator.sign ++ " " ++
          shownText right.text? ++ ")")
  | conditional test positive negative =>
      some
        ("(" ++ shownText test.text? ++ " ? " ++ shownText positive.text? ++
          " : " ++ shownText negative.text? ++ ")")

end Expression

end StructuralTyping
