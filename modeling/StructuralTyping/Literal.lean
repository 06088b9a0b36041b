import StructuralTyping.Number.Text
import StructuralTyping.Text.Raw

namespace StructuralTyping

/-!
# Primitive kinds and constants

The nine primitive kinds and the constants that literal types are made of.
Constants are compared the way values are compared at run time: texts and
booleans by identity, numbers arithmetically.
-/

/-- The kinds of primitive types. -/
inductive Primitive where
  | string
  | number
  | boolean
  | void
  | never
  | unknown
  | any
  | null
  | undefined
  deriving Repr, DecidableEq

namespace Primitive

/-- The name a primitive kind is written with. -/
def name :
    Primitive →
    String
  | string => "string"
  | number => "number"
  | boolean => "boolean"
  | void => "void"
  | never => "never"
  | unknown => "unknown"
  | any => "any"
  | null => "null"
  | undefined => "undefined"

/-- Every primitive kind. -/
def all : List Primitive :=
  [string, number, boolean, void, never, unknown, any, null, undefined]

/-- The primitive kind of the given name. -/
def ofName?
    (name : String) :
    Option Primitive :=
  all.find? fun kind => kind.name == name

end Primitive

/-- A constant: a text, a number or a truth value. -/
inductive Literal where
  | string (text : Text.RawText)
  | number (value : Number)
  | boolean (value : Bool)
  deriving Repr, DecidableEq

namespace Literal

/-- Run-time equality of constants. -/
def equal :
    Literal →
    Literal →
    Bool
  | string first, string second => first == second
  | number first, number second => first.equal second
  | boolean first, boolean second => first == second
  | _, _ => false

/-- The primitive kind a constant belongs to. -/
def base :
    Literal →
    Primitive
  | string _ => .string
  | number _ => .number
  | boolean _ => .boolean

/-- Whether a condition on the constant fails: the empty text, zero, false. -/
def falsy :
    Literal →
    Bool
  | string text => text.isEmpty
  | number value => value.isZero
  | boolean value => !value

/-- The written form of a constant. -/
def text :
    Literal →
    String
  | string text => text.quoted
  | number value => value.text
  | boolean value => if value then "true" else "false"

end Literal

end StructuralTyping
