import StructuralTyping.Arena

namespace StructuralTyping

/-!
# Run-time type tags

The tag that `typeof` yields at run time for the values of a type, where all
of them share one.
-/

/-- Every tag that `typeof` can yield. -/
def typeofTags : List String :=
  ["string", "number", "boolean", "undefined", "object", "function", "bigint",
    "symbol"]

/-- The tag of a type that is no name. -/
def Ty.typeofTag? :
    Ty →
    Option String
  | .primitive .string => some "string"
  | .primitive .number => some "number"
  | .primitive .boolean => some "boolean"
  | .primitive .undefined => some "undefined"
  | .primitive .void => some "undefined"
  | .primitive .null => some "object"
  | .literal _ value => some value.base.name
  | .object _ _ => some "object"
  | .array _ _ _ => some "object"
  | .tuple _ _ _ => some "object"
  | .function _ _ => some "function"
  | _ => none

/--
The tag that all values of a type share. There is none for unions,
intersections, `any` and `unknown`.
-/
def Arena.typeofTag?
    (arena : Arena)
    (type : Ty) :
    Option String :=
  match arena.resolve type Arena.defaultHops with
  | .resolved type => type.typeofTag?
  | .unresolved _ => none

end StructuralTyping
