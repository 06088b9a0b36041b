import StructuralTyping.Checker.Utility

namespace StructuralTyping

/-!
# Members of values

The members that a value of a type exposes to property access: those of its
object type, the length and positions of a sequence, the length of a text or
function.
-/

/-- The readonly numeric length of texts and functions. -/
def lengthShape : Shape Ty :=
  { properties := [{ name := "length", type := .number, readonly := true }] }

/-- The positions of a tuple as properties. -/
def positionProperties
    (readonly : Bool) :
    (position : Nat) →
    List Ty →
    List (Property Ty)
  | _, [] => []
  | position, type :: rest =>
      { name := toString position, type, readonly } ::
        positionProperties readonly (position + 1) rest

/-- Add the members of a second shape that a first one lacks. -/
def Shape.addMissing
    (first second : Shape Ty) :
    Shape Ty :=
  { properties :=
      second.properties.foldl
        (fun properties property =>
          if properties.any fun other => other.name == property.name then
            properties
          else
            properties ++ [property])
        first.properties
    index := first.index.or second.index }

/-- Whether a property of the given name is governed by an index signature. -/
def indexApplies
    (key : Ty)
    (name : String) :
    Bool :=
  if key.isPrimitive .number then
    (Number.read? name).isSome
  else
    true

namespace Checker

variable (checker : Checker)

/-- The element type of a tuple read at an unknown position. -/
def tupleElement
    (elements : List Ty) :
    Check Ty :=
  if elements.isEmpty then
    return .never
  else
    checker.normalize (.ofUnion elements)

/-- The members that a type exposes, if it has any. -/
def apparentWithin :
    (budget : Nat) →
    Ty →
    Check (Option (Shape Ty))
  | 0, _ => Check.exhausted
  | budget + 1, type =>
      match type with
      | .object _ shape => return some shape
      | .array _ element _ =>
          return some
            { properties := [{ name := "length", type := .number }]
              index := some { key := .number, value := element } }
      | .tuple _ elements readonly => do
          let length :=
            { name := "length"
              type := .ofLiteral (.number (Number.ofNat elements.length))
              readonly := true : Property Ty }
          let element ← checker.tupleElement elements
          return some
            { properties := length :: positionProperties readonly 0 elements
              index := some { key := .number, value := element } }
      | .primitive .string => return some lengthShape
      | .primitive .number => return some {}
      | .primitive .boolean => return some {}
      | .literal _ (.string _) => return some lengthShape
      | .literal _ _ => return some {}
      | .function _ _ => return some lengthShape
      | .intersection _ members => do
          let shape ← members.foldlM
            (fun shape member => do
              match ← (checker.evaluation.resolve 0 member).run with
              | .error _ => return shape
              | .ok type =>
                  match ← apparentWithin budget type with
                  | none => return shape
                  | some other => return shape.addMissing other)
            ({} : Shape Ty)
          return some shape
      | _ => return none

/-- The members that a type exposes, if it has any. -/
def apparent
    (type : Ty) :
    Check (Option (Shape Ty)) :=
  checker.apparentWithin checker.budget type

/-- The type of reading a property from a shape. -/
def readShape
    (shape : Shape Ty)
    (name : String) :
    Option Ty :=
  match shape.property? name with
  | some property =>
      some (if property.optional then property.type.optional else property.type)
  | none =>
      match shape.index with
      | some index =>
          if indexApplies index.key name then some index.value else none
      | none => none

/-- The type of reading a property, with a budget for nested unions. -/
def propertyWithin :
    (budget : Nat) →
    Ty →
    (name : String) →
    Check (Option Ty)
  | 0, _, _ => Check.exhausted
  | budget + 1, type, name => do
      match ← checker.structural 0 type with
      | .error _ => return none
      | .ok (.union _ members) =>
          let found ←
            (members.mapM fun member =>
              OptionT.mk (propertyWithin budget member name)).run
          match found with
          | none => return none
          | some types =>
              return some (← checker.normalize (.ofUnion types))
      | .ok (.primitive .any) => return some .any
      | .ok type =>
          match ← checker.apparent type with
          | none => return none
          | some shape => return readShape shape name

/--
The type of reading a property from a value of a type. Optional properties
include `undefined`; every member of a union has to have the property.
-/
def propertyOf
    (type : Ty)
    (name : String) :
    Check (Option Ty) :=
  checker.propertyWithin checker.budget type name

end Checker

end StructuralTyping
