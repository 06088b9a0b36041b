import StructuralTyping.Literal

namespace StructuralTyping

/-!
# Types

The types of the structural type system. A type is a finite tree; recursion
passes through named references only. Every node that was written down carries
the number of its occurrence, so that the very same written node can be told
from a copy of equal form. Nodes built by the checker carry no number.
-/

/-- The number of a written node; nodes built by the checker have none. -/
abbrev Occurrence :=
  Option Nat

/-- A named member of an object type. -/
structure Property (Member : Type) where
  name : String
  type : Member
  optional : Bool := false
  readonly : Bool := false
  deriving Repr, DecidableEq

/-- The type of all members whose name matches a key type. -/
structure IndexSignature (Member : Type) where
  key : Member
  value : Member
  deriving Repr, DecidableEq

/-- The members of an object type, in the order they were written. -/
structure Shape (Member : Type) where
  properties : List (Property Member) := []
  index : Option (IndexSignature Member) := none
  deriving Repr, DecidableEq

/-- A function parameter; the empty name stands for an unnamed one. -/
structure Parameter (Member : Type) where
  name : String
  type : Member
  optional : Bool := false
  deriving Repr, DecidableEq

/--
A call signature. The rest parameter and the result may be left out. Method
signatures compare their parameters in either direction.
-/
structure Signature (Member : Type) where
  parameters : List (Parameter Member)
  rest : Member
  result : Member
  method : Bool := false
  deriving Repr, DecidableEq

/-- A utility applied to a base type and further arguments. -/
structure Application (Member : Type) where
  utility : String
  base : Member
  arguments : List Member
  deriving Repr, DecidableEq

/-- A reference to a name declared in an arena. -/
structure Reference where
  arena : Nat
  id : Nat
  name : String
  deriving Repr, DecidableEq

/-- A type. `absent` stands where a type was left out. -/
inductive Ty where
  | absent
  | primitive (kind : Primitive)
  | literal (occurrence : Occurrence) (value : Literal)
  | named (reference : Reference)
  | object (occurrence : Occurrence) (shape : Shape Ty)
  | array (occurrence : Occurrence) (element : Ty) (readonly : Bool)
  | tuple (occurrence : Occurrence) (elements : List Ty) (readonly : Bool)
  | function (occurrence : Occurrence) (signature : Signature Ty)
  | union (occurrence : Occurrence) (members : List Ty)
  | intersection (occurrence : Occurrence) (members : List Ty)
  | generic (occurrence : Occurrence) (application : Application Ty)
  deriving Repr

namespace Shape

/-- The first property of the given name. -/
def property?
    (shape : Shape Member)
    (name : String) :
    Option (Property Member) :=
  shape.properties.find? fun property => property.name == name

/-- The property names in written order. -/
def names
    (shape : Shape Member) :
    List String :=
  shape.properties.map Property.name

/-- A shape without any member. -/
def isEmpty
    (shape : Shape Member) :
    Bool :=
  shape.properties.isEmpty && shape.index.isNone

end Shape

namespace Ty

instance : Inhabited Ty :=
  ⟨.absent⟩

/-- The primitive types, by name. -/
abbrev string : Ty :=
  .primitive .string

@[inherit_doc string]
abbrev number : Ty :=
  .primitive .number

@[inherit_doc string]
abbrev boolean : Ty :=
  .primitive .boolean

@[inherit_doc string]
abbrev void : Ty :=
  .primitive .void

@[inherit_doc string]
abbrev never : Ty :=
  .primitive .never

@[inherit_doc string]
abbrev unknown : Ty :=
  .primitive .unknown

@[inherit_doc string]
abbrev any : Ty :=
  .primitive .any

@[inherit_doc string]
abbrev null : Ty :=
  .primitive .null

@[inherit_doc string]
abbrev undefined : Ty :=
  .primitive .undefined

/-- A literal type built by the checker. -/
def ofLiteral
    (value : Literal) :
    Ty :=
  .literal none value

/-- An object type built by the checker. -/
def ofShape
    (shape : Shape Ty) :
    Ty :=
  .object none shape

/-- A union built by the checker, not normalized. -/
def ofUnion
    (members : List Ty) :
    Ty :=
  .union none members

/-- An intersection built by the checker, not normalized. -/
def ofIntersection
    (members : List Ty) :
    Ty :=
  .intersection none members

/-- Whether a type was left out. -/
def isAbsent :
    Ty →
    Bool
  | absent => true
  | _ => false

/-- The type itself, or another one where it was left out. -/
def orElse
    (type other : Ty) :
    Ty :=
  match type with
  | absent => other
  | _ => type

/-- The members of a union; any other type is its own only member. -/
def members :
    Ty →
    List Ty
  | union _ members => members
  | type => [type]

/-- Whether the type is the given primitive. -/
def isPrimitive
    (type : Ty)
    (kind : Primitive) :
    Bool :=
  match type with
  | primitive actual => actual == kind
  | _ => false

/-- `null` or `undefined`. -/
def isNullish
    (type : Ty) :
    Bool :=
  type.isPrimitive .null || type.isPrimitive .undefined

/-- `never` or a union without members. -/
def isNever :
    Ty →
    Bool
  | union _ members => members.isEmpty
  | type => type.isPrimitive .never

/-- A type that stands for another one: a name or a utility application. -/
def isReference :
    Ty →
    Bool
  | named _ => true
  | generic _ _ => true
  | _ => false

/-- The type extended by `undefined`, unless that is a member already. -/
def optional
    (type : Ty) :
    Ty :=
  if type.members.any (isPrimitive · .undefined) then
    type
  else
    ofUnion (type.members ++ [undefined])

/-- The primitive type of a literal; other types are kept. -/
def widenLiteral :
    Ty →
    Ty
  | literal _ value => primitive value.base
  | type => type

/-- The type without `null` and `undefined`, not normalized. -/
def nonNullable
    (type : Ty) :
    Ty :=
  if type.isNullish then
    never
  else
    match type with
    | union _ members => ofUnion (members.filter fun member => !member.isNullish)
    | _ => type

end Ty

end StructuralTyping
