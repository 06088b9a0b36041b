import StructuralTyping.Ty

namespace StructuralTyping.Ty

/-!
# The written form of types

`text` writes a type on one line. A member of a larger type is put in
parentheses where it would otherwise be read together with its surroundings.
`shown` is the form used inside messages; it also covers trees in which a type
was left out.
-/

/-- Whether a type needs parentheses as a part of a larger one. -/
def needsParentheses :
    Ty →
    Bool
  | function _ _ => true
  | union _ members => decide (1 < members.length)
  | intersection _ members => decide (1 < members.length)
  | _ => false

/-- Put parentheses around the text of a type that needs them. -/
def parenthesized
    (type : Ty)
    (text : String) :
    String :=
  if type.needsParentheses then
    "(" ++ text ++ ")"
  else
    text

/-- The name a parameter is written with. -/
def parameterLabel
    (position : Nat)
    (parameter : Parameter Ty) :
    String :=
  let name :=
    if parameter.name.isEmpty then
      "arg" ++ toString position
    else
      parameter.name
  if parameter.optional then name ++ "?" else name

/-- The name a property is written with, and its flags. -/
def propertyLabel
    (property : Property Ty) :
    String :=
  (if property.readonly then "readonly " else "") ++ property.name ++
    (if property.optional then "?" else "")

mutual

/-- The written form of a type. A type left out is written as nothing. -/
def text :
    Ty →
    String
  | absent => ""
  | primitive kind => kind.name
  | literal _ value => value.text
  | named reference => reference.name
  | object _ shape =>
      if shape.isEmpty then
        "\x7b\x7d"
      else
        "\x7b " ++
          String.intercalate "; "
            (textIndex shape.index ++ textProperties shape.properties) ++
          " \x7d"
  | array _ element readonly =>
      (if readonly then "readonly " else "") ++
        parenthesized element (text element) ++ "[]"
  | tuple _ elements readonly =>
      (if readonly then "readonly " else "") ++
        "[" ++ String.intercalate ", " (textAll elements) ++ "]"
  | function _ signature =>
      let rest :=
        if signature.rest.isAbsent then
          []
        else
          ["...rest: " ++
            parenthesized signature.rest (text signature.rest) ++ "[]"]
      let result :=
        if signature.result.isAbsent then
          "void"
        else
          text signature.result
      "(" ++
        String.intercalate ", "
          (textParameters 0 signature.parameters ++ rest) ++
        ") => " ++ result
  | union _ members =>
      if members.isEmpty then
        "never"
      else
        String.intercalate " | " (textMembers members)
  | intersection _ members =>
      if members.isEmpty then
        "unknown"
      else
        String.intercalate " & " (textMembers members)
  | generic _ application =>
      application.utility ++ "<" ++
        String.intercalate ", "
          (text application.base :: textAll application.arguments) ++ ">"

/-- The written forms of a list of types. -/
def textAll :
    List Ty →
    List String
  | [] => []
  | type :: rest => text type :: textAll rest

/-- The written forms of members, in parentheses where needed. -/
def textMembers :
    List Ty →
    List String
  | [] => []
  | type :: rest => parenthesized type (text type) :: textMembers rest

/-- The written forms of properties. -/
def textProperties :
    List (Property Ty) →
    List String
  | [] => []
  | property :: rest =>
      (propertyLabel property ++ ": " ++ text property.type) ::
        textProperties rest

/-- The written forms of parameters; unnamed ones go by their position. -/
def textParameters
    (position : Nat) :
    List (Parameter Ty) →
    List String
  | [] => []
  | parameter :: rest =>
      (parameterLabel position parameter ++ ": " ++ text parameter.type) ::
        textParameters (position + 1) rest

/-- The written form of an index signature, if there is one. -/
def textIndex :
    Option (IndexSignature Ty) →
    List String
  | none => []
  | some index =>
      ["[key: " ++ text index.key ++ "]: " ++ text index.value]

end

mutual

/--
Whether the written form needs no type that was left out. The rest parameter
and the result of a function may always be left out.
-/
def isComplete :
    Ty →
    Bool
  | absent => false
  | primitive _ => true
  | literal _ _ => true
  | named _ => true
  | object _ shape =>
      completeIndex shape.index && completeProperties shape.properties
  | array _ element _ => isComplete element
  | tuple _ elements _ => completeAll elements
  | function _ signature =>
      completeParameters signature.parameters &&
        (signature.rest.isAbsent || isComplete signature.rest) &&
        (signature.result.isAbsent || isComplete signature.result)
  | union _ members => completeAll members
  | intersection _ members => completeAll members
  | generic _ application =>
      isComplete application.base && completeAll application.arguments

/-- Whether every type of a list is complete. -/
def completeAll :
    List Ty →
    Bool
  | [] => true
  | type :: rest => isComplete type && completeAll rest

/-- Whether every property type is complete. -/
def completeProperties :
    List (Property Ty) →
    Bool
  | [] => true
  | property :: rest => isComplete property.type && completeProperties rest

/-- Whether every parameter type is complete. -/
def completeParameters :
    List (Parameter Ty) →
    Bool
  | [] => true
  | parameter :: rest =>
      isComplete parameter.type && completeParameters rest

/-- Whether an index signature is complete, if there is one. -/
def completeIndex :
    Option (IndexSignature Ty) →
    Bool
  | none => true
  | some index => isComplete index.key && isComplete index.value

end

/-- What a message shows in place of a part that was left out altogether. -/
def absentText : String :=
  "%!s(<nil>)"

/-- What a message shows in place of a part with a gap inside. -/
def gapText : String :=
  "%!s(PANIC=String method: runtime error: " ++
    "invalid memory address or nil pointer dereference)"

/-- The form of a type inside a message. -/
def shown
    (type : Ty) :
    String :=
  if type.isAbsent then
    absentText
  else if type.isComplete then
    type.text
  else
    gapText

end StructuralTyping.Ty
