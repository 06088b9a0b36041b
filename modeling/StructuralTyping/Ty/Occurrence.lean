import StructuralTyping.Ty.Equality

namespace StructuralTyping.Ty

/-!
# Written occurrences

`written` gives every node of a freshly written type its own occurrence
number; `form` forgets the numbers, so that two types are copies of each other
exactly when their forms are equal.
-/

/-- Take the next unused occurrence number. -/
def nextOccurrence :
    StateM Nat Occurrence := do
  let next ← get
  set (next + 1)
  return some next

mutual

/-- Number every node of a written type, taking numbers from a counter. -/
def written :
    Ty →
    StateM Nat Ty
  | absent => return absent
  | primitive kind => return primitive kind
  | named reference => return named reference
  | literal _ value => return literal (← nextOccurrence) value
  | object _ shape => do
      let properties ← writtenProperties shape.properties
      let index ← writtenIndex shape.index
      return object (← nextOccurrence) { properties, index }
  | array _ element readonly => do
      let element ← written element
      return array (← nextOccurrence) element readonly
  | tuple _ elements readonly => do
      let elements ← writtenAll elements
      return tuple (← nextOccurrence) elements readonly
  | function _ signature => do
      let parameters ← writtenParameters signature.parameters
      let rest ← written signature.rest
      let result ← written signature.result
      return function (← nextOccurrence)
        { parameters, rest, result, method := signature.method }
  | union _ members => do
      let members ← writtenAll members
      return union (← nextOccurrence) members
  | intersection _ members => do
      let members ← writtenAll members
      return intersection (← nextOccurrence) members
  | generic _ application => do
      let base ← written application.base
      let arguments ← writtenAll application.arguments
      return generic (← nextOccurrence)
        { utility := application.utility, base, arguments }

/-- Number every node of a list of written types. -/
def writtenAll :
    List Ty →
    StateM Nat (List Ty)
  | [] => return []
  | type :: rest => do
      let type ← written type
      return type :: (← writtenAll rest)

/-- Number every node of a written property list. -/
def writtenProperties :
    List (Property Ty) →
    StateM Nat (List (Property Ty))
  | [] => return []
  | property :: rest => do
      let type ← written property.type
      return { property with type } :: (← writtenProperties rest)

/-- Number every node of a written parameter list. -/
def writtenParameters :
    List (Parameter Ty) →
    StateM Nat (List (Parameter Ty))
  | [] => return []
  | parameter :: rest => do
      let type ← written parameter.type
      return { parameter with type } :: (← writtenParameters rest)

/-- Number every node of a written index signature. -/
def writtenIndex :
    Option (IndexSignature Ty) →
    StateM Nat (Option (IndexSignature Ty))
  | none => return none
  | some index => do
      let key ← written index.key
      let value ← written index.value
      return some { key, value }

end

mutual

/-- The type with all occurrence numbers removed. -/
def form :
    Ty →
    Ty
  | absent => absent
  | primitive kind => primitive kind
  | named reference => named reference
  | literal _ value => literal none value
  | object _ shape =>
      object none
        { properties := formProperties shape.properties
          index := formIndex shape.index }
  | array _ element readonly => array none (form element) readonly
  | tuple _ elements readonly => tuple none (formAll elements) readonly
  | function _ signature =>
      function none
        { parameters := formParameters signature.parameters
          rest := form signature.rest
          result := form signature.result
          method := signature.method }
  | union _ members => union none (formAll members)
  | intersection _ members => intersection none (formAll members)
  | generic _ application =>
      generic none
        { utility := application.utility
          base := form application.base
          arguments := formAll application.arguments }

/-- The forms of a list of types. -/
def formAll :
    List Ty →
    List Ty
  | [] => []
  | type :: rest => form type :: formAll rest

/-- The forms of a property list. -/
def formProperties :
    List (Property Ty) →
    List (Property Ty)
  | [] => []
  | property :: rest =>
      { property with type := form property.type } :: formProperties rest

/-- The forms of a parameter list. -/
def formParameters :
    List (Parameter Ty) →
    List (Parameter Ty)
  | [] => []
  | parameter :: rest =>
      { parameter with type := form parameter.type } :: formParameters rest

/-- The form of an optional index signature. -/
def formIndex :
    Option (IndexSignature Ty) →
    Option (IndexSignature Ty)
  | none => none
  | some index => some { key := form index.key, value := form index.value }

end

end StructuralTyping.Ty
