import StructuralTyping.Number.Integer
import StructuralTyping.Text.Base64
import StructuralTyping.Yaml.Timestamp

namespace StructuralTyping.Yaml

/-!
# Scalars

A plain scalar stands for nothing, a truth value, an integer, a decimal number
or a point in time when its text has the form of one, and for a text otherwise.
Quoted scalars are always texts. A tag overrides this, but then the text of the
scalar need not have the form that its kind asks for.
-/

/-- The kinds of scalars. -/
inductive ScalarKind where
  | null
  | boolean
  | integer
  | decimal
  | timestamp
  | text
  /-- A text whose bytes are written with sixty-four letters. -/
  | binary
  /-- The key of an entry whose value is taken over into the mapping. -/
  | merge
  /-- A kind that is known only by its tag; nothing is asked of its text. -/
  | tagged (tag : String)
  deriving Repr, DecidableEq

/-- What a scalar stands for. -/
inductive ScalarValue where
  | null
  | boolean (value : Bool)
  /-- A number or a point in time. -/
  | quantity
  | text (value : String)
  deriving Repr, DecidableEq

/-- The spellings of the truth values. -/
def truthValues : List (String × Bool) :=
  [ ("true", true), ("True", true), ("TRUE", true),
    ("false", false), ("False", false), ("FALSE", false) ]

/-- The spelling of the merge key. -/
def mergeKey : String :=
  "<<"

/-- The spellings of the scalars that have a name. -/
def namedScalars : List (String × ScalarKind) :=
  truthValues.map (fun (text, _) => (text, .boolean)) ++
    [ ("", .null), ("~", .null), ("null", .null), ("Null", .null),
      ("NULL", .null), (".nan", .decimal), (".NaN", .decimal),
      (".NAN", .decimal), (".inf", .decimal), (".Inf", .decimal),
      (".INF", .decimal), ("+.inf", .decimal), ("+.Inf", .decimal),
      ("+.INF", .decimal), ("-.inf", .decimal), ("-.Inf", .decimal),
      ("-.INF", .decimal), (mergeKey, .merge) ]

/--
Whether some reading of digits takes letters for an integer. After the marks of
the bases two and eight a sign may stand too.
-/
def isIntegerBy
    (isWord : (List Char → Option Nat) → List Char → Bool)
    (letters : List Char) :
    Bool :=
  isWord Integer.marked? letters ||
    match letters with
    | '0' :: 'b' :: rest => isWord (Integer.digits? 2) rest
    | '0' :: 'o' :: rest => isWord (Integer.digits? 8) rest
    | _ => false

/-- Whether letters are a signed integer of 64 bits. -/
def isSignedInteger
    (letters : List Char) :
    Bool :=
  isIntegerBy
    (fun magnitude letters =>
      (Integer.signed? magnitude letters).any Integer.fitsWord)
    letters

/-- Whether letters are an integer of 64 bits without a sign. -/
def isUnsignedInteger
    (letters : List Char) :
    Bool :=
  isIntegerBy
    (fun magnitude letters => (magnitude letters).any (· < Nat.pow 2 64))
    letters

/-- Letters after an optional sign. -/
def dropSign
    (letters : List Char) :
    List Char :=
  match letters with
  | '-' :: rest => rest
  | '+' :: rest => rest
  | _ => letters

/-- Whether letters are an exponent, or nothing at all. -/
def isExponent
    (letters : List Char) :
    Bool :=
  match letters with
  | [] => true
  | mark :: rest =>
      let digits := dropSign rest
      (mark = 'e' || mark = 'E') && !digits.isEmpty &&
        digits.all Char.isDigit

/--
Whether letters have the form of a decimal number: digits around a point, at
least one before it unless the point comes first, and an exponent.
-/
def isDecimalForm
    (letters : List Char) :
    Bool :=
  let unsigned := dropSign letters
  let whole := unsigned.takeWhile Char.isDigit
  match unsigned.dropWhile Char.isDigit with
  | '.' :: rest =>
      let fraction := rest.takeWhile Char.isDigit
      !(whole.isEmpty && fraction.isEmpty) &&
        isExponent (rest.dropWhile Char.isDigit)
  | rest => !whole.isEmpty && isExponent rest

/-- Whether a text is a number within range. -/
def isNumber
    (text : String) :
    Bool :=
  (Number.read? text).isSome

/-- The kind of a plain scalar with a numeric first letter. -/
def numericKind
    (letters : List Char) :
    ScalarKind :=
  let digits := letters.filter (· ≠ '_')
  if isTimestamp letters then
    .timestamp
  else if isSignedInteger digits || isUnsignedInteger digits then
    .integer
  else if isDecimalForm digits && isNumber (String.ofList digits) then
    .decimal
  else
    .text

/-- The kind of a plain scalar. -/
def ScalarKind.ofPlain
    (text : String) :
    ScalarKind :=
  match namedScalars.lookup text with
  | some kind => kind
  | none =>
      match text.toList with
      | [] => .null
      | '.' :: _ => if isNumber text then .decimal else .text
      | letter :: rest =>
          if letter.isDigit || letter = '+' || letter = '-' then
            numericKind (letter :: rest)
          else
            .text

/-- What the tags of the standard kinds begin with. -/
def standardTags : String :=
  "tag:yaml.org,2002:"

/-- The short form of a tag. -/
def shortTag
    (tag : String) :
    String :=
  if standardTags.toList.isPrefixOf tag.toList then
    "!!" ++ String.ofList (tag.toList.drop standardTags.length)
  else
    tag

/-- The kinds of scalars by the short forms of their tags. -/
def taggedKinds : List (String × ScalarKind) :=
  [ ("!!null", .null), ("!!bool", .boolean), ("!!int", .integer),
    ("!!float", .decimal), ("!!timestamp", .timestamp), ("!!str", .text),
    ("!!binary", .binary), ("!!merge", .merge) ]

/-- The kind that a tag gives a scalar, if it gives one. -/
def ScalarKind.ofTag?
    (tag : String) :
    Option ScalarKind :=
  if tag.isEmpty || tag == "!" then
    none
  else
    let tag := shortTag tag
    some ((taggedKinds.lookup tag).getD (.tagged tag))

/-- The kind of a scalar, by its tag or by its text. -/
def ScalarKind.ofScalar
    (tag : Option String)
    (plain : Bool)
    (text : String) :
    ScalarKind :=
  match tag.bind ofTag? with
  | some kind => kind
  | none => if plain then ofPlain text else .text

/--
Whether the text of a scalar that is tagged as a decimal number is a number;
integers have to be signed ones.
-/
def isTaggedDecimal
    (text : String) :
    Bool :=
  match ScalarKind.ofPlain text with
  | .decimal => true
  | .integer => isSignedInteger (text.toList.filter (· ≠ '_'))
  | _ => false

/-- What a scalar stands for; none if its text does not fit its kind. -/
def ScalarKind.value?
    (kind : ScalarKind)
    (text : String) :
    Option ScalarValue :=
  let quantityIf (fits : Bool) := if fits then some .quantity else none
  match kind with
  | .null => if ofPlain text = .null then some .null else none
  | .boolean => (truthValues.lookup text).map .boolean
  | .integer => quantityIf (ofPlain text = .integer)
  | .decimal => quantityIf (isTaggedDecimal text)
  | .timestamp => quantityIf (isTimestamp text.toList)
  | .text => some (.text text)
  | .binary => (Text.RawText.ofBase64? text).map (.text ·.replaced)
  | .merge => some (.text text)
  | .tagged _ => some (.text text)

end StructuralTyping.Yaml
