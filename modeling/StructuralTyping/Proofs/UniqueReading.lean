import StructuralTyping.Proofs.Copies
import StructuralTyping.Proofs.QuotedTexts
import StructuralTyping.Ty.Text

namespace StructuralTyping

/-!
# Written types are read in one way

The written form of a type made of primitives, texts, truth values, arrays,
tuples, unions and intersections tells what the type is, with one exception: in
a nest of arrays the marks of readonly sequences all stand in front, and nothing
tells which of the sequences they belong to. The written form is that of the
type in which the outermost sequences of each nest are the readonly ones.

A part of a type is read together with the marks in front of it and the brackets
behind it. Its own letters come to an end that does not depend on what comes
behind, unless that is another pair of brackets.
-/

namespace Ty

/-- The types whose written forms are read. -/
inductive Readable :
    Ty →
    Prop
  | primitive :
      Readable (.primitive kind)
  | quoted {contents : Text.RawText} :
      contents.Decoded →
      Readable (.literal occurrence (.string contents))
  | boolean :
      Readable (.literal occurrence (.boolean value))
  | array :
      Readable element →
      Readable (.array occurrence element readonly)
  | tuple :
      (∀ element ∈ elements, Readable element) →
      Readable (.tuple occurrence elements readonly)
  | union {parts : List Ty} :
      2 ≤ parts.length →
      (∀ part ∈ parts, Readable part) →
      Readable (.union occurrence parts)
  | intersection {parts : List Ty} :
      2 ≤ parts.length →
      (∀ part ∈ parts, Readable part) →
      Readable (.intersection occurrence parts)

/-- Some arrays around a type, of which the outermost are readonly. -/
def nest
    (marks : Nat) :
    (layers : Nat) →
    Ty →
    Ty
  | 0, core => core
  | layers + 1, core =>
      array none (nest (marks - 1) layers core) (decide (0 < marks))

mutual

/--
The type with the readonly marks of each nest of sequences moved outwards, as
the core of a nest with some more marks and layers around it.
-/
def outwardWithin
    (marks layers : Nat) :
    Ty →
    Ty
  | array _ element readonly =>
      outwardWithin (marks + readonly.toNat) (layers + 1) element
  | tuple _ elements readonly =>
      nest (marks + readonly.toNat) layers
        (tuple none (outwardAll elements)
          (decide (layers < marks + readonly.toNat)))
  | union _ members => nest marks layers (union none (outwardAll members))
  | intersection _ members =>
      nest marks layers (intersection none (outwardAll members))
  | type => nest marks layers type.form

/-- The types of a list with their readonly marks moved outwards. -/
def outwardAll :
    List Ty →
    List Ty
  | [] => []
  | type :: rest => outwardWithin 0 0 type :: outwardAll rest

end

/-- The type with the readonly marks of each nest moved outwards. -/
def outward
    (type : Ty) :
    Ty :=
  type.outwardWithin 0 0

/-- Moving marks in a list moves those of its types. -/
@[simp] theorem outwardAll_eq_map
    (types : List Ty) :
    outwardAll types = types.map outward := by
  induction types with
  | nil =>
      rfl
  | cons type rest inductionHypothesis =>
      simp [outwardAll, outward, inductionHypothesis]

/-- The written forms of a list are those of its types. -/
@[simp] theorem textAll_eq_map
    (types : List Ty) :
    textAll types = types.map text := by
  induction types with
  | nil =>
      rfl
  | cons type rest inductionHypothesis =>
      simp [textAll, inductionHypothesis]

/-- The written forms of members are in parentheses where needed. -/
@[simp] theorem textMembers_eq_map
    (types : List Ty) :
    textMembers types = types.map fun type => type.parenthesized type.text := by
  induction types with
  | nil =>
      rfl
  | cons type rest inductionHypothesis =>
      simp [textMembers, inductionHypothesis]

/-- The letters that a type is written with. -/
def letters
    (type : Ty) :
    List Char :=
  type.text.toList

/-- The letters that a type is written with as a part of a larger one. -/
def operand
    (type : Ty) :
    List Char :=
  (type.parenthesized type.text).toList

end Ty

/-- The marks of some readonly sequences. -/
def marksOf
    (count : Nat) :
    List Char :=
  (List.replicate count "readonly ".toList).flatten

/-- The brackets of some arrays. -/
def layersOf
    (count : Nat) :
    List Char :=
  (List.replicate count "[]".toList).flatten

/-- Letters behind an item and a separator, for each further item. -/
def further
    (separator : List Char)
    (write : Ty → List Char)
    (items : List Ty) :
    List Char :=
  items.flatMap fun item => separator ++ write item

namespace Ty

/-- A part that needs no parentheses is written as it is alone. -/
theorem operand_of_simple
    {type : Ty}
    (simple : type.needsParentheses = false) :
    type.operand = type.letters := by
  simp [operand, parenthesized, simple, letters]

/-- A part that needs parentheses is written in them. -/
theorem operand_of_composed
    {type : Ty}
    (composed : type.needsParentheses = true) :
    type.operand = '(' :: type.letters ++ [')'] := by
  simp [operand, parenthesized, composed, letters]

/-- An array is its element between a mark, if readonly, and brackets. -/
theorem operand_array
    {element : Ty} :
    (array occurrence element readonly).operand =
      marksOf readonly.toNat ++ element.operand ++ layersOf 1 := by
  rw [operand_of_simple (by rfl)]
  cases readonly <;> simp [letters, text, operand, marksOf, layersOf]

/-- A list with separators is its first item and the further ones. -/
theorem intercalate_cons
    (separator : String)
    (write : Ty → String)
    (first : Ty)
    (others : List Ty) :
    (String.intercalate separator ((first :: others).map write)).toList =
      (write first).toList ++
        further separator.toList (fun item => (write item).toList) others := by
  induction others generalizing first with
  | nil => simp [further]
  | cons second rest inductionHypothesis =>
      have behind := inductionHypothesis second
      simp only [List.map_cons, String.intercalate_cons_cons] at behind ⊢
      rw [String.toList_append, String.toList_append, behind]
      simp [further]

/-- The letters of a mutable tuple. -/
def bracketed :
    (elements : List Ty) →
    List Char
  | [] => ['[', ']']
  | first :: others =>
      '[' :: first.letters ++ further [',', ' '] letters others ++ [']']

/-- A tuple is its elements in brackets, behind a mark if readonly. -/
theorem operand_tuple
    {elements : List Ty} :
    (tuple occurrence elements readonly).operand =
      marksOf readonly.toNat ++ bracketed elements := by
  rw [operand_of_simple (by rfl)]
  cases elements with
  | nil =>
      cases readonly <;> simp [letters, text, marksOf, bracketed]
  | cons first others =>
      have inside := intercalate_cons ", " text first others
      cases readonly <;>
        simp only [letters, text, textAll_eq_map, String.toList_append, inside]
          <;> simp [marksOf, further, letters, bracketed]

/-- A union or an intersection, by the sign between its members. -/
inductive Composite :
    (sign : Char) →
    (parts : List Ty) →
    Ty →
    Prop
  | union {parts : List Ty} :
      Composite '|' parts (.union occurrence parts)
  | intersection {parts : List Ty} :
      Composite '&' parts (.intersection occurrence parts)

/-- A composite is its first member and the further ones behind its sign. -/
theorem letters_composite
    (composite : Composite sign (first :: others) type) :
    type.letters =
      first.operand ++ further [' ', sign, ' '] operand others := by
  let write (part : Ty) : String := part.parenthesized part.text
  cases composite with
  | union =>
      simp only [letters, text, List.isEmpty_cons, Bool.false_eq_true,
        if_false, textMembers_eq_map]
      exact intercalate_cons " | " write first others
  | intersection =>
      simp only [letters, text, List.isEmpty_cons, Bool.false_eq_true,
        if_false, textMembers_eq_map]
      exact intercalate_cons " & " write first others

/-- Composites of one sign move the marks of their parts. -/
theorem outwardWithin_composite
    {parts others : List Ty}
    (composite : Composite sign parts type)
    (counterpart : Composite sign others other)
    (same : parts.map outward = others.map outward)
    (marks layers : Nat) :
    type.outwardWithin marks layers = other.outwardWithin marks layers := by
  cases composite <;> cases counterpart <;>
    simp only [outwardWithin, outwardAll_eq_map, same]

/-- Readable types are composites of several parts or need no parentheses. -/
theorem readable_cases
    {type : Ty}
    (readable : type.Readable) :
    type.needsParentheses = false ∨
      type.needsParentheses = true ∧
        ∃ sign first second rest,
          Composite sign (first :: second :: rest) type ∧
            ∀ part ∈ first :: second :: rest, part.Readable := by
  have exists_parts (parts : List Ty) (several : 2 ≤ parts.length) :
      ∃ first second rest, parts = first :: second :: rest := by
    match parts, several with
    | first :: second :: rest, _ => exact ⟨first, second, rest, rfl⟩
  cases readable with
  | union several each =>
      obtain ⟨first, second, rest, rfl⟩ := exists_parts _ several
      exact .inr ⟨rfl, '|', first, second, rest, .union, each⟩
  | intersection several each =>
      obtain ⟨first, second, rest, rfl⟩ := exists_parts _ several
      exact .inr ⟨rfl, '&', first, second, rest, .intersection, each⟩
  | _ => exact .inl rfl

end Ty

section Endings

/-- Letters that do not go on with the brackets of an array. -/
def Stops
    (rest : List Char) :
    Prop :=
  rest.head? ≠ some '['

/-- Letters that do not go on with a further member either. -/
def Closes
    (rest : List Char) :
    Prop :=
  Stops rest ∧ rest.head? ≠ some ' '

/-- Marks end where something else than a mark begins. -/
theorem marksOf_unique
    {first second : Nat}
    {rest other : List Char}
    (restStarts : rest.head? ≠ some 'r')
    (otherStarts : other.head? ≠ some 'r')
    (same : marksOf first ++ rest = marksOf second ++ other) :
    first = second ∧ rest = other := by
  induction first generalizing second with
  | zero =>
      cases second with
      | zero => exact ⟨rfl, same⟩
      | succ second =>
          have starts : rest = marksOf (second + 1) ++ other := same
          exact absurd (by simp [starts, marksOf, List.replicate_succ])
            restStarts
  | succ first inductionHypothesis =>
      cases second with
      | zero =>
          have starts : marksOf (first + 1) ++ rest = other := same
          exact absurd (by simp [← starts, marksOf, List.replicate_succ])
            otherStarts
      | succ second =>
          simp only [marksOf, List.replicate_succ, List.flatten_cons,
            List.append_assoc] at same
          obtain ⟨rfl, behind⟩ :=
            inductionHypothesis (List.append_cancel_left same)
          exact ⟨rfl, behind⟩

/-- Brackets end where something else than a bracket begins. -/
theorem layersOf_unique
    {first second : Nat}
    {rest other : List Char}
    (restStops : Stops rest)
    (otherStops : Stops other)
    (same : layersOf first ++ rest = layersOf second ++ other) :
    first = second ∧ rest = other := by
  induction first generalizing second with
  | zero =>
      cases second with
      | zero => exact ⟨rfl, same⟩
      | succ second =>
          have starts : rest = layersOf (second + 1) ++ other := same
          exact absurd (by simp [starts, layersOf, List.replicate_succ])
            restStops
  | succ first inductionHypothesis =>
      cases second with
      | zero =>
          have starts : layersOf (first + 1) ++ rest = other := same
          exact absurd (by simp [← starts, layersOf, List.replicate_succ])
            otherStops
      | succ second =>
          simp only [layersOf, List.replicate_succ, List.flatten_cons,
            List.append_assoc] at same
          obtain ⟨rfl, behind⟩ :=
            inductionHypothesis (List.append_cancel_left same)
          exact ⟨rfl, behind⟩

/-- Items behind separators are told apart when each of them tells its end. -/
theorem further_unique
    {separator : List Char}
    {write : Ty → List Char}
    (ends : List Char → Prop)
    {first second : List Ty}
    {rest other : List Char}
    (unique :
      ∀ x ∈ first, ∀ y, y.Readable →
        ∀ rest other,
          ends rest →
          ends other →
          write x ++ rest = write y ++ other →
          x.outward = y.outward ∧ rest = other)
    (readable : ∀ y ∈ second, y.Readable)
    (separates : ∀ behind, ends (separator ++ behind))
    (restEnds : ends rest ∧ ∀ behind, rest ≠ separator ++ behind)
    (otherEnds : ends other ∧ ∀ behind, other ≠ separator ++ behind)
    (same :
      further separator write first ++ rest =
        further separator write second ++ other) :
    first.map Ty.outward = second.map Ty.outward ∧ rest = other := by
  have continues (items : List Ty) (behind : List Char) (holds : ends behind) :
      ends (further separator write items ++ behind) := by
    cases items with
    | nil => exact holds
    | cons item items =>
        simp only [further, List.flatMap_cons, List.append_assoc]
        exact separates _
  induction first generalizing second with
  | nil =>
      cases second with
      | nil => exact ⟨rfl, same⟩
      | cons y others =>
          simp only [further, List.flatMap_nil, List.nil_append,
            List.flatMap_cons, List.append_assoc] at same
          exact absurd same (restEnds.2 _)
  | cons x others inductionHypothesis =>
      simp only [further, List.flatMap_cons, List.append_assoc] at same
      cases second with
      | nil => exact absurd same.symm (otherEnds.2 _)
      | cons y remaining =>
          simp only [List.flatMap_cons, List.append_assoc] at same
          rw [List.forall_mem_cons] at unique readable
          obtain ⟨outward, behind⟩ :=
            unique.1 y readable.1 _ _ (continues others rest restEnds.1)
              (continues remaining other otherEnds.1)
              (List.append_cancel_left same)
          obtain ⟨outwards, ended⟩ :=
            inductionHypothesis unique.2 readable.2 behind
          exact ⟨by simp [outward, outwards], ended⟩

/-- Marks follow marks. -/
theorem marksOf_append
    (first second : Nat) :
    marksOf first ++ marksOf second = marksOf (first + second) := by
  rw [marksOf, marksOf, marksOf, List.replicate_add, List.flatten_append]

/-- Brackets follow brackets. -/
theorem layersOf_append
    (first second : Nat) :
    layersOf first ++ layersOf second = layersOf (first + second) := by
  rw [layersOf, layersOf, layersOf, List.replicate_add, List.flatten_append]

/-- The words that primitive types and truth values are written with. -/
def words : List String :=
  Primitive.all.map Primitive.name ++ ["true", "false"]

/-- The type that a word stands for. -/
def ofWord
    (word : String) :
    Ty :=
  match Primitive.ofName? word with
  | some kind => .primitive kind
  | none => .literal none (.boolean (word == "true"))

/-- The letters of the words. -/
def spellings : List (List Char) :=
  [['s', 't', 'r', 'i', 'n', 'g'], ['n', 'u', 'm', 'b', 'e', 'r'],
    ['b', 'o', 'o', 'l', 'e', 'a', 'n'], ['v', 'o', 'i', 'd'],
    ['n', 'e', 'v', 'e', 'r'], ['u', 'n', 'k', 'n', 'o', 'w', 'n'],
    ['a', 'n', 'y'], ['n', 'u', 'l', 'l'],
    ['u', 'n', 'd', 'e', 'f', 'i', 'n', 'e', 'd'], ['t', 'r', 'u', 'e'],
    ['f', 'a', 'l', 's', 'e']]

/-- A word is spelled with its letters. -/
theorem toList_mem_spellings
    (isWord : word ∈ words) :
    word.toList ∈ spellings := by
  have same : words.map String.toList = spellings := by
    simp [words, Primitive.all, Primitive.name, spellings]
  rw [← same]
  exact List.mem_map_of_mem isWord

/-- Words tell where they end. -/
theorem words_unique
    {first second : String}
    {rest other : List Char}
    (firstWord : first ∈ words)
    (secondWord : second ∈ words)
    (same : first.toList ++ rest = second.toList ++ other) :
    first = second ∧ rest = other := by
  have apart :
      ∀ first ∈ spellings, ∀ second ∈ spellings,
        first <+: second → first = second := by
    decide
  have firstSpelled := toList_mem_spellings firstWord
  have secondSpelled := toList_mem_spellings secondWord
  have equal : first.toList = second.toList := by
    rcases List.prefix_or_prefix_of_prefix ⟨rest, same⟩ ⟨other, rfl⟩ with
      begins | begins
    · exact apart _ firstSpelled _ secondSpelled begins
    · exact (apart _ secondSpelled _ firstSpelled begins).symm
  obtain rfl := String.toList_injective equal
  exact ⟨rfl, List.append_cancel_left same⟩

/-- A word begins with none of the signs that other types begin with. -/
theorem words_start
    (isWord : word ∈ words) :
    ∃ letter,
      word.toList.head? = some letter ∧
        letter ∉ ['r', '"', '[', '(', ']'] := by
  have starts :
      ∀ spelling ∈ spellings,
        spelling.head?.any (· ∉ ['r', '"', '[', '(', ']']) = true := by
    decide
  have first := starts _ (toList_mem_spellings isWord)
  cases begins : word.toList.head? with
  | none => cases begins ▸ first
  | some letter =>
      rw [begins] at first
      exact ⟨letter, rfl, of_decide_eq_true first⟩

/-- Letters that begin alike begin with the same letter. -/
theorem head_eq_of_append_eq
    {first second rest other : List Char}
    (firstStarts : first.head? = some letter)
    (secondStarts : second.head? = some counterpart)
    (same : first ++ rest = second ++ other) :
    letter = counterpart := by
  have heads := congrArg List.head? same
  simpa [List.head?_append, firstStarts, secondStarts] using heads

end Endings

namespace Ty

/-- The core of a nest of sequences, by the sign that it begins with. -/
inductive Core :
    (sign : Option Char) →
    Ty →
    Prop
  | word :
      word ∈ words →
      type.operand = word.toList →
      (∀ marks layers,
        type.outwardWithin marks layers = nest marks layers (ofWord word)) →
      Core none type
  | quoted {contents : Text.RawText} :
      contents.Decoded →
      Core (some '"') (.literal occurrence (.string contents))
  | tuple {elements : List Ty} :
      (∀ element ∈ elements, element.Readable) →
      Core (some '[') (.tuple occurrence elements false)
  | composite :
      type.needsParentheses = true →
      type.Readable →
      Core (some '(') type

/-- What a core begins with tells its sign. -/
theorem Core.head
    (core : Core sign type) :
    ∃ letter,
      type.operand.head? = some letter ∧ letter ∉ ['r', ']'] ∧
        sign = if letter ∈ ['"', '[', '('] then some letter else none := by
  cases core with
  | word isWord written _ =>
      obtain ⟨letter, starts, plain⟩ := words_start isWord
      simp only [List.mem_cons, List.not_mem_nil, or_false, not_or] at plain
      obtain ⟨notMark, notQuote, notBracket, notParenthesis, notEnd⟩ := plain
      refine ⟨letter, written ▸ starts, by simp [notMark, notEnd], ?_⟩
      simp [notQuote, notBracket, notParenthesis]
  | quoted =>
      refine ⟨'"', ?_, by decide, rfl⟩
      rw [operand_of_simple (by rfl)]
      simp [letters, text, Literal.text, Text.RawText.quoted]
  | @tuple _ elements =>
      refine ⟨'[', ?_, by decide, rfl⟩
      rw [operand_tuple]
      cases elements <;> simp [marksOf, bracketed]
  | composite parentheses =>
      exact ⟨'(', by simp [operand_of_composed parentheses], by decide, rfl⟩

/-- A core begins with no mark. -/
theorem Core.starts
    (core : Core sign type) :
    (type.operand ++ rest).head? ≠ some 'r' := by
  obtain ⟨letter, starts, plain, -⟩ := core.head
  intro marked
  simp only [List.head?_append, starts, Option.some_or] at marked
  cases marked
  exact plain (List.mem_cons_self ..)

/-- Cores with the same letters have the same sign. -/
theorem Core.sign_eq
    (core : Core sign type)
    (otherCore : Core otherSign other)
    (same : type.operand ++ rest = other.operand ++ behind) :
    sign = otherSign := by
  obtain ⟨letter, starts, -, rfl⟩ := core.head
  obtain ⟨counterpart, otherStarts, -, rfl⟩ := otherCore.head
  rw [head_eq_of_append_eq starts otherStarts same]

/-- A primitive type is written with a word. -/
theorem core_primitive
    (kind : Primitive) :
    Core none (.primitive kind) := by
  have isWord : kind.name ∈ words := by
    cases kind <;> simp [words, Primitive.all]
  have found : ofWord kind.name = .primitive kind := by
    cases kind <;> rfl
  exact .word isWord rfl fun _ _ => by rw [found]; rfl

/-- A truth value is written with a word. -/
theorem core_boolean
    (occurrence : Occurrence)
    (value : Bool) :
    Core none (.literal occurrence (.boolean value)) := by
  have isWord : (if value then "true" else "false") ∈ words := by
    cases value <;> simp [words]
  have found :
      ofWord (if value then "true" else "false") =
        .literal none (.boolean value) := by
    cases value <;> rfl
  exact .word isWord rfl fun _ _ => by rw [found]; rfl

/-- A readable type is a nest around a core. -/
theorem Readable.exists_core
    {type : Ty}
    (readable : type.Readable) :
    ∃ count depth sign core,
      Core sign core ∧
        ∀ marks layers,
          marksOf marks ++ type.operand ++ layersOf layers =
              marksOf (marks + count) ++ core.operand ++
                layersOf (layers + depth) ∧
            type.outwardWithin marks layers =
              core.outwardWithin (marks + count) (layers + depth) := by
  induction readable with
  | primitive =>
      exact ⟨0, 0, _, _, core_primitive _, fun _ _ => ⟨rfl, rfl⟩⟩
  | quoted decoded =>
      exact ⟨0, 0, _, _, .quoted decoded, fun _ _ => ⟨rfl, rfl⟩⟩
  | boolean =>
      exact ⟨0, 0, _, _, core_boolean _ _, fun _ _ => ⟨rfl, rfl⟩⟩
  | @array element occurrence readonly _ inductionHypothesis =>
      obtain ⟨count, depth, sign, core, isCore, each⟩ := inductionHypothesis
      refine ⟨readonly.toNat + count, 1 + depth, sign, core, isCore,
        fun marks layers => ?_⟩
      obtain ⟨written, outward⟩ := each (marks + readonly.toNat) (layers + 1)
      simp only [Nat.add_assoc] at written outward
      refine ⟨?_, outward⟩
      rw [operand_array, ← written,
        ← marksOf_append marks, Nat.add_comm layers, ← layersOf_append 1]
      simp only [List.append_assoc]
  | @tuple elements occurrence readonly each =>
      refine ⟨readonly.toNat, 0, _, .tuple occurrence elements false,
        .tuple each, fun marks layers => ⟨?_, rfl⟩⟩
      rw [operand_tuple, operand_tuple, ← marksOf_append]
      simp [marksOf]
  | union several each =>
      refine ⟨0, 0, _, _, .composite ?_ (.union several each),
        fun _ _ => ⟨rfl, rfl⟩⟩
      exact decide_eq_true several
  | intersection several each =>
      refine ⟨0, 0, _, _, .composite ?_ (.intersection several each),
        fun _ _ => ⟨rfl, rfl⟩⟩
      exact decide_eq_true several

/-- A part tells where it ends and what it is, unless brackets follow. -/
def UniqueInside
    (type : Ty) :
    Prop :=
  ∀ ⦃other : Ty⦄ ⦃marks otherMarks layers otherLayers rest behind⦄,
    other.Readable →
    Stops rest →
    Stops behind →
    marksOf marks ++ type.operand ++ layersOf layers ++ rest =
      marksOf otherMarks ++ other.operand ++ layersOf otherLayers ++ behind →
    type.outwardWithin marks layers =
        other.outwardWithin otherMarks otherLayers ∧
      rest = behind

/-- A whole type tells where it ends and what it is, unless more follows. -/
def UniqueAlone
    (type : Ty) :
    Prop :=
  ∀ ⦃other : Ty⦄ ⦃rest behind⦄,
    other.Readable →
    Closes rest →
    Closes behind →
    type.letters ++ rest = other.letters ++ behind →
    type.outward = other.outward ∧ rest = behind

/-- The members of a composite tell where they end and what they are. -/
def MembersUnique
    (type : Ty) :
    Prop :=
  ∀ ⦃sign parts⦄, Composite sign parts type →
    ∀ part ∈ parts, part.UniqueInside

/-- A part by itself tells where it ends and what it is. -/
theorem UniqueInside.bare
    {type other : Ty}
    (unique : type.UniqueInside)
    (readable : other.Readable)
    (stops : Stops rest)
    (otherStops : Stops behind)
    (same : type.operand ++ rest = other.operand ++ behind) :
    type.outward = other.outward ∧ rest = behind := by
  have bare :
      marksOf 0 ++ type.operand ++ layersOf 0 ++ rest =
        marksOf 0 ++ other.operand ++ layersOf 0 ++ behind := by
    simpa [marksOf, layersOf] using same
  exact unique readable stops otherStops bare

/-- A core tells what it is when it can be told from those of its sign. -/
theorem uniqueInside_of_core
    {type : Ty}
    (core : Core sign type)
    (unique :
      ∀ other rest behind,
        Core sign other →
        type.operand ++ rest = other.operand ++ behind →
        rest = behind ∧
          ∀ marks layers,
            type.outwardWithin marks layers =
              other.outwardWithin marks layers) :
    type.UniqueInside := by
  intro other marks otherMarks layers otherLayers rest behind readable stops
    otherStops same
  obtain ⟨count, depth, otherSign, otherCore, isCore, each⟩ :=
    readable.exists_core
  obtain ⟨written, outward⟩ := each otherMarks otherLayers
  rw [written] at same
  simp only [List.append_assoc] at same
  -- Both nests come down to their cores: the marks in front are equally many
  -- since no core begins with a mark, and so are the layers behind.
  obtain ⟨rfl, sameCore⟩ := marksOf_unique core.starts isCore.starts same
  cases core.sign_eq isCore sameCore
  obtain ⟨sameLayers, alike⟩ := unique otherCore _ _ isCore sameCore
  obtain ⟨rfl, ended⟩ := layersOf_unique stops otherStops sameLayers
  exact ⟨(alike _ _).trans outward.symm, ended⟩

/-- An array tells what it is when its element does. -/
theorem UniqueInside.array
    {element : Ty}
    (unique : element.UniqueInside) :
    (Ty.array occurrence element readonly).UniqueInside := by
  intro other marks otherMarks layers otherLayers rest behind readable stops
    otherStops same
  have inside :
      marksOf (marks + readonly.toNat) ++ element.operand ++
          layersOf (layers + 1) ++ rest =
        marksOf otherMarks ++ other.operand ++ layersOf otherLayers ++
          behind := by
    rw [← same, operand_array, ← marksOf_append, Nat.add_comm layers,
      ← layersOf_append]
    simp only [List.append_assoc]
  exact unique readable stops otherStops inside

/-- Words tell what they are. -/
theorem UniqueInside.word
    {type : Ty}
    (core : Core none type) :
    type.UniqueInside := by
  refine uniqueInside_of_core core fun other rest behind otherCore same => ?_
  cases core with
  | word isWord written outward =>
      cases otherCore with
      | word otherWord otherWritten otherOutward =>
          rw [written, otherWritten] at same
          obtain ⟨rfl, ended⟩ := words_unique isWord otherWord same
          exact ⟨ended, fun marks layers =>
            (outward marks layers).trans (otherOutward marks layers).symm⟩

/-- Quoted texts tell what they are. -/
theorem UniqueInside.quoted
    {contents : Text.RawText}
    (decoded : contents.Decoded) :
    (Ty.literal occurrence (.string contents)).UniqueInside := by
  refine uniqueInside_of_core (.quoted decoded)
    fun other rest behind otherCore same => ?_
  cases otherCore with
  | quoted otherDecoded =>
      rw [operand_of_simple (by rfl), operand_of_simple (by rfl)] at same
      obtain ⟨rfl, ended⟩ :=
        Text.RawText.quoted_unique decoded otherDecoded same
      exact ⟨ended, fun _ _ => rfl⟩

/-- A readable part does not begin with a closing bracket. -/
theorem Readable.operand_starts
    {type : Ty}
    (readable : type.Readable) :
    ∃ letter, type.operand.head? = some letter ∧ letter ≠ ']' := by
  obtain ⟨count, depth, sign, core, isCore, each⟩ := readable.exists_core
  obtain ⟨letter, starts, plain, -⟩ := isCore.head
  have written : type.operand =
      marksOf count ++ core.operand ++ layersOf depth := by
    simpa [marksOf, layersOf] using (each 0 0).1
  cases count with
  | zero =>
      refine ⟨letter, by simp [written, marksOf, starts], ?_⟩
      rintro rfl
      exact plain (by simp)
  | succ count =>
      exact ⟨'r', by simp [written, marksOf, List.replicate_succ], by decide⟩

/-- A readable type does not begin with a closing bracket. -/
theorem Readable.letters_start
    {type : Ty}
    (readable : type.Readable) :
    ∃ letter, type.letters.head? = some letter ∧ letter ≠ ']' := by
  rcases readable_cases readable with
    simple | ⟨-, sign, first, second, rest, composite, each⟩
  · exact operand_of_simple simple ▸ readable.operand_starts
  · obtain ⟨letter, starts, other⟩ :=
      (each first (List.mem_cons_self ..)).operand_starts
    exact ⟨letter, by simp [letters_composite composite, starts], other⟩

/-- Elements between brackets tell what they are when each of them does. -/
theorem bracketed_unique
    {first second : List Ty}
    (firstReadable : ∀ element ∈ first, element.Readable)
    (secondReadable : ∀ element ∈ second, element.Readable)
    (unique : ∀ element ∈ first, element.UniqueAlone)
    (same : bracketed first ++ rest = bracketed second ++ other) :
    first.map outward = second.map outward ∧ rest = other := by
  have nonempty {element : Ty} (readable : element.Readable) (behind ending) :
      element.letters ++ behind ≠ ']' :: ending := by
    intro closes
    obtain ⟨letter, starts, differs⟩ := readable.letters_start
    have bracket : [']'].head? = some ']' := rfl
    exact differs (head_eq_of_append_eq starts bracket closes)
  cases first with
  | nil =>
      cases second with
      | nil => exact ⟨rfl, by simpa [bracketed] using same⟩
      | cons y others =>
          simp only [bracketed, List.cons_append, List.nil_append,
            List.append_assoc, List.cons.injEq, true_and] at same
          exact absurd same.symm
            (nonempty (secondReadable y (List.mem_cons_self ..)) _ _)
  | cons x others =>
      cases second with
      | nil =>
          simp only [bracketed, List.cons_append, List.nil_append,
            List.append_assoc, List.cons.injEq, true_and] at same
          exact absurd same
            (nonempty (firstReadable x (List.mem_cons_self ..)) _ _)
      | cons y remaining =>
          simp only [bracketed, List.cons_append, List.nil_append,
            List.append_assoc, List.cons.injEq, true_and] at same
          rw [List.forall_mem_cons] at unique secondReadable
          have closes (items : List Ty) (behind : List Char) :
              Closes (further [',', ' '] letters items ++ ']' :: behind) := by
            cases items <;> simp [Closes, Stops, further]
          obtain ⟨outward, behind⟩ :=
            unique.1 secondReadable.1 (closes _ _) (closes _ _) same
          obtain ⟨outwards, ended⟩ :=
            further_unique Closes
              (fun x member y readable rest other => unique.2 x member readable)
              secondReadable.2 (by simp [Closes, Stops])
              (by simp [Closes, Stops]) (by simp [Closes, Stops]) behind
          exact ⟨by simp [outward, outwards], (List.cons.inj ended).2⟩

/-- Tuples tell what they are when their elements do. -/
theorem UniqueInside.tuple
    {elements : List Ty}
    (readable : ∀ element ∈ elements, element.Readable)
    (unique : ∀ element ∈ elements, element.UniqueAlone) :
    (Ty.tuple occurrence elements readonly).UniqueInside := by
  have mutable : (Ty.tuple occurrence elements false).UniqueInside := by
    refine uniqueInside_of_core (.tuple readable)
      fun other rest behind otherCore same => ?_
    cases otherCore with
    | tuple otherReadable =>
        rw [operand_tuple, operand_tuple, List.append_assoc,
          List.append_assoc] at same
        obtain ⟨outwards, ended⟩ :=
          bracketed_unique readable otherReadable unique
            (List.append_cancel_left same)
        refine ⟨ended, fun marks layers => ?_⟩
        simp only [outwardWithin, outwardAll_eq_map, outwards]
  intro other marks otherMarks layers otherLayers rest behind otherReadable
    stops otherStops same
  have inside :
      marksOf (marks + readonly.toNat) ++
            (Ty.tuple occurrence elements false).operand ++ layersOf layers ++
          rest =
        marksOf otherMarks ++ other.operand ++ layersOf otherLayers ++
          behind := by
    rw [← same, operand_tuple, operand_tuple, ← marksOf_append]
    simp [marksOf]
  exact mutable otherReadable stops otherStops inside

/-- Composites tell what they are, unless more follows, when members do. -/
theorem composite_unique
    {type other : Ty}
    (composite : Composite sign (first :: second :: others) type)
    (counterpart : Composite otherSign (x :: y :: remaining) other)
    (unique : ∀ part ∈ first :: second :: others, part.UniqueInside)
    (readable : ∀ part ∈ x :: y :: remaining, part.Readable)
    (closes : Closes rest)
    (otherCloses : Closes behind)
    (same : type.letters ++ rest = other.letters ++ behind) :
    (∀ marks layers,
      type.outwardWithin marks layers = other.outwardWithin marks layers) ∧
      rest = behind := by
  rw [letters_composite composite, letters_composite counterpart] at same
  rw [List.forall_mem_cons] at unique readable
  simp only [List.append_assoc] at same
  obtain ⟨outward, behindFirst⟩ :=
    unique.1.bare readable.1 (by simp [further, Stops])
      (by simp [further, Stops]) same
  -- The sign behind the first member tells a union from an intersection.
  have sameSign : sign = otherSign := by
    simp only [further, List.flatMap_cons, List.cons_append] at behindFirst
    exact (List.cons.inj (List.cons.inj behindFirst).2).1
  subst sameSign
  have ends {behind : List Char} (closes : Closes behind) :
      Stops behind ∧ ∀ more, behind ≠ [' ', sign, ' '] ++ more := by
    refine ⟨closes.1, fun more begins => closes.2 ?_⟩
    rw [begins]
    rfl
  obtain ⟨outwards, ended⟩ :=
    further_unique Stops
      (fun part member other readable rest behind =>
        (unique.2 part member).bare readable)
      readable.2
      (by simp [Stops]) (ends closes) (ends otherCloses) behindFirst
  exact ⟨outwardWithin_composite composite counterpart
    (by simp only [List.map_cons] at outwards ⊢; rw [outward, outwards]), ended⟩

/-- Composites tell what they are when their members do. -/
theorem UniqueInside.composite
    {type : Ty}
    (parentheses : type.needsParentheses = true)
    (readable : type.Readable)
    (unique : type.MembersUnique) :
    type.UniqueInside := by
  refine uniqueInside_of_core (.composite parentheses readable)
    fun other rest behind otherCore same => ?_
  cases otherCore with
  | composite otherParentheses otherReadable =>
      rw [operand_of_composed parentheses,
        operand_of_composed otherParentheses] at same
      simp only [List.cons_append, List.append_assoc, List.cons.injEq,
        true_and, List.nil_append] at same
      rcases readable_cases readable with
        simple | ⟨-, sign, first, second, others, composite, each⟩
      · cases parentheses.symm.trans simple
      rcases readable_cases otherReadable with
        simple | ⟨-, otherSign, x, y, remaining, counterpart, otherEach⟩
      · cases otherParentheses.symm.trans simple
      obtain ⟨outward, ended⟩ :=
        composite_unique composite counterpart (unique composite)
          otherEach (by simp [Closes, Stops]) (by simp [Closes, Stops]) same
      exact ⟨(List.cons.inj ended).2, outward⟩

/-- A type tells alone what it is when it and its members do so inside. -/
theorem uniqueAlone_of_inside
    {type : Ty}
    (readable : type.Readable)
    (unique : type.UniqueInside)
    (members : type.MembersUnique) :
    type.UniqueAlone := by
  intro other rest behind otherReadable closes otherCloses same
  rcases readable_cases readable with
    plain | ⟨-, sign, first, second, others, isComposite, each⟩
  · rcases readable_cases otherReadable with
      otherPlain | ⟨-, otherSign, x, y, remaining, counterpart, otherEach⟩
    · refine unique.bare otherReadable closes.1 otherCloses.1 ?_
      rwa [operand_of_simple plain, operand_of_simple otherPlain]
    -- Only one of the two goes on with a sign between members.
    · rw [← operand_of_simple plain, letters_composite counterpart,
        List.append_assoc] at same
      obtain ⟨-, ended⟩ :=
        unique.bare (otherEach x (List.mem_cons_self ..)) closes.1
          (by simp [further, Stops]) same
      exact absurd (by rw [ended]; rfl) closes.2
  · rcases readable_cases otherReadable with
      otherPlain | ⟨-, otherSign, x, y, remaining, counterpart, otherEach⟩
    · rw [letters_composite isComposite, ← operand_of_simple otherPlain,
        List.append_assoc] at same
      obtain ⟨-, ended⟩ :=
        (members isComposite first (List.mem_cons_self ..)).bare
          otherReadable (by simp [further, Stops]) otherCloses.1 same
      exact absurd (by rw [← ended]; rfl) otherCloses.2
    · obtain ⟨outward, ended⟩ :=
        composite_unique isComposite counterpart (members isComposite)
          otherEach closes otherCloses same
      exact ⟨outward 0 0, ended⟩

/-- Readable types tell what they are. -/
theorem Readable.unique
    {type : Ty}
    (readable : type.Readable) :
    type.UniqueInside ∧ type.UniqueAlone := by
  have simple {type : Ty} (readable : type.Readable)
      (inside : type.UniqueInside)
      (apart : ∀ sign parts, ¬ Composite sign parts type) :
      type.UniqueInside ∧ type.UniqueAlone :=
    ⟨inside, uniqueAlone_of_inside readable inside
      fun sign parts composite => absurd composite (apart sign parts)⟩
  have composed {type : Ty} (readable : type.Readable)
      (parentheses : type.needsParentheses = true)
      (members : type.MembersUnique) :
      type.UniqueInside ∧ type.UniqueAlone := by
    have inside := UniqueInside.composite parentheses readable members
    exact ⟨inside, uniqueAlone_of_inside readable inside members⟩
  induction readable with
  | primitive => exact simple .primitive (.word (core_primitive _)) nofun
  | quoted decoded => exact simple (.quoted decoded) (.quoted decoded) nofun
  | boolean => exact simple .boolean (.word (core_boolean _ _)) nofun
  | array readable inductionHypothesis =>
      exact simple (.array readable) inductionHypothesis.1.array nofun
  | tuple each inductionHypothesis =>
      exact simple (.tuple each)
        (.tuple each fun element member =>
          (inductionHypothesis element member).2)
        nofun
  | union several each inductionHypothesis =>
      refine composed (.union several each) (decide_eq_true several) ?_
      rintro sign parts ⟨⟩ part member
      exact (inductionHypothesis part member).1
  | intersection several each inductionHypothesis =>
      refine composed (.intersection several each) (decide_eq_true several) ?_
      rintro sign parts ⟨⟩ part member
      exact (inductionHypothesis part member).1

/-- A nest has as many marks as layers at most. -/
theorem operand_nest
    (marks layers : Nat)
    (core : Ty) :
    (nest marks layers core).operand =
      marksOf (min marks layers) ++ core.operand ++ layersOf layers := by
  induction layers generalizing marks with
  | zero => simp [nest, marksOf, layersOf]
  | succ layers inductionHypothesis =>
      rw [nest, operand_array, inductionHypothesis, ← layersOf_append]
      cases marks with
      | zero => simp [marksOf]
      | succ marks =>
          rw [Nat.add_min_add_right, Nat.add_comm (min marks layers),
            ← marksOf_append]
          simp

/-- The innermost layer of a nest is marked if there are enough marks. -/
theorem nest_succ
    (marks layers : Nat)
    (core : Ty) :
    nest marks (layers + 1) core =
      nest marks layers (array none core (decide (layers < marks))) := by
  induction layers generalizing marks with
  | zero => rfl
  | succ layers inductionHypothesis =>
      have fewer : (layers < marks - 1) = (layers + 1 < marks) :=
        propext (by omega)
      rw [nest, inductionHypothesis, nest]
      simp only [fewer]

/-- Composites whose members are written alike are written alike. -/
theorem operand_composite
    {parts others : List Ty}
    (composite : Composite sign parts type)
    (counterpart : Composite sign others other)
    (same : parts.map operand = others.map operand) :
    type.operand = other.operand := by
  have strings (items : List Ty) :
      textMembers items = (items.map operand).map String.ofList := by
    simp [operand, String.ofList_toList, Function.comp_def]
  have texts : textMembers parts = textMembers others := by
    rw [strings, strings, same]
  have lengths := congrArg List.length same
  simp only [List.length_map] at lengths
  have empty : parts.isEmpty = others.isEmpty := by
    cases parts <;> cases others <;> first | rfl | cases lengths
  have sameNeed : type.needsParentheses = other.needsParentheses := by
    cases composite <;> cases counterpart <;>
      simp only [needsParentheses, lengths]
  have sameText : type.text = other.text := by
    cases composite <;> cases counterpart <;> simp only [text, empty, texts]
  rw [operand, operand, parenthesized, parenthesized, sameNeed, sameText]

/-- A nest with a layer needs no parentheses. -/
theorem Readable.needsParentheses_outwardWithin
    {type : Ty}
    (readable : type.Readable)
    (marks layers : Nat) :
    (type.outwardWithin marks (layers + 1)).needsParentheses = false := by
  induction readable generalizing marks layers with
  | array _ inductionHypothesis => exact inductionHypothesis _ _
  | _ => rfl

/-- Moving marks outwards leaves the parentheses around a type. -/
theorem Readable.needsParentheses_outward
    {type : Ty}
    (readable : type.Readable) :
    type.outward.needsParentheses = type.needsParentheses := by
  cases readable with
  | array readable => exact readable.needsParentheses_outwardWithin _ _
  | union => simp [outward, outwardWithin, nest, needsParentheses]
  | intersection => simp [outward, outwardWithin, nest, needsParentheses]
  | _ => rfl

/-- What a type is written with as a part tells what it is written with. -/
theorem letters_eq_of_operand_eq
    {type other : Ty}
    (sameNeed : type.needsParentheses = other.needsParentheses)
    (same : type.operand = other.operand) :
    type.letters = other.letters := by
  cases need : other.needsParentheses with
  | false =>
      rwa [operand_of_simple (sameNeed.trans need),
        operand_of_simple need] at same
  | true =>
      rw [operand_of_composed (sameNeed.trans need),
        operand_of_composed need] at same
      simpa using same

/-- Elements that are written alike are written alike between brackets. -/
theorem bracketed_eq_of_letters
    {first second : List Ty}
    (same : first.map letters = second.map letters) :
    bracketed first = bracketed second := by
  have behind (items : List Ty) :
      further [',', ' '] letters items =
        (items.map letters).flatMap ([',', ' '] ++ ·) := by
    rw [further, List.flatMap_map]
  cases first with
  | nil =>
      cases second with
      | nil => rfl
      | cons => cases same
  | cons x others =>
      cases second with
      | nil => cases same
      | cons y remaining =>
          obtain ⟨front, rest⟩ := List.cons.inj same
          rw [bracketed, bracketed, behind, behind, front, rest]

/-- Moving marks outwards leaves what the parts of a nest are written with. -/
theorem Readable.operand_outwardWithin
    {type : Ty}
    (readable : type.Readable)
    (marks layers : Nat)
    (enough : marks ≤ layers) :
    (type.outwardWithin marks layers).operand =
      marksOf marks ++ type.operand ++ layersOf layers := by
  have bare {parts : List Ty}
      (moved :
        ∀ part ∈ parts, ∀ marks layers,
          marks ≤ layers →
          (part.outwardWithin marks layers).operand =
            marksOf marks ++ part.operand ++ layersOf layers) :
      ∀ part ∈ parts, part.outward.operand = part.operand := by
    intro part member
    simpa [marksOf, layersOf, outward] using
      moved part member 0 0 (Nat.le_refl 0)
  induction readable generalizing marks layers with
  | array _ inductionHypothesis =>
      rename_i occurrence readonly _
      have fits : marks + readonly.toNat ≤ layers + 1 :=
        Nat.add_le_add enough readonly.toNat_le
      rw [outwardWithin, inductionHypothesis _ _ fits, operand_array,
        ← marksOf_append, Nat.add_comm layers, ← layersOf_append]
      simp only [List.append_assoc]
  | @tuple elements occurrence readonly each inductionHypothesis =>
      have written :
          bracketed (elements.map outward) = bracketed elements := by
        refine bracketed_eq_of_letters ?_
        simp only [List.map_map, List.map_inj_left, Function.comp_apply]
        intro element member
        exact letters_eq_of_operand_eq
          (each element member).needsParentheses_outward
          (bare inductionHypothesis element member)
      have shared :
          min (marks + readonly.toNat) layers +
              (decide (layers < marks + readonly.toNat)).toNat =
            marks + readonly.toNat := by
        have single := readonly.toNat_le
        by_cases more : layers < marks + readonly.toNat
        · simp only [more, decide_true, Bool.toNat_true]
          omega
        · simp only [more, decide_false, Bool.toNat_false]
          omega
      rw [outwardWithin, operand_nest, outwardAll_eq_map, operand_tuple,
        operand_tuple, written, ← List.append_assoc (marksOf _),
        marksOf_append, shared, ← marksOf_append]
      simp only [List.append_assoc]
  | @union occurrence parts several each inductionHypothesis =>
      have written :=
        operand_composite (@Composite.union none (parts.map outward))
          (@Composite.union occurrence parts)
          (by simpa using bare inductionHypothesis)
      rw [outwardWithin, operand_nest, Nat.min_eq_left enough,
        outwardAll_eq_map, written]
  | @intersection occurrence parts several each inductionHypothesis =>
      have written :=
        operand_composite (@Composite.intersection none (parts.map outward))
          (@Composite.intersection occurrence parts)
          (by simpa using bare inductionHypothesis)
      rw [outwardWithin, operand_nest, Nat.min_eq_left enough,
        outwardAll_eq_map, written]
  | _ =>
      rw [outwardWithin, operand_nest, Nat.min_eq_left enough]
      · rfl
      all_goals nofun

/-- Moving marks outwards leaves what a type is written with. -/
theorem Readable.text_outward
    {type : Ty}
    (readable : type.Readable) :
    type.outward.text = type.text := by
  have written : type.outward.operand = type.operand := by
    simpa [marksOf, layersOf, outward] using
      readable.operand_outwardWithin 0 0 (Nat.le_refl 0)
  exact String.toList_injective
    (letters_eq_of_operand_eq readable.needsParentheses_outward written)

/-- Whether a type is a readonly array or tuple. -/
def isMarked :
    Ty →
    Bool
  | array _ _ readonly => readonly
  | tuple _ _ readonly => readonly
  | _ => false

/-- Whether a type is a mutable array of readonly arrays or tuples. -/
def hidesMark :
    Ty →
    Bool
  | array _ element false => element.isMarked
  | _ => false

/-- No readonly sequence is the element of a mutable array. -/
def MarksOutside
    (type : Ty) :
    Prop :=
  type.Every fun node => node.hidesMark = false

/-- A nest whose layers are all marked has no use for another mark. -/
theorem nest_saturated
    (layers : Nat)
    (core : Ty) :
    nest (layers + 1) layers core = nest layers layers core := by
  induction layers with
  | zero => rfl
  | succ layers inductionHypothesis =>
      rw [nest, nest, Nat.add_sub_cancel, inductionHypothesis]
      rfl

/-- The mark of a core stays where all layers are marked. -/
theorem nest_marked
    {marks layers : Nat}
    {readonly : Bool}
    (build : Bool → Ty)
    (fits : marks = layers ∨ marks ≤ layers ∧ readonly = false) :
    nest (marks + readonly.toNat) layers
        (build (decide (layers < marks + readonly.toNat))) =
      nest marks layers (build readonly) := by
  cases readonly with
  | false =>
      have unmarked : ¬ layers < marks := by omega
      simp [unmarked]
  | true =>
      obtain rfl : marks = layers := by simpa using fits
      simp [nest_saturated]

/-- Where the marks are outside they do not move. -/
theorem Readable.outwardWithin_eq
    {type : Ty}
    (readable : type.Readable)
    (outside : type.MarksOutside)
    (marks layers : Nat)
    (fits : marks = layers ∨ marks ≤ layers ∧ type.isMarked = false) :
    type.outwardWithin marks layers = nest marks layers type.form := by
  have moved {parts : List Ty}
      (stays :
        ∀ part ∈ parts, part.MarksOutside →
          ∀ marks layers,
            (marks = layers ∨ marks ≤ layers ∧ part.isMarked = false) →
            part.outwardWithin marks layers = nest marks layers part.form)
      (each : ∀ part ∈ parts, part.MarksOutside) :
      parts.map outward = parts.map form :=
    List.map_inj_left.mpr fun part member =>
      stays part member (each part member) 0 0 (.inl rfl)
  induction readable generalizing marks layers with
  | @array element occurrence readonly _ inductionHypothesis =>
      have inside := outside.inside (List.mem_singleton_self element)
      have shown : (Ty.array occurrence element readonly).hidesMark = false :=
        outside.here
      have innerFits :
          marks + readonly.toNat = layers + 1 ∨
            marks + readonly.toNat ≤ layers + 1 ∧
              element.isMarked = false := by
        cases readonly with
        | false =>
            refine .inr ⟨?_, shown⟩
            simp only [Bool.toNat_false]
            omega
        | true =>
            obtain rfl : marks = layers := by simpa [isMarked] using fits
            exact .inl rfl
      simp only [isMarked] at fits
      rw [outwardWithin, inductionHypothesis inside _ _ innerFits, nest_succ,
        nest_marked (Ty.array none element.form) fits, form]
  | @tuple elements occurrence readonly each inductionHypothesis =>
      have same := moved inductionHypothesis fun part => outside.inside
      simp only [isMarked] at fits
      rw [outwardWithin, outwardAll_eq_map, same,
        nest_marked (Ty.tuple none (elements.map form)) fits, form,
        formAll_eq_map]
  | @union occurrence parts several each inductionHypothesis =>
      have same := moved inductionHypothesis fun part => outside.inside
      rw [outwardWithin, outwardAll_eq_map, same, form, formAll_eq_map]
  | @intersection occurrence parts several each inductionHypothesis =>
      have same := moved inductionHypothesis fun part => outside.inside
      rw [outwardWithin, outwardAll_eq_map, same, form, formAll_eq_map]
  | _ => rfl

/--
Two written types are the same exactly if the types are the same up to moving
their readonly marks outwards. Where no mark can be moved they are the same
exactly if the types are.
-/
theorem text_eq_iff
    {type other : Ty}
    (readable : type.Readable)
    (otherReadable : other.Readable) :
    (type.text = other.text ↔ type.outward = other.outward) ∧
      (type.MarksOutside →
        other.MarksOutside →
        (type.text = other.text ↔ type.form = other.form)) := by
  have told : type.text = other.text ↔ type.outward = other.outward := by
    constructor
    · intro same
      have letters : type.letters ++ [] = other.letters ++ [] :=
        congrArg (· ++ []) (congrArg String.toList same)
      exact (readable.unique.2 otherReadable (by simp [Closes, Stops])
        (by simp [Closes, Stops]) letters).1
    · intro same
      rw [← readable.text_outward, same, otherReadable.text_outward]
  refine ⟨told, fun outside otherOutside => ?_⟩
  have stays : type.outward = type.form :=
    readable.outwardWithin_eq outside 0 0 (.inl rfl)
  have otherStays : other.outward = other.form :=
    otherReadable.outwardWithin_eq otherOutside 0 0 (.inl rfl)
  rw [told, stays, otherStays]

/--
A union of a readonly array of arrays and a text is told from all others, but
not from its copies.
-/
theorem text_eq_iff_copies :
    let copy (outer inner last : Occurrence) : Ty :=
      .union outer
        [.array inner (.array none (.primitive .string) false) true,
          .literal last (.string ⟨[.character 'a']⟩)]
    let first := copy none none none
    let second := copy (some 2) (some 1) (some 0)
    first.Readable ∧ second.Readable ∧
      first.MarksOutside ∧ second.MarksOutside ∧
      first.text = second.text ∧ first.form = second.form := by
  intro copy first second
  have readable (outer inner last : Occurrence) :
      (copy outer inner last).Readable := by
    refine .union (Nat.le_refl 2) (List.forall_mem_cons.mpr ⟨?_, ?_⟩)
    · exact .array (.array .primitive)
    · exact List.forall_mem_singleton.mpr
        (.quoted (List.forall_mem_singleton.mpr trivial))
  have outside (outer inner last : Occurrence) :
      (copy outer inner last).MarksOutside := by
    refine .node rfl (List.forall_mem_cons.mpr ⟨?_, ?_⟩)
    · refine .node rfl (List.forall_mem_singleton.mpr ?_)
      exact .node rfl (List.forall_mem_singleton.mpr (.leaf rfl rfl))
    · exact List.forall_mem_singleton.mpr (.leaf rfl rfl)
  have told :=
    (text_eq_iff (readable none none none)
      (readable (some 2) (some 1) (some 0))).2
      (outside none none none) (outside (some 2) (some 1) (some 0))
  have same : first.form = second.form := rfl
  exact ⟨readable _ _ _, readable _ _ _, outside _ _ _, outside _ _ _,
    told.mpr same, same⟩

/-- The mark of an inner array is read as one of the outer array. -/
theorem text_moves_marks :
    ¬ ∀ type other : Ty,
      type.Readable →
      other.Readable →
      type.text = other.text →
      type.form = other.form := by
  intro unambiguous
  have same :=
    unambiguous (.array none (.array none (.primitive .string) false) true)
      (.array none (.array none (.primitive .string) true) false)
      (.array (.array .primitive)) (.array (.array .primitive)) rfl
  cases same

end Ty

end StructuralTyping
