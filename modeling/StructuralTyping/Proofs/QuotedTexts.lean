import Mathlib.Data.Nat.Digits.Lemmas
import StructuralTyping.Literal

namespace StructuralTyping.Text

/-!
# Quoted texts are read in one way

A letter of a quoted text is spelled by itself, by an escape of one letter or by
its code in a fixed number of digits. Every spelling tells where it ends and
which letter it stands for, and none begins with a double quote. So a quoted
text tells where it ends and which text it stands for, whatever comes behind it.
-/

/-- The number that hexadecimal digits stand for. -/
def hexadecimalValue
    (digits : List Char) :
    Nat :=
  digits.foldl
    (fun value digit => 16 * value + (Number.digitValue? 16 digit).getD 0) 0

/-- The digits of a number stand for it. -/
theorem hexadecimalValue_toDigits
    (code : Nat) :
    hexadecimalValue (Nat.toDigits 16 code) = code := by
  have digit :
      ∀ value, value < 16 →
        (Number.digitValue? 16 (Nat.digitChar value)).getD 0 = value := by
    decide
  induction code using Nat.strongRecOn with
  | _ code inductionHypothesis =>
      by_cases single : code < 16
      · rw [Nat.toDigits_of_lt_base single]
        simp [hexadecimalValue, digit code single]
      · have front := inductionHypothesis (code / 16) (by omega)
        rw [Nat.toDigits_of_base_le (by decide) (by omega)]
        unfold hexadecimalValue at front ⊢
        rw [List.foldl_append, front]
        simp only [List.foldl_cons, List.foldl_nil]
        rw [digit (code % 16) (Nat.mod_lt _ (by decide))]
        exact Nat.div_add_mod code 16

/-- Zeros in front do not change what digits stand for. -/
theorem hexadecimalValue_hexadecimal
    (width code : Nat) :
    hexadecimalValue (hexadecimal width code) = code := by
  have zeros (count : Nat) :
      hexadecimalValue (List.replicate count '0') = 0 := by
    induction count with
    | zero => rfl
    | succ count inductionHypothesis =>
        simpa [List.replicate_succ, hexadecimalValue, Number.digitValue?]
          using inductionHypothesis
  have digits := hexadecimalValue_toDigits code
  unfold hexadecimal
  unfold hexadecimalValue at zeros digits ⊢
  rw [List.foldl_append, zeros, digits]

/-- A code that fits is written with as many digits as asked for. -/
theorem length_hexadecimal
    (positive : 0 < width)
    (fits : code < 16 ^ width) :
    (hexadecimal width code).length = width := by
  have short :=
    (Nat.length_toDigits_le_iff (by decide : 1 < 16) positive).mpr fits
  simp [hexadecimal, short]

/-- Digits of a fixed width tell where they end and what they stand for. -/
theorem hexadecimal_unique
    {first second : Nat}
    {rest other : List Char}
    (positive : 0 < width)
    (firstFits : first < 16 ^ width)
    (secondFits : second < 16 ^ width)
    (same :
      hexadecimal width first ++ rest = hexadecimal width second ++ other) :
    first = second ∧ rest = other := by
  have sameLength :
      (hexadecimal width first).length = (hexadecimal width second).length := by
    rw [length_hexadecimal positive firstFits,
      length_hexadecimal positive secondFits]
  obtain ⟨digits, behind⟩ := List.append_inj same sameLength
  refine ⟨?_, behind⟩
  rw [← hexadecimalValue_hexadecimal width first, digits,
    hexadecimalValue_hexadecimal]

/-- How a letter is spelled between double quotes. -/
inductive Spelling where
  /-- By itself. -/
  | plain (letter : Char)
  /-- By an escape of one letter. -/
  | escaped (letter : Char)
  /-- By its code, in as many digits as the marker stands for. -/
  | coded (marker : Char) (code : Nat)

/-- How many digits follow a marker. -/
def digitsBehind :
    (marker : Char) →
    Nat
  | 'x' => 2
  | 'u' => 4
  | 'U' => 8
  | _ => 0

namespace Spelling

/-- What a spelling looks like. -/
def written :
    Spelling →
    List Char
  | plain letter => [letter]
  | escaped letter => ['\\', letter]
  | coded marker code =>
      '\\' :: marker :: hexadecimal (digitsBehind marker) code

/-- A spelling that can be told from the others. -/
def Proper :
    Spelling →
    Prop
  | plain letter => letter ≠ '"' ∧ letter ≠ '\\'
  | escaped letter => digitsBehind letter = 0
  | coded marker code =>
      0 < digitsBehind marker ∧ code < 16 ^ digitsBehind marker

/-- Proper spellings tell where they end. -/
theorem Proper.unique
    {first second : Spelling}
    (firstProper : first.Proper)
    (secondProper : second.Proper)
    (same : first.written ++ rest = second.written ++ other) :
    first = second ∧ rest = other := by
  cases first with
  | plain letter =>
      cases second with
      | plain =>
          simpa [written] using same
      | _ =>
          exact absurd (List.cons.inj same).1 firstProper.2
  | escaped letter =>
      cases second with
      | plain =>
          exact absurd (List.cons.inj same).1.symm secondProper.2
      | escaped =>
          simpa [written] using same
      | coded marker code =>
          obtain ⟨rfl, -⟩ := List.cons.inj (List.cons.inj same).2
          exact absurd firstProper secondProper.1.ne'
  | coded marker code =>
      cases second with
      | plain =>
          exact absurd (List.cons.inj same).1.symm secondProper.2
      | escaped letter =>
          obtain ⟨rfl, -⟩ := List.cons.inj (List.cons.inj same).2
          exact absurd secondProper firstProper.1.ne'
      | coded otherMarker otherCode =>
          obtain ⟨rfl, digits⟩ := List.cons.inj (List.cons.inj same).2
          obtain ⟨rfl, behind⟩ :=
            hexadecimal_unique firstProper.1 firstProper.2 secondProper.2 digits
          exact ⟨rfl, behind⟩

/-- No proper spelling begins with a double quote. -/
theorem Proper.not_quote
    {spelling : Spelling}
    (proper : spelling.Proper) :
    spelling.written ++ rest ≠ '"' :: other := by
  intro same
  cases spelling with
  | plain letter => exact proper.1 (List.cons.inj same).1
  | _ => cases (List.cons.inj same).1

/-- The spelling of a character. -/
def ofCharacter
    (letter : Char) :
    Spelling :=
  if letter = '"' ∨ letter = '\\' then
    escaped letter
  else if isPrintable letter then
    plain letter
  else
    match namedEscape? letter.toNat with
    | some name => escaped name
    | none =>
        if letter.toNat < 0x20 ∨ letter.toNat = 0x7f then
          coded 'x' letter.toNat
        else if letter.toNat < 0x10000 then
          coded 'u' letter.toNat
        else
          coded 'U' letter.toNat

/-- The spelling of a letter; a byte is spelled by its value. -/
def ofLetter :
    RawLetter →
    Spelling
  | .character letter => ofCharacter letter
  | .byte value => coded 'x' value.toNat

/-- The letter that a spelling stands for. -/
def letter :
    Spelling →
    RawLetter
  | plain letter => .character letter
  | escaped letter =>
      match
        (List.range 14).find? fun code => namedEscape? code = some letter
      with
      | some code => .character (Char.ofNat code)
      | none => .character letter
  | coded marker code =>
      if marker = 'x' ∧ 0x80 ≤ code then
        .byte (UInt8.ofNat code)
      else
        .character (Char.ofNat code)

/-- The name of a control character is no marker and stands for one code. -/
theorem name_of_namedEscape
    (named : namedEscape? code = some name) :
    digitsBehind name = 0 ∧
      (escaped name).letter = .character (Char.ofNat code) := by
  unfold namedEscape? at named
  split at named <;> cases named <;> decide

/-- Letters between double quotes are spelled like this. -/
theorem written_ofLetter
    (letter : RawLetter) :
    (ofLetter letter).written = RawText.quoteRawLetter letter := by
  cases letter with
  | byte value => rfl
  | character letter =>
      simp only [ofLetter, ofCharacter, RawText.quoteRawLetter, quoteLetter,
        escapeCode]
      split
      · rfl
      split
      · rfl
      cases namedEscape? letter.toNat with
      | some name => rfl
      | none =>
          dsimp only
          split
          · rfl
          split <;> rfl

/-- Letters are spelled properly. -/
theorem proper_ofLetter
    (letter : RawLetter) :
    (ofLetter letter).Proper := by
  cases letter with
  | byte value => exact ⟨by decide, value.toNat_lt⟩
  | character letter =>
      simp only [ofLetter, ofCharacter]
      split
      · next marked => rcases marked with rfl | rfl <;> rfl
      next unmarked =>
      split
      · exact not_or.mp unmarked
      split
      · next name named => exact (name_of_namedEscape named).1
      split
      · next control =>
        refine ⟨by decide, ?_⟩
        change letter.toNat < 256
        omega
      split
      · next short => exact ⟨by decide, short⟩
      · refine ⟨by decide, ?_⟩
        exact letter.val.toNat_lt

end Spelling

/-- A byte is a letter only if it is no character by itself. -/
def RawLetter.Decoded :
    RawLetter →
    Prop
  | .character _ => True
  | .byte value => 0x80 ≤ value.toNat

/-- The spelling of a letter stands for it. -/
theorem Spelling.letter_ofLetter
    {letter : RawLetter}
    (decoded : letter.Decoded) :
    (ofLetter letter).letter = letter := by
  cases letter with
  | byte value =>
      have high : 0x80 ≤ value.toNat := decoded
      simp [ofLetter, Spelling.letter, high]
  | character letter =>
      simp only [ofLetter, ofCharacter]
      split
      · next marked => rcases marked with rfl | rfl <;> decide
      split
      · rfl
      split
      · next name named =>
        rw [(name_of_namedEscape named).2, Char.ofNat_toNat]
      split
      · next control =>
        have low : ¬ 0x80 ≤ letter.toNat := by omega
        simp [Spelling.letter, low]
      split <;> simp [Spelling.letter]

/-- Letters tell where they end. -/
theorem quoteRawLetter_unique
    {first second : RawLetter}
    (firstDecoded : first.Decoded)
    (secondDecoded : second.Decoded)
    (same :
      RawText.quoteRawLetter first ++ rest =
        RawText.quoteRawLetter second ++ other) :
    first = second ∧ rest = other := by
  rw [← Spelling.written_ofLetter, ← Spelling.written_ofLetter] at same
  obtain ⟨spelled, behind⟩ :=
    (Spelling.proper_ofLetter first).unique (Spelling.proper_ofLetter second)
      same
  refine ⟨?_, behind⟩
  rw [← Spelling.letter_ofLetter firstDecoded, spelled,
    Spelling.letter_ofLetter secondDecoded]

/-- No letter begins with a double quote. -/
theorem quoteRawLetter_not_quote
    (letter : RawLetter) :
    RawText.quoteRawLetter letter ++ rest ≠ '"' :: other := by
  rw [← Spelling.written_ofLetter]
  exact (Spelling.proper_ofLetter letter).not_quote

/-- Letters up to a double quote tell where they end. -/
theorem quoteRawLetters_unique
    {first second : List RawLetter}
    (firstDecoded : ∀ letter ∈ first, letter.Decoded)
    (secondDecoded : ∀ letter ∈ second, letter.Decoded)
    (same :
      first.flatMap RawText.quoteRawLetter ++ '"' :: rest =
        second.flatMap RawText.quoteRawLetter ++ '"' :: other) :
    first = second ∧ rest = other := by
  induction first generalizing second with
  | nil =>
      cases second with
      | nil => simpa using same
      | cons letter letters =>
          simp only [List.flatMap_nil, List.nil_append, List.flatMap_cons,
            List.append_assoc] at same
          exact absurd same.symm (quoteRawLetter_not_quote letter)
  | cons letter letters inductionHypothesis =>
      simp only [List.flatMap_cons, List.append_assoc] at same
      cases second with
      | nil => exact absurd same (quoteRawLetter_not_quote letter)
      | cons counterpart others =>
          simp only [List.flatMap_cons, List.append_assoc] at same
          rw [List.forall_mem_cons] at firstDecoded secondDecoded
          obtain ⟨rfl, remaining⟩ :=
            quoteRawLetter_unique firstDecoded.1 secondDecoded.1 same
          obtain ⟨rfl, behind⟩ :=
            inductionHypothesis firstDecoded.2 secondDecoded.2 remaining
          exact ⟨rfl, behind⟩

namespace RawText

/-- A text as it is read from bytes. -/
def Decoded
    (text : RawText) :
    Prop :=
  ∀ letter ∈ text.letters, letter.Decoded

/-- Quoted texts tell where they end and which text they stand for. -/
theorem quoted_unique
    {first second : RawText}
    (firstDecoded : first.Decoded)
    (secondDecoded : second.Decoded)
    (same : first.quoted.toList ++ rest = second.quoted.toList ++ other) :
    first = second ∧ rest = other := by
  simp only [quoted, String.toList_ofList, List.cons_append, List.append_assoc,
    List.cons.injEq, true_and, List.nil_append] at same
  obtain ⟨letters, behind⟩ :=
    quoteRawLetters_unique firstDecoded secondDecoded same
  exact ⟨congrArg RawText.mk letters, behind⟩

/-- A low byte is a character of its own. -/
theorem decodeCharacter?_of_lt
    {first : UInt8}
    (rest : List UInt8)
    (low : first.toNat < 0x80) :
    decodeCharacter? (first :: rest) =
      some (Char.ofNat first.toNat, rest) := by
  have valid : first.toNat.isValidChar := .inl (by omega)
  simp [decodeCharacter?, leadingByte?, low, leastCode, valid]

/-- What bytes stand for is decoded. -/
theorem decoded_ofBytes
    (bytes : List UInt8) :
    (ofBytes bytes).Decoded := by
  unfold ofBytes
  generalize bytes.length = fuel
  induction fuel generalizing bytes with
  | zero => exact List.forall_mem_nil _
  | succ fuel inductionHypothesis =>
      cases bytes with
      | nil => exact List.forall_mem_nil _
      | cons first rest =>
          unfold Decoded lettersOf
          split
          · exact List.forall_mem_cons.mpr ⟨trivial, inductionHypothesis _⟩
          · next undecodable =>
            refine List.forall_mem_cons.mpr ⟨?_, inductionHypothesis _⟩
            by_contra low
            have single := decodeCharacter?_of_lt rest (Nat.not_le.mp low)
            cases single.symm.trans undecodable

end RawText

end StructuralTyping.Text
