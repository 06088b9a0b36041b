import Mathlib.Algebra.GroupWithZero.Nat
import StructuralTyping.Literal

namespace StructuralTyping

/-!
# Run-time values

The values that types describe: `null`, `undefined`, constants, plain objects,
lists and functions. Values are finite trees. A value exposes members to
property access: an object its entries, a list its length and positions, a text
or a function its length.
-/

namespace Number

/-- A magnitude of a finite number or of infinity has no fraction beyond it. -/
theorem isNaN_ofMagnitude
    {magnitude : Nat}
    (bounded : magnitude ≤ 2047 * Nat.pow 2 52) :
    (ofMagnitude false magnitude).isNaN = false := by
  have small : magnitude < 2 ^ 64 := by
    have : (2047 * Nat.pow 2 52) < 2 ^ 64 := by decide
    omega
  have bits :
      (ofMagnitude false magnitude).bits.toNat = magnitude := by
    simp only [ofMagnitude, Bool.false_eq_true, if_false, Nat.add_zero,
      UInt64.toNat_ofNat']
    exact Nat.mod_eq_of_lt small
  simp only [isNaN, exponentField, fraction, bits, Bool.and_eq_false_iff]
  rcases Nat.lt_or_eq_of_le bounded with below | infinite
  · left
    have quotient : magnitude / Nat.pow 2 52 < 2047 :=
      Nat.div_lt_of_lt_mul (by simpa [Nat.mul_comm] using below)
    have : magnitude / Nat.pow 2 52 % Nat.pow 2 11 ≠ 2047 := by
      rw [Nat.mod_eq_of_lt (Nat.lt_of_lt_of_le quotient (by decide))]
      omega
    simpa using this
  · right
    subst infinite
    decide

/-- The number of a natural number is a number. -/
theorem isNaN_ofNat
    (value : Nat) :
    (ofNat value).isNaN = false := by
  unfold ofNat ofQuotient
  split
  · exact isNaN_ofMagnitude (by decide)
  · dsimp only
    generalize
      (max _ (-1074 : Int) + 1074).toNat * Nat.pow 2 52 + _ = magnitude
    split
    · exact isNaN_ofMagnitude (Nat.le_refl _)
    · exact isNaN_ofMagnitude (by omega)

end Number

namespace Literal

/-- Whether the constant is a number that is not a number. -/
def isNaN :
    Literal →
    Bool
  | number value => value.isNaN
  | _ => false

/-- Run-time equality does not depend on the order of its operands. -/
theorem equal_comm
    (first second : Literal) :
    first.equal second = second.equal first := by
  cases first <;> cases second <;>
    simp only [equal, Number.equal, Bool.beq_comm, Bool.and_comm]

/-- Every constant other than a number that is none equals itself. -/
theorem equal_self
    {value : Literal}
    (proper : value.isNaN = false) :
    value.equal value = true := by
  cases value <;> simp_all [equal, isNaN, Number.equal]

/-- Equal constants are the same constant, or two zeros. -/
theorem same_or_zeros_of_equal
    {first second : Literal}
    (same : first.equal second = true) :
    first.isNaN = false ∧ second.isNaN = false ∧
      (first = second ∨
        ∃ left right : Number, first = .number left ∧ second = .number right ∧
          left.isZero = true ∧ right.isZero = true) := by
  cases first <;> cases second <;>
    simp only [equal, Number.equal, Bool.and_eq_true, Bool.or_eq_true,
      Bool.not_eq_true', beq_iff_eq, Bool.false_eq_true] at same
  · exact ⟨rfl, rfl, .inl (congrArg _ same)⟩
  · obtain ⟨⟨proper, otherProper⟩, rfl | ⟨zero, otherZero⟩⟩ := same
    · exact ⟨proper, proper, .inl rfl⟩
    · exact ⟨proper, otherProper, .inr ⟨_, _, rfl, rfl, zero, otherZero⟩⟩
  · exact ⟨rfl, rfl, .inl (congrArg _ same)⟩

/-- Equal constants have the same kind. -/
theorem base_eq_of_equal
    {first second : Literal}
    (same : first.equal second = true) :
    first.base = second.base := by
  obtain ⟨_, _, rfl | ⟨_, _, rfl, rfl, _⟩⟩ := same_or_zeros_of_equal same
  · rfl
  · rfl

/-- Equal constants satisfy the same conditions. -/
theorem falsy_eq_of_equal
    {first second : Literal}
    (same : first.equal second = true) :
    first.falsy = second.falsy := by
  obtain ⟨_, _, rfl | ⟨_, _, rfl, rfl, zero, otherZero⟩⟩ :=
    same_or_zeros_of_equal same
  · rfl
  · exact zero.trans otherZero.symm

/-- Constants that equal a third one are equal. -/
theorem equal_trans
    {first second third : Literal}
    (left : first.equal second = true)
    (right : second.equal third = true) :
    first.equal third = true := by
  obtain ⟨proper, _, same | ⟨_, _, isFirst, second_zero, zero, _⟩⟩ :=
    same_or_zeros_of_equal left
  · rwa [same]
  obtain ⟨_, properThird, same | ⟨_, _, _, isThird, _, zeroThird⟩⟩ :=
    same_or_zeros_of_equal right
  · rwa [← same]
  subst isFirst isThird
  have proper : Number.isNaN _ = false := proper
  have properThird : Number.isNaN _ = false := properThird
  simp [equal, Number.equal, proper, properThird, zero, zeroThird]

end Literal

/-- A run-time value. A function is known by its number of parameters only. -/
inductive Value where
  | null
  | undefined
  | constant (value : Literal)
  | object (entries : List (String × Value))
  | list (elements : List Value)
  | function (parameters : Nat)

namespace Value

/-- The constant that a natural number is at run time. -/
def ofNat
    (value : Nat) :
    Value :=
  .constant (.number (Number.ofNat value))

/-- The constant that a truth value is at run time. -/
def ofBool
    (value : Bool) :
    Value :=
  .constant (.boolean value)

/-- The constant that a text is at run time. -/
def ofString
    (text : String) :
    Value :=
  .constant (.string (.ofString text))

/-- How many code units a letter takes. -/
def unitsOf :
    Text.RawLetter →
    Nat
  | .character value => if 0x10000 ≤ value.toNat then 2 else 1
  | .byte _ => 1

/-- The length of a text, in code units. -/
def textLength
    (text : Text.RawText) :
    Nat :=
  (text.letters.map unitsOf).sum

/-- The positions of a list as named members. -/
def positions :
    (position : Nat) →
    List Value →
    List (String × Value)
  | _, [] => []
  | position, element :: rest =>
      (toString position, element) :: positions (position + 1) rest

/-- The members that a value exposes, the first one of a name first. -/
def members :
    Value →
    List (String × Value)
  | object entries => entries
  | list elements =>
      ("length", ofNat elements.length) :: positions 0 elements
  | constant (.string text) => [("length", ofNat (textLength text))]
  | function parameters => [("length", ofNat parameters)]
  | _ => []

/-- The member of the given name. -/
def member?
    (value : Value)
    (name : String) :
    Option Value :=
  value.members.lookup name

/-- `null` or `undefined`. -/
def isNullish :
    Value →
    Bool
  | null => true
  | undefined => true
  | _ => false

/-- Whether the value is a plain object. -/
def isPlainObject :
    Value →
    Bool
  | object _ => true
  | _ => false

/-- Whether the value is a list. -/
def isList :
    Value →
    Bool
  | list _ => true
  | _ => false

/-- Whether a condition on the value succeeds. -/
def truthy :
    Value →
    Bool
  | null => false
  | undefined => false
  | constant value => !(value.falsy || value.isNaN)
  | _ => true

/-- The run-time type tag of the value. -/
def tag :
    Value →
    String
  | null => "object"
  | undefined => "undefined"
  | constant value => value.base.name
  | object _ => "object"
  | list _ => "object"
  | function _ => "function"

mutual

/-- How deep a value nests. The length of a text or function counts. -/
def depth :
    Value →
    Nat
  | object entries => depthEntries entries + 1
  | list elements => depthAll elements + 1
  | constant (.string _) => 1
  | function _ => 1
  | _ => 0

/-- How deep the entries of an object nest. -/
def depthEntries :
    List (String × Value) →
    Nat
  | [] => 0
  | entry :: rest => max (depth entry.2) (depthEntries rest)

/-- How deep the elements of a list nest. -/
def depthAll :
    List Value →
    Nat
  | [] => 0
  | element :: rest => max (depth element) (depthAll rest)

end

/-- No part of the value is a number that is none. -/
inductive NaNFree :
    Value →
    Prop
  | null :
      NaNFree .null
  | undefined :
      NaNFree .undefined
  | constant :
      value.isNaN = false →
      NaNFree (.constant value)
  | object :
      (∀ entry ∈ entries, NaNFree entry.2) →
      NaNFree (.object entries)
  | list :
      (∀ element ∈ elements, NaNFree element) →
      NaNFree (.list elements)
  | function :
      NaNFree (.function parameters)

/-- Natural numbers are free of values that are no numbers. -/
theorem nanFree_ofNat
    (value : Nat) :
    NaNFree (ofNat value) :=
  .constant (Number.isNaN_ofNat value)

/-- A lookup finds an entry of the list. -/
theorem mem_of_lookup
    {entries : List (String × Value)}
    (found : entries.lookup name = some value) :
    ∃ other, (other, value) ∈ entries := by
  induction entries with
  | nil =>
      simp at found
  | cons entry rest inductionHypothesis =>
      obtain ⟨other, first⟩ := entry
      rw [List.lookup_cons] at found
      split at found
      · cases found
        exact ⟨other, by simp⟩
      · obtain ⟨another, member⟩ := inductionHypothesis found
        exact ⟨another, .tail _ member⟩

/-- The positions of a list hold its elements. -/
theorem mem_of_mem_positions
    {elements : List Value}
    (member : entry ∈ positions position elements) :
    entry.2 ∈ elements := by
  induction elements generalizing position with
  | nil =>
      simp [positions] at member
  | cons element rest inductionHypothesis =>
      rcases List.mem_cons.mp member with rfl | inRest
      · simp
      · exact .tail _ (inductionHypothesis inRest)

/-- An entry nests no deeper than all entries. -/
theorem depth_le_depthEntries
    {entries : List (String × Value)}
    (member : entry ∈ entries) :
    entry.2.depth ≤ depthEntries entries := by
  induction entries with
  | nil =>
      simp at member
  | cons first rest inductionHypothesis =>
      rw [depthEntries]
      rcases List.mem_cons.mp member with rfl | inRest
      · omega
      · have := inductionHypothesis inRest
        omega

/-- An element nests no deeper than all elements. -/
theorem depth_le_depthAll
    {elements : List Value}
    (member : element ∈ elements) :
    element.depth ≤ depthAll elements := by
  induction elements with
  | nil =>
      simp at member
  | cons first rest inductionHypothesis =>
      rw [depthAll]
      rcases List.mem_cons.mp member with rfl | inRest
      · omega
      · have := inductionHypothesis inRest
        omega

/-- An element nests less deep than its list. -/
theorem depth_lt_list
    {elements : List Value}
    (member : element ∈ elements) :
    element.depth < (Value.list elements).depth := by
  rw [depth]
  exact Nat.lt_succ_of_le (depth_le_depthAll member)

/-- What a value exposes nests less deep. -/
theorem depth_member_lt
    {value found : Value}
    (exposed : value.member? name = some found) :
    found.depth < value.depth := by
  obtain ⟨other, member⟩ := mem_of_lookup exposed
  unfold members at member
  split at member
  · rw [depth]
    exact Nat.lt_succ_of_le (depth_le_depthEntries member)
  · rcases List.mem_cons.mp member with same | position
    · cases same
      simp [ofNat, depth]
    · exact depth_lt_list (mem_of_mem_positions position)
  · cases List.mem_singleton.mp member
    simp [ofNat, depth]
  · cases List.mem_singleton.mp member
    simp [ofNat, depth]
  · simp at member

/-- What a value exposes is as free of values that are no numbers. -/
theorem NaNFree.member
    {value found : Value}
    (proper : NaNFree value)
    (exposed : value.member? name = some found) :
    NaNFree found := by
  obtain ⟨other, member⟩ := mem_of_lookup exposed
  cases proper with
  | null =>
      simp [members] at member
  | undefined =>
      simp [members] at member
  | @constant literal proper =>
      cases literal <;> simp [members] at member
      rw [member.2]
      exact nanFree_ofNat _
  | object each =>
      exact each _ member
  | list each =>
      rcases List.mem_cons.mp member with same | position
      · cases same
        exact nanFree_ofNat _
      · exact each _ (mem_of_mem_positions position)
  | function =>
      simp [members] at member
      rw [member.2]
      exact nanFree_ofNat _

/--
Reading a property of a value that is neither `null` nor `undefined`. An
exposed member is read; a plain object without it yields `undefined`. Nothing
is known about members that other values inherit.
-/
inductive Reads :
    Value →
    (property : String) →
    Value →
    Prop
  | exposed :
      value.member? property = some found →
      Reads value property found
  | missing :
      (Value.object entries).member? property = none →
      Reads (.object entries) property .undefined
  | inherited :
      value.isPlainObject = false →
      value.isNullish = false →
      value.member? property = none →
      NaNFree found →
      Reads value property found

/-- What is read is as free of values that are no numbers. -/
theorem NaNFree.reads
    {value found : Value}
    (proper : NaNFree value)
    (reads : Reads value property found) :
    NaNFree found := by
  cases reads with
  | exposed exposed =>
      exact proper.member exposed
  | missing _ =>
      exact .undefined
  | inherited _ _ _ properFound =>
      exact properFound

/-- Nothing is read from `null` and `undefined`. -/
theorem Reads.not_isNullish
    {value : Value}
    (reads : Reads value property found) :
    value.isNullish = false := by
  cases reads with
  | exposed exposed =>
      cases value <;> simp_all [member?, members, isNullish]
  | missing _ =>
      rfl
  | inherited _ notNullish _ _ =>
      exact notNullish

/--
What a property access on a value yields. Optional access to `null` or
`undefined` yields `undefined`.
-/
inductive Accesses
    (value : Value)
    (property : String)
    (chained : Bool) :
    Value →
    Prop
  | reads :
      Reads value property found →
      Accesses value property chained found
  | shortCircuit :
      chained = true →
      value.isNullish = true →
      Accesses value property chained .undefined

/--
Strict equality of two values. Constants are compared by value. Objects, lists
and functions are compared by identity, which is not modelled: they are equal
only if they have the same parts.
-/
inductive StrictEqual :
    Value →
    Value →
    Bool →
    Prop
  | null :
      StrictEqual .null .null true
  | undefined :
      StrictEqual .undefined .undefined true
  | constant :
      StrictEqual (.constant first) (.constant second) (first.equal second)
  | identical :
      value.tag = "object" ∨ value.tag = "function" →
      StrictEqual value value true
  | distinct :
      (∀ value, first = .constant value → ∀ other, second ≠ .constant other) →
      (first.isNullish = true → second ≠ first) →
      StrictEqual first second false

end Value

end StructuralTyping
