import Mathlib.Data.List.Perm.Subperm
import StructuralTyping.Proofs.Guarded
import StructuralTyping.Proofs.Membership

namespace StructuralTyping

/-!
# Identical types hold the same values

Structural identity closes cycles by assuming pairs that are under comparison.
The assumption is discharged by induction on the depth of a value: below an
object, list or tuple the values are smaller, and at the level of one value a
pair cannot come back, since each unfolded name lowers the rank of the types
that are compared.
-/

namespace Shape

/-- A property of a shape without repetitions is the one of its name. -/
theorem property?_of_mem
    {shape : Shape Ty}
    (distinct : shape.names.Nodup)
    (member : property ∈ shape.properties) :
    shape.property? property.name = some property := by
  unfold names at distinct
  unfold property?
  generalize shape.properties = properties at distinct member
  induction properties with
  | nil =>
      simp at member
  | cons first rest inductionHypothesis =>
      rw [List.map_cons, List.nodup_cons] at distinct
      rcases List.mem_cons.mp member with rfl | inRest
      · simp
      · have differs : first.name ≠ property.name := by
          intro same
          exact distinct.1 (same ▸ List.mem_map_of_mem inRest)
        rw [List.find?_cons_of_neg (by simpa using differs)]
        exact inductionHypothesis distinct.2 inRest

/-- The property of a name is a property and has the name. -/
theorem mem_of_property?
    {shape : Shape Ty}
    (found : shape.property? name = some property) :
    property ∈ shape.properties ∧ property.name = name :=
  ⟨List.mem_of_find?_eq_some found, by
    simpa using List.find?_some found⟩

end Shape

/-- The arena is guarded and within the fragment, if the fragment has names. -/
def Fragment.Covers
    (fragment : Fragment)
    (arena : Arena) :
    Prop :=
  fragment.names = true →
    arena.Guarded ∧
      ∀ reference,
        arena.definition reference ≠ .absent →
        fragment.admits (arena.definition reference) = true

/-- Two types hold the same values among those nested less deep than a bound. -/
def AgreeBelow
    (reading : Reading)
    (arena : Arena)
    (bound : Nat)
    (first second : Ty) :
    Prop :=
  ∀ value : Value,
    value.depth < bound →
    (Holds reading arena first value ↔ Holds reading arena second value)

section Nodes

variable {fragment : Fragment} {reading : Reading} {arena : Arena}

/-- Agreement on more values is agreement on fewer. -/
theorem AgreeBelow.mono
    (agree : AgreeBelow reading arena bound first second)
    (fewer : smaller ≤ bound) :
    AgreeBelow reading arena smaller first second :=
  fun value shallow => agree value (Nat.lt_of_lt_of_le shallow fewer)

/-- Agreement does not depend on the order of the types. -/
theorem AgreeBelow.symm
    (agree : AgreeBelow reading arena bound first second) :
    AgreeBelow reading arena bound second first :=
  fun value shallow => (agree value shallow).symm

/-- Properties of one name with agreeing types accept the same values. -/
theorem propertyHolds_congr
    {first second : Property Ty}
    {value : Value}
    (names : first.name = second.name)
    (optionals : first.optional = second.optional)
    (agree : AgreeBelow reading arena value.depth first.type second.type) :
    PropertyHolds reading arena first value ↔
      PropertyHolds reading arena second value := by
  unfold PropertyHolds Reading.passes
  rw [names, optionals]
  split
  · rfl
  · next found has =>
    rw [agree found (Value.depth_member_lt has)]

/-- Every property of the second of two equal shapes has a counterpart. -/
theorem exists_counterpart
    {equal : Ty → Ty → Bool}
    {first second : Shape Ty}
    (firstDistinct : first.names.Nodup)
    (secondDistinct : second.names.Nodup)
    (sameLength :
      first.properties.length = second.properties.length)
    (each : ∀ property ∈ first.properties,
      equalProperty equal second property = true)
    (member : property ∈ second.properties) :
    ∃ other ∈ first.properties,
      second.property? other.name = some property := by
  have names : first.names ⊆ second.names := by
    intro name inFirst
    obtain ⟨other, inProperties, rfl⟩ := List.mem_map.mp inFirst
    have equal := each other inProperties
    unfold equalProperty at equal
    split at equal
    · next counterpart found =>
      obtain ⟨inSecond, sameName⟩ := Shape.mem_of_property? found
      exact sameName ▸ List.mem_map_of_mem inSecond
    · simp at equal
  have perm : first.names.Perm second.names :=
    (List.subperm_of_subset firstDistinct names).perm_of_length_le
      (by simp [Shape.names, sameLength])
  have inFirst : property.name ∈ first.names :=
    perm.mem_iff.mpr (List.mem_map_of_mem member)
  obtain ⟨other, inProperties, sameName⟩ := List.mem_map.mp inFirst
  refine ⟨other, inProperties, ?_⟩
  rw [sameName]
  exact Shape.property?_of_mem secondDistinct member

/-- Equal shapes hold the same values when equal parts agree. -/
theorem agreeBelow_object
    {equal : Ty → Ty → Bool}
    {first second : Shape Ty}
    (firstAdmitted : fragment.admits (.object firstOccurrence first) = true)
    (secondAdmitted :
      fragment.admits (.object secondOccurrence second) = true)
    (sameLength :
      first.properties.length = second.properties.length)
    (each : ∀ property ∈ first.properties,
      equalProperty equal second property = true)
    (parts : ∀ x y,
      fragment.admits x = true →
      fragment.admits y = true →
      equal x y = true →
      AgreeBelow reading arena bound x y) :
    AgreeBelow reading arena (bound + 1)
      (.object firstOccurrence first) (.object secondOccurrence second) := by
  obtain ⟨-, firstDistinct, firstAdmitted⟩ :=
    Fragment.admits_object.mp firstAdmitted
  obtain ⟨-, secondDistinct, secondAdmitted⟩ :=
    Fragment.admits_object.mp secondAdmitted
  intro value shallow
  have matched :
      ∀ property ∈ first.properties,
        ∀ other,
          second.property? property.name = some other →
          (PropertyHolds reading arena property value ↔
            PropertyHolds reading arena other value) := by
    intro property inFirst other found
    have equal := each property inFirst
    simp only [equalProperty, found, Bool.and_eq_true, beq_iff_eq] at equal
    obtain ⟨inSecond, sameName⟩ := Shape.mem_of_property? found
    have agree :=
      parts _ _ (firstAdmitted property inFirst).1
        (secondAdmitted other inSecond).1 equal.2
    exact propertyHolds_congr sameName.symm equal.1.1
      (agree.mono (Nat.le_of_lt_succ shallow))
  rw [holds_object, holds_object]
  refine and_congr_right fun _ => ⟨fun holds => ?_, fun holds => ?_⟩
  · intro property inSecond
    obtain ⟨other, inFirst, found⟩ :=
      exists_counterpart firstDistinct secondDistinct sameLength each inSecond
    exact (matched other inFirst property found).mp (holds other inFirst)
  · intro property inFirst
    have equal := each property inFirst
    unfold equalProperty at equal
    split at equal
    · next other found =>
      obtain ⟨inSecond, _⟩ := Shape.mem_of_property? found
      exact (matched property inFirst other found).mpr (holds other inSecond)
    · simp at equal

/-- Lists that are equal position by position hold the same lists of values. -/
theorem forall₂_of_equalLists
    {equal : Ty → Ty → Bool}
    {first second : List Ty}
    (equals : equalLists equal first second = true)
    (parts : ∀ x ∈ first, ∀ y ∈ second,
      equal x y = true →
      AgreeBelow reading arena bound x y)
    (shallow : ∀ value ∈ values, Value.depth value < bound) :
    List.Forall₂ (Holds reading arena) first values ↔
      List.Forall₂ (Holds reading arena) second values := by
  induction first generalizing second values with
  | nil =>
      cases second <;> simp [equalLists] at equals
      rfl
  | cons type rest inductionHypothesis =>
      cases second with
      | nil =>
          simp [equalLists] at equals
      | cons other others =>
          simp only [equalLists, Bool.and_eq_true] at equals
          cases values with
          | nil =>
              simp
          | cons value tail =>
              rw [List.forall₂_cons, List.forall₂_cons]
              refine and_congr ?_ ?_
              · exact parts type (by simp) other (by simp) equals.1 value
                  (shallow value (by simp))
              · refine inductionHypothesis equals.2 ?_ ?_
                · intro x inRest y inOthers
                  exact parts x (by simp [inRest]) y (by simp [inOthers])
                · intro later inTail
                  exact shallow later (by simp [inTail])

/-- Member lists that are equal as sets agree member by member. -/
theorem agreeing_members
    {equal : Ty → Ty → Bool}
    {first second : List Ty}
    (equals : sameMembers equal first second = true)
    (firstAdmitted : ∀ x ∈ first,
      fragment.admits x = true ∧ arena.rank x ≤ firstRank)
    (secondAdmitted : ∀ y ∈ second,
      fragment.admits y = true ∧ arena.rank y ≤ secondRank)
    (agree : ∀ x y,
      fragment.admits x = true →
      fragment.admits y = true →
      arena.rank x + arena.rank y ≤ firstRank + secondRank →
      equal x y = true →
      AgreeBelow reading arena bound x y) :
    (∀ x ∈ first, ∃ y ∈ second, AgreeBelow reading arena bound x y) ∧
      ∀ y ∈ second, ∃ x ∈ first, AgreeBelow reading arena bound x y := by
  simp only [sameMembers, containsMember, Bool.and_eq_true, List.all_eq_true,
    List.any_eq_true] at equals
  constructor
  · intro x inFirst
    obtain ⟨y, inSecond, same⟩ := equals.1 x inFirst
    obtain ⟨xAdmitted, xRank⟩ := firstAdmitted x inFirst
    obtain ⟨yAdmitted, yRank⟩ := secondAdmitted y inSecond
    exact ⟨y, inSecond,
      (agree y x yAdmitted xAdmitted (by omega) same).symm⟩
  · intro y inSecond
    obtain ⟨x, inFirst, same⟩ := equals.2 y inSecond
    obtain ⟨xAdmitted, xRank⟩ := firstAdmitted x inFirst
    obtain ⟨yAdmitted, yRank⟩ := secondAdmitted y inSecond
    exact ⟨x, inFirst, agree x y xAdmitted yAdmitted (by omega) same⟩

/--
Equal nodes hold the same values. Members of unions and intersections have to
agree on the values at hand, other parts only on smaller ones.
-/
theorem agreeBelow_of_equalNodes
    {equal : Ty → Ty → Bool}
    {first second : Ty}
    (firstAdmitted : fragment.admits first = true)
    (secondAdmitted : fragment.admits second = true)
    (members : ∀ x y,
      fragment.admits x = true →
      fragment.admits y = true →
      arena.rank x + arena.rank y ≤ arena.rank first + arena.rank second →
      equal x y = true →
      AgreeBelow reading arena (bound + 1) x y)
    (parts : ∀ x y,
      fragment.admits x = true →
      fragment.admits y = true →
      equal x y = true →
      AgreeBelow reading arena bound x y)
    (equals : equalNodes equal first second = true) :
    AgreeBelow reading arena (bound + 1) first second := by
  unfold equalNodes at equals
  split at equals
  · cases eq_of_beq equals
    exact fun _ _ => Iff.rfl
  · next first _ second =>
    intro value _
    rw [holds_literal, holds_literal]
    constructor
    · rintro ⟨actual, rfl, same⟩
      rw [Literal.equal_comm] at equals
      exact ⟨actual, rfl, Literal.equal_trans equals same⟩
    · rintro ⟨actual, rfl, same⟩
      exact ⟨actual, rfl, Literal.equal_trans equals same⟩
  · simp only [Bool.and_eq_true, beq_iff_eq, List.all_eq_true] at equals
    exact agreeBelow_object firstAdmitted secondAdmitted equals.1.1 equals.1.2
      parts
  · simp only [Bool.and_eq_true] at equals
    have agree :=
      parts _ _ (Fragment.admits_array.mp firstAdmitted)
        (Fragment.admits_array.mp secondAdmitted) equals.2
    intro value shallow
    rw [holds_array, holds_array]
    refine exists_congr fun values => and_congr_right ?_
    rintro rfl
    refine forall₂_congr fun element inValues => agree element ?_
    have := Value.depth_lt_list inValues
    omega
  · next first _ _ second _ =>
    simp only [Bool.and_eq_true] at equals
    intro value shallow
    rw [holds_tuple, holds_tuple]
    refine exists_congr fun values => and_congr_right ?_
    rintro rfl
    have agree :
        ∀ x ∈ first, ∀ y ∈ second,
          equal x y = true →
          AgreeBelow reading arena bound x y := by
      intro x inFirst y inSecond same
      exact parts x y (Fragment.admits_tuple.mp firstAdmitted x inFirst)
        (Fragment.admits_tuple.mp secondAdmitted y inSecond) same
    refine forall₂_of_equalLists equals.2 agree fun element inValues => ?_
    have := Value.depth_lt_list inValues
    omega
  · intro value _
    rw [holds_function, holds_function]
  · next first _ second =>
    obtain ⟨forward, backward⟩ :=
      agreeing_members equals
        (fun x inFirst =>
          ⟨Fragment.admits_union.mp firstAdmitted x inFirst,
            arena.rank_le_union inFirst⟩)
        (fun y inSecond =>
          ⟨Fragment.admits_union.mp secondAdmitted y inSecond,
            arena.rank_le_union inSecond⟩)
        members
    intro value shallow
    rw [holds_union, holds_union]
    constructor
    · rintro ⟨member, inFirst, holds⟩
      obtain ⟨other, inSecond, agree⟩ := forward member inFirst
      exact ⟨other, inSecond, (agree value shallow).mp holds⟩
    · rintro ⟨member, inSecond, holds⟩
      obtain ⟨other, inFirst, agree⟩ := backward member inSecond
      exact ⟨other, inFirst, (agree value shallow).mpr holds⟩
  · next first _ second =>
    obtain ⟨forward, backward⟩ :=
      agreeing_members equals
        (fun x inFirst =>
          ⟨(Fragment.admits_intersection.mp firstAdmitted).2 x inFirst,
            arena.rank_le_intersection inFirst⟩)
        (fun y inSecond =>
          ⟨(Fragment.admits_intersection.mp secondAdmitted).2 y inSecond,
            arena.rank_le_intersection inSecond⟩)
        members
    intro value shallow
    rw [holds_intersection, holds_intersection]
    constructor
    · intro holds member inSecond
      obtain ⟨other, inFirst, agree⟩ := backward member inSecond
      exact (agree value shallow).mp (holds other inFirst)
    · intro holds member inFirst
      obtain ⟨other, inSecond, agree⟩ := forward member inFirst
      exact (agree value shallow).mpr (holds other inSecond)
  · intro value _
    exact iff_of_false not_holds_generic not_holds_generic
  · simp at equals

end Nodes

section Pairs

variable {fragment : Fragment} {reading : Reading} {arena : Arena}

/-- Structural identity with so many hops left to unfold names. -/
def Arena.identicalFrom
    (arena : Arena)
    (hops depth : Nat)
    (pairs : OpenPairs)
    (first second : Ty) :
    Bool :=
  match arena.unfoldPair hops pairs first second with
  | .closed => true
  | .stuck => false
  | .exposed pairs first second =>
      match depth with
      | 0 => false
      | depth + 1 => equalNodes (arena.identicalWithin depth pairs) first second

/-- Identity starts with all its hops. -/
theorem Arena.identicalWithin_eq
    (arena : Arena)
    (depth : Nat)
    (pairs : OpenPairs)
    (first second : Ty) :
    arena.identicalWithin depth pairs first second =
      arena.identicalFrom arena.pairHops depth pairs first second := by
  unfold identicalWithin identicalFrom
  rfl

/-- A type and what replaces it when names are unfolded hold the same values. -/
theorem holds_unfold
    {type unfolded : Ty}
    {value : Value}
    (unfolds : arena.unfold? type = some unfolded) :
    Holds reading arena type value ↔ Holds reading arena unfolded value := by
  unfold Arena.unfold? at unfolds
  split at unfolds
  · next reference =>
    split at unfolds
    · simp at unfolds
    · next defined =>
      cases unfolds
      rw [holds_named]
      exact and_iff_right defined
  · cases unfolds
    rfl

/-- Unfolding does not raise the rank, and it lowers that of a name. -/
theorem rank_unfold
    {type unfolded : Ty}
    (guarded : type.isNamed = true → arena.Guarded)
    (unfolds : arena.unfold? type = some unfolded) :
    arena.rank unfolded ≤ arena.rank type ∧
      (type.isNamed = true → arena.rank unfolded < arena.rank type) := by
  unfold Arena.unfold? at unfolds
  split at unfolds
  · next reference =>
    have below := Arena.rank_definition_lt (guarded rfl) reference
    split at unfolds
    · simp at unfolds
    · cases unfolds
      exact ⟨Nat.le_of_lt below, fun _ => below⟩
  · next notNamed =>
    cases unfolds
    refine ⟨Nat.le_refl _, fun named => ?_⟩
    cases type <;> simp [Ty.isNamed] at named
    exact absurd rfl (notNamed _)

/-- Unfolding a pair of which one is a name lowers the rank. -/
theorem rank_unfold_lt
    {first second x y : Ty}
    (guarded :
      first.isNamed = true ∨ second.isNamed = true → arena.Guarded)
    (named : first.isNamed = true ∨ second.isNamed = true)
    (unfoldsFirst : arena.unfold? first = some x)
    (unfoldsSecond : arena.unfold? second = some y) :
    arena.rank x + arena.rank y < arena.rank first + arena.rank second := by
  obtain ⟨xRank, xBelow⟩ := rank_unfold (fun _ => guarded named) unfoldsFirst
  obtain ⟨yRank, yBelow⟩ := rank_unfold (fun _ => guarded named) unfoldsSecond
  rcases named with isNamed | isNamed
  · have := xBelow isNamed
    omega
  · have := yBelow isNamed
    omega

/-- A fragment that has a name covers a guarded arena. -/
theorem Fragment.Covers.guarded
    {type : Ty}
    (covers : fragment.Covers arena)
    (admitted : fragment.admits type = true)
    (named : type.isNamed = true) :
    arena.Guarded := by
  cases type <;> simp [Ty.isNamed] at named
  exact (covers (by simpa [Fragment.admits] using admitted)).1

/-- Unfolding stays in the fragment. -/
theorem admits_unfold
    {type unfolded : Ty}
    (covers : fragment.Covers arena)
    (admitted : fragment.admits type = true)
    (unfolds : arena.unfold? type = some unfolded) :
    fragment.admits unfolded = true := by
  unfold Arena.unfold? at unfolds
  split at unfolds
  · next reference =>
    have named : fragment.names = true := by
      simpa [Fragment.admits] using admitted
    split at unfolds
    · simp at unfolds
    · next defined =>
      cases unfolds
      exact (covers named).2 reference defined
  · cases unfolds
    exact admitted

/--
A pair under comparison may be assumed: either it agrees on all values at hand,
or it agrees on smaller ones and ranks above the types that are compared now.
-/
def PairSound
    (reading : Reading)
    (arena : Arena)
    (bound : Nat)
    (first second : Ty)
    (pair : Ty × Ty) :
    Prop :=
  AgreeBelow reading arena (bound + 1) pair.1 pair.2 ∨
    AgreeBelow reading arena bound pair.1 pair.2 ∧
      arena.rank first + arena.rank second <
        arena.rank pair.1 + arena.rank pair.2

/-- An assumed pair may be assumed all the more for smaller values. -/
theorem PairSound.smaller
    {pair : Ty × Ty}
    (sound : PairSound reading arena bound first second pair)
    (below : depth < bound) :
    PairSound reading arena depth other another pair := by
  rcases sound with agree | ⟨agree, _⟩
  · exact .inl (agree.mono (by omega))
  · exact .inl (agree.mono (by omega))

/-- An assumed pair may be assumed for types of no higher rank. -/
theorem PairSound.lower
    {pair : Ty × Ty}
    (sound : PairSound reading arena bound first second pair)
    (ranks :
      arena.rank other + arena.rank another ≤
        arena.rank first + arena.rank second) :
    PairSound reading arena bound other another pair := by
  rcases sound with agree | ⟨agree, above⟩
  · exact .inl agree
  · exact .inr ⟨agree, by omega⟩

/-- The ways in which two types can turn out to be identical. -/
theorem identicalFrom_cases
    (identical :
      arena.identicalFrom hops depth pairs first second = true) :
    first = second ∨
      (first, second) ∈ pairs ∨
      (∃ fewer x y,
        hops = fewer + 1 ∧
        (first.isNamed = true ∨ second.isNamed = true) ∧
        arena.unfold? first = some x ∧
        arena.unfold? second = some y ∧
        arena.identicalFrom fewer depth ((first, second) :: pairs) x y =
          true) ∨
      ∃ nearer,
        depth = nearer + 1 ∧
        equalNodes (arena.identicalWithin nearer pairs) first second =
          true := by
  unfold Arena.identicalFrom at identical
  generalize unfolds :
    arena.unfoldPair hops pairs first second = unfolding at identical
  unfold Arena.unfoldPair at unfolds
  split at unfolds
  · next same =>
    simp only [Ty.sameNode, Bool.and_eq_true, decide_eq_true_eq] at same
    exact .inl same.2
  split at unfolds
  · subst unfolds
    simp at identical
  split at unfolds
  · next named =>
    split at unfolds
    · next assumed =>
      exact .inr (.inl (by simpa using assumed))
    split at unfolds
    · next fewer x y unfoldsFirst unfoldsSecond =>
      refine .inr (.inr (.inl
        ⟨fewer, x, y, rfl, by simpa using named, unfoldsFirst, unfoldsSecond,
          ?_⟩))
      simpa only [Arena.identicalFrom, unfolds] using identical
    · subst unfolds
      simp at identical
  · subst unfolds
    cases depth with
    | zero =>
        simp at identical
    | succ nearer =>
        exact .inr (.inr (.inr ⟨nearer, rfl, identical⟩))

/-- Types that are no names are identical as one node or with equal nodes. -/
theorem Arena.identicalFrom_unnamed
    (notNamed : first.isNamed = false)
    (otherNotNamed : second.isNamed = false)
    (identical :
      arena.identicalFrom hops depth pairs first second = true) :
    first.sameNode second = true ∨
      ∃ nearer,
        depth = nearer + 1 ∧
          equalNodes (arena.identicalWithin nearer pairs) first second =
            true := by
  unfold Arena.identicalFrom at identical
  generalize unfolds :
    arena.unfoldPair hops pairs first second = unfolding at identical
  unfold Arena.unfoldPair at unfolds
  split at unfolds
  · next same => exact .inl same
  split at unfolds
  · subst unfolds
    cases identical
  split at unfolds
  · next named => simp [notNamed, otherNotNamed] at named
  · subst unfolds
    cases depth with
    | zero => cases identical
    | succ nearer => exact .inr ⟨nearer, rfl, identical⟩

/-- Types that are no names are identical as one type or with equal nodes. -/
theorem Arena.identicalWithin_unnamed
    (notNamed : first.isNamed = false)
    (otherNotNamed : second.isNamed = false)
    (identical : arena.identicalWithin depth [] first second = true) :
    first = second ∨
      ∃ nearer,
        depth = nearer + 1 ∧
        equalNodes (arena.identicalWithin nearer []) first second = true := by
  rw [Arena.identicalWithin_eq] at identical
  refine (Arena.identicalFrom_unnamed notNamed otherNotNamed identical).imp_left
    fun same => ?_
  simp only [Ty.sameNode, Bool.and_eq_true, decide_eq_true_eq] at same
  exact same.2

/--
Types that are identical under sound assumptions agree. The induction is on the
depth of the values, then on the depth of the comparison, then on the hops.
-/
theorem agreeBelow_of_identicalFrom
    (covers : fragment.Covers arena)
    (bound hops depth : Nat)
    (pairs : OpenPairs)
    (first second : Ty)
    (firstAdmitted : fragment.admits first = true)
    (secondAdmitted : fragment.admits second = true)
    (sound : ∀ pair ∈ pairs,
      PairSound reading arena bound first second pair)
    (identical :
      arena.identicalFrom hops depth pairs first second = true) :
    AgreeBelow reading arena (bound + 1) first second := by
  induction bound using Nat.strongRecOn generalizing
    hops depth pairs first second with
  | _ bound shallower =>
  induction depth using Nat.strongRecOn generalizing
    hops pairs first second with
  | _ depth nearer =>
  induction hops using Nat.strongRecOn generalizing pairs first second with
  | _ hops fewer =>
  rcases identicalFrom_cases identical with
    rfl | assumed | ⟨rest, x, y, rfl, named, unfoldsFirst, unfoldsSecond, next⟩ |
    ⟨rest, rfl, equals⟩
  · exact fun _ _ => Iff.rfl
  · rcases sound _ assumed with agree | ⟨_, above⟩
    · exact agree
    · exact absurd above (Nat.lt_irrefl _)
  · have xAdmitted := admits_unfold covers firstAdmitted unfoldsFirst
    have yAdmitted := admits_unfold covers secondAdmitted unfoldsSecond
    have guarded : arena.Guarded := by
      rcases named with isNamed | isNamed
      · exact covers.guarded firstAdmitted isNamed
      · exact covers.guarded secondAdmitted isNamed
    have ranks :=
      rank_unfold_lt (fun _ => guarded) named unfoldsFirst unfoldsSecond
    -- Below the bound the new pair agrees by the induction on values.
    have opened : AgreeBelow reading arena bound first second :=
      fun value shallow =>
        shallower value.depth shallow _ _ pairs first second firstAdmitted
          secondAdmitted
          (fun pair member => (sound pair member).smaller shallow)
          identical value (Nat.lt_succ_self _)
    have agree :=
      fewer rest (Nat.lt_succ_self _) ((first, second) :: pairs) x y xAdmitted
        yAdmitted
        (List.forall_mem_cons.mpr
          ⟨.inr ⟨opened, ranks⟩,
            fun pair member =>
              (sound pair member).lower (Nat.le_of_lt ranks)⟩)
        next
    intro value shallow
    rw [holds_unfold unfoldsFirst, holds_unfold unfoldsSecond]
    exact agree value shallow
  · refine agreeBelow_of_equalNodes firstAdmitted secondAdmitted ?_ ?_ equals
    · intro x y xAdmitted yAdmitted ranks same
      rw [Arena.identicalWithin_eq] at same
      exact nearer rest (Nat.lt_succ_self _) _ pairs x y xAdmitted yAdmitted
        (fun pair member => (sound pair member).lower ranks) same
    · intro x y xAdmitted yAdmitted same value shallow
      rw [Arena.identicalWithin_eq] at same
      exact shallower value.depth shallow _ _ pairs x y xAdmitted yAdmitted
        (fun pair member => (sound pair member).smaller shallow) same value
        (Nat.lt_succ_self _)

/-- Identical types hold the same values. -/
theorem holds_of_identical
    (covers : fragment.Covers arena)
    (firstAdmitted : fragment.admits first = true)
    (secondAdmitted : fragment.admits second = true)
    (identical : arena.identical first second = true)
    (value : Value) :
    Holds reading arena first value ↔ Holds reading arena second value := by
  unfold Arena.identical at identical
  rw [Arena.identicalWithin_eq] at identical
  exact agreeBelow_of_identicalFrom covers value.depth _ _ [] first second
    firstAdmitted secondAdmitted (by simp) identical value
    (Nat.lt_succ_self _)

end Pairs

end StructuralTyping
