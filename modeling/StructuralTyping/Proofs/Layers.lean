import StructuralTyping.Checker.Assign
import StructuralTyping.Proofs.IdentityMeaning

namespace StructuralTyping

/-!
# Layers of unions and intersections

Unions and intersections of a type, seen through names, nest in layers. In a
guarded arena every type has finitely many of them. Identical types have the
same number of layers, so a type that is no name itself is never identical to a
name that it mentions: each mentioned name lies at least one layer below.
-/

/--
Unions and intersections nest at most so deep at the level of the type itself,
names being replaced by their definitions.
-/
inductive Layered
    (arena : Arena) :
    Nat →
    Ty →
    Prop
  | named :
      Layered arena bound (arena.definition reference) →
      Layered arena bound (.named reference)
  | union :
      (∀ member ∈ members, Layered arena bound member) →
      Layered arena (bound + 1) (.union occurrence members)
  | intersection :
      (∀ member ∈ members, Layered arena bound member) →
      Layered arena (bound + 1) (.intersection occurrence members)
  | plain :
      type.isNamed = false →
      type.isUnion = false →
      RelationStep.isIntersection type = false →
      Layered arena bound type

section Layers

variable {arena : Arena}

/-- A name has the layers of its definition. -/
theorem layered_named :
    Layered arena bound (.named reference) ↔
      Layered arena bound (arena.definition reference) := by
  constructor
  · intro layered
    cases layered with
    | named layered =>
        exact layered
    | plain notNamed =>
        cases notNamed
  · exact .named

/-- A union has one layer more than its members. -/
theorem layered_union :
    Layered arena bound (.union occurrence members) ↔
      ∃ fewer, bound = fewer + 1 ∧
        ∀ member ∈ members, Layered arena fewer member := by
  constructor
  · intro layered
    cases layered with
    | union each =>
        exact ⟨_, rfl, each⟩
    | plain _ notUnion =>
        cases notUnion
  · rintro ⟨fewer, rfl, each⟩
    exact .union each

/-- An intersection has one layer more than its members. -/
theorem layered_intersection :
    Layered arena bound (.intersection occurrence members) ↔
      ∃ fewer, bound = fewer + 1 ∧
        ∀ member ∈ members, Layered arena fewer member := by
  constructor
  · intro layered
    cases layered with
    | intersection each =>
        exact ⟨_, rfl, each⟩
    | plain _ _ notIntersection =>
        cases notIntersection
  · rintro ⟨fewer, rfl, each⟩
    exact .intersection each

/-- A bound on the layers may be raised. -/
theorem Layered.mono
    {type : Ty}
    (layered : Layered arena bound type)
    (below : bound ≤ above) :
    Layered arena above type := by
  induction layered generalizing above with
  | named _ inductionHypothesis =>
      exact .named (inductionHypothesis below)
  | union _ inductionHypothesis =>
      obtain ⟨fewer, rfl⟩ : ∃ fewer, above = fewer + 1 :=
        ⟨above - 1, by omega⟩
      exact .union fun member inMembers =>
        inductionHypothesis member inMembers (by omega)
  | intersection _ inductionHypothesis =>
      obtain ⟨fewer, rfl⟩ : ∃ fewer, above = fewer + 1 :=
        ⟨above - 1, by omega⟩
      exact .intersection fun member inMembers =>
        inductionHypothesis member inMembers (by omega)
  | plain notNamed notUnion notIntersection =>
      exact .plain notNamed notUnion notIntersection

/-- A mentioned name has no more layers than the type. -/
theorem Layered.mentions
    {type : Ty}
    (layered : Layered arena bound type)
    (mentioned : reference ∈ type.mentions) :
    Layered arena bound (.named reference) := by
  induction layered with
  | named layered _ =>
      cases Ty.mem_mentions_named.mp mentioned
      exact .named layered
  | union _ inductionHypothesis =>
      obtain ⟨member, inMembers, mentioned⟩ := Ty.mem_mentions_union.mp mentioned
      exact (inductionHypothesis member inMembers mentioned).mono (by omega)
  | intersection _ inductionHypothesis =>
      obtain ⟨member, inMembers, mentioned⟩ :=
        Ty.mem_mentions_intersection.mp mentioned
      exact (inductionHypothesis member inMembers mentioned).mono (by omega)
  | @plain type _ notNamed notUnion notIntersection =>
      cases type <;>
        simp [Ty.mentions, Ty.isNamed, Ty.isUnion, RelationStep.isIntersection]
          at mentioned notNamed notUnion notIntersection

/-- Finitely many types have a common bound on their layers. -/
theorem exists_layered_all
    {members : List Ty}
    (each : ∀ member ∈ members, ∃ bound, Layered arena bound member) :
    ∃ bound, ∀ member ∈ members, Layered arena bound member := by
  induction members with
  | nil =>
      exact ⟨0, by simp⟩
  | cons first rest inductionHypothesis =>
      obtain ⟨head, ofFirst⟩ := each first (by simp)
      obtain ⟨tail, ofRest⟩ :=
        inductionHypothesis fun member inRest => each member (by simp [inRest])
      refine ⟨max head tail, List.forall_mem_cons.mpr
        ⟨ofFirst.mono (by omega), fun member inRest => ?_⟩⟩
      exact (ofRest member inRest).mono (by omega)

/-- In a guarded arena every type has finitely many layers. -/
theorem exists_layered
    (guarded : arena.Guarded)
    (type : Ty) :
    ∃ bound, Layered arena bound type := by
  induction bounded : arena.rank type using Nat.strongRecOn
    generalizing type with
  | _ rank lower =>
  subst bounded
  -- Members rank no higher than the type, so the type is taken apart next.
  have upTo :
      ∀ other, arena.rank other ≤ arena.rank type →
        ∃ bound, Layered arena bound other := by
    intro other below
    induction other using Ty.structuralInduction with
    | named reference =>
        obtain ⟨bound, layered⟩ :=
          lower _ (Nat.lt_of_lt_of_le
            (Arena.rank_definition_lt guarded reference) below) _ rfl
        exact ⟨bound, .named layered⟩
    | union occurrence members each =>
        obtain ⟨bound, layered⟩ := exists_layered_all fun member inMembers =>
          each member inMembers
            ((Arena.rank_le_union arena inMembers).trans below)
        exact ⟨bound + 1, .union layered⟩
    | intersection occurrence members each =>
        obtain ⟨bound, layered⟩ := exists_layered_all fun member inMembers =>
          each member inMembers
            ((Arena.rank_le_intersection arena inMembers).trans below)
        exact ⟨bound + 1, .intersection layered⟩
    | _ =>
        exact ⟨0, .plain rfl rfl rfl⟩
  exact upTo type (Nat.le_refl _)

/-- Unfolding a name changes no layers. -/
theorem layered_unfold
    {type unfolded : Ty}
    (unfolds : arena.unfold? type = some unfolded) :
    Layered arena bound type ↔ Layered arena bound unfolded := by
  unfold Arena.unfold? at unfolds
  split at unfolds
  · split at unfolds
    · simp at unfolds
    · cases unfolds
      exact layered_named
  · cases unfolds
    rfl

end Layers

section Identity

variable {arena : Arena}

/-- Lists that are equal as sets have the same layers if equal members do. -/
theorem layered_sameMembers
    {equal : Ty → Ty → Bool}
    {first second : List Ty}
    (equals : sameMembers equal first second = true)
    (firstBelow : ∀ x ∈ first, arena.rank x ≤ firstRank)
    (secondBelow : ∀ y ∈ second, arena.rank y ≤ secondRank)
    (agree : ∀ x y,
      arena.rank x + arena.rank y ≤ firstRank + secondRank →
      equal x y = true →
      ∀ bound, Layered arena bound x ↔ Layered arena bound y) :
    (∀ member ∈ first, Layered arena bound member) ↔
      ∀ member ∈ second, Layered arena bound member := by
  simp only [sameMembers, containsMember, Bool.and_eq_true, List.all_eq_true,
    List.any_eq_true] at equals
  constructor
  · intro each member inSecond
    obtain ⟨other, inFirst, same⟩ := equals.2 member inSecond
    have memberRank := secondBelow member inSecond
    have otherRank := firstBelow other inFirst
    exact (agree other member (by omega) same bound).mp (each other inFirst)
  · intro each member inFirst
    obtain ⟨other, inSecond, same⟩ := equals.1 member inFirst
    have memberRank := firstBelow member inFirst
    have otherRank := secondBelow other inSecond
    exact (agree other member (by omega) same bound).mp (each other inSecond)

/-- Equal nodes have the same layers if their members do. -/
theorem layered_of_equalNodes
    {equal : Ty → Ty → Bool}
    {first second : Ty}
    (members : ∀ x y,
      arena.rank x + arena.rank y ≤ arena.rank first + arena.rank second →
      equal x y = true →
      ∀ bound, Layered arena bound x ↔ Layered arena bound y)
    (equals : equalNodes equal first second = true) :
    Layered arena bound first ↔ Layered arena bound second := by
  unfold equalNodes at equals
  split at equals
  case h_7 =>
    rw [layered_union, layered_union]
    exact exists_congr fun fewer => and_congr_right fun _ =>
      layered_sameMembers equals (fun _ => arena.rank_le_union)
        (fun _ => arena.rank_le_union) members
  case h_8 =>
    rw [layered_intersection, layered_intersection]
    exact exists_congr fun fewer => and_congr_right fun _ =>
      layered_sameMembers equals (fun _ => arena.rank_le_intersection)
        (fun _ => arena.rank_le_intersection) members
  case h_10 =>
    simp at equals
  all_goals exact iff_of_true (.plain rfl rfl rfl) (.plain rfl rfl rfl)

/--
Types that are identical while all pairs under comparison rank higher have the
same layers.
-/
theorem layered_of_identicalFrom
    (guarded : arena.Guarded)
    (hops depth : Nat)
    (pairs : OpenPairs)
    (first second : Ty)
    (above : ∀ pair ∈ pairs,
      arena.rank first + arena.rank second <
        arena.rank pair.1 + arena.rank pair.2)
    (identical :
      arena.identicalFrom hops depth pairs first second = true)
    (bound : Nat) :
    Layered arena bound first ↔ Layered arena bound second := by
  induction depth using Nat.strongRecOn generalizing
    hops pairs first second bound with
  | _ depth nearer =>
  induction hops using Nat.strongRecOn generalizing pairs first second with
  | _ hops fewer =>
  rcases identicalFrom_cases identical with
    rfl | assumed | ⟨rest, x, y, rfl, named, unfoldsFirst, unfoldsSecond, next⟩ |
    ⟨rest, rfl, equals⟩
  · rfl
  · exact absurd (above _ assumed) (Nat.lt_irrefl _)
  · rw [layered_unfold unfoldsFirst, layered_unfold unfoldsSecond]
    have ranks :=
      rank_unfold_lt (fun _ => guarded) named unfoldsFirst unfoldsSecond
    exact fewer rest (Nat.lt_succ_self _) ((first, second) :: pairs) x y
      (List.forall_mem_cons.mpr
        ⟨ranks, fun pair member => ranks.trans (above pair member)⟩)
      next
  · refine layered_of_equalNodes (fun x y ranks same bound => ?_) equals
    rw [Arena.identicalWithin_eq] at same
    exact nearer rest (Nat.lt_succ_self _) _ pairs x y
      (fun pair member => ranks.trans_lt (above pair member)) same bound

/-- Identical types have the same layers. -/
theorem layered_of_identical
    (guarded : arena.Guarded)
    (identical : arena.identical first second = true) :
    Layered arena bound first ↔ Layered arena bound second := by
  unfold Arena.identical at identical
  rw [Arena.identicalWithin_eq] at identical
  exact layered_of_identicalFrom guarded _ _ [] first second (by simp)
    identical bound

/--
Every name that a type mentions lies in fewer layers than a type over it, so it
is not identical to that type.
-/
def Overlies
    (arena : Arena)
    (upper type : Ty) :
    Prop :=
  ∀ reference ∈ type.mentions,
    ∃ bound,
      Layered arena bound (.named reference) ∧ ¬ Layered arena bound upper

namespace Overlies

/-- A type lies over all types that mention no more names. -/
theorem mono
    {type other : Ty}
    (overlies : Overlies arena upper type)
    (fewer : ∀ reference ∈ other.mentions, reference ∈ type.mentions) :
    Overlies arena upper other :=
  fun reference mentioned => overlies reference (fewer reference mentioned)

/-- A type over a name lies over its definition. -/
theorem definition
    (overlies : Overlies arena upper (.named reference)) :
    Overlies arena upper (arena.definition reference) := by
  intro other mentioned
  obtain ⟨bound, layered, notOver⟩ := overlies reference (by simp)
  exact ⟨bound, (layered_named.mp layered).mentions mentioned, notOver⟩

/-- A name lies over what its definition lies over. -/
theorem of_definition
    {type : Ty}
    (overlies : Overlies arena (arena.definition reference) type) :
    Overlies arena (.named reference) type := by
  intro other mentioned
  obtain ⟨bound, layered, notOver⟩ := overlies other mentioned
  exact ⟨bound, layered, fun named => notOver (layered_named.mp named)⟩

/-- A name that a type mentions, no name itself, lies in a layer below. -/
theorem below_of_mentions
    {type : Ty}
    (notNamed : type.isNamed = false)
    (mentioned : reference ∈ type.mentions)
    (layered : Layered arena bound type) :
    ∃ fewer, bound = fewer + 1 ∧ Layered arena fewer (.named reference) := by
  cases type <;> simp only [Ty.mentions, List.not_mem_nil] at mentioned
  case named =>
    cases notNamed
  case union =>
    obtain ⟨fewer, isSucc, each⟩ := layered_union.mp layered
    obtain ⟨member, inMembers, mentioned⟩ := Ty.mem_mentionsAll.mp mentioned
    exact ⟨fewer, isSucc, (each member inMembers).mentions mentioned⟩
  case intersection =>
    obtain ⟨fewer, isSucc, each⟩ := layered_intersection.mp layered
    obtain ⟨member, inMembers, mentioned⟩ := Ty.mem_mentionsAll.mp mentioned
    exact ⟨fewer, isSucc, (each member inMembers).mentions mentioned⟩

/-- In a guarded arena a type that is no name lies over itself. -/
theorem self
    {type : Ty}
    (guarded : arena.Guarded)
    (notNamed : type.isNamed = false) :
    Overlies arena type type := by
  intro reference mentioned
  obtain ⟨bound, layered⟩ := exists_layered guarded type
  -- The least bound of the type is one more than a bound of the name.
  induction bound with
  | zero =>
      obtain ⟨_, isSucc, _⟩ := below_of_mentions notNamed mentioned layered
      cases isSucc
  | succ fewer inductionHypothesis =>
      by_cases stillLayered : Layered arena fewer type
      · exact inductionHypothesis stillLayered
      · obtain ⟨_, isSucc, below⟩ :=
          below_of_mentions notNamed mentioned layered
        cases isSucc
        exact ⟨fewer, below, stillLayered⟩

/-- A type that lies over a name is not identical to it. -/
theorem not_identical
    (guarded : arena.Guarded)
    (overlies : Overlies arena upper (.named reference)) :
    arena.identical upper (.named reference) = false := by
  rw [← Bool.not_eq_true]
  intro identical
  obtain ⟨bound, layered, notOver⟩ := overlies reference (by simp)
  exact notOver ((layered_of_identical guarded identical).mpr layered)

end Overlies

end Identity

end StructuralTyping
