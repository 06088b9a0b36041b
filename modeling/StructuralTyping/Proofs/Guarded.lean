import Mathlib.Data.Finset.Card
import Mathlib.Logic.Relation
import StructuralTyping.Arena

namespace StructuralTyping

/-!
# Guarded arenas

A type mentions the names that its values may belong to without being taken
apart: the type itself, and the members of unions and intersections. An arena
is guarded when no name leads back to itself through names that definitions
mention in this sense. The names of a guarded arena can be ranked, and so can
the types over it.
-/

namespace Ty

mutual

/-- The names that stand at the level of the type itself. -/
def mentions :
    Ty →
    List Reference
  | named reference => [reference]
  | union _ members => mentionsAll members
  | intersection _ members => mentionsAll members
  | _ => []

/-- The names that stand at the level of the types of a list. -/
def mentionsAll :
    List Ty →
    List Reference
  | [] => []
  | type :: rest => mentions type ++ mentionsAll rest

end

/-- A list mentions what its types mention. -/
theorem mem_mentionsAll
    {types : List Ty} :
    reference ∈ mentionsAll types ↔
      ∃ type ∈ types, reference ∈ type.mentions := by
  induction types with
  | nil =>
      simp [mentionsAll]
  | cons type rest inductionHypothesis =>
      simp [mentionsAll, inductionHypothesis]

@[simp] theorem mem_mentions_named :
    other ∈ (Ty.named reference).mentions ↔ other = reference := by
  simp [mentions]

@[simp] theorem mem_mentions_union
    {members : List Ty} :
    reference ∈ (Ty.union occurrence members).mentions ↔
      ∃ member ∈ members, reference ∈ member.mentions := by
  rw [mentions, mem_mentionsAll]

@[simp] theorem mem_mentions_intersection
    {members : List Ty} :
    reference ∈ (Ty.intersection occurrence members).mentions ↔
      ∃ member ∈ members, reference ∈ member.mentions := by
  rw [mentions, mem_mentionsAll]

/-- A type mentions what its union members mention. -/
theorem mem_mentions_members
    {type : Ty} :
    reference ∈ type.mentions ↔
      ∃ member ∈ type.members, reference ∈ member.mentions := by
  cases type <;> simp [Ty.members]

end Ty

namespace Arena

/-- The definition of a name mentions another name. -/
def Mentions
    (arena : Arena)
    (reference other : Reference) :
    Prop :=
  other ∈ (arena.definition reference).mentions

/-- No name reaches itself through definitions, unions and intersections. -/
def Guarded
    (arena : Arena) :
    Prop :=
  ∀ reference, ¬ Relation.TransGen arena.Mentions reference reference

/-- An arena is guarded when its names can be ranked along mentions. -/
theorem guarded_of_rank
    {arena : Arena}
    (rank : Reference → Nat)
    (lower :
      ∀ reference other,
        arena.Mentions reference other → rank other < rank reference) :
    arena.Guarded := by
  intro reference cycle
  have below :
      ∀ {other}, Relation.TransGen arena.Mentions reference other →
        rank other < rank reference := by
    intro other reached
    induction reached with
    | single mentions =>
        exact lower _ _ mentions
    | tail _ mentions inductionHypothesis =>
        exact (lower _ _ mentions).trans inductionHypothesis
  exact Nat.lt_irrefl _ (below cycle)

/-- A definition stands in some declaration. -/
theorem exists_declaration
    {arena : Arena}
    (defined : arena.definition reference ≠ .absent) :
    ∃ declaration ∈ arena.declarations,
      declaration.definition = arena.definition reference := by
  unfold definition lookup at defined ⊢
  split at defined
  · next here =>
    rw [if_pos here]
    split at defined
    · next declaration found =>
      exact ⟨declaration, List.mem_of_getElem? found, rfl⟩
    · simp at defined
  · simp at defined

/-- What all declared definitions satisfy, every definition satisfies. -/
theorem forall_definition
    {arena : Arena}
    (property : Ty → Prop)
    (each :
      ∀ declaration ∈ arena.declarations, property declaration.definition)
    (reference : Reference)
    (defined : arena.definition reference ≠ .absent) :
    property (arena.definition reference) := by
  obtain ⟨declaration, inArena, same⟩ := exists_declaration defined
  exact same ▸ each declaration inArena

/-- All names that some definition mentions. -/
def mentioned
    (arena : Arena) :
    Finset Reference :=
  (arena.declarations.flatMap fun declaration =>
    declaration.definition.mentions).toFinset

/-- What a definition mentions is among the mentioned names. -/
theorem mem_mentioned
    {arena : Arena}
    (mentions : arena.Mentions reference other) :
    other ∈ arena.mentioned := by
  unfold Mentions definition lookup at mentions
  split at mentions
  · split at mentions
    · next declaration found =>
      rw [mentioned, List.mem_toFinset, List.mem_flatMap]
      exact ⟨declaration, List.mem_of_getElem? found, mentions⟩
    · simp [Ty.mentions] at mentions
  · simp [Ty.mentions] at mentions

open Classical in
/-- How many names a name leads to. -/
noncomputable def nameRank
    (arena : Arena)
    (reference : Reference) :
    Nat :=
  (arena.mentioned.filter fun other =>
    Relation.TransGen arena.Mentions reference other).card

/-- Along mentions, a guarded arena leads to fewer and fewer names. -/
theorem nameRank_lt
    {arena : Arena}
    (guarded : arena.Guarded)
    (mentions : arena.Mentions reference other) :
    arena.nameRank other < arena.nameRank reference := by
  classical
  refine Finset.card_lt_card ⟨?_, ?_⟩
  · intro name reached
    simp only [Finset.mem_filter] at reached ⊢
    exact ⟨reached.1, .head mentions reached.2⟩
  · intro all
    have itself :
        other ∈ arena.mentioned.filter fun name =>
          Relation.TransGen arena.Mentions reference name := by
      simp only [Finset.mem_filter]
      exact ⟨mem_mentioned mentions, .single mentions⟩
    have reached := all itself
    simp only [Finset.mem_filter] at reached
    exact guarded other reached.2

/-- One more than the rank of each name that a type mentions. -/
noncomputable def rank
    (arena : Arena)
    (type : Ty) :
    Nat :=
  (type.mentions.map fun reference => arena.nameRank reference + 1).foldr max 0

/-- A type ranks above the names it mentions. -/
theorem nameRank_lt_rank
    {arena : Arena}
    {type : Ty}
    (mentions : reference ∈ type.mentions) :
    arena.nameRank reference < arena.rank type := by
  unfold rank
  generalize type.mentions = names at mentions
  induction names with
  | nil =>
      simp at mentions
  | cons first rest inductionHypothesis =>
      simp only [List.map_cons, List.foldr_cons]
      rcases List.mem_cons.mp mentions with rfl | inRest
      · omega
      · have := inductionHypothesis inRest
        omega

/-- A type ranks no higher than the names it mentions allow. -/
theorem rank_le
    {arena : Arena}
    {type : Ty}
    (bounded :
      ∀ reference ∈ type.mentions, arena.nameRank reference < bound) :
    arena.rank type ≤ bound := by
  unfold rank
  generalize type.mentions = names at bounded
  induction names with
  | nil =>
      simp
  | cons first rest inductionHypothesis =>
      simp only [List.map_cons, List.foldr_cons]
      have head := bounded first (by simp)
      have tail :=
        inductionHypothesis fun reference member =>
          bounded reference (by simp [member])
      omega

/-- A type that mentions no more names ranks no higher. -/
theorem rank_mono
    {arena : Arena}
    {type other : Ty}
    (fewer :
      ∀ reference ∈ type.mentions, reference ∈ other.mentions) :
    arena.rank type ≤ arena.rank other :=
  rank_le fun reference mentioned =>
    nameRank_lt_rank (fewer reference mentioned)

/-- A member ranks no higher than its union. -/
theorem rank_le_union
    (arena : Arena)
    (inMembers : member ∈ members) :
    arena.rank member ≤ arena.rank (.union occurrence members) :=
  rank_mono fun reference mentioned => by
    simpa using ⟨member, inMembers, mentioned⟩

/-- A member ranks no higher than its intersection. -/
theorem rank_le_intersection
    (arena : Arena)
    (inMembers : member ∈ members) :
    arena.rank member ≤ arena.rank (.intersection occurrence members) :=
  rank_mono fun reference mentioned => by
    simpa using ⟨member, inMembers, mentioned⟩

/-- In a guarded arena a definition ranks below its name. -/
theorem rank_definition_lt
    {arena : Arena}
    (guarded : arena.Guarded)
    (reference : Reference) :
    arena.rank (arena.definition reference) <
      arena.rank (.named reference) := by
  have below :
      arena.rank (arena.definition reference) ≤ arena.nameRank reference :=
    rank_le fun other mentioned => nameRank_lt guarded mentioned
  have above :
      arena.nameRank reference < arena.rank (.named reference) :=
    nameRank_lt_rank (by simp)
  omega

end Arena

end StructuralTyping
