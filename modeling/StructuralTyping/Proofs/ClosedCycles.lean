import StructuralTyping.Checker.Assign
import StructuralTyping.Proofs.AssignMeaning

namespace StructuralTyping

/-!
# Members behind closed cycles

A comparison closes a cycle when it meets a pair of references again. Between
two such pairs nothing but names and union members may lie, and then the cycle
is closed without any member that accepts the source.
-/

/-- What is reached from a type through definitions and union members. -/
inductive Arena.Reaches
    (arena : Arena)
    (source : Ty) :
    Ty →
    Prop where
  | refl : Reaches arena source source
  | definition
      (reaches : Reaches arena source (.named reference)) :
      Reaches arena source (arena.definition reference)
  | member
      (reaches : Reaches arena source (.union occurrence members))
      (inMembers : type ∈ members) :
      Reaches arena source type

namespace Checker

section SelfMember

/-- `A` is a union of itself and the texts. -/
def selfMemberArena : Arena :=
  { declarations :=
      [{ name := "A"
         definition :=
          .ofUnion [.named { arena := 0, id := 0, name := "A" }, .string] }] }

/-- What `A` reaches. -/
theorem selfMember_reaches
    (reaches :
      selfMemberArena.Reaches (.named { arena := 0, id := 0, name := "A" })
        type) :
    type = .named { arena := 0, id := 0, name := "A" } ∨
      type = .ofUnion [.named { arena := 0, id := 0, name := "A" }, .string] ∨
      type = .string := by
  induction reaches with
  | refl =>
      exact .inl rfl
  | definition _ inductionHypothesis =>
      rcases inductionHypothesis with same | same | same
      · cases same
        exact .inr (.inl rfl)
      · cases same
      · cases same
  | member _ inMembers inductionHypothesis =>
      rcases inductionHypothesis with same | same | same
      · cases same
      · cases same
        rcases List.mem_cons.mp inMembers with rfl | inMembers
        · exact .inl rfl
        · exact .inr (.inr (List.mem_singleton.mp inMembers))
      · cases same

/--
Numbers are assignable to `A`, although its only member apart from itself does
not accept them: the pair is met again as a member of the union.
-/
theorem isAssignable_invents_member :
    let checker : Checker := { arena := selfMemberArena, budget := 8 }
    let target : Ty := .named { arena := 0, id := 0, name := "A" }
    checker.isAssignable .number target [] = .ok (true, []) ∧
      ∀ type,
        selfMemberArena.Reaches target type →
        type.isReference = false →
        type.isUnion = false →
        ¬ Check.Answers (checker.isAssignable .number type) true := by
  refine ⟨by decide +kernel, fun type reaches notReference notUnion => ?_⟩
  rcases selfMember_reaches reaches with rfl | rfl | rfl
  · cases notReference
  · cases notUnion
  · intro accepts
    have refused :
        Check.Answers
          (isAssignable { arena := selfMemberArena, budget := 8 } .number
            .string)
          false :=
      ⟨[], [], by decide +kernel⟩
    cases accepts.unique refused

end SelfMember

end Checker

end StructuralTyping
