import StructuralTyping.Proofs.Termination

namespace StructuralTyping

/-!
# Normalization keeps the values of a type

A type without utility applications has a normal form with every budget from
some budget on. Where no name leads back to itself, and `any` and index
signatures do not occur, the normal form holds the values of the type.
-/

/-- A type of a fragment contains no utility application. -/
theorem Fragment.applicationFree
    {fragment : Fragment}
    {type : Ty}
    (admitted : type ≠ .absent → fragment.admits type = true) :
    type.Every fun node => node.isApplication = false := by
  induction type using Ty.structuralInduction with
  | absent => exact .leaf rfl rfl
  | primitive => exact .leaf rfl rfl
  | literal => exact .leaf rfl rfl
  | named => exact .leaf rfl rfl
  | object occurrence shape inductionHypothesis =>
      obtain ⟨noIndex, _, each⟩ :=
        Fragment.admits_object.mp (admitted (by simp))
      exact .node rfl (Ty.forall_parts_object.mpr
        ⟨fun property member =>
          inductionHypothesis property member fun _ => (each property member).1,
          by simp [noIndex], by simp [noIndex]⟩)
  | array occurrence element readonly inductionHypothesis =>
      have elementFree :=
        inductionHypothesis fun _ =>
          Fragment.admits_array.mp (admitted (by simp))
      exact .node rfl (by simpa [Ty.parts] using elementFree)
  | tuple occurrence elements readonly inductionHypothesis =>
      have each := Fragment.admits_tuple.mp (admitted (by simp))
      exact .node rfl fun element member =>
        inductionHypothesis element member fun _ => each element member
  | function occurrence signature parameters rest result =>
      obtain ⟨parametersAdmitted, restAdmitted, resultAdmitted⟩ :=
        Fragment.admits_function.mp (admitted (by simp))
      exact .node rfl (Ty.forall_parts_function.mpr
        ⟨fun parameter member =>
          parameters parameter member fun _ =>
            parametersAdmitted parameter member,
          rest restAdmitted, result resultAdmitted⟩)
  | union occurrence members inductionHypothesis =>
      have each := Fragment.admits_union.mp (admitted (by simp))
      exact .node rfl fun member inMembers =>
        inductionHypothesis member inMembers fun _ => each member inMembers
  | intersection occurrence members inductionHypothesis =>
      obtain ⟨_, each⟩ :=
        Fragment.admits_intersection.mp (admitted (by simp))
      exact .node rfl fun member inMembers =>
        inductionHypothesis member inMembers fun _ => each member inMembers
  | generic occurrence application =>
      exact absurd (admitted (by simp)) (by simp)

/--
The types whose values normalization keeps: all but `any`, utility applications
and index signatures.
-/
def Fragment.anyFree : Fragment :=
  { any := false
    nan := true
    names := true
    intersections := true
    optional := true }

namespace Checker

/-- Normalizing a type of a fragment answers, with every budget from some on. -/
theorem normalize_answers
    {fragment : Fragment}
    {type : Ty}
    (admitted : fragment.admits type = true)
    (arena : Arena)
    (options : Options) :
    ∃ result added enough,
      ∀ budget, enough ≤ budget → ∀ log,
        Checker.normalize { arena, options, budget } type log =
          .ok (result, log ++ added) := by
  have free := Fragment.applicationFree fun _ => admitted
  have nothing : arena.Calm fun _ => False :=
    fun _ impossible => impossible.elim
  obtain ⟨result, added, enough, _, runs⟩ :=
    ((endsAt nothing options 0).normalize free.calm).ends []
  exact ⟨result, added, enough, fun budget fits =>
    Check.Appends.run (runs budget fits)⟩

/--
Normalization keeps the values of a type. Over an arena in which names do not
lead back to themselves, a type of the fragment has a normal form at every depth
bound, and the normal form holds exactly the values of the type.
-/
theorem normalize_keeps_values
    {arena : Arena}
    {type : Ty}
    {reading : Reading}
    (guarded : arena.Guarded)
    (definitions :
      ∀ reference, arena.definition reference ≠ .absent →
        Fragment.anyFree.admits (arena.definition reference) = true)
    (admitted : Fragment.anyFree.admits type = true)
    (strict : reading.undefinedOptional = false)
    (options : Options) :
    ∃ result added enough,
      (∀ budget, enough ≤ budget → ∀ log,
        Checker.normalize { arena, options, budget } type log =
          .ok (result, log ++ added)) ∧
      ∀ value,
        Holds reading arena result value ↔ Holds reading arena type value := by
  obtain ⟨result, added, enough, runs⟩ :=
    normalize_answers admitted arena options
  refine ⟨result, added, enough, runs, ?_⟩
  have sound : Fragment.anyFree.Sound reading arena :=
    { covers := fun _ => ⟨guarded, definitions⟩
      noAny := fun _ => rfl
      strict := fun _ _ => strict }
  let checker : Checker := { arena, options, budget := enough }
  have renders :=
    normalizeIn_renders
      { checker
        evaluate := checker.evaluation.evaluate
        keepReferences := false }
      sound admitted ⟨[], _, runs enough le_rfl []⟩
  exact renders.holds

section Chains

/-- A link of a chain, with a tag and the rest of the chain or `null`. -/
def linkArena : Arena :=
  { declarations :=
      [{ name := "Link"
         definition :=
          .ofShape
            { properties :=
                [{ name := "tag", type := .number },
                  { name := "next"
                    type :=
                      .ofUnion
                        [.named { arena := 0, id := 0, name := "Link" },
                          .null]
                    optional := true }] } }] }

/-- A link whose tag is one of two numbers, or a string. -/
def taggedLink : Ty :=
  .ofIntersection
    [.named { arena := 0, id := 0, name := "Link" },
      .ofUnion
        [.ofShape
          { properties :=
              [{ name := "tag"
                 type :=
                  .ofUnion
                    [.ofLiteral (.number (.ofNat 1)),
                      .ofLiteral (.number (.ofNat 2))] }] },
          .string]]

/-- Tagged links keep their values where the depth bound cuts them short. -/
theorem normalize_keeps_values_link :
    ∃ result added enough,
      (∀ budget, enough ≤ budget → ∀ log,
        Checker.normalize
            { arena := linkArena, options := { maxDepth := 2 }, budget }
            taggedLink log =
          .ok (result, log ++ added)) ∧
      ∀ value,
        Holds ⟨false, false⟩ linkArena result value ↔
          Holds ⟨false, false⟩ linkArena taggedLink value := by
  refine normalize_keeps_values ?_ ?_ (by decide +kernel) rfl
    { maxDepth := 2 }
  · refine Arena.guarded_of_rank (fun _ => 0) fun reference other mentions => ?_
    have := Arena.mem_mentioned mentions
    simp [Arena.mentioned, linkArena, Ty.ofShape, Ty.mentions] at this
  · exact Arena.forall_definition (Fragment.anyFree.admits · = true)
      (by decide +kernel)

end Chains

end Checker

end StructuralTyping
