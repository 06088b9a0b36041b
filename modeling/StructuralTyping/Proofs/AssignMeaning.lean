import StructuralTyping.Proofs.Layers
import StructuralTyping.Proofs.PropertyReads

namespace StructuralTyping

/-!
# Assignable types hold fewer values

A comparison that succeeds includes the values of the source in those of the
target. Pairs under comparison are assumed on the way. For the parts of a value
the assumption holds by induction on the depth of the value; for the value
itself it is never used where no name is defined as another name, since every
expanded name lies over the names that are compared next.
-/

open Stateful

instance : Inhabited Findings :=
  ⟨{}⟩

namespace Relating

/-- A failed comparison does not succeed. -/
theorem not_answers_fail :
    ¬ Answers (fail reason) true := by
  intro answers
  obtain ⟨_, _, answers⟩ := answers.of_bind
  cases answers_pure.mp answers

/-- An explained comparison succeeds as the comparison does. -/
theorem answers_of_orFail
    {comparison : Relating Bool}
    (answers : Answers (orFail comparison reason) true) :
    Answers comparison true := by
  obtain ⟨holds, compares, answers⟩ := answers.of_bind
  cases holds with
  | true =>
      exact compares
  | false =>
      exact (not_answers_fail answers).elim

/-- Dropping reasons changes no answer. -/
theorem answers_of_silently
    {comparison : Relating Bool}
    (answers : Answers (silently comparison) holds) :
    Answers comparison holds := by
  obtain ⟨_, _, answers⟩ := answers.of_bind
  obtain ⟨answer, compares, answers⟩ := answers.of_bind
  obtain ⟨_, _, answers⟩ := answers.of_bind
  cases answers_pure.mp answers
  exact compares

/-- All comparisons of a list that succeeds succeed. -/
theorem answers_of_allOf
    {comparisons : List (Relating Bool)}
    (answers : Answers (allOf comparisons) true) :
    ∀ comparison ∈ comparisons, Answers comparison true := by
  induction comparisons with
  | nil =>
      simp
  | cons comparison rest inductionHypothesis =>
      obtain ⟨holds, compares, answers⟩ := answers.of_bind
      cases holds with
      | true =>
          exact List.forall_mem_cons.mpr
            ⟨compares, inductionHypothesis answers⟩
      | false =>
          cases answers_pure.mp answers

/-- Some comparison of a list that has a successful one succeeds. -/
theorem answers_of_anyOf
    {comparisons : List (Relating Bool)}
    (answers : Answers (anyOf comparisons) true) :
    ∃ comparison ∈ comparisons, Answers comparison true := by
  induction comparisons with
  | nil =>
      cases answers_pure.mp answers
  | cons comparison rest inductionHypothesis =>
      obtain ⟨holds, compares, answers⟩ := answers.of_bind
      cases holds with
      | true =>
          exact ⟨comparison, by simp, answers_of_silently compares⟩
      | false =>
          obtain ⟨other, inRest, succeeds⟩ := inductionHypothesis answers
          exact ⟨other, by simp [inRest], succeeds⟩

/-- A choice between comparisons succeeds as the comparison that is taken. -/
theorem answers_ite
    {condition : Prop}
    [Decidable condition]
    {first second : Relating Bool}
    (answers : Answers (if condition then first else second) true) :
    condition ∧ Answers first true ∨ ¬ condition ∧ Answers second true := by
  split at answers
  · exact .inl ⟨‹_›, answers⟩
  · exact .inr ⟨‹_›, answers⟩

/-- A decided comparison succeeds only if it is accepted. -/
theorem accepted_of_answers
    {accepted : Bool}
    (answers :
      Answers (if accepted = true then pure true else fail reason) true) :
    accepted = true := by
  split at answers
  · assumption
  · exact (not_answers_fail answers).elim

end Relating

/--
The types whose comparison is read by values: all but `any`, utility
applications, index signatures and optional properties.
-/
def Fragment.comparable : Fragment :=
  { any := false
    nan := true
    names := true
    intersections := true
    optional := false }

/-- No name is defined as another name. -/
def Arena.AliasFree
    (arena : Arena) :
    Prop :=
  ∀ reference, (arena.definition reference).isNamed = false

/-- An arena over which types can be compared. -/
structure Arena.Comparable
    (arena : Arena) :
    Prop where
  guarded : arena.Guarded
  aliasFree : arena.AliasFree
  definitions :
    ∀ reference,
      arena.definition reference ≠ .absent →
      Fragment.comparable.admits (arena.definition reference) = true

/-- The values of a source nested less deep than a bound are in the target. -/
def IncludedBelow
    (reading : Reading)
    (arena : Arena)
    (bound : Nat)
    (source target : Ty) :
    Prop :=
  ∀ value : Value,
    value.depth < bound →
    Holds reading arena source value →
    Holds reading arena target value

/-- Inclusion of more values is inclusion of fewer. -/
theorem IncludedBelow.mono
    {reading : Reading}
    {arena : Arena}
    (included : IncludedBelow reading arena bound source target)
    (fewer : smaller ≤ bound) :
    IncludedBelow reading arena smaller source target :=
  fun value shallow => included value (Nat.lt_of_lt_of_le shallow fewer)

/--
What is assumed while a source is compared with a target, as far as values up
to a depth are concerned: pairs of objects hold, and so do pairs of references
unless they lie over the types that are compared.
-/
structure Justified
    (reading : Reading)
    (arena : Arena)
    (bound : Nat)
    (assumptions : Assumptions)
    (source target : Ty) :
    Prop where
  admits :
    ∀ pair ∈ assumptions.references,
      Fragment.comparable.admits pair.1 = true ∧
        Fragment.comparable.admits pair.2 = true
  references :
    ∀ pair ∈ assumptions.references,
      IncludedBelow reading arena (bound + 1) pair.1 pair.2 ∨
        IncludedBelow reading arena bound pair.1 pair.2 ∧
          Overlies arena pair.1 source ∧ Overlies arena pair.2 target
  objects :
    ∀ pair ∈ assumptions.objects,
      IncludedBelow reading arena (bound + 1) pair.1 pair.2

namespace Justified

variable {reading : Reading} {arena : Arena}

/-- Assumptions are justified for types that the pairs lie over as well. -/
theorem transfer
    (justified : Justified reading arena bound assumptions source target)
    (sources : ∀ upper, Overlies arena upper source → Overlies arena upper first)
    (targets :
      ∀ upper, Overlies arena upper target → Overlies arena upper second) :
    Justified reading arena bound assumptions first second where
  admits := justified.admits
  references pair member :=
    (justified.references pair member).imp_right
      fun ⟨included, overSource, overTarget⟩ =>
        ⟨included, sources _ overSource, targets _ overTarget⟩
  objects := justified.objects

/-- Assumptions are justified for types that mention no more names. -/
theorem fewer
    {source target first second : Ty}
    (justified : Justified reading arena bound assumptions source target)
    (sources : ∀ reference ∈ first.mentions, reference ∈ source.mentions)
    (targets : ∀ reference ∈ second.mentions, reference ∈ target.mentions) :
    Justified reading arena bound assumptions first second :=
  justified.transfer (fun _ overlies => overlies.mono sources)
    fun _ overlies => overlies.mono targets

/-- Assumptions are justified for all types as far as smaller values go. -/
theorem smaller
    (justified : Justified reading arena bound assumptions source target)
    (below : depth < bound) :
    Justified reading arena depth assumptions first second where
  admits := justified.admits
  references pair member := by
    rcases justified.references pair member with included | ⟨included, _⟩
    · exact .inl (included.mono (by omega))
    · exact .inl (included.mono (by omega))
  objects pair member :=
    (justified.objects pair member).mono (by omega)

end Justified

/-- Comparisons that succeed under justified assumptions include the values. -/
def Comparison.SoundAt
    (reading : Reading)
    (arena : Arena)
    (bound : Nat)
    (compare : Comparison) :
    Prop :=
  ∀ assumptions source target,
    Fragment.comparable.admits source = true →
    Fragment.comparable.admits target = true →
    Justified reading arena bound assumptions source target →
    Answers (compare assumptions source target) true →
    IncludedBelow reading arena (bound + 1) source target

section Merging

variable {reading : Reading} {checker : Checker}

/-- Types of the fragment can be normalized over a comparable arena. -/
theorem Arena.Comparable.sound
    {arena : Arena}
    (comparable : arena.Comparable) :
    Fragment.comparable.Sound reading arena where
  covers _ := ⟨comparable.guarded, comparable.definitions⟩
  noAny _ := rfl
  strict _ optional := by cases optional

/-- A normalized operand stands for the operand. -/
theorem Evaluation.normalizeOperand_renders
    (comparable : checker.arena.Comparable)
    (admitted : Fragment.comparable.admits type = true)
    (answers :
      Check.Answers (checker.evaluation.normalizeOperand depth type) result) :
    Renders .comparable reading checker.arena result
      (Holds reading checker.arena type) (· ∈ type.mentions) :=
  normalizeIn_renders
    { checker
      evaluate := checker.evaluation.evaluate
      keepReferences := true }
    comparable.sound admitted answers

/--
A type that a type of the fragment resolves to: it holds at least the values of
the type, and every type that lies over the type lies over it too.
-/
structure ResolvesTo
    (reading : Reading)
    (arena : Arena)
    (type resolved : Ty) :
    Prop where
  admits : Fragment.comparable.admits resolved = true
  holds :
    ∀ value,
      Holds reading arena type value → Holds reading arena resolved value
  overlies : ∀ upper, Overlies arena upper type → Overlies arena upper resolved

/-- Following names leads to a type that stands for the first name. -/
theorem resolveWithin_resolvesTo
    {checker : Checker}
    (comparable : checker.arena.Comparable)
    (admitted : Fragment.comparable.admits type = true)
    (answers :
      Check.Answers (checker.evaluation.resolveWithin remaining depth type).run
        (.ok resolved)) :
    ResolvesTo reading checker.arena type resolved := by
  induction remaining generalizing depth type with
  | zero =>
      unfold Evaluation.resolveWithin Checker.failTooComplex at answers
      obtain ⟨_, _, answers⟩ := answers.of_evaluateBind
      cases Check.answers_pure.mp answers
  | succ remaining inductionHypothesis =>
      cases type with
      | named reference =>
          unfold Evaluation.resolveWithin at answers
          split at answers
          · cases Check.answers_pure.mp answers
          · next defined =>
            have resolves :=
              inductionHypothesis (comparable.definitions reference defined)
                answers
            exact ⟨resolves.admits,
              fun value holds => resolves.holds value (holds_named.mp holds).2,
              fun upper overlies => resolves.overlies upper overlies.definition⟩
      | generic occurrence application =>
          simp at admitted
      | _ =>
          cases Check.answers_pure.mp answers
          exact ⟨admitted, fun _ => id, fun _ => id⟩

/-- An expanded member of an intersection stands for the member. -/
theorem expanded_resolvesTo
    {checker : Checker}
    {member : Ty}
    (comparable : checker.arena.Comparable)
    (admitted : Fragment.comparable.admits member = true)
    (answers :
      Check.Answers
        (if member.isReference = true then
          checker.evaluation.resolve depth member
        else
          pure member : Evaluate Ty).run
        (.ok expanded)) :
    ResolvesTo reading checker.arena member expanded := by
  split at answers
  · exact resolveWithin_resolvesTo comparable admitted answers
  · cases Check.answers_pure.mp answers
    exact ⟨admitted, fun _ => id, fun _ => id⟩

/-- The merged members of an intersection stand for all members. -/
theorem mergeMembers_resolvesTo
    {checker : Checker}
    {members : List Ty}
    (comparable : checker.arena.Comparable)
    (admitted :
      ∀ member ∈ members, Fragment.comparable.admits member = true)
    (answers :
      Check.Answers (checker.evaluation.mergeMembers depth members)
        (some merged)) :
    ResolvesTo reading checker.arena (.ofIntersection members) merged := by
  unfold Evaluation.mergeMembers at answers
  split at answers
  · obtain ⟨outcome, expands, answers⟩ := answers.of_bind
    cases outcome with
    | error error =>
        cases Check.answers_pure.mp answers
    | ok expanded =>
        obtain ⟨result, normalizes, answers⟩ := answers.of_bind
        cases Check.answers_pure.mp answers
        have origin :
            ∀ type ∈ expanded, ∃ member ∈ members,
              ResolvesTo reading checker.arena member type := by
          intro type inExpanded
          obtain ⟨member, inMembers, expands⟩ :=
            exists_related_left expands.of_evaluateMapM inExpanded
          exact ⟨member, inMembers,
            expanded_resolvesTo comparable (admitted member inMembers) expands⟩
        have expandedAdmitted :
            Fragment.comparable.admits (.ofIntersection expanded) = true := by
          refine Fragment.admits_intersection.mpr
            ⟨rfl, fun type inExpanded => ?_⟩
          obtain ⟨_, _, resolves⟩ := origin type inExpanded
          exact resolves.admits
        have renders :=
          normalizeIn_renders
            { checker
              evaluate := checker.evaluation.evaluate
              keepReferences := false }
            (@Arena.Comparable.sound reading _ comparable) expandedAdmitted
            normalizes
        refine ⟨renders.admits, fun value holds => ?_, ?_⟩
        · refine (renders.holds value).mpr (.intersection ?_)
          intro type inExpanded
          obtain ⟨member, inMembers, resolves⟩ := origin type inExpanded
          exact resolves.holds value
            (holds_intersection.mp holds member inMembers)
        · intro upper overlies reference mentioned
          obtain ⟨type, inExpanded, mentioned⟩ :=
            Ty.mem_mentions_intersection.mp
              (renders.mentions reference mentioned)
          obtain ⟨member, inMembers, resolves⟩ := origin type inExpanded
          refine resolves.overlies upper (overlies.mono ?_) reference mentioned
          intro other inMember
          exact Ty.mem_mentions_intersection.mpr ⟨member, inMembers, inMember⟩
  · cases Check.answers_pure.mp answers

end Merging

namespace RelationStep

variable {reading : Reading} {step : RelationStep}

/-- The parts of a comparison are compared soundly, at each depth of values. -/
structure SoundParts
    (reading : Reading)
    (bound : Nat)
    (step : RelationStep) :
    Prop where
  comparable : step.checker.arena.Comparable
  same : step.compare.SoundAt reading step.checker.arena bound
  smaller :
    ∀ depth < bound, step.compare.SoundAt reading step.checker.arena depth

/-- The references of the fragment are names. -/
theorem named_of_isReference
    (admitted : Fragment.comparable.admits type = true)
    (isReference : type.isReference = true) :
    ∃ reference, type = .named reference := by
  cases type <;> simp [Ty.isReference] at isReference admitted
  exact ⟨_, rfl⟩

/-- Expanding a type of the fragment unfolds it. -/
theorem unfold_of_expandReference
    (admitted : Fragment.comparable.admits type = true)
    (answers : Answers (step.expandReference type) (.ok expanded)) :
    step.checker.arena.unfold? type = some expanded := by
  unfold expandReference at answers
  split at answers
  · next reference =>
    split at answers
    · cases answers_pure.mp answers
    · next defined =>
      cases answers_pure.mp answers
      simp only [ Arena.unfold?]
  · simp at admitted
  · next notNamed notGeneric =>
    cases answers_pure.mp answers
    unfold Arena.unfold?
    split
    · exact absurd rfl (notNamed _)
    · rfl

/-- Over a comparable arena a type lies over what it unfolds to. -/
theorem overlies_unfold
    {arena : Arena}
    (comparable : arena.Comparable)
    (unfolds : arena.unfold? type = some unfolded) :
    Overlies arena type unfolded := by
  unfold Arena.unfold? at unfolds
  split at unfolds
  · next reference =>
    split at unfolds
    · cases unfolds
    · cases unfolds
      exact .of_definition
        (.self comparable.guarded (comparable.aliasFree reference))
  · next notNamed =>
    cases unfolds
    refine .self comparable.guarded ?_
    cases type <;> first | rfl | exact absurd rfl (notNamed _)

/-- What lies over a type lies over what that unfolds to. -/
theorem overlies_of_unfold
    {arena : Arena}
    (unfolds : arena.unfold? type = some unfolded)
    (overlies : Overlies arena upper type) :
    Overlies arena upper unfolded := by
  unfold Arena.unfold? at unfolds
  split at unfolds
  · split at unfolds
    · cases unfolds
    · cases unfolds
      exact overlies.definition
  · cases unfolds
    exact overlies

/-- A pair of references that succeeds includes the values of the source. -/
theorem viaReference_sound
    (parts : step.SoundParts reading bound)
    (sourceAdmitted : Fragment.comparable.admits source = true)
    (targetAdmitted : Fragment.comparable.admits target = true)
    (justified :
      Justified reading step.checker.arena bound assumptions source target)
    (reference : source.isReference = true ∨ target.isReference = true)
    (below : IncludedBelow reading step.checker.arena bound source target)
    (answers :
      Answers (step.viaReference assumptions source target) true) :
    IncludedBelow reading step.checker.arena (bound + 1) source target := by
  have comparable := parts.comparable
  have covers := (@Arena.Comparable.sound reading _ comparable).covers
  unfold viaReference at answers
  dsimp only at answers
  split at answers
  · next identical =>
    exact fun value _ => (holds_of_identical covers sourceAdmitted
      targetAdmitted identical value).mp
  split at answers
  · next assumed =>
    obtain ⟨⟨first, second⟩, member, identical⟩ := List.any_eq_true.mp assumed
    simp only [Bool.and_eq_true] at identical
    obtain ⟨firstAdmitted, secondAdmitted⟩ := justified.admits _ member
    rcases justified.references _ member with
      included | ⟨_, overSource, overTarget⟩
    · intro value shallow holds
      have inFirst :=
        (holds_of_identical covers firstAdmitted sourceAdmitted identical.1
          value).mpr holds
      have inSecond := included value shallow inFirst
      exact (holds_of_identical covers secondAdmitted targetAdmitted
        identical.2 value).mp inSecond
    -- A pair over the types that are compared is identical to no name of them.
    · rcases reference with isReference | isReference
      · obtain ⟨name, rfl⟩ := named_of_isReference sourceAdmitted isReference
        rw [overSource.not_identical comparable.guarded] at identical
        cases identical.1
      · obtain ⟨name, rfl⟩ := named_of_isReference targetAdmitted isReference
        rw [overTarget.not_identical comparable.guarded] at identical
        cases identical.2
  · obtain ⟨expandedSource, expandsSource, answers⟩ := answers.of_bind
    cases expandedSource with
    | error reason =>
        exact (Relating.not_answers_fail answers).elim
    | ok first =>
      obtain ⟨expandedTarget, expandsTarget, answers⟩ := answers.of_bind
      cases expandedTarget with
      | error reason =>
          exact (Relating.not_answers_fail answers).elim
      | ok second =>
        have unfoldsSource :=
          unfold_of_expandReference sourceAdmitted expandsSource
        have unfoldsTarget :=
          unfold_of_expandReference targetAdmitted expandsTarget
        have included :=
          parts.same _ first second
            (admits_unfold covers sourceAdmitted unfoldsSource)
            (admits_unfold covers targetAdmitted unfoldsTarget)
            ?_ answers
        · intro value shallow holds
          rw [holds_unfold unfoldsSource] at holds
          exact (holds_unfold unfoldsTarget).mpr (included value shallow holds)
        · have transferred :=
            justified.transfer
              (fun _ => overlies_of_unfold unfoldsSource)
              fun _ => overlies_of_unfold unfoldsTarget
          refine ⟨fun pair member => ?_, fun pair member => ?_,
            transferred.objects⟩
          · rcases List.mem_append.mp member with earlier | opened
            · exact justified.admits pair earlier
            · cases List.mem_singleton.mp opened
              exact ⟨sourceAdmitted, targetAdmitted⟩
          rcases List.mem_append.mp member with earlier | opened
          · exact transferred.references pair earlier
          · cases List.mem_singleton.mp opened
            exact .inr ⟨below, overlies_unfold comparable unfoldsSource,
              overlies_unfold comparable unfoldsTarget⟩

section Members

variable (parts : step.SoundParts reading bound)
variable (sourceAdmitted : Fragment.comparable.admits source = true)
variable (targetAdmitted : Fragment.comparable.admits target = true)
variable
  (justified :
    Justified reading step.checker.arena bound assumptions source target)

include parts sourceAdmitted targetAdmitted justified

/-- A source union that succeeds includes the values of its members. -/
theorem fromUnion_sound
    (answers : Answers (step.fromUnion assumptions source target) true) :
    IncludedBelow reading step.checker.arena (bound + 1) source target := by
  obtain ⟨normalized, normalizes, answers⟩ := answers.of_bind
  have renders :=
    @Evaluation.normalizeOperand_renders reading _ _ _ _ parts.comparable
      sourceAdmitted normalizes.of_lift
  have justified :=
    justified.fewer renders.mentions fun _ => id
  intro value shallow holds
  rw [← renders.holds value] at holds
  split at answers
  · next members =>
    obtain ⟨member, inMembers, holds⟩ := holds_union.mp holds
    have compares :=
      Relating.answers_of_orFail (Relating.answers_of_allOf answers _
        (List.mem_map_of_mem inMembers))
    exact parts.same _ _ _
      (Fragment.admits_union.mp renders.admits member inMembers)
      targetAdmitted
      (justified.fewer
        (fun _ mentioned =>
          Ty.mem_mentions_union.mpr ⟨member, inMembers, mentioned⟩)
        fun _ => id)
      compares value shallow holds
  · exact parts.same _ _ _ renders.admits targetAdmitted justified answers
      value shallow holds

/-- A target union that succeeds has a member that includes the values. -/
theorem toUnion_sound
    (answers : Answers (step.toUnion assumptions source target) true) :
    IncludedBelow reading step.checker.arena (bound + 1) source target := by
  obtain ⟨normalized, normalizes, answers⟩ := answers.of_bind
  have renders :=
    @Evaluation.normalizeOperand_renders reading _ _ _ _ parts.comparable
      targetAdmitted normalizes.of_lift
  have justified :=
    justified.fewer (fun _ => id) renders.mentions
  intro value shallow holds
  rw [← renders.holds value]
  split at answers
  · next members =>
    obtain ⟨comparison, inComparisons, compares⟩ :=
      Relating.answers_of_anyOf (Relating.answers_of_orFail answers)
    obtain ⟨member, inMembers, rfl⟩ := List.mem_map.mp inComparisons
    refine .union inMembers ?_
    exact parts.same _ _ _ sourceAdmitted
      (Fragment.admits_union.mp renders.admits member inMembers)
      (justified.fewer (fun _ => id) fun _ mentioned =>
        Ty.mem_mentions_union.mpr ⟨member, inMembers, mentioned⟩)
      compares value shallow holds
  · exact parts.same _ _ _ sourceAdmitted renders.admits justified answers
      value shallow holds

/-- A target intersection that succeeds includes the values in each member. -/
theorem toIntersection_sound
    (answers : Answers (step.toIntersection assumptions source target) true) :
    IncludedBelow reading step.checker.arena (bound + 1) source target := by
  obtain ⟨normalized, normalizes, answers⟩ := answers.of_bind
  have renders :=
    @Evaluation.normalizeOperand_renders reading _ _ _ _ parts.comparable
      targetAdmitted normalizes.of_lift
  have justified :=
    justified.fewer (fun _ => id) renders.mentions
  intro value shallow holds
  rw [← renders.holds value]
  split at answers
  · next members =>
    refine .intersection fun member inMembers => ?_
    have compares :=
      Relating.answers_of_orFail (Relating.answers_of_allOf answers _
        (List.mem_map_of_mem inMembers))
    exact parts.same _ _ _ sourceAdmitted
      ((Fragment.admits_intersection.mp renders.admits).2 member inMembers)
      (justified.fewer (fun _ => id) fun _ mentioned =>
        Ty.mem_mentions_intersection.mpr ⟨member, inMembers, mentioned⟩)
      compares value shallow holds
  · exact parts.same _ _ _ sourceAdmitted renders.admits justified answers
      value shallow holds

/--
A source intersection that succeeds includes the values of one member, or of
the merged members.
-/
theorem fromIntersection_sound
    (answers :
      Answers (step.fromIntersection assumptions source target) true) :
    IncludedBelow reading step.checker.arena (bound + 1) source target := by
  obtain ⟨normalized, normalizes, answers⟩ := answers.of_bind
  have renders :=
    @Evaluation.normalizeOperand_renders reading _ _ _ _ parts.comparable
      sourceAdmitted normalizes.of_lift
  have justified :=
    justified.fewer renders.mentions fun _ => id
  intro value shallow holds
  rw [← renders.holds value] at holds
  split at answers
  · next members =>
    have membersAdmitted :=
      (Fragment.admits_intersection.mp renders.admits).2
    obtain ⟨found, searches, answers⟩ := answers.of_bind
    split at answers
    · next isFound =>
      subst isFound
      obtain ⟨comparison, inComparisons, compares⟩ :=
        Relating.answers_of_anyOf searches
      obtain ⟨member, inMembers, rfl⟩ := List.mem_map.mp inComparisons
      exact parts.same _ _ _ (membersAdmitted member inMembers) targetAdmitted
        (justified.fewer
          (fun _ mentioned =>
            Ty.mem_mentions_intersection.mpr ⟨member, inMembers, mentioned⟩)
          fun _ => id)
        compares value shallow (holds_intersection.mp holds member inMembers)
    · obtain ⟨merged, merges, answers⟩ := answers.of_bind
      cases merged with
      | none =>
          exact (Relating.not_answers_fail answers).elim
      | some merged =>
          have resolves :=
            @mergeMembers_resolvesTo reading _ _ _ _ parts.comparable
              membersAdmitted merges.of_lift
          exact parts.same _ _ _ resolves.admits targetAdmitted
            (justified.transfer resolves.overlies fun _ => id)
            answers value shallow
            (resolves.holds value
              (.intersection (holds_intersection.mp holds)))
  · exact parts.same _ _ _ renders.admits targetAdmitted justified answers
      value shallow holds

end Members

/-- A primitive target that succeeds holds the values of the source. -/
theorem toPrimitive_sound
    {arena : Arena}
    (answers : Answers (toPrimitive source kind) true)
    (value : Value)
    (holds : Holds reading arena source value) :
    Holds reading arena (.primitive kind) value := by
  have accepted := Relating.accepted_of_answers answers
  split at accepted
  · next actual =>
    simp only [Bool.or_eq_true, Bool.and_eq_true, beq_iff_eq] at accepted
    rcases accepted with rfl | ⟨rfl, rfl⟩
    · exact holds
    · cases holds_undefined.mp holds
      exact .primitive rfl
  · next literal =>
    obtain ⟨actual, rfl, equal⟩ := holds_literal.mp holds
    rw [← beq_iff_eq.mp accepted, Literal.base_eq_of_equal equal]
    exact .primitive (Literal.base_holds actual)
  · cases accepted

/-- A literal target that succeeds holds the values of the source. -/
theorem toLiteral_sound
    {arena : Arena}
    (answers : Answers (toLiteral source (.literal occurrence expected) expected) true)
    (value : Value)
    (holds : Holds reading arena source value) :
    Holds reading arena (.literal occurrence expected) value := by
  have accepted := Relating.accepted_of_answers answers
  split at accepted
  · next literal =>
    obtain ⟨actual, rfl, equal⟩ := holds_literal.mp holds
    rw [Literal.equal_comm] at accepted
    exact .literal (Literal.equal_trans accepted equal)
  · cases accepted

/-- A type that is no union, name or intersection, as shapes are compared. -/
structure Concrete
    (type : Ty) :
    Prop where
  notReference : type.isReference = false
  notUnknown : type.isPrimitive .unknown = false
  notUnion : type.isUnion = false
  notIntersection : isIntersection type = false

/-- A value of an object-like or plain source is not nullish. -/
theorem not_isNullish_of_holds
    {arena : Arena}
    {source : Ty}
    {value : Value}
    (admitted : Fragment.comparable.admits source = true)
    (concrete : Concrete source)
    (plain : reading.plainObjects = false)
    (notNullish : source.isNullish = false)
    (notVoid : source.isPrimitive .void = false)
    (holds : Holds reading arena source value) :
    value.isNullish = false := by
  obtain ⟨notReference, notUnknown, notUnion, notIntersection⟩ := concrete
  cases source with
  | primitive kind =>
      have holds := holds_primitive.mp holds
      cases kind <;> cases value <;>
        simp_all [Primitive.holds, Ty.isPrimitive, Ty.isNullish,
          Value.isNullish, Fragment.admits, Fragment.comparable]
  | literal occurrence expected =>
      obtain ⟨actual, rfl, _⟩ := holds_literal.mp holds
      rfl
  | object occurrence shape =>
      simpa [Reading.isObject, plain] using (holds_object.mp holds).1
  | array occurrence element readonly =>
      obtain ⟨values, rfl, _⟩ := holds_array.mp holds
      rfl
  | tuple occurrence elements readonly =>
      obtain ⟨values, rfl, _⟩ := holds_tuple.mp holds
      rfl
  | function occurrence signature =>
      obtain ⟨parameters, rfl⟩ := holds_function.mp holds
      rfl
  | absent =>
      simp at admitted
  | named reference =>
      cases notReference
  | generic occurrence application =>
      cases notReference
  | union occurrence members =>
      cases notUnion
  | intersection occurrence members =>
      cases notIntersection

/-- A property that the values of a type expose. -/
structure Exposes
    (reading : Reading)
    (arena : Arena)
    (type : Ty)
    (property : Property Ty) :
    Prop where
  admits : Fragment.comparable.admits property.type = true
  holds :
    ∀ value,
      Holds reading arena type value →
      ∃ found,
        value.member? property.name = some found ∧
          Holds reading arena property.type found

/-- The values of texts and functions expose their length. -/
theorem exposes_length
    {arena : Arena}
    {type : Ty}
    (length : ∀ value,
      Holds reading arena type value →
      ∃ count, value.member? "length" = some (.ofNat count))
    (declared : lengthShape.property? name = some property) :
    Exposes reading arena type property := by
  obtain ⟨inShape, _⟩ := Shape.mem_of_property? declared
  cases List.mem_singleton.mp inShape
  refine ⟨rfl, fun value holds => ?_⟩
  obtain ⟨count, exposed⟩ := length value holds
  exact ⟨_, exposed, .primitive rfl⟩

/-- The values of tuples expose their length and their positions. -/
theorem exposes_tuple
    {arena : Arena}
    {elements : List Ty}
    {index : Option (IndexSignature Ty)}
    (admitted :
      Fragment.comparable.admits (.tuple occurrence elements readonly) = true)
    (declared :
      Shape.property?
        { properties :=
            { name := "length"
              type := .ofLiteral (.number (Number.ofNat elements.length))
              readonly := true } ::
              positionProperties readonly 0 elements
          index } name =
        some property) :
    Exposes reading arena (.tuple occurrence elements readonly) property := by
  have sameName := (Shape.mem_of_property? declared).2
  by_cases isLength : name = "length"
  · subst isLength
    cases declared
    refine ⟨by simp [Ty.ofLiteral, Fragment.admits, Fragment.comparable],
      fun value holds => ?_⟩
    obtain ⟨values, rfl, related⟩ := holds_tuple.mp holds
    refine ⟨_, rfl, ?_⟩
    rw [← related.length_eq]
    exact holds_length elements.length
  · unfold Shape.property? at declared
    rw [List.find?_cons_of_neg (by simpa using Ne.symm isLength)] at declared
    obtain ⟨_, inElements⟩ := position_declared declared
    refine ⟨Fragment.admits_tuple.mp admitted _ inElements,
      fun value holds => ?_⟩
    obtain ⟨values, rfl, related⟩ := holds_tuple.mp holds
    obtain ⟨found, exposed, holds⟩ := holds_position related declared
    refine ⟨found, ?_, holds⟩
    rw [sameName]
    exact (exposes_position isLength).trans exposed

/-- The members that a type exposes are exposed by its values. -/
theorem exposes_of_apparent
    {checker : Checker}
    {source : Ty}
    {members : Shape Ty}
    (admitted : Fragment.comparable.admits source = true)
    (notIntersection : isIntersection source = false)
    (answers : Check.Answers (checker.apparent source) (some members))
    (declared : members.property? name = some property) :
    Exposes reading checker.arena source property := by
  unfold Checker.apparent at answers
  generalize checker.budget = budget at answers
  cases budget with
  | zero =>
      obtain ⟨_, _, run⟩ := answers
      cases run
  | succ budget =>
  unfold Checker.apparentWithin at answers
  cases source with
  | primitive kind =>
      cases kind <;> cases Check.answers_pure.mp answers
      · exact exposes_length (fun _ => exposes_length_of_string) declared
      · cases declared
      · cases declared
  | literal occurrence expected =>
      cases expected <;> cases Check.answers_pure.mp answers
      · exact exposes_length (fun _ => exposes_length_of_literal) declared
      · cases declared
      · cases declared
  | object occurrence shape =>
      cases Check.answers_pure.mp answers
      obtain ⟨_, _, each⟩ := Fragment.admits_object.mp admitted
      obtain ⟨inShape, rfl⟩ := Shape.mem_of_property? declared
      obtain ⟨propertyAdmitted, required⟩ := each property inShape
      refine ⟨propertyAdmitted, fun value holds => ?_⟩
      have holds := (holds_object.mp holds).2 property inShape
      unfold PropertyHolds at holds
      split at holds
      · cases required holds
      · next found exposed =>
        refine ⟨found, exposed, holds.resolve_left ?_⟩
        rintro ⟨_, isOptional, _⟩
        cases required isOptional
  | array occurrence element readonly =>
      cases Check.answers_pure.mp answers
      obtain ⟨inShape, rfl⟩ := Shape.mem_of_property? declared
      cases List.mem_singleton.mp inShape
      refine ⟨rfl, fun value holds => ?_⟩
      obtain ⟨values, rfl, _⟩ := holds_array.mp holds
      exact ⟨_, rfl, .primitive rfl⟩
  | tuple occurrence elements readonly =>
      obtain ⟨element, _, answers⟩ := answers.of_bind
      cases Check.answers_pure.mp answers
      exact exposes_tuple admitted declared
  | function occurrence signature =>
      cases Check.answers_pure.mp answers
      exact exposes_length (fun _ => exposes_length_of_function) declared
  | intersection occurrence members =>
      cases notIntersection
  | _ =>
      cases Check.answers_pure.mp answers

/-- A property of the target that succeeds is one of the source's members. -/
theorem exists_member_of_toProperty
    {members : Shape Ty}
    {property : Property Ty}
    (required : property.optional = false)
    (answers :
      Answers (step.toProperty assumptions source target members property)
        true) :
    ∃ actual,
      members.property? property.name = some actual ∧
        Answers (step.compare assumptions actual.type property.type) true := by
  unfold toProperty at answers
  simp only [required, Bool.false_eq_true, if_false] at answers
  split at answers
  · exact (Relating.not_answers_fail answers).elim
  · next actual declared =>
    split at answers
    · exact (Relating.not_answers_fail answers).elim
    · exact ⟨actual, declared, Relating.answers_of_orFail answers⟩

/-- A shape that succeeds holds the values that expose the source's members. -/
theorem toMembers_sound
    {members shape : Shape Ty}
    {value : Value}
    (parts : step.SoundParts reading bound)
    (admitted : Fragment.comparable.admits (.object occurrence shape) = true)
    (exposes :
      ∀ {name property},
        members.property? name = some property →
        Exposes reading step.checker.arena source property)
    (justified :
      ∀ depth < bound, ∀ first second,
        Justified reading step.checker.arena depth assumptions first second)
    (shallow : value.depth < bound + 1)
    (holds : Holds reading step.checker.arena source value)
    (isObject : reading.isObject value = true)
    (answers :
      Answers (step.toMembers assumptions source target members shape) true) :
    Holds reading step.checker.arena (.object occurrence shape) value := by
  obtain ⟨_, _, each⟩ := Fragment.admits_object.mp admitted
  refine holds_object.mpr ⟨isObject, fun property inShape => ?_⟩
  obtain ⟨propertyAdmitted, required⟩ := each property inShape
  have required : property.optional = false := by
    cases isOptional : property.optional with
    | false =>
        rfl
    | true =>
        cases required isOptional
  obtain ⟨fits, fitsAll, answers⟩ := answers.of_bind
  cases fits with
  | false =>
      cases answers_pure.mp answers
  | true =>
      obtain ⟨actual, declared, compares⟩ :=
        exists_member_of_toProperty required
          (Relating.answers_of_allOf fitsAll _ (List.mem_map_of_mem inShape))
      have exposed := exposes declared
      obtain ⟨found, present, holds⟩ := exposed.holds value holds
      rw [(Shape.mem_of_property? declared).2] at present
      have deeper := Value.depth_member_lt present
      unfold PropertyHolds
      rw [present]
      exact .inr (parts.smaller found.depth (by omega) _ _ _ exposed.admits
        propertyAdmitted (justified found.depth (by omega) _ _) compares found
        (Nat.lt_succ_self _) holds)

/-- An object target that succeeds includes the values of the source. -/
theorem toObject_sound
    {shape : Shape Ty}
    (parts : step.SoundParts reading bound)
    (plain : reading.plainObjects = false)
    (sourceAdmitted : Fragment.comparable.admits source = true)
    (targetAdmitted :
      Fragment.comparable.admits (.object occurrence shape) = true)
    (concrete : Concrete source)
    (justified :
      Justified reading step.checker.arena bound assumptions source
        (.object occurrence shape))
    (below :
      IncludedBelow reading step.checker.arena bound source
        (.object occurrence shape))
    (answers :
      Answers
        (step.toObject assumptions source (.object occurrence shape) shape)
        true) :
    IncludedBelow reading step.checker.arena (bound + 1) source
      (.object occurrence shape) := by
  unfold toObject at answers
  split at answers
  · exact (Relating.not_answers_fail answers).elim
  next notNullish =>
  simp only [Bool.or_eq_true, not_or, Bool.not_eq_true] at notNullish
  intro value shallow holds
  have isObject : reading.isObject value = true := by
    simp [Reading.isObject, plain,
      not_isNullish_of_holds sourceAdmitted concrete plain notNullish.1
        notNullish.2 holds]
  split at answers
  · next isEmpty =>
    refine holds_object.mpr ⟨isObject, fun property inShape => ?_⟩
    simp only [Shape.isEmpty, Bool.and_eq_true, List.isEmpty_iff] at isEmpty
    rw [isEmpty.1] at inShape
    cases inShape
  obtain ⟨members, exposing, answers⟩ := answers.of_bind
  cases members with
  | none =>
      exact (Relating.not_answers_fail answers).elim
  | some members =>
  have exposes :
      ∀ {name property},
        members.property? name = some property →
        Exposes reading step.checker.arena source property :=
    exposes_of_apparent sourceAdmitted concrete.notIntersection
      exposing.of_lift
  dsimp only at answers
  split at answers
  · split at answers
    · next assumed =>
      obtain ⟨⟨first, second⟩, member, same⟩ := List.any_eq_true.mp assumed
      simp only [Ty.sameNode, Bool.and_eq_true, decide_eq_true_eq] at same
      obtain ⟨⟨_, rfl⟩, _, rfl⟩ := same
      exact justified.objects _ member value shallow holds
    · refine toMembers_sound parts targetAdmitted exposes ?_ shallow holds
        isObject answers
      intro depth deeper first second
      refine ⟨justified.admits,
        (justified.smaller deeper).references, fun pair member => ?_⟩
      rcases List.mem_cons.mp member with rfl | earlier
      · exact below.mono (by omega)
      · exact (justified.objects pair earlier).mono (by omega)
  · exact toMembers_sound parts targetAdmitted exposes
      (fun _ deeper _ _ => justified.smaller deeper) shallow holds isObject
      answers

/-- Elements that succeed are compared with the element type. -/
theorem answers_of_elementsTo
    {elements : List Ty}
    (answers :
      ∀ comparison ∈ step.elementsTo assumptions element position elements,
        Answers comparison true) :
    ∀ type ∈ elements, Answers (step.compare assumptions type element) true := by
  induction elements generalizing position with
  | nil =>
      simp
  | cons type rest inductionHypothesis =>
      obtain ⟨head, tail⟩ := List.forall_mem_cons.mp answers
      exact List.forall_mem_cons.mpr
        ⟨Relating.answers_of_orFail head, inductionHypothesis tail⟩

/-- Elements of tuples that succeed are compared position by position. -/
theorem answers_of_elementPairs
    {first second : List Ty}
    (sameLength : first.length = second.length)
    (answers :
      ∀ comparison ∈ step.elementPairs assumptions position first second,
        Answers comparison true) :
    List.Forall₂
      (fun source target =>
        Answers (step.compare assumptions source target) true)
      first second := by
  induction first generalizing position second with
  | nil =>
      cases second with
      | nil =>
          exact .nil
      | cons =>
          cases sameLength
  | cons source rest inductionHypothesis =>
      cases second with
      | nil =>
          cases sameLength
      | cons target others =>
          obtain ⟨head, tail⟩ := List.forall_mem_cons.mp answers
          exact .cons (Relating.answers_of_orFail head)
            (inductionHypothesis (by simpa using sameLength) tail)

section Sequences

variable (parts : step.SoundParts reading bound)
variable (sourceAdmitted : Fragment.comparable.admits source = true)
variable
  (justified :
    Justified reading step.checker.arena bound assumptions source target)

include parts sourceAdmitted justified

/-- An array target that succeeds includes the values of the source. -/
theorem toArray_sound
    (admitted : Fragment.comparable.admits element = true)
    (answers :
      Answers (step.toArray assumptions source target element readonly)
        true) :
    IncludedBelow reading step.checker.arena (bound + 1) source
      (.array occurrence element readonly) := by
  intro value shallow holds
  unfold toArray at answers
  split at answers
  · split at answers
    · exact (Relating.not_answers_fail answers).elim
    have compares := Relating.answers_of_orFail answers
    obtain ⟨values, rfl, each⟩ := holds_array.mp holds
    refine .array fun part inValues => ?_
    have deeper := Value.depth_lt_list inValues
    exact parts.smaller part.depth (by omega) _ _ _
      (Fragment.admits_array.mp sourceAdmitted) admitted
      (justified.smaller (by omega)) compares part (Nat.lt_succ_self _)
      (each part inValues)
  · split at answers
    · exact (Relating.not_answers_fail answers).elim
    have compares := answers_of_elementsTo (Relating.answers_of_allOf answers)
    obtain ⟨values, rfl, related⟩ := holds_tuple.mp holds
    refine .array fun part inValues => ?_
    obtain ⟨type, inElements, holds⟩ := exists_related_left related inValues
    have deeper := Value.depth_lt_list inValues
    exact parts.smaller part.depth (by omega) _ _ _
      (Fragment.admits_tuple.mp sourceAdmitted type inElements) admitted
      (justified.smaller (by omega)) (compares type inElements) part
      (Nat.lt_succ_self _) holds
  · exact (Relating.not_answers_fail answers).elim

/-- A tuple target that succeeds includes the values of the source. -/
theorem toTuple_sound
    {elements : List Ty}
    (admitted :
      ∀ element ∈ elements, Fragment.comparable.admits element = true)
    (answers :
      Answers (step.toTuple assumptions source target elements readonly)
        true) :
    IncludedBelow reading step.checker.arena (bound + 1) source
      (.tuple occurrence elements readonly) := by
  intro value shallow holds
  unfold toTuple at answers
  split at answers
  · split at answers
    · exact (Relating.not_answers_fail answers).elim
    split at answers
    · exact (Relating.not_answers_fail answers).elim
    next sameLength =>
    have compares :=
      answers_of_elementPairs (not_not.mp sameLength)
        (Relating.answers_of_allOf answers)
    obtain ⟨values, rfl, related⟩ := holds_tuple.mp holds
    refine holds_tuple.mpr ⟨values, rfl, List.forall₂_iff_get.mpr
      ⟨compares.length_eq.symm.trans related.length_eq, ?_⟩⟩
    intro position inElements inValues
    have inActual := compares.length_eq.symm ▸ inElements
    have deeper := Value.depth_lt_list (List.get_mem values ⟨_, inValues⟩)
    exact parts.smaller _ (by omega) _ _ _
      (Fragment.admits_tuple.mp sourceAdmitted _ (List.get_mem _ _))
      (admitted _ (List.get_mem _ _)) (justified.smaller (by omega))
      (compares.get inActual inElements) _ (Nat.lt_succ_self _)
      (related.get inActual inValues)
  · exact (Relating.not_answers_fail answers).elim

end Sequences

/-- A function target that succeeds includes the values of the source. -/
theorem toFunction_sound
    {arena : Arena}
    (answers : Answers (step.toFunction assumptions source target) true)
    (value : Value)
    (holds : Holds reading arena source value) :
    Holds reading arena (.function occurrence signature) value := by
  unfold toFunction at answers
  split at answers
  · exact holds_function.mpr (holds_function.mp holds)
  · exact (Relating.not_answers_fail answers).elim

/-- The type `any` is not in the fragment. -/
theorem not_any_of_admits
    {type : Ty}
    (admitted : Fragment.comparable.admits type = true) :
    type.isPrimitive .any = false := by
  cases type <;>
    simp_all [Ty.isPrimitive, Fragment.admits, Fragment.comparable]

section Relate

variable (parts : step.SoundParts reading bound)
variable (plain : reading.plainObjects = false)
variable (sourceAdmitted : Fragment.comparable.admits source = true)
variable (targetAdmitted : Fragment.comparable.admits target = true)
variable
  (justified :
    Justified reading step.checker.arena bound assumptions source target)
variable
  (below : IncludedBelow reading step.checker.arena bound source target)

include parts plain sourceAdmitted targetAdmitted justified below

/-- Two shapes that succeed include the values of the source. -/
theorem compareShapes_sound
    (concrete : Concrete source)
    (answers : Answers (step.compareShapes assumptions source target) true) :
    IncludedBelow reading step.checker.arena (bound + 1) source target := by
  unfold compareShapes at answers
  split at answers
  · exact fun value _ => toPrimitive_sound answers value
  · exact fun value _ => toLiteral_sound answers value
  · exact toObject_sound parts plain sourceAdmitted targetAdmitted concrete
      justified below answers
  · exact toArray_sound parts sourceAdmitted justified
      (Fragment.admits_array.mp targetAdmitted) answers
  · exact toTuple_sound parts sourceAdmitted justified
      (Fragment.admits_tuple.mp targetAdmitted) answers
  · exact fun value _ => toFunction_sound answers value
  · exact (Relating.not_answers_fail answers).elim

/-- Two types below the depth bound that succeed include the values. -/
theorem relate_sound
    (strict : step.checker.options.strictNullChecks = true)
    (answers : Answers (step.relate assumptions source target) true) :
    IncludedBelow reading step.checker.arena (bound + 1) source target := by
  unfold relate at answers
  rcases Relating.answers_ite answers with ⟨isAny, _⟩ | ⟨_, answers⟩
  · simp [not_any_of_admits sourceAdmitted,
      not_any_of_admits targetAdmitted] at isAny
  rcases Relating.answers_ite answers with ⟨trivial, _⟩ | ⟨_, answers⟩
  · intro value _ holds
    rcases Bool.or_eq_true_iff.mp trivial with isUnknown | isNever
    · rw [eq_of_isPrimitive isUnknown]
      exact .primitive rfl
    · rw [eq_of_isPrimitive isNever] at holds
      simp [Primitive.holds] at holds
  rcases Relating.answers_ite answers with
    ⟨reference, answers⟩ | ⟨notReference, answers⟩
  · exact viaReference_sound parts sourceAdmitted targetAdmitted justified
      (Bool.or_eq_true_iff.mp reference) below answers
  rcases Relating.answers_ite answers with ⟨_, fails⟩ | ⟨notUnknown, answers⟩
  · exact (Relating.not_answers_fail fails).elim
  rcases Relating.answers_ite answers with ⟨_, fails⟩ | ⟨_, answers⟩
  · exact (Relating.not_answers_fail fails).elim
  rcases Relating.answers_ite answers with ⟨lenient, _⟩ | ⟨_, answers⟩
  · simp [strict] at lenient
  rcases Relating.answers_ite answers with ⟨_, answers⟩ | ⟨notUnion, answers⟩
  · exact fromUnion_sound parts sourceAdmitted targetAdmitted justified answers
  rcases Relating.answers_ite answers with ⟨_, answers⟩ | ⟨_, answers⟩
  · exact toUnion_sound parts sourceAdmitted targetAdmitted justified answers
  rcases Relating.answers_ite answers with ⟨_, answers⟩ | ⟨_, answers⟩
  · exact toIntersection_sound parts sourceAdmitted targetAdmitted justified
      answers
  rcases Relating.answers_ite answers with
    ⟨_, answers⟩ | ⟨notIntersection, answers⟩
  · exact fromIntersection_sound parts sourceAdmitted targetAdmitted justified
      answers
  simp only [Bool.or_eq_true, not_or, Bool.not_eq_true] at notReference
  exact compareShapes_sound parts plain sourceAdmitted targetAdmitted justified
    below
    { notReference := notReference.1
      notUnknown := by simpa using notUnknown
      notUnion := by simpa using notUnion
      notIntersection := by simpa using notIntersection }
    answers

end Relate

end RelationStep

namespace Checker

/-- A type of the fragment was not left out. -/
theorem orElse_of_admits
    {type other : Ty}
    (admitted : Fragment.comparable.admits type = true) :
    type.orElse other = type := by
  cases type <;> first | rfl | simp at admitted

/-- A comparison that meets the depth bound does not succeed. -/
theorem not_answers_failAtBound
    {checker : Checker} :
    ¬ Answers (checker.failAtBound target) true := by
  intro answers
  obtain ⟨_, _, answers⟩ := answers.of_bind
  split at answers
  · exact Relating.not_answers_fail answers
  · obtain ⟨_, _, answers⟩ := answers.of_bind
    obtain ⟨_, _, answers⟩ := answers.of_bind
    exact Relating.not_answers_fail answers

/-- The same node is the same type. -/
theorem eq_of_sameNode
    {first second : Ty}
    (same : first.sameNode second = true) :
    first = second := by
  simp only [Ty.sameNode, Bool.and_eq_true, decide_eq_true_eq] at same
  exact same.2

/--
Comparison within a depth bound is sound at every depth of values. The
induction is on the depth of the values, then on the distance to the bound.
-/
theorem compareWithin_sound
    {reading : Reading}
    {checker : Checker}
    (comparable : checker.arena.Comparable)
    (plain : reading.plainObjects = false)
    (strict : checker.options.strictNullChecks = true)
    (bound remaining : Nat) :
    Comparison.SoundAt reading checker.arena bound
      (checker.compareWithin remaining) := by
  induction bound using Nat.strongRecOn generalizing remaining with
  | _ bound shallower =>
  induction remaining with
  | zero =>
      intro assumptions source target sourceAdmitted targetAdmitted justified
        answers
      unfold compareWithin at answers
      dsimp only at answers
      rw [orElse_of_admits sourceAdmitted, orElse_of_admits targetAdmitted]
        at answers
      split at answers
      · next same =>
        exact fun value _ holds => eq_of_sameNode same ▸ holds
      · exact (not_answers_failAtBound answers).elim
  | succ remaining nearer =>
      intro assumptions source target sourceAdmitted targetAdmitted justified
        answers
      -- For smaller values this very comparison is sound already.
      have below : IncludedBelow reading checker.arena bound source target :=
        fun value shallow holds =>
          shallower value.depth shallow (remaining + 1) assumptions source
            target sourceAdmitted targetAdmitted (justified.smaller shallow)
            answers value (Nat.lt_succ_self _) holds
      unfold compareWithin at answers
      dsimp only at answers
      rw [orElse_of_admits sourceAdmitted, orElse_of_admits targetAdmitted]
        at answers
      split at answers
      · next same =>
        exact fun value _ holds => eq_of_sameNode same ▸ holds
      · exact RelationStep.relate_sound
          { comparable
            same := nearer
            smaller := fun depth deeper => shallower depth deeper remaining }
          plain sourceAdmitted targetAdmitted justified below strict answers

/--
Assignability is sound for values, also through recursive types: over a guarded
arena in which no name is defined as another name, every value of a source
belongs to the targets that it is assignable to.
-/
theorem isAssignable_sound
    {reading : Reading}
    {checker : Checker}
    (guarded : checker.arena.Guarded)
    (aliasFree : checker.arena.AliasFree)
    (definitions :
      ∀ reference,
        checker.arena.definition reference ≠ .absent →
        Fragment.comparable.admits (checker.arena.definition reference) = true)
    (plain : reading.plainObjects = false)
    (strict : checker.options.strictNullChecks = true)
    (sourceAdmitted : Fragment.comparable.admits source = true)
    (targetAdmitted : Fragment.comparable.admits target = true)
    (assignable : Check.Answers (checker.isAssignable source target) true)
    (value : Value)
    (holds : Holds reading checker.arena source value) :
    Holds reading checker.arena target value := by
  unfold isAssignable compare at assignable
  obtain ⟨⟨answer, findings⟩, run, assignable⟩ := assignable.of_bind
  cases Check.answers_pure.mp assignable
  exact compareWithin_sound ⟨guarded, aliasFree, definitions⟩ plain strict
    value.depth _ {} source target sourceAdmitted targetAdmitted
    ⟨by simp, by simp, by simp⟩ ⟨{}, findings, run⟩ value
    (Nat.lt_succ_self _) holds

section Trees

/-- A declared name at its position. -/
def treeName
    (id : Nat)
    (name : String) :
    Ty :=
  .named { arena := 0, id, name }

/-- Trees of numbers, and trees of numbers and texts that may lack subtrees. -/
def treeArena : Arena :=
  { declarations :=
      [{ name := "Tree"
         definition :=
          .ofShape
            { properties :=
                [{ name := "value", type := .number },
                  { name := "subtrees"
                    type := .array none (treeName 0 "Tree") false }] } },
        { name := "Loose"
          definition :=
            .ofShape
              { properties :=
                  [{ name := "value", type := .ofUnion [.number, .string] },
                    { name := "subtrees"
                      type :=
                        .ofUnion
                          [.array none (treeName 1 "Loose") false, .null] }] } }] }

/-- A tree is an object with a number and trees below it. -/
theorem holds_tree
    {subtrees : List Value}
    (each :
      ∀ subtree ∈ subtrees,
        Holds ⟨false, false⟩ treeArena (treeName 0 "Tree") subtree) :
    Holds ⟨false, false⟩ treeArena (treeName 0 "Tree")
      (.object [("value", .ofNat value), ("subtrees", .list subtrees)]) := by
  refine .named (by decide) (holds_object.mpr ⟨rfl, ?_⟩)
  refine List.forall_mem_cons.mpr ⟨.inr (.primitive rfl), ?_⟩
  exact List.forall_mem_singleton.mpr (.inr (.array each))

/-- A tree of two numbers is a loose tree, as trees are assignable to those. -/
theorem isAssignable_sound_tree :
    Holds ⟨false, false⟩ treeArena (treeName 1 "Loose")
      (.object
        [("value", .ofNat 1),
          ("subtrees",
            .list [.object [("value", .ofNat 2), ("subtrees", .list [])]])]) := by
  have holds :
      Holds ⟨false, false⟩ treeArena (treeName 0 "Tree")
        (.object
          [("value", .ofNat 1),
            ("subtrees",
              .list [.object [("value", .ofNat 2), ("subtrees", .list [])]])]) :=
    holds_tree (List.forall_mem_singleton.mpr (holds_tree (by simp)))
  have guarded : treeArena.Guarded := by
    refine Arena.guarded_of_rank (fun _ => 0) fun reference other mentions => ?_
    have := Arena.mem_mentioned mentions
    simp [Arena.mentioned, treeArena, Ty.ofShape, Ty.mentions] at this
  have aliasFree : treeArena.AliasFree := by
    intro reference
    by_cases undefined : treeArena.definition reference = .absent
    · rw [undefined]
      rfl
    · exact Arena.forall_definition (·.isNamed = false) (by decide +kernel)
        reference undefined
  let checker : Checker := { arena := treeArena, budget := 16 }
  have assignable :
      Check.Answers
        (checker.isAssignable (treeName 0 "Tree") (treeName 1 "Loose")) true :=
    ⟨[], [], by decide +kernel⟩
  exact isAssignable_sound guarded aliasFree
    (Arena.forall_definition (Fragment.comparable.admits · = true)
      (by decide +kernel))
    rfl rfl rfl rfl assignable _ holds

end Trees

section Aliases

/-- `A` is an alias of `B`, and `B` stands for the numbers. -/
def aliasArena : Arena :=
  { declarations :=
      [{ name := "A", definition := .named { arena := 0, id := 1, name := "B" } },
        { name := "B", definition := .number }] }

/--
With an alias of a name, numbers are assignable to texts: the name that `A`
stands for is identical to `A`, so the pair is taken for one under comparison.
-/
theorem isAssignable_accepts_alias :
    aliasArena.Guarded ∧
      (∀ reference, aliasArena.definition reference ≠ .absent →
        Fragment.comparable.admits (aliasArena.definition reference) = true) ∧
      Checker.isAssignable { arena := aliasArena, budget := 8 }
          (.named { arena := 0, id := 0, name := "A" }) .string [] =
        .ok (true, []) ∧
      Holds ⟨false, false⟩ aliasArena
        (.named { arena := 0, id := 0, name := "A" }) (.ofNat 0) ∧
      ¬ Holds ⟨false, false⟩ aliasArena .string (.ofNat 0) := by
  refine ⟨?_,
    Arena.forall_definition (Fragment.comparable.admits · = true)
      (by decide +kernel),
    by decide +kernel, ?_, ?_⟩
  · refine Arena.guarded_of_rank (fun reference => 2 - reference.id)
      fun reference other mentions => ?_
    unfold Arena.Mentions Arena.definition Arena.lookup aliasArena at mentions
    split at mentions
    · rcases reference with ⟨_, _ | _ | id, _⟩ <;>
        simp [Ty.mentions] at mentions ⊢
      subst mentions
      decide
    · simp [Ty.mentions] at mentions
  · exact .named (by decide) (.named (by decide) (.primitive rfl))
  · rw [holds_primitive]
    decide

end Aliases

end Checker

end StructuralTyping
