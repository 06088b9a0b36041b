import StructuralTyping.Proofs.Reduction

namespace StructuralTyping

/-!
# Kinds of types that evaluation keeps

A utility takes apart what stands behind its base and puts a type together from
the parts. A kind of types that goes from a type to its parts and to what
utilities put together is therefore kept by following references, by normalizing
what is found, and by evaluating applications, as long as normalization keeps it.
-/

/-- A sequence of evaluations settles with a value through its first part. -/
theorem Check.Settles.of_evaluateOk
    {first : Evaluate α}
    {next : α → Evaluate β}
    [nextAppends : ∀ value, Check.Appends (next value).run]
    (settles : Check.Settles (first >>= next).run (.ok result)) :
    ∃ value,
      Check.Settles first.run (.ok value) ∧
        Check.Settles (next value).run (.ok result) := by
  rcases settles.of_evaluateBind nextAppends with found | ⟨error, _, failed⟩
  · exact found
  · cases failed

/-- A visit that may fail settles with values only item by item. -/
theorem Check.Settles.of_evaluateMapM
    {visit : α → Evaluate β}
    [each : ∀ item, Check.Appends (visit item).run]
    {items : List α}
    {values : List β}
    (settles : Check.Settles (items.mapM visit).run (.ok values)) :
    List.Forall₂
      (fun item value => Check.Settles (visit item).run (.ok value))
      items values := by
  induction items generalizing values with
  | nil =>
      cases Check.settles_pure.mp settles
      exact .nil
  | cons item rest inductionHypothesis =>
      rw [List.mapM_cons] at settles
      have appends : Check.Appends (rest.mapM visit).run :=
        Check.Appends.ofEvaluateMapM visit rest each
      obtain ⟨value, head, settles⟩ := settles.of_evaluateOk
      obtain ⟨others, tail, settles⟩ := settles.of_evaluateOk
      cases Check.settles_pure.mp settles
      exact .cons head (inductionHypothesis tail)

/-- Settling with types of a kind where the bases of applications are of it. -/
def Evaluator.Keeps
    (kind : Ty → Prop)
    (evaluate : Evaluator) :
    Prop :=
  ∀ {application : Application Ty} {depth type},
    (application.base.isAbsent = false → kind application.base) →
    Check.Settles (evaluate application depth).run (.ok type) →
    kind type

/-- A kind of types that goes over to what utilities make of them. -/
structure Ty.Kept
    (kind : Ty → Prop) :
    Prop where
  base :
    ∀ {occurrence application},
      kind (.generic occurrence application) →
      application.base.isAbsent = false →
      kind application.base
  factor :
    ∀ {occurrence members},
      kind (.intersection occurrence members) →
      ∀ member ∈ members, kind member
  intersection :
    ∀ {occurrence members others},
      kind (.intersection occurrence members) →
      (∀ member ∈ others, kind member) →
      kind (.intersection none others)
  pick :
    ∀ {occurrence shape},
      kind (.object occurrence shape) →
      ∀ keys, kind (.ofShape (shape.pick keys))
  without :
    ∀ {occurrence shape},
      kind (.object occurrence shape) →
      ∀ keys, kind (.ofShape (shape.without keys))
  change :
    ∀ {occurrence shape change},
      kind (.object occurrence shape) →
      (∀ property,
        (change property).name = property.name ∧
          (change property).type = property.type) →
      kind (.ofShape (shape.mapProperties change))
  array :
    ∀ {occurrence element readonly},
      kind (.array occurrence element readonly) →
      kind (.array none element true)
  tuple :
    ∀ {occurrence elements readonly},
      kind (.tuple occurrence elements readonly) →
      kind (.tuple none elements true)
  result :
    ∀ {occurrence signature},
      kind (.function occurrence signature) →
      kind (signature.result.orElse .void)
  parameters :
    ∀ {occurrence signature},
      kind (.function occurrence signature) →
      kind (.tuple none signature.parameterTypes false)
  nonNullable :
    ∀ {type},
      kind type →
      kind type.nonNullable

namespace Evaluation

/-- An evaluation over definitions of a kind, and what it normalizes types to. -/
structure Respects
    (kind normal : Ty → Prop)
    (evaluation : Evaluation) :
    Prop where
  kept : Ty.Kept kind
  ofNormal : ∀ {type}, normal type → kind type
  definitions :
    ∀ reference,
      evaluation.checker.arena.definition reference ≠ .absent →
      kind (evaluation.checker.arena.definition reference)
  evaluates : evaluation.evaluate.Keeps kind
  normalizes :
    ∀ {depth type result},
      kind type →
      Check.Settles (evaluation.normalizeAt depth type) result →
      normal result

namespace Respects

variable
  {evaluation : Evaluation} [evaluation.evaluate.Reports]
  {kind normal : Ty → Prop}
  (respects : evaluation.Respects kind normal)
include respects

/-- Following references from a type of the kind leads to one of the kind. -/
theorem resolveWithin
    (ofKind : kind type)
    (settles :
      Check.Settles (evaluation.resolveWithin remaining depth type).run
        (.ok result)) :
    kind result := by
  induction remaining generalizing depth type with
  | zero =>
      unfold Evaluation.resolveWithin Checker.failTooComplex at settles
      obtain ⟨_, _, settles⟩ := settles.of_evaluateOk
      cases Check.settles_pure.mp settles
  | succ remaining inductionHypothesis =>
      cases type with
      | named reference =>
          unfold Evaluation.resolveWithin at settles
          split at settles
          · cases Check.settles_pure.mp settles
          · next defined =>
            exact inductionHypothesis (respects.definitions reference defined)
              settles
      | generic occurrence application =>
          unfold Evaluation.resolveWithin at settles
          obtain ⟨type, evaluates, settles⟩ := settles.of_evaluateOk
          exact inductionHypothesis
            (respects.evaluates (respects.kept.base ofKind) evaluates) settles
      | _ =>
          cases Check.settles_pure.mp settles
          exact ofKind

/-- Merging the members of an intersection leads to a normal form. -/
theorem mergeMembers
    {members : List Ty}
    (ofKind : kind (.intersection occurrence members))
    (settles :
      Check.Settles (evaluation.mergeMembers depth members) (some merged)) :
    normal merged := by
  have each := respects.kept.factor ofKind
  unfold Evaluation.mergeMembers at settles
  split at settles
  · have expandAppends :
        ∀ member : Ty,
          Check.Appends
            (if member.isReference then
              evaluation.resolve depth member
            else
              pure member : Evaluate Ty).run :=
      fun _ => inferInstance
    obtain ⟨outcome, expands, settles⟩ :=
      settles.of_bind fun outcome => by cases outcome <;> infer_instance
    cases outcome with
    | error error =>
        cases Check.settles_pure.mp settles
    | ok expanded =>
        obtain ⟨result, normalizes, settles⟩ :=
          settles.of_bind fun _ => inferInstance
        cases Check.settles_pure.mp settles
        refine respects.normalizes
          (respects.kept.intersection ofKind fun type inExpanded => ?_) normalizes
        obtain ⟨member, inMembers, expands⟩ :=
          exists_related_left expands.of_evaluateMapM inExpanded
        split at expands
        · exact respects.resolveWithin (each member inMembers) expands
        · cases Check.settles_pure.mp expands
          exact each _ inMembers
  · cases Check.settles_pure.mp settles

/-- Normalizing and merging a type of the kind leads to a normal form. -/
theorem normalizeMerged
    (ofKind : kind type)
    (settles : Check.Settles (evaluation.normalizeMerged depth type) result) :
    normal result := by
  unfold Evaluation.normalizeMerged at settles
  obtain ⟨form, normalizes, settles⟩ := settles.of_bind fun form => by
    split
    · refine @Check.Appends.ofBind _ _ _ _ _ fun merged => ?_
      cases merged <;> infer_instance
    · infer_instance
  have isNormal := respects.normalizes ofKind normalizes
  split at settles
  · next occurrence members =>
    obtain ⟨merged, merges, settles⟩ := settles.of_bind fun merged => by
      cases merged <;> infer_instance
    cases merged with
    | none =>
        cases Check.settles_pure.mp settles
        exact isNormal
    | some merged =>
        cases Check.settles_pure.mp settles
        exact respects.mergeMembers (respects.ofNormal isNormal) merges
  · cases Check.settles_pure.mp settles
    exact isNormal

/-- A union or an intersection is merged, and followed if a reference is left. -/
theorem followMerged
    {follow : Ty → Evaluate Ty}
    [followAppends : ∀ type, Check.Appends (follow type).run]
    (ofKind : kind type)
    (settles :
      Check.Settles
        (ExceptT.run (do
          let merged ← evaluation.normalizeMerged depth type
          if merged.isReference then follow merged else return merged))
        (.ok result)) :
    normal result ∨
      ∃ merged : Ty,
        kind merged ∧ Check.Settles (follow merged).run (.ok result) := by
  obtain ⟨merged, merges, settles⟩ := settles.of_evaluateOk
  obtain ⟨_, ⟨⟩, merges⟩ := merges.of_evaluateLift
  have isNormal := respects.normalizeMerged ofKind merges
  split at settles
  · exact .inr ⟨merged, respects.ofNormal isNormal, settles⟩
  · cases Check.settles_pure.mp settles
    exact .inl isNormal

/-- What stands behind a type is a normal form, or is of the kind and no union. -/
theorem structuralWithin
    (ofKind : kind type)
    (settles :
      Check.Settles (evaluation.structuralWithin remaining depth type).run
        (.ok result)) :
    normal result ∨ kind result ∧ result.isUnion = false := by
  induction remaining generalizing depth type with
  | zero =>
      unfold Evaluation.structuralWithin at settles
      rcases settles.of_evaluateBind fun resolved => by
          cases resolved <;> (dsimp only; infer_instance) with
        ⟨resolved, resolves, settles⟩ | ⟨_, _, ⟨⟩⟩
      have resolvedKind := respects.resolveWithin ofKind resolves
      cases resolved with
      | union | intersection =>
          rcases respects.followMerged resolvedKind settles with
            isNormal | ⟨_, _, exhausted⟩
          · exact .inl isNormal
          · exact (Check.not_settles_exhausted exhausted).elim
      | _ =>
          cases Check.settles_pure.mp settles
          exact .inr ⟨resolvedKind, rfl⟩
  | succ remaining inductionHypothesis =>
      unfold Evaluation.structuralWithin at settles
      rcases settles.of_evaluateBind fun resolved => by
          cases resolved <;> (dsimp only; infer_instance) with
        ⟨resolved, resolves, settles⟩ | ⟨_, _, ⟨⟩⟩
      have resolvedKind := respects.resolveWithin ofKind resolves
      cases resolved with
      | union | intersection =>
          rcases respects.followMerged resolvedKind settles with
            isNormal | ⟨merged, mergedKind, follows⟩
          · exact .inl isNormal
          · exact inductionHypothesis mergedKind follows
      | _ =>
          cases Check.settles_pure.mp settles
          exact .inr ⟨resolvedKind, rfl⟩

/-- What stands behind a type of the kind is of the kind. -/
theorem behind
    (ofKind : kind type)
    (settles :
      Check.Settles (evaluation.structural depth type).run (.ok result)) :
    kind result := by
  rcases respects.structuralWithin ofKind settles with isNormal | ⟨found, -⟩
  · exact respects.ofNormal isNormal
  · exact found

/-- The object behind a base of the kind is of the kind. -/
theorem objectBase
    (ofKind : kind base)
    (settles :
      Check.Settles (evaluation.objectBase utility depth base).run
        (.ok shape)) :
    ∃ occurrence, kind (.object occurrence shape) := by
  unfold Evaluation.objectBase at settles
  rcases settles.of_evaluateBind fun type => by
      split <;> infer_instance with
    ⟨type, follows, settles⟩ | ⟨_, _, ⟨⟩⟩
  have found := respects.behind ofKind follows
  split at settles
  · cases Check.settles_pure.mp settles
    exact ⟨_, found⟩
  · cases Check.settles_pure.mp settles

/-- The function behind a base of the kind is of the kind. -/
theorem functionBase
    (ofKind : kind base)
    (settles :
      Check.Settles (evaluation.functionBase utility depth base).run
        (.ok signature)) :
    ∃ occurrence, kind (.function occurrence signature) := by
  unfold Evaluation.functionBase at settles
  rcases settles.of_evaluateBind fun type => by
      split <;> infer_instance with
    ⟨type, follows, settles⟩ | ⟨_, _, ⟨⟩⟩
  have found := respects.behind ofKind follows
  split at settles
  · cases Check.settles_pure.mp settles
    exact ⟨_, found⟩
  · cases Check.settles_pure.mp settles

/-- The object that `Pick` and `Omit` work on is of the kind. -/
theorem keyedBase
    {application : Application Ty}
    {keyed : Shape Ty × List Text.RawText}
    (ofKind : kind application.base)
    (settles :
      Check.Settles (evaluation.keyedBase application depth).run
        (.ok keyed)) :
    ∃ occurrence, kind (.object occurrence keyed.1) := by
  unfold Evaluation.keyedBase at settles
  split at settles
  · obtain ⟨shape, bases, settles⟩ := settles.of_evaluateOk
    obtain ⟨keys, _, settles⟩ := settles.of_evaluateOk
    cases Check.settles_pure.mp settles
    exact respects.objectBase ofKind bases
  · cases Check.settles_pure.mp settles

/-- `Partial` and `Required` keep the kind. -/
theorem applyOptional
    {application : Application Ty}
    {optional : Bool}
    (ofKind : kind application.base)
    (settles :
      Check.Settles (evaluation.applyOptional application optional depth).run
        (.ok result)) :
    kind result := by
  unfold Evaluation.applyOptional at settles
  obtain ⟨_, _, settles⟩ := settles.of_evaluateOk
  obtain ⟨shape, bases, settles⟩ := settles.of_evaluateOk
  cases Check.settles_pure.mp settles
  obtain ⟨_, found⟩ := respects.objectBase ofKind bases
  exact respects.kept.change found fun _ => ⟨rfl, rfl⟩

/-- `Readonly` keeps the kind. -/
theorem applyReadonly
    {application : Application Ty}
    (ofKind : kind application.base)
    (settles :
      Check.Settles (evaluation.applyReadonly application depth).run
        (.ok result)) :
    kind result := by
  unfold Evaluation.applyReadonly at settles
  rcases settles.of_evaluateBind fun _ =>
      @Check.Appends.ofEvaluateBind _ _ _ _ inferInstance
        fun _ => by split <;> infer_instance with
    ⟨_, _, settles⟩ | ⟨_, _, ⟨⟩⟩
  rcases settles.of_evaluateBind fun _ => by split <;> infer_instance with
    ⟨type, follows, settles⟩ | ⟨_, _, ⟨⟩⟩
  have found := respects.behind ofKind follows
  split at settles
  · cases Check.settles_pure.mp settles
    exact respects.kept.array found
  · cases Check.settles_pure.mp settles
    exact respects.kept.tuple found
  · cases Check.settles_pure.mp settles
    exact respects.kept.change found fun _ => ⟨rfl, rfl⟩
  · cases Check.settles_pure.mp settles

/-- Every utility keeps the kind. -/
theorem apply
    {application : Application Ty}
    (ofKind : application.base.isAbsent = false → kind application.base)
    (settles :
      Check.Settles (evaluation.apply application depth).run (.ok result)) :
    kind result := by
  unfold Evaluation.apply at settles
  split at settles
  · cases Check.settles_pure.mp settles
  next present =>
  have baseKind := ofKind (by simpa using present)
  split at settles
  · unfold Checker.failTooComplex at settles
    obtain ⟨_, _, settles⟩ := settles.of_evaluateOk
    cases Check.settles_pure.mp settles
  split at settles
  · unfold Evaluation.applyPick at settles
    obtain ⟨keyed, bases, settles⟩ :=
      @Check.Settles.of_evaluateOk _ _ _ _ _
        (fun keyed => by dsimp only; split <;> infer_instance) settles
    obtain ⟨_, found⟩ := respects.keyedBase baseKind bases
    dsimp only at settles
    split at settles
    · cases Check.settles_pure.mp settles
    · cases Check.settles_pure.mp settles
      exact respects.kept.pick found _
  · unfold Evaluation.applyOmit at settles
    obtain ⟨keyed, bases, settles⟩ := settles.of_evaluateOk
    cases Check.settles_pure.mp settles
    obtain ⟨_, found⟩ := respects.keyedBase baseKind bases
    exact respects.kept.without found _
  · exact respects.applyOptional baseKind settles
  · exact respects.applyOptional baseKind settles
  · exact respects.applyReadonly baseKind settles
  · unfold Evaluation.applyReturnType at settles
    obtain ⟨_, _, settles⟩ := settles.of_evaluateOk
    obtain ⟨signature, bases, settles⟩ := settles.of_evaluateOk
    cases Check.settles_pure.mp settles
    obtain ⟨_, found⟩ := respects.functionBase baseKind bases
    exact respects.kept.result found
  · unfold Evaluation.applyParameters at settles
    obtain ⟨_, _, settles⟩ := settles.of_evaluateOk
    obtain ⟨signature, bases, settles⟩ := settles.of_evaluateOk
    cases Check.settles_pure.mp settles
    obtain ⟨_, found⟩ := respects.functionBase baseKind bases
    exact respects.kept.parameters found
  · unfold Evaluation.applyNonNullable at settles
    obtain ⟨_, _, settles⟩ := settles.of_evaluateOk
    obtain ⟨type, follows, settles⟩ := settles.of_evaluateOk
    obtain ⟨_, ⟨⟩, settles⟩ := settles.of_evaluateLift
    exact respects.ofNormal
      (respects.normalizes
        (respects.kept.nonNullable (respects.behind baseKind follows)) settles)
  · cases Check.settles_pure.mp settles

end Respects

end Evaluation

namespace Checker

variable {checker : Checker} {kind normal : Ty → Prop}

/-- Normalization of types of a kind settles with normal forms. -/
structure KeepsKind
    (kind normal : Ty → Prop)
    (checker : Checker) :
    Prop where
  kept : Ty.Kept kind
  ofNormal : ∀ {type}, normal type → kind type
  definitions :
    ∀ reference,
      checker.arena.definition reference ≠ .absent →
      kind (checker.arena.definition reference)
  normalizes :
    ∀ {evaluate : Evaluator} [evaluate.Reports] {budget depth type result},
      evaluate.Keeps kind →
      kind type →
      Check.Settles
        (normalizeIn { checker, evaluate, keepReferences := false } budget depth
          type)
        result →
      normal result

namespace KeepsKind

variable (keeps : checker.KeepsKind kind normal)
include keeps

/-- Evaluating applications keeps the kind. -/
theorem evaluateWithin
    (budget : Nat) :
    (checker.evaluateWithin budget).Keeps kind := by
  induction budget with
  | zero =>
      intro application depth type _ settles
      exact (Check.not_settles_exhausted settles).elim
  | succ budget inductionHypothesis =>
      intro application depth type ofKind settles
      have respects :
          Evaluation.Respects kind normal
            { checker, evaluate := checker.evaluateWithin budget, budget } :=
        ⟨keeps.kept, keeps.ofNormal, keeps.definitions, inductionHypothesis,
          keeps.normalizes inductionHypothesis⟩
      exact respects.apply ofKind settles

/-- The evaluation of references with the whole budget keeps the kind. -/
theorem evaluation :
    checker.evaluation.Respects kind normal where
  kept := keeps.kept
  ofNormal := keeps.ofNormal
  definitions := keeps.definitions
  evaluates := keeps.evaluateWithin checker.budget
  normalizes := keeps.normalizes (keeps.evaluateWithin checker.budget)

/-- Normalizing a type of the kind settles with a normal form. -/
theorem normalize
    (ofKind : kind type)
    (settles : Check.Settles (checker.normalize type) result) :
    normal result :=
  keeps.evaluation.normalizes ofKind settles

end KeepsKind

end Checker

end StructuralTyping
