import StructuralTyping.Proofs.CopiedRuns
import StructuralTyping.Proofs.MergedBases

namespace StructuralTyping

/-!
# Copies evaluate to copies

Following references from copies, merging what is found and applying a utility to
it goes the same way for both, as far as normalization does, and normalization
does as far as evaluation does with a smaller budget.
-/

namespace Evaluation

/-- One key of a key set is the same for copies. -/
theorem keyOf_mirrors
    {key copy : Ty}
    (same : key.form = copy.form) :
    Evaluate.Mirrors Eq (keyOf utility key) (keyOf utility copy) := by
  cases Ty.copied_of_form same with
  | @literal _ value =>
      cases value with
      | string text => exact .pure rfl
      | _ => exact .fail
  | _ => exact .fail

/-- The keys of a key set are the same for copies. -/
theorem keys_mirror
    {keys copies : List Ty}
    (same : keys.map Ty.form = copies.map Ty.form) :
    Evaluate.Mirrors Eq
      (keys.mapM (keyOf utility)) (copies.mapM (keyOf utility)) := by
  have pairs :
      Evaluate.Mirrors (List.Forall₂ Eq)
        (keys.mapM (keyOf utility)) (copies.mapM (keyOf utility)) :=
    .mapM (forall₂_of_map_eq same) fun _ _ _ _ same => keyOf_mirrors same
  rw [List.forall₂_eq_eq_eq] at pairs
  exact pairs

end Evaluation

namespace Checker

/-- Types that can be told apart evaluate to types that can be told apart. -/
theorem evaluationWithin_respects
    {checker : Checker}
    (identifiable : checker.arena.Identifiable)
    (budget : Nat) :
    (checker.evaluationWithin budget).Respects checker.arena.Identifies
      checker.arena.Identifies where
  kept := Arena.identifies_kept
  ofNormal := id
  definitions reference defined := identifiable reference defined
  evaluates := evaluateWithin_identifies identifiable budget
  normalizes {depth type result} identifies settles := by
    have uses : checker.Uses (normalPass (checker.modeWithin budget) budget) :=
      ⟨budget, budget, rfl⟩
    exact ((uses.presents identifiable).normalize identifies
      (settles_of_normalizeIn settles)).identifies

variable {checker : Checker}

/-- Following references keeps what can be told apart. -/
theorem ResolvesInto.identifies
    (resolves : checker.ResolvesInto type found)
    (identifiable : checker.arena.Identifiable)
    (identifies : checker.arena.Identifies type) :
    checker.arena.Identifies found := by
  obtain ⟨budget, remaining, depth, settles⟩ := resolves
  exact (evaluationWithin_respects identifiable budget).resolveWithin identifies
    settles

/-- Normalizing in an evaluation is normalizing on the way. -/
theorem normalizesInto_of_settles
    {budget : Nat}
    (settles :
      Check.Settles ((checker.evaluationWithin budget).normalizeAt depth type)
        result) :
    checker.NormalizesInto type result :=
  ⟨normalPass (checker.modeWithin budget) budget, depth, ⟨budget, budget, rfl⟩,
    settles_of_normalizeIn settles⟩

section Mirroring

variable
  {budget less : Nat}
  (identifiable : checker.arena.Identifiable)
  (evaluates :
    Evaluator.Mirrors checker (checker.evaluateWithin budget)
      (checker.evaluateWithin less))
include identifiable evaluates

/-- Copies are normalized to copies in evaluations that mirror each other. -/
theorem normalizeAt_mirrors
    {type copy : Ty}
    (same : type.form = copy.form)
    (identifies : checker.arena.Identifies type)
    (decides : checker.DecidesAll (.normalize type))
    (decidesCopy : checker.DecidesAll (.normalize copy)) :
    Check.Mirrors (fun type copy => type.form = copy.form)
      ((checker.evaluationWithin budget).normalizeAt depth type)
      ((checker.evaluationWithin less).normalizeAt flat copy) := by
  have passes := normalPass_mirrors identifiable evaluates budget less
  constructor
  intro result other settles settlesOther
  exact (passes.normalize same identifies decides decidesCopy).relates
    (settles_of_normalizeIn settles) (settles_of_normalizeIn settlesOther)

/-- Following references from copies leads to copies. -/
theorem resolveWithin_mirrors
    {type copy : Ty}
    (same : type.form = copy.form)
    (identifies : checker.arena.Identifies type)
    (decides : checker.DecidesAll (.resolve type))
    (decidesCopy : checker.DecidesAll (.resolve copy)) :
    Evaluate.Mirrors (fun type copy => type.form = copy.form)
      ((checker.evaluationWithin budget).resolveWithin remaining depth type)
      ((checker.evaluationWithin less).resolveWithin left flat copy) := by
  induction remaining generalizing left depth flat type copy with
  | zero =>
      exact ⟨fun settles => (Evaluation.not_settles_exceeded settles).elim⟩
  | succ remaining inductionHypothesis =>
  cases left with
  | zero =>
      constructor
      intro _ _ _ settles
      unfold Evaluation.resolveWithin at settles
      exact (Evaluation.not_settles_exceeded settles).elim
  | succ left =>
  cases Ty.copied_of_form same with
  | @named reference =>
      constructor
      intro outcome otherOutcome settles settlesOther
      unfold Evaluation.resolveWithin at settles settlesOther
      split at settles
      · next absent =>
        split at settlesOther
        · cases Check.settles_pure.mp settles
          cases Check.settles_pure.mp settlesOther
          exact .error
        · next defined => exact absurd absent defined
      · next defined =>
        split at settlesOther
        · next absent => exact absurd absent defined
        refine Check.Mirrors.relates (inductionHypothesis rfl ?_ ?_ ?_) settles
          settlesOther
        · exact identifiable reference defined
        · exact decides.asks (.definition defined)
        · exact decidesCopy.asks (.definition defined)
  | @generic _ _ application other sameApplication =>
      unfold Evaluation.resolveWithin
      have identifiesBase (present : application.base.isAbsent = false) :=
        Arena.identifies_kept.base identifies present
      apply Evaluate.Mirrors.bind
      · exact evaluates sameApplication identifiesBase
          (decides.asks .reference) (decidesCopy.asks .reference)
      intro found foundCopy settles settlesCopy sameFound
      apply inductionHypothesis sameFound
      · exact evaluateWithin_identifies identifiable budget identifiesBase settles
      · exact decides.asks (.referenced ⟨budget, _, settles⟩)
      · exact decidesCopy.asks (.referenced ⟨less, _, settlesCopy⟩)
  | _ =>
      exact .pure same

omit identifiable evaluates in
/-- Members are expanded one by one where they are references. -/
theorem expands_of_settles
    {members expanded : List Ty}
    (settles :
      Check.Settles
        (members.mapM fun member : Ty =>
          if member.isReference then
            (checker.evaluationWithin budget).resolve depth member
          else
            (pure member : Evaluate Ty)).run
        (.ok expanded)) :
    List.Forall₂
      (fun member found =>
        if member.isReference then
          checker.ResolvesInto member found
        else
          found = member)
      members expanded := by
  have appends :
      ∀ member : Ty,
        Check.Appends
          (if member.isReference then
            (checker.evaluationWithin budget).resolve depth member
          else
            pure member : Evaluate Ty).run :=
    fun _ => inferInstance
  refine settles.of_evaluateMapM.imp fun member found settles => ?_
  split at settles
  · next reference =>
    rw [if_pos reference]
    exact ⟨budget, _, _, settles⟩
  · next other =>
    rw [if_neg other]
    cases Check.settles_pure.mp settles
    rfl

/-- Expanding the references among the members of copies leads to copies. -/
theorem mergeMembers_mirrors
    {type copy : Ty}
    {members copies : List Ty}
    (normal : checker.NormalizesInto type (.intersection occurrence members))
    (normalCopy :
      checker.NormalizesInto copy (.intersection occurrenceCopy copies))
    (same : members.map Ty.form = copies.map Ty.form)
    (identifies :
      checker.arena.Identifies (.intersection occurrence members))
    (decides : checker.DecidesAll (.merge type))
    (decidesCopy : checker.DecidesAll (.merge copy)) :
    Check.Mirrors (fun merged other => merged.map Ty.form = other.map Ty.form)
      ((checker.evaluationWithin budget).mergeMembers depth members)
      ((checker.evaluationWithin less).mergeMembers flat copies) := by
  have sameAny : copies.any Ty.isReference = members.any Ty.isReference := by
    rw [← any_map_form fun _ => Ty.isReference_form, ← same,
      any_map_form fun _ => Ty.isReference_form]
  unfold Evaluation.mergeMembers
  rw [sameAny]
  split
  case isFalse => exact .pure rfl
  case isTrue references =>
  apply
    @Check.Mirrors.bind _ _ _ _ _ _ _ _ _ _
      (fun outcome => by cases outcome <;> infer_instance)
      (fun outcome => by cases outcome <;> infer_instance)
  · show Evaluate.Mirrors (List.Forall₂ fun type copy => type.form = copy.form) _ _
    apply Evaluate.Mirrors.mapM (forall₂_of_map_eq same)
    intro earlier member later earlierCopy memberCopy laterCopy split splitCopy
      before beforeCopy sameMember
    have sameReference : memberCopy.isReference = member.isReference := by
      rw [← Ty.isReference_form, ← sameMember, Ty.isReference_form]
    rw [sameReference]
    split
    case isFalse => exact .pure sameMember
    case isTrue reference =>
    apply resolveWithin_mirrors identifiable evaluates sameMember
    · exact Arena.identifies_kept.factor identifies member (by simp [split])
    · apply decides.asks
      apply Asks.expanded (split ▸ normal) _ reference
      intro other inEarlier isReference
      obtain ⟨found, settles⟩ := before other inEarlier
      rw [if_pos isReference] at settles
      exact ⟨found, budget, _, _, settles⟩
    · apply decidesCopy.asks
      apply Asks.expanded (splitCopy ▸ normalCopy) _ (sameReference ▸ reference)
      intro other inEarlier isReference
      obtain ⟨found, settles⟩ := beforeCopy other inEarlier
      rw [if_pos isReference] at settles
      exact ⟨found, less, _, _, settles⟩
  intro outcome outcomeCopy settles settlesCopy sameOutcome
  cases sameOutcome with
  | error => exact .pure rfl
  | @ok expanded expandedCopies sameExpanded =>
      have references : members.any Ty.isReference = true := references
      apply Check.Mirrors.bind
      · apply normalizeAt_mirrors identifiable evaluates
        · simpa [Ty.ofIntersection] using map_eq_of_forall₂ sameExpanded
        · apply Arena.identifies_kept.intersection identifies
          intro found inExpanded
          obtain ⟨member, inMembers, expands⟩ :=
            exists_related_left (expands_of_settles settles) inExpanded
          have identifiesMember :=
            Arena.identifies_kept.factor identifies member inMembers
          split at expands
          · exact expands.identifies identifiable identifiesMember
          · exact expands ▸ identifiesMember
        · exact decides.asks
            (.merged normal references (expands_of_settles settles))
        · exact decidesCopy.asks
            (.merged normalCopy (sameAny.trans references)
              (expands_of_settles settlesCopy))
      intro merged mergedCopy _ _ sameMerged
      exact .pure (congrArg some sameMerged)

/-- Normalizing copies and expanding what they become leads to copies. -/
theorem normalizeMerged_mirrors
    {type copy : Ty}
    (same : type.form = copy.form)
    (identifies : checker.arena.Identifies type)
    (decides : checker.DecidesAll (.merge type))
    (decidesCopy : checker.DecidesAll (.merge copy)) :
    Check.Mirrors (fun type copy => type.form = copy.form)
      ((checker.evaluationWithin budget).normalizeMerged depth type)
      ((checker.evaluationWithin less).normalizeMerged flat copy) := by
  have respects := evaluationWithin_respects identifiable budget
  unfold Evaluation.normalizeMerged
  apply
    @Check.Mirrors.bind _ _ _ _ _ _ _ _ _ _
      (fun _ => by
        split
        · refine @Check.Appends.ofBind _ _ _ _ _ fun merged => ?_
          cases merged <;> infer_instance
        · infer_instance)
      (fun _ => by
        split
        · refine @Check.Appends.ofBind _ _ _ _ _ fun merged => ?_
          cases merged <;> infer_instance
        · infer_instance)
  · exact normalizeAt_mirrors identifiable evaluates same identifies
      (decides.asks .normalized) (decidesCopy.asks .normalized)
  intro normal normalCopy settles settlesCopy sameNormal
  cases Ty.copied_of_form sameNormal with
  | intersection sameMembers =>
      apply
        @Check.Mirrors.bind _ _ _ _ _ _ _ _ _ _
          (fun merged => by cases merged <;> infer_instance)
          (fun merged => by cases merged <;> infer_instance)
      · exact mergeMembers_mirrors identifiable evaluates
          (normalizesInto_of_settles settles)
          (normalizesInto_of_settles settlesCopy) sameMembers
          (respects.normalizes identifies settles) decides decidesCopy
      intro merged mergedCopy _ _ sameMerged
      cases merged with
      | none =>
          rw [Option.map_eq_none_iff.mp sameMerged.symm]
          exact .pure sameNormal
      | some merged =>
          obtain ⟨other, rfl, sameOther⟩ :=
            Option.map_eq_some_iff.mp sameMerged.symm
          exact .pure sameOther.symm
  | _ =>
      exact .pure sameNormal

/-- Copies lead to copies behind them if the references that are left do. -/
theorem behind_mirrors
    {follow followCopy : Ty → Evaluate Ty}
    [followAppends : ∀ type, Check.Appends (follow type).run]
    [followCopyAppends : ∀ type, Check.Appends (followCopy type).run]
    (follows :
      ∀ {merged other : Ty},
        merged.form = other.form →
        checker.arena.Identifies merged →
        checker.DecidesAll (.behind merged) →
        checker.DecidesAll (.behind other) →
        Evaluate.Mirrors (fun type copy => type.form = copy.form)
          (follow merged) (followCopy other))
    {type copy : Ty}
    (same : type.form = copy.form)
    (identifies : checker.arena.Identifies type)
    (decides : checker.DecidesAll (.behind type))
    (decidesCopy : checker.DecidesAll (.behind copy)) :
    Evaluate.Mirrors (fun type copy => type.form = copy.form)
      (do
        let found ← (checker.evaluationWithin budget).resolve depth type
        match found with
        | .union _ _ | .intersection _ _ =>
            let merged ←
              (checker.evaluationWithin budget).normalizeMerged (depth + 1) found
            if merged.isReference then follow merged else return merged
        | _ => return found)
      (do
        let found ← (checker.evaluationWithin less).resolve flat copy
        match found with
        | .union _ _ | .intersection _ _ =>
            let merged ←
              (checker.evaluationWithin less).normalizeMerged (flat + 1) found
            if merged.isReference then followCopy merged else return merged
        | _ => return found) := by
  have respects := evaluationWithin_respects identifiable budget
  apply
    @Evaluate.Mirrors.bind _ _ _ _ _ _ _ _ _ _
      (fun found => by cases found <;> (dsimp only; infer_instance))
      (fun found => by cases found <;> (dsimp only; infer_instance))
  · exact resolveWithin_mirrors identifiable evaluates same identifies
      (decides.asks .resolved) (decidesCopy.asks .resolved)
  intro found foundCopy settles settlesCopy sameFound
  have resolves : checker.ResolvesInto type found := ⟨budget, _, _, settles⟩
  have resolvesCopy : checker.ResolvesInto copy foundCopy := ⟨less, _, _, settlesCopy⟩
  have identifiesFound := resolves.identifies identifiable identifies
  have merges
      (exposed : (found.isUnion || RelationStep.isIntersection found) = true)
      (exposedCopy :
        (foundCopy.isUnion || RelationStep.isIntersection foundCopy) = true) :
      Evaluate.Mirrors (fun type copy => type.form = copy.form)
        (do
          let merged ←
            (checker.evaluationWithin budget).normalizeMerged (depth + 1) found
          if merged.isReference then follow merged else return merged)
        (do
          let merged ←
            (checker.evaluationWithin less).normalizeMerged (flat + 1) foundCopy
          if merged.isReference then followCopy merged else return merged) := by
    apply Evaluate.Mirrors.bind
    · exact .lift (normalizeMerged_mirrors identifiable evaluates sameFound
        identifiesFound (decides.asks (.exposed resolves exposed))
        (decidesCopy.asks (.exposed resolvesCopy exposedCopy)))
    intro merged mergedCopy mergesTo mergesToCopy sameMerged
    obtain ⟨_, ⟨⟩, mergesTo⟩ := mergesTo.of_evaluateLift
    obtain ⟨_, ⟨⟩, mergesToCopy⟩ := mergesToCopy.of_evaluateLift
    have sameReference : mergedCopy.isReference = merged.isReference := by
      rw [← Ty.isReference_form, ← sameMerged, Ty.isReference_form]
    rw [sameReference]
    split
    case isFalse => exact .pure sameMerged
    case isTrue reference =>
    apply follows sameMerged
    · exact respects.normalizeMerged identifiesFound mergesTo
    · exact decides.asks
        (.followed resolves exposed ⟨budget, _, mergesTo⟩ reference)
    · exact decidesCopy.asks
        (.followed resolvesCopy exposedCopy ⟨less, _, mergesToCopy⟩
          (sameReference.trans reference))
  cases Ty.copied_of_form sameFound with
  | union => exact merges rfl rfl
  | intersection => exact merges rfl rfl
  | _ => exact .pure sameFound

/-- What is behind copies are copies. -/
theorem structuralWithin_mirrors
    {type copy : Ty}
    (same : type.form = copy.form)
    (identifies : checker.arena.Identifies type)
    (decides : checker.DecidesAll (.behind type))
    (decidesCopy : checker.DecidesAll (.behind copy)) :
    Evaluate.Mirrors (fun type copy => type.form = copy.form)
      ((checker.evaluationWithin budget).structuralWithin remaining depth type)
      ((checker.evaluationWithin less).structuralWithin left flat copy) := by
  induction remaining generalizing left depth flat type copy with
  | zero =>
      cases left <;>
        (unfold Evaluation.structuralWithin
         apply behind_mirrors identifiable evaluates _ same identifies decides
           decidesCopy
         intro _ _ _ _ _ _
         exact ⟨fun settles => (Check.not_settles_exhausted settles).elim⟩)
  | succ remaining inductionHypothesis =>
      cases left with
      | zero =>
          unfold Evaluation.structuralWithin
          apply behind_mirrors identifiable evaluates _ same identifies decides
            decidesCopy
          intro _ _ _ _ _ _
          exact ⟨fun _ settles => (Check.not_settles_exhausted settles).elim⟩
      | succ left =>
          unfold Evaluation.structuralWithin
          exact behind_mirrors identifiable evaluates inductionHypothesis same
            identifies decides decidesCopy

/-- Copies of a base have copies of one object behind them, or none. -/
theorem objectBase_mirrors
    {utility utilityCopy : String}
    {base copy : Ty}
    (same : base.form = copy.form)
    (identifies : checker.arena.Identifies base)
    (decides : checker.DecidesAll (.behind base))
    (decidesCopy : checker.DecidesAll (.behind copy)) :
    Evaluate.Mirrors (fun shape other => shape.form = other.form)
      ((checker.evaluationWithin budget).objectBase utility depth base)
      ((checker.evaluationWithin less).objectBase utilityCopy flat copy) := by
  unfold Evaluation.objectBase
  apply
    @Evaluate.Mirrors.bind _ _ _ _ _ _ _ _ _ _
      (fun found => by cases found <;> infer_instance)
      (fun found => by cases found <;> infer_instance)
  · exact structuralWithin_mirrors identifiable evaluates same identifies decides
      decidesCopy
  intro found foundCopy _ _ sameFound
  cases Ty.copied_of_form sameFound with
  | object sameShape => exact .pure sameShape
  | _ => exact .fail

/-- Copies of a base have copies of one function behind them, or none. -/
theorem functionBase_mirrors
    {utility utilityCopy : String}
    {base copy : Ty}
    (same : base.form = copy.form)
    (identifies : checker.arena.Identifies base)
    (decides : checker.DecidesAll (.behind base))
    (decidesCopy : checker.DecidesAll (.behind copy)) :
    Evaluate.Mirrors (fun signature other => signature.form = other.form)
      ((checker.evaluationWithin budget).functionBase utility depth base)
      ((checker.evaluationWithin less).functionBase utilityCopy flat copy) := by
  unfold Evaluation.functionBase
  apply
    @Evaluate.Mirrors.bind _ _ _ _ _ _ _ _ _ _
      (fun found => by cases found <;> infer_instance)
      (fun found => by cases found <;> infer_instance)
  · exact structuralWithin_mirrors identifiable evaluates same identifies decides
      decidesCopy
  intro found foundCopy _ _ sameFound
  cases Ty.copied_of_form sameFound with
  | function sameSignature => exact .pure sameSignature
  | _ => exact .fail

omit identifiable evaluates in
/-- The key sets of copies are the same. -/
theorem keySet_mirrors
    {utility : String}
    {keys copy : Ty}
    (same : keys.form = copy.form) :
    Evaluate.Mirrors Eq
      ((checker.evaluationWithin budget).keySet utility keys)
      ((checker.evaluationWithin less).keySet utility copy) := by
  have sameNever : copy.isNever = keys.isNever := by
    rw [← Ty.isNever_form, ← same, Ty.isNever_form]
  have members :
      Evaluate.Mirrors Eq (keys.members.mapM (Evaluation.keyOf utility))
        (copy.members.mapM (Evaluation.keyOf utility)) := by
    apply Evaluation.keys_mirror
    rw [← Ty.members_form, same, Ty.members_form]
  unfold Evaluation.keySet
  rw [sameNever]
  split
  · exact .pure rfl
  cases Ty.copied_of_form same with
  | named =>
      dsimp only [evaluationWithin]
      split
      · exact Evaluation.keys_mirror rfl
      · exact .fail
  | _ => exact members

/-- `Pick` and `Omit` work on copies of one object with the same keys. -/
theorem keyedBase_mirrors
    {application other : Application Ty}
    (same : application.form = other.form)
    (identifies : checker.arena.Identifies application.base)
    (decides :
      application.arguments.length = 1 →
      checker.DecidesAll (.behind application.base))
    (decidesCopy :
      other.arguments.length = 1 → checker.DecidesAll (.behind other.base)) :
    Evaluate.Mirrors
      (fun keyed copy => keyed.1.form = copy.1.form ∧ keyed.2 = copy.2)
      ((checker.evaluationWithin budget).keyedBase application depth)
      ((checker.evaluationWithin less).keyedBase other flat) := by
  obtain ⟨sameUtility, sameBase, sameArguments⟩ :=
    Application.form_eq_iff.mp same
  unfold Evaluation.keyedBase
  rw [← sameUtility]
  rcases here : application.arguments with _ | ⟨keys, _ | ⟨second, rest⟩⟩
  · rw [here] at sameArguments
    rw [List.map_eq_nil_iff.mp sameArguments.symm]
    exact .fail
  · rw [here] at sameArguments
    obtain ⟨keysCopy, _, there, sameKeys, nothing⟩ :=
      List.map_eq_cons_iff.mp sameArguments.symm
    rw [List.map_eq_nil_iff.mp nothing] at there
    rw [there]
    apply Evaluate.Mirrors.bind
    · exact objectBase_mirrors identifiable evaluates sameBase identifies
        (decides (by simp [here])) (decidesCopy (by simp [there]))
    intro shape copy _ _ sameShape
    apply Evaluate.Mirrors.bind
    · exact keySet_mirrors sameKeys.symm
    intro set setCopy _ _ sameSet
    exact .pure ⟨sameShape, sameSet⟩
  · rw [here] at sameArguments
    obtain ⟨keysCopy, _, there, _, others⟩ :=
      List.map_eq_cons_iff.mp sameArguments.symm
    obtain ⟨secondCopy, restCopies, rfl, _, _⟩ := List.map_eq_cons_iff.mp others
    rw [there]
    exact .fail

/-- `Pick` makes copies of copies. -/
theorem applyPick_mirrors
    {application other : Application Ty}
    (same : application.form = other.form)
    (identifies : checker.arena.Identifies application.base)
    (decides :
      application.arguments.length = 1 →
      checker.DecidesAll (.behind application.base))
    (decidesCopy :
      other.arguments.length = 1 → checker.DecidesAll (.behind other.base)) :
    Evaluate.Mirrors (fun type copy => type.form = copy.form)
      ((checker.evaluationWithin budget).applyPick application depth)
      ((checker.evaluationWithin less).applyPick other flat) := by
  unfold Evaluation.applyPick
  apply
    @Evaluate.Mirrors.bind _ _ _ _ _ _ _ _ _ _
      (fun _ => by dsimp only; split <;> infer_instance)
      (fun _ => by dsimp only; split <;> infer_instance)
  · exact keyedBase_mirrors identifiable evaluates same identifies decides
      decidesCopy
  rintro ⟨shape, keys⟩ ⟨copy, _⟩ _ _ ⟨sameShape, rfl⟩
  have sameMissing (name : String) :
      (copy.property? name).isNone = (shape.property? name).isNone := by
    have found :
        (shape.property? name).map Property.form =
          (copy.property? name).map Property.form := by
      rw [← Shape.property?_form, sameShape, Shape.property?_form]
    rw [← Option.isNone_map, ← found, Option.isNone_map]
  have samePredicate :
      (fun key : Text.RawText => (key.string?.bind copy.property?).isNone) =
        fun key => (key.string?.bind shape.property?).isNone := by
    funext key
    cases key.string? with
    | none => rfl
    | some name => exact sameMissing name
  dsimp only
  rw [samePredicate]
  split
  · exact .fail
  · apply Evaluate.Mirrors.pure
    simp only [Ty.ofShape, Ty.form_object, ← Shape.pick_form, sameShape]

/-- `Omit` makes copies of copies. -/
theorem applyOmit_mirrors
    {application other : Application Ty}
    (same : application.form = other.form)
    (identifies : checker.arena.Identifies application.base)
    (decides :
      application.arguments.length = 1 →
      checker.DecidesAll (.behind application.base))
    (decidesCopy :
      other.arguments.length = 1 → checker.DecidesAll (.behind other.base)) :
    Evaluate.Mirrors (fun type copy => type.form = copy.form)
      ((checker.evaluationWithin budget).applyOmit application depth)
      ((checker.evaluationWithin less).applyOmit other flat) := by
  unfold Evaluation.applyOmit
  apply Evaluate.Mirrors.bind
  · exact keyedBase_mirrors identifiable evaluates same identifies decides
      decidesCopy
  rintro ⟨shape, keys⟩ ⟨copy, _⟩ _ _ ⟨sameShape, rfl⟩
  apply Evaluate.Mirrors.pure
  simp only [Ty.ofShape, Ty.form_object, ← Shape.without_form, sameShape]

omit identifiable evaluates in
/-- Arguments besides the base are refused in an application and in its copies. -/
theorem expectNoArguments_mirrors
    {application other : Application Ty}
    (same : application.form = other.form) :
    Evaluate.Mirrors
      (fun _ _ =>
        application.arguments.length = 0 ∧ other.arguments.length = 0)
      (Evaluation.expectNoArguments application)
      (Evaluation.expectNoArguments other) := by
  obtain ⟨_, _, sameArguments⟩ := Application.form_eq_iff.mp same
  have sameEmpty : other.arguments.isEmpty = application.arguments.isEmpty := by
    rw [← List.isEmpty_map, ← sameArguments, List.isEmpty_map]
  unfold Evaluation.expectNoArguments
  rw [sameEmpty]
  split
  · next alone =>
    have aloneCopy := sameEmpty.trans alone
    exact .pure ⟨List.length_eq_zero_iff.mpr (List.isEmpty_iff.mp alone),
      List.length_eq_zero_iff.mpr (List.isEmpty_iff.mp aloneCopy)⟩
  · exact .fail

/-- `Partial` and `Required` make copies of copies. -/
theorem applyOptional_mirrors
    {optional : Bool}
    {application other : Application Ty}
    (same : application.form = other.form)
    (identifies : checker.arena.Identifies application.base)
    (decides :
      application.arguments.length = 0 →
      checker.DecidesAll (.behind application.base))
    (decidesCopy :
      other.arguments.length = 0 → checker.DecidesAll (.behind other.base)) :
    Evaluate.Mirrors (fun type copy => type.form = copy.form)
      ((checker.evaluationWithin budget).applyOptional application optional depth)
      ((checker.evaluationWithin less).applyOptional other optional flat) := by
  obtain ⟨_, sameBase, _⟩ := Application.form_eq_iff.mp same
  unfold Evaluation.applyOptional
  apply Evaluate.Mirrors.bind
  · exact expectNoArguments_mirrors same
  rintro _ _ _ _ ⟨alone, aloneCopy⟩
  apply Evaluate.Mirrors.bind
  · exact objectBase_mirrors identifiable evaluates sameBase identifies
      (decides alone) (decidesCopy aloneCopy)
  intro shape copy _ _ sameShape
  apply Evaluate.Mirrors.pure
  rw [Ty.ofShape, Ty.ofShape, Ty.form_object, Ty.form_object]
  exact congrArg _ (Shape.mapProperties_of_form sameShape fun _ => rfl)

/-- `Readonly` makes copies of copies. -/
theorem applyReadonly_mirrors
    {application other : Application Ty}
    (same : application.form = other.form)
    (identifies : checker.arena.Identifies application.base)
    (decides :
      application.arguments.length = 0 →
      checker.DecidesAll (.behind application.base))
    (decidesCopy :
      other.arguments.length = 0 → checker.DecidesAll (.behind other.base)) :
    Evaluate.Mirrors (fun type copy => type.form = copy.form)
      ((checker.evaluationWithin budget).applyReadonly application depth)
      ((checker.evaluationWithin less).applyReadonly other flat) := by
  obtain ⟨_, sameBase, _⟩ := Application.form_eq_iff.mp same
  unfold Evaluation.applyReadonly
  apply
    @Evaluate.Mirrors.bind _ _ _ _ _ _ _ _ _ _
      (fun _ =>
        @Check.Appends.ofEvaluateBind _ _ _ _ inferInstance
          fun _ => by split <;> infer_instance)
      (fun _ =>
        @Check.Appends.ofEvaluateBind _ _ _ _ inferInstance
          fun _ => by split <;> infer_instance)
  · exact expectNoArguments_mirrors same
  rintro _ _ _ _ ⟨alone, aloneCopy⟩
  apply
    @Evaluate.Mirrors.bind _ _ _ _ _ _ _ _ _ _
      (fun _ => by split <;> infer_instance)
      (fun _ => by split <;> infer_instance)
  · exact structuralWithin_mirrors identifiable evaluates sameBase identifies
      (decides alone) (decidesCopy aloneCopy)
  intro found foundCopy _ _ sameFound
  cases Ty.copied_of_form sameFound with
  | array sameElement =>
      apply Evaluate.Mirrors.pure
      simpa using sameElement
  | tuple sameElements =>
      apply Evaluate.Mirrors.pure
      simpa using sameElements
  | object sameShape =>
      apply Evaluate.Mirrors.pure
      rw [Ty.ofShape, Ty.ofShape, Ty.form_object, Ty.form_object]
      exact congrArg _ (Shape.mapProperties_of_form sameShape fun _ => rfl)
  | _ => exact .fail

/-- `ReturnType` makes copies of copies. -/
theorem applyReturnType_mirrors
    {application other : Application Ty}
    (same : application.form = other.form)
    (identifies : checker.arena.Identifies application.base)
    (decides :
      application.arguments.length = 0 →
      checker.DecidesAll (.behind application.base))
    (decidesCopy :
      other.arguments.length = 0 → checker.DecidesAll (.behind other.base)) :
    Evaluate.Mirrors (fun type copy => type.form = copy.form)
      ((checker.evaluationWithin budget).applyReturnType application depth)
      ((checker.evaluationWithin less).applyReturnType other flat) := by
  obtain ⟨_, sameBase, _⟩ := Application.form_eq_iff.mp same
  unfold Evaluation.applyReturnType
  apply Evaluate.Mirrors.bind
  · exact expectNoArguments_mirrors same
  rintro _ _ _ _ ⟨alone, aloneCopy⟩
  apply Evaluate.Mirrors.bind
  · exact functionBase_mirrors identifiable evaluates sameBase identifies
      (decides alone) (decidesCopy aloneCopy)
  intro signature copy _ _ sameSignature
  obtain ⟨_, _, sameResult, _⟩ := Signature.form_eq_iff.mp sameSignature
  apply Evaluate.Mirrors.pure
  rw [← Ty.orElse_form, sameResult, Ty.orElse_form]

/-- `Parameters` makes copies of copies. -/
theorem applyParameters_mirrors
    {application other : Application Ty}
    (same : application.form = other.form)
    (identifies : checker.arena.Identifies application.base)
    (decides :
      application.arguments.length = 0 →
      checker.DecidesAll (.behind application.base))
    (decidesCopy :
      other.arguments.length = 0 → checker.DecidesAll (.behind other.base)) :
    Evaluate.Mirrors (fun type copy => type.form = copy.form)
      ((checker.evaluationWithin budget).applyParameters application depth)
      ((checker.evaluationWithin less).applyParameters other flat) := by
  obtain ⟨_, sameBase, _⟩ := Application.form_eq_iff.mp same
  unfold Evaluation.applyParameters
  apply Evaluate.Mirrors.bind
  · exact expectNoArguments_mirrors same
  rintro _ _ _ _ ⟨alone, aloneCopy⟩
  apply Evaluate.Mirrors.bind
  · exact functionBase_mirrors identifiable evaluates sameBase identifies
      (decides alone) (decidesCopy aloneCopy)
  intro signature copy _ _ sameSignature
  apply Evaluate.Mirrors.pure
  rw [Ty.form_tuple, Ty.form_tuple, ← Signature.parameterTypes_form,
    sameSignature, Signature.parameterTypes_form]

/-- `NonNullable` makes copies of copies. -/
theorem applyNonNullable_mirrors
    {application other : Application Ty}
    (same : application.form = other.form)
    (identifies : checker.arena.Identifies application.base)
    (present : application.base.isAbsent = false)
    (isNonNullable : Utility.ofName? application.utility = some .nonNullable)
    (decides : checker.DecidesAll (.evaluate application))
    (decidesCopy : checker.DecidesAll (.evaluate other)) :
    Evaluate.Mirrors (fun type copy => type.form = copy.form)
      ((checker.evaluationWithin budget).applyNonNullable application depth)
      ((checker.evaluationWithin less).applyNonNullable other flat) := by
  obtain ⟨sameUtility, sameBase, _⟩ := Application.form_eq_iff.mp same
  have presentCopy : other.base.isAbsent = false := by
    rw [← Ty.isAbsent_form, ← sameBase, Ty.isAbsent_form]
    exact present
  have isNonNullableCopy :
      Utility.ofName? other.utility = some .nonNullable :=
    sameUtility ▸ isNonNullable
  have respects := evaluationWithin_respects identifiable budget
  unfold Evaluation.applyNonNullable
  apply Evaluate.Mirrors.bind
  · exact expectNoArguments_mirrors same
  rintro _ _ _ _ ⟨alone, aloneCopy⟩
  apply Evaluate.Mirrors.bind
  · exact structuralWithin_mirrors identifiable evaluates sameBase identifies
      (decides.asks (.base present isNonNullable alone))
      (decidesCopy.asks (.base presentCopy isNonNullableCopy aloneCopy))
  intro found foundCopy settles settlesCopy sameFound
  apply Evaluate.Mirrors.lift
  apply normalizeAt_mirrors identifiable evaluates
  · rw [← Ty.nonNullable_form, sameFound, Ty.nonNullable_form]
  · exact Arena.identifies_kept.nonNullable (respects.behind identifies settles)
  · exact decides.asks
      (.nonNullable present isNonNullable alone ⟨budget, _, _, settles⟩)
  · exact decidesCopy.asks
      (.nonNullable presentCopy isNonNullableCopy aloneCopy
        ⟨less, _, _, settlesCopy⟩)

/-- Copies of an application evaluate to copies, or both fail. -/
theorem apply_mirrors :
    Evaluator.Mirrors checker (checker.evaluationWithin budget).apply
      (checker.evaluationWithin less).apply := by
  intro application other depth flat same identifiesBase decides decidesCopy
  obtain ⟨sameUtility, sameBase, _⟩ := Application.form_eq_iff.mp same
  have sameAbsent : other.base.isAbsent = application.base.isAbsent := by
    rw [← Ty.isAbsent_form, ← sameBase, Ty.isAbsent_form]
  unfold Evaluation.apply
  rw [sameAbsent]
  split
  · exact .fail
  next present =>
  rw [Bool.not_eq_true] at present
  have presentCopy : other.base.isAbsent = false := sameAbsent.trans present
  have identifies := identifiesBase present
  -- An evaluation that meets its depth bound reports that and does not settle.
  by_cases exceeded :
      (checker.evaluationWithin budget).checker.options.maxDepth < depth
  · rw [if_pos exceeded]
    exact ⟨fun settles => (Evaluation.not_settles_exceeded settles).elim⟩
  by_cases exceededCopy :
      (checker.evaluationWithin less).checker.options.maxDepth < flat
  · rw [if_pos exceededCopy]
    exact ⟨fun _ settles => (Evaluation.not_settles_exceeded settles).elim⟩
  rw [if_neg exceeded, if_neg exceededCopy, ← sameUtility]
  cases named : Utility.ofName? application.utility with
  | none => exact .fail
  | some utility =>
  have namedCopy : Utility.ofName? other.utility = some utility :=
    sameUtility ▸ named
  have behind (fits : application.arguments.length = utility.arity) :=
    decides.asks (.base present named fits)
  have behindCopy (fits : other.arguments.length = utility.arity) :=
    decidesCopy.asks (.base presentCopy namedCopy fits)
  cases utility with
  | pickKeys =>
      exact applyPick_mirrors identifiable evaluates same identifies behind
        behindCopy
  | omitKeys =>
      exact applyOmit_mirrors identifiable evaluates same identifies behind
        behindCopy
  | allOptional =>
      exact applyOptional_mirrors identifiable evaluates same identifies behind
        behindCopy
  | allRequired =>
      exact applyOptional_mirrors identifiable evaluates same identifies behind
        behindCopy
  | allReadonly =>
      exact applyReadonly_mirrors identifiable evaluates same identifies behind
        behindCopy
  | returnType =>
      exact applyReturnType_mirrors identifiable evaluates same identifies behind
        behindCopy
  | parameters =>
      exact applyParameters_mirrors identifiable evaluates same identifies behind
        behindCopy
  | nonNullable =>
      exact applyNonNullable_mirrors identifiable evaluates same identifies
        present named decides decidesCopy

end Mirroring

/-- Copies of an application evaluate to copies with whatever budgets. -/
theorem evaluateWithin_mirrors
    (identifiable : checker.arena.Identifiable)
    (budget less : Nat) :
    Evaluator.Mirrors checker (checker.evaluateWithin budget)
      (checker.evaluateWithin less) := by
  induction budget generalizing less with
  | zero =>
      intro _ _ _ _ _ _ _ _
      exact ⟨fun settles => (Check.not_settles_exhausted settles).elim⟩
  | succ budget inductionHypothesis =>
      cases less with
      | zero =>
          intro _ _ _ _ _ _ _ _
          exact ⟨fun _ settles => (Check.not_settles_exhausted settles).elim⟩
      | succ less =>
          exact apply_mirrors identifiable (inductionHypothesis less)

/-- Copies are normalized to copies, wherever on the way that happens. -/
theorem Uses.mirrors
    {pass other : NormalPass}
    (identifiable : checker.arena.Identifiable)
    (uses : checker.Uses pass)
    (usesOther : checker.Uses other) :
    NormalPass.Mirrors checker pass other := by
  obtain ⟨inner, budget, rfl⟩ := uses.within
  obtain ⟨innerOther, budgetOther, rfl⟩ := usesOther.within
  exact normalPass_mirrors identifiable
    (evaluateWithin_mirrors identifiable inner innerOther) budget budgetOther

end Checker

end StructuralTyping
