import StructuralTyping.Proofs.KeptKinds

namespace StructuralTyping

/-!
# Runs that mirror each other

Two computations mirror each other when their answers are related, in case both
settle. That is nothing about two runs side by side: each may settle for its own
reasons, and one that meets a bound and does not settle mirrors everything.
-/

/-- Both computations settle with related answers, if they settle. -/
structure Check.Mirrors
    (related : α → β → Prop)
    (first : Check α)
    (second : Check β) :
    Prop where
  relates :
    ∀ {value other},
      Check.Settles first value →
      Check.Settles second other →
      related value other

/-- Two outcomes are both failures, or related answers. -/
inductive MirroredOutcome
    (related : α → β → Prop) :
    Except UtilityError α →
    Except UtilityError β →
    Prop
  | ok :
      related value other →
      MirroredOutcome related (.ok value) (.ok other)
  | error
      {reason otherReason : UtilityError} :
      MirroredOutcome related (.error reason) (.error otherReason)

@[inherit_doc Check.Mirrors]
def Evaluate.Mirrors
    (related : α → β → Prop)
    (first : Evaluate α)
    (second : Evaluate β) :
    Prop :=
  Check.Mirrors (MirroredOutcome related) first.run second.run

@[inherit_doc Check.Mirrors]
structure Stateful.Mirrors
    (related : α → β → Prop)
    (first : Normalizing α)
    (second : Normalizing β) :
    Prop where
  relates :
    ∀ {value other},
      Stateful.Settles first value →
      Stateful.Settles second other →
      related value other

/-- Lists have the same images when their items do, position by position. -/
theorem map_eq_of_forall₂
    {image : α → γ}
    {other : β → γ}
    (related : List.Forall₂ (fun item value => image item = other value) items values) :
    items.map image = values.map other := by
  rw [← List.forall₂_eq_eq_eq, List.forall₂_map_left_iff,
    List.forall₂_map_right_iff]
  exact related

/-- The partners of a list with a last item have a last item, too. -/
theorem exists_last_of_forall₂
    {related : α → β → Prop}
    (pairs : List.Forall₂ related (items ++ [item]) others) :
    ∃ before last,
      others = before ++ [last] ∧
        List.Forall₂ related items before ∧ related item last := by
  induction items generalizing others with
  | nil =>
      cases pairs with
      | cons relates rest =>
          cases rest
          exact ⟨[], _, rfl, .nil, relates⟩
  | cons first items inductionHypothesis =>
      cases pairs with
      | cons relates rest =>
          obtain ⟨before, last, rfl, pairs, relatesLast⟩ :=
            inductionHypothesis rest
          exact ⟨_, last, List.cons_append.symm, .cons relates pairs,
            relatesLast⟩

namespace Check

variable {related : α → β → Prop} {wanted : γ → δ → Prop}

theorem Mirrors.pure
    (relates : related value other) :
    Mirrors related (pure value) (pure other) := by
  constructor
  intro _ _ settles settlesOther
  cases settles_pure.mp settles
  cases settles_pure.mp settlesOther
  exact relates

/-- Sequences mirror each other when their parts do. -/
theorem Mirrors.bind
    {first : Check α}
    {second : Check β}
    {next : α → Check γ}
    {after : β → Check δ}
    [∀ value, Appends (next value)]
    [∀ value, Appends (after value)]
    (head : Mirrors related first second)
    (tail :
      ∀ value other,
        Settles first value →
        Settles second other →
        related value other →
        Mirrors wanted (next value) (after other)) :
    Mirrors wanted (first >>= next) (second >>= after) := by
  constructor
  intro _ _ settles settlesOther
  obtain ⟨value, early, late⟩ := settles_bind.mp settles
  obtain ⟨other, earlyOther, lateOther⟩ := settles_bind.mp settlesOther
  have relates := head.relates early earlyOther
  exact (tail value other early earlyOther relates).relates late lateOther

end Check

namespace Evaluate

variable {related : α → β → Prop} {wanted : γ → δ → Prop}

theorem Mirrors.pure
    (relates : related value other) :
    Mirrors related (pure value) (pure other) :=
  Check.Mirrors.pure (.ok relates)

theorem Mirrors.fail
    {reason otherReason : UtilityError} :
    Mirrors related (throw reason) (throw otherReason) :=
  Check.Mirrors.pure .error

/-- Evaluations mirror each other when their parts do. -/
theorem Mirrors.bind
    {first : Evaluate α}
    {second : Evaluate β}
    {next : α → Evaluate γ}
    {after : β → Evaluate δ}
    [nextAppends : ∀ value, Check.Appends (next value).run]
    [afterAppends : ∀ value, Check.Appends (after value).run]
    (head : Mirrors related first second)
    (tail :
      ∀ value other,
        Check.Settles first.run (.ok value) →
        Check.Settles second.run (.ok other) →
        related value other →
        Mirrors wanted (next value) (after other)) :
    Mirrors wanted (first >>= next) (second >>= after) := by
  constructor
  intro _ _ settles settlesOther
  rcases settles.of_evaluateBind nextAppends with
    ⟨value, early, late⟩ | ⟨reason, early, rfl⟩
  · rcases settlesOther.of_evaluateBind afterAppends with
      ⟨other, earlyOther, lateOther⟩ | ⟨reason, earlyOther, rfl⟩
    · cases head.relates early earlyOther with
      | ok relates =>
          have continues := tail value other early earlyOther relates
          exact continues.relates late lateOther
    · cases head.relates early earlyOther
  · rcases settlesOther.of_evaluateBind afterAppends with
      ⟨other, earlyOther, lateOther⟩ | ⟨reason, earlyOther, rfl⟩
    · cases head.relates early earlyOther
    · exact .error

/-- Visits that may fail mirror each other when they do item by item. -/
theorem Mirrors.mapM
    {visit : α → Evaluate γ}
    {visitOther : β → Evaluate δ}
    [appends : ∀ item, Check.Appends (visit item).run]
    [appendsOther : ∀ item, Check.Appends (visitOther item).run]
    {items : List α}
    {others : List β}
    (pairs : List.Forall₂ related items others)
    (each :
      ∀ {earlier item later earlierOther other laterOther},
        items = earlier ++ item :: later →
        others = earlierOther ++ other :: laterOther →
        (∀ item ∈ earlier,
          ∃ value, Check.Settles (visit item).run (.ok value)) →
        (∀ other ∈ earlierOther,
          ∃ value, Check.Settles (visitOther other).run (.ok value)) →
        related item other →
        Mirrors wanted (visit item) (visitOther other)) :
    Mirrors (List.Forall₂ wanted)
      (items.mapM visit) (others.mapM visitOther) := by
  induction pairs with
  | nil =>
      exact .pure .nil
  | @cons first firstOther rest restOther relates _ inductionHypothesis =>
      have restAppends : Check.Appends (rest.mapM visit).run :=
        Check.Appends.ofEvaluateMapM visit rest appends
      have restAppendsOther : Check.Appends (restOther.mapM visitOther).run :=
        Check.Appends.ofEvaluateMapM visitOther restOther appendsOther
      rw [List.mapM_cons, List.mapM_cons]
      apply Mirrors.bind
      · exact @each [] _ _ [] _ _ rfl rfl nofun nofun relates
      intro value valueOther settles settlesOther relatedHead
      apply Mirrors.bind
      · apply inductionHypothesis
        intro earlier item later earlierOther other laterOther split splitOther
          before beforeOther
        apply each
        · rw [split, List.cons_append]
        · rw [splitOther, List.cons_append]
        · exact List.forall_mem_cons.mpr ⟨⟨value, settles⟩, before⟩
        · exact List.forall_mem_cons.mpr
            ⟨⟨valueOther, settlesOther⟩, beforeOther⟩
      intro _ _ _ _ relatedTail
      exact .pure (.cons relatedHead relatedTail)

/-- Lifted computations mirror each other when they do. -/
theorem Mirrors.lift
    {first : Check α}
    {second : Check β}
    (mirrors : Check.Mirrors related first second) :
    Mirrors related (liftM first) (liftM second) := by
  constructor
  intro outcome otherOutcome settles settlesOther
  obtain ⟨value, rfl, early⟩ := settles.of_evaluateLift
  obtain ⟨other, rfl, earlyOther⟩ := settlesOther.of_evaluateLift
  exact .ok (mirrors.relates early earlyOther)

end Evaluate

namespace Stateful

variable {related : α → β → Prop} {wanted : γ → δ → Prop}

theorem Mirrors.pure
    (relates : related value other) :
    Mirrors related (pure value) (pure other) := by
  constructor
  intro _ _ settles settlesOther
  cases settles.of_pure
  cases settlesOther.of_pure
  exact relates

/-- Parts of normalization mirror each other when their parts do. -/
theorem Mirrors.bind
    {first : Normalizing α}
    {second : Normalizing β}
    {next : α → Normalizing γ}
    {after : β → Normalizing δ}
    [∀ value, Accountable (next value)]
    [∀ value, Accountable (after value)]
    (head : Mirrors related first second)
    (tail :
      ∀ value other,
        Settles first value →
        Settles second other →
        related value other →
        Mirrors wanted (next value) (after other)) :
    Mirrors wanted (first >>= next) (second >>= after) := by
  constructor
  intro _ _ settles settlesOther
  obtain ⟨value, early, late⟩ := settles.of_bind
  obtain ⟨other, earlyOther, lateOther⟩ := settlesOther.of_bind
  have relates := head.relates early earlyOther
  exact (tail value other early earlyOther relates).relates late lateOther

/-- Lifted computations mirror each other when they do. -/
theorem Mirrors.lift
    {first : Check α}
    {second : Check β}
    (mirrors : Check.Mirrors related first second) :
    Mirrors related (liftM first) (liftM second) := by
  constructor
  intro _ _ settles settlesOther
  exact mirrors.relates settles.of_lift settlesOther.of_lift

/-- Visits of two lists mirror each other when they do item by item. -/
theorem Mirrors.mapM
    {visit : α → Normalizing γ}
    {visitOther : β → Normalizing δ}
    [∀ item, Accountable (visit item)]
    [∀ item, Accountable (visitOther item)]
    (each :
      List.Forall₂
        (fun item other => Mirrors wanted (visit item) (visitOther other))
        items others) :
    Mirrors (List.Forall₂ wanted)
      (items.mapM visit) (others.mapM visitOther) := by
  induction each with
  | nil =>
      exact .pure .nil
  | cons head _ inductionHypothesis =>
      rw [List.mapM_cons, List.mapM_cons]
      apply Mirrors.bind head
      intro _ _ _ _ relatedHead
      apply Mirrors.bind inductionHypothesis
      intro _ _ _ _ relatedTail
      exact .pure (.cons relatedHead relatedTail)

/-- Folds of two lists mirror each other when their steps do. -/
theorem Mirrors.foldlM
    {step : γ → α → Normalizing γ}
    {stepOther : δ → β → Normalizing δ}
    [∀ state item, Accountable (step state item)]
    [∀ state item, Accountable (stepOther state item)]
    {items : List α}
    {others : List β}
    (pairs : List.Forall₂ related items others)
    (start : wanted initial initialOther)
    (each :
      ∀ {earlier item later earlierOther other laterOther state stateOther},
        items = earlier ++ item :: later →
        others = earlierOther ++ other :: laterOther →
        Settles (earlier.foldlM step initial) state →
        Settles (earlierOther.foldlM stepOther initialOther) stateOther →
        related item other →
        wanted state stateOther →
        Mirrors wanted (step state item) (stepOther stateOther other)) :
    Mirrors wanted
      (items.foldlM step initial) (others.foldlM stepOther initialOther) := by
  induction items using List.reverseRecOn generalizing others with
  | nil =>
      cases pairs
      exact .pure start
  | append_singleton items item inductionHypothesis =>
      obtain ⟨before, last, rfl, pairsBefore, relates⟩ :=
        exists_last_of_forall₂ pairs
      rw [List.foldlM_append, List.foldlM_append]
      simp only [List.foldlM_cons, List.foldlM_nil, bind_pure]
      apply Mirrors.bind
      · apply inductionHypothesis pairsBefore
        intro earlier item later earlierOther other laterOther _ _ same sameOther
        apply each
        · rw [same, List.append_assoc, List.cons_append]
        · rw [sameOther, List.append_assoc, List.cons_append]
      · intro state stateOther reached reachedOther holds
        exact each rfl rfl reached reachedOther relates holds

end Stateful

end StructuralTyping
