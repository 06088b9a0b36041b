import StructuralTyping.Proofs.NormalizedOperands

namespace StructuralTyping

/-!
# Targets that take up more members

A source that is assignable to a target stays so when the target takes up more
members, between types that reach forms. A comparison that holds is inverted for
this: it holds for every member of a source union, for some member of a target
union, and for every factor of a target intersection.
-/

open Stateful Relating

namespace Relating

/-- Comparisons that hold together settle with success, each of them. -/
theorem settles_of_allOf
    {comparisons : List (Relating Bool)}
    (accountable : ∀ comparison ∈ comparisons, Accountable comparison)
    (settles : Settles (allOf comparisons) true) :
    ∀ comparison ∈ comparisons, Settles comparison true := by
  induction comparisons with
  | nil => exact fun _ member => by cases member
  | cons comparison rest inductionHypothesis =>
      rw [List.forall_mem_cons] at accountable ⊢
      have := allOf_accountable accountable.2
      obtain ⟨holds, compares, settles⟩ := settles.of_bind
      cases holds with
      | true => exact ⟨compares, inductionHypothesis accountable.2 settles⟩
      | false => cases settles.of_pure

/-- A search that finds something settles with success there. -/
theorem settles_of_anyOf
    {comparisons : List (Relating Bool)}
    (accountable : ∀ comparison ∈ comparisons, Accountable comparison)
    (settles : Settles (anyOf comparisons) true) :
    ∃ comparison ∈ comparisons, Settles comparison true := by
  induction comparisons with
  | nil => cases settles.of_pure
  | cons comparison rest inductionHypothesis =>
      rw [List.forall_mem_cons] at accountable
      have := accountable.1
      have := anyOf_accountable accountable.2
      obtain ⟨holds, compares, settles⟩ := settles.of_bind
      cases holds with
      | true => exact ⟨_, List.mem_cons_self, settles_silently compares⟩
      | false =>
          obtain ⟨other, inRest, compares⟩ :=
            inductionHypothesis accountable.2 settles
          exact ⟨other, .tail _ inRest, compares⟩

section Mapped

variable
  {items : List α}
  {visit : α → Relating Bool}
  [∀ item, Accountable (visit item)]

/-- Items that are compared with success all settle with it. -/
theorem settles_of_allOf_map
    (settles : Settles (allOf (items.map visit)) true) :
    ∀ item ∈ items, Settles (visit item) true :=
  fun _ member =>
    settles_of_allOf (List.forall_mem_map.mpr fun _ _ => inferInstance) settles
      _ (List.mem_map_of_mem member)

/-- A search among items that finds one settles with success there. -/
theorem settles_of_anyOf_map
    (settles : Settles (anyOf (items.map visit)) true) :
    ∃ item ∈ items, Settles (visit item) true := by
  obtain ⟨_, member, holds⟩ :=
    settles_of_anyOf (List.forall_mem_map.mpr fun _ _ => inferInstance) settles
  obtain ⟨item, inItems, rfl⟩ := List.mem_map.mp member
  exact ⟨item, inItems, holds⟩

end Mapped

end Relating

/-- Only `undefined` itself is identical with it among types with forms. -/
theorem Reaches.eq_undefined
    {checker : Checker}
    (reaches : Reaches checker type form)
    (same : checker.arena.identical type .undefined = true) :
    type = .undefined := by
  unfold Arena.identical Arena.identicalWithin Arena.unfoldPair at same
  by_cases node : type.sameNode .undefined = true
  · exact Checker.eq_of_sameNode node
  have unnamed : type.isNamed = false := by
    cases reaches <;> rfl
  rw [if_neg node, reaches.isAbsent, unnamed] at same
  change equalNodes _ type .undefined = true at same
  cases reaches with
  | primitive => exact congrArg Ty.primitive (by simpa [equalNodes] using same)
  | _ => cases same

section Optional

variable
  {checker : Checker}
  (reaches : Reaches checker type form)

include reaches

/-- A form that takes up `undefined` has values. -/
theorem Reaches.optional_inhabited :
    (checker.arena.joinMembers (form.members ++ [.undefined])).isPrimitive
      .never = false :=
  joinMembers_inhabited
    (List.forall_mem_append.mpr ⟨reaches.isMember_of_members,
      List.forall_mem_singleton.mpr ⟨rfl, rfl, rfl⟩⟩)
    (List.mem_append_right _ (List.mem_singleton_self Ty.undefined)) rfl

/-- A form that takes up `undefined` has the members it had and this one. -/
theorem Reaches.mem_optional :
    member ∈
        (checker.arena.joinMembers (form.members ++ [.undefined])).members →
      member ∈ form.members ∨ member = .undefined := by
  intro inJoined
  rw [members_joinMembers_valued (List.forall_mem_append.mpr
      ⟨reaches.isMember_of_members,
        List.forall_mem_singleton.mpr ⟨rfl, rfl, rfl⟩⟩)
    reaches.optional_inhabited] at inJoined
  have inBoth :=
    (List.mem_filter.mp ((@unique_sublist checker.arena _).subset inJoined)).1
  exact (List.mem_append.mp inBoth).imp_right List.mem_singleton.mp

/-- A form that takes up `undefined` has it as a member. -/
theorem Reaches.undefined_mem_optional :
    .undefined ∈
      (checker.arena.joinMembers (form.members ++ [.undefined])).members := by
  have joined :=
    @members_joinMembers_valued checker.arena _
      (List.forall_mem_append.mpr ⟨reaches.isMember_of_members,
        List.forall_mem_singleton.mpr ⟨rfl, rfl, rfl⟩⟩)
      reaches.optional_inhabited
  have valued :
      Ty.undefined ∈
        (form.members ++ [Ty.undefined]).filter fun type => !type.isNever :=
    List.mem_filter.mpr
      ⟨List.mem_append_right _ (List.mem_singleton_self Ty.undefined), rfl⟩
  obtain ⟨other, kept, same⟩ :=
    exists_counterpart_of_mem checker.arena [] valued
  rw [← joined] at kept
  -- What stands in for `undefined` is identical with it.
  rcases same with rfl | same
  · exact kept
  rcases reaches.mem_optional kept with inForm | rfl
  · cases (reaches.again_members.2 other inForm).1.eq_undefined same
    exact kept
  · exact kept

end Optional

/-- What is answered promptly for a source with values depends on no target. -/
theorem promptAnswer_ne_true
    (unanswered : promptAnswer strict source other = none) :
    promptAnswer strict source target ≠ some true := by
  unfold promptAnswer at *
  split at unanswered
  · cases unanswered
  next inhabited =>
  rw [if_neg inhabited]
  split at unanswered
  · cases unanswered
  split at unanswered
  · cases unanswered
  next regarded =>
  rw [if_neg regarded]
  split <;> simp

/-- What is not answered promptly has values. -/
theorem inhabited_of_promptAnswer
    (unanswered : promptAnswer strict source target = none) :
    source.isPrimitive .never = false := by
  unfold promptAnswer at unanswered
  split at unanswered
  · cases unanswered
  · next inhabited => simpa using inhabited

/--
What reaches one form is assignable to what reaches another one: the forms fit,
or some comparison of such types holds.
-/
inductive Checker.Admits
    (checker : Checker)
    (form other : Ty) :
    Prop
  | fits
      (fits : form.FitsInto other)
  | holds
      (reachesSource : Reaches checker source form)
      (reachesTarget : Reaches checker target other)
      (apart : Apart checker assumptions source target)
      (settles :
        Settles (checker.compareWithin remaining assumptions source target)
          true)

/-- Every comparison of what reaches one form with what reaches another holds. -/
def Checker.Accepts
    (checker : Checker)
    (form other : Ty) :
    Prop :=
  ∀ ⦃remaining assumptions source target⦄,
    Reaches checker source form →
    Reaches checker target other →
    Apart checker assumptions source target →
    Succeeds (checker.compareWithin remaining assumptions source target)

namespace Checker

variable
  {checker : Checker}
  {form other : Ty}

/-- A comparison that holds and is not answered promptly takes forms apart. -/
theorem compareWithin_takenApart
    (reachesSource : Reaches checker source form)
    (reachesTarget : Reaches checker target other)
    (apart : Apart checker assumptions source target)
    (differ : form ≠ other)
    (unanswered :
      promptAnswer checker.options.strictNullChecks form other ≠ some true)
    (settles :
      Settles (checker.compareWithin remaining assumptions source target)
        true) :
    promptAnswer checker.options.strictNullChecks form other = none ∧
      ∃ below source target,
        Reaches checker source form ∧ Reaches checker target other ∧
          Apart checker assumptions source target ∧
          (form.isCompound = false →
            other.isCompound = false →
            source.isCompound = false ∧ target.isCompound = false) ∧
          Settles
            (RelationStep.compareForms
              { checker
                depth := checker.options.maxDepth - below
                compare := checker.compareWithin below }
              assumptions source target form other)
            true := by
  induction remaining using Nat.strongRecOn generalizing source target with
  | _ remaining nearer =>
  have different : ¬ source.sameNode target = true := fun same => by
    cases eq_of_sameNode same
    exact differ (reachesTarget.unique reachesSource)
  obtain ⟨below, rfl, comes⟩ :=
    compareWithin_comesTo reachesSource reachesTarget different settles
  cases comes with
  | prompt answered => exact absurd answered unanswered
  | source settles =>
      have again := reachesSource.again_members.1
      exact nearer below (Nat.lt_succ_self below) again reachesTarget
        (.inl (.inr again)) settles
  | target settles =>
      have again := reachesTarget.again_members.1
      exact nearer below (Nat.lt_succ_self below) reachesSource again
        (.inr (.inl (.inr again))) settles
  | forms unanswered simple settles =>
      exact ⟨unanswered, _, _, _, reachesSource, reachesTarget, apart, simple,
        settles⟩

namespace Admits

/-- What is admitted once is accepted in every comparison. -/
theorem accepts
    (admits : checker.Admits form other) :
    checker.Accepts form other := by
  intro remaining assumptions source target reachesSource reachesTarget apart
  cases admits with
  | fits fits => exact compareWithin_succeeds fits reachesSource reachesTarget
  | holds otherSource otherTarget otherApart holds =>
      intro answer settles
      exact compareWithin_agree _ _ ⟨form, reachesSource, otherSource⟩
        ⟨other, reachesTarget, otherTarget⟩ apart otherApart _ _ settles holds

/-- Every member of an admitted form is admitted. -/
theorem each_member
    (admits : checker.Admits form other)
    (again : Reaches checker form form)
    (inForm : member ∈ form.members) :
    checker.Admits member other := by
  cases isUnion : form.isUnion with
  | false =>
      rw [Ty.members_eq isUnion, List.mem_singleton] at inForm
      exact inForm ▸ admits
  | true =>
  obtain ⟨memberAgain, notUnion⟩ := again.again_members.2 member inForm
  have ofEach
      (each : ∃ factor ∈ member :: member.factors, factor ∈ other.members) :
      checker.Admits member other := by
    refine .fits (.inr ?_)
    rw [Ty.members_eq notUnion]
    exact List.forall_mem_singleton.mpr each
  have inhabited : form.isPrimitive .never = false := by
    cases form <;> first | rfl | cases isUnion
  cases admits with
  | fits fits => exact ofEach (fits.resolve_left (by simp [inhabited]) _ inForm)
  | holds reachesSource reachesTarget apart settles =>
      by_cases same : form = other
      · exact ofEach ⟨member, List.mem_cons_self, same ▸ inForm⟩
      have unanswered :
          promptAnswer checker.options.strictNullChecks form other ≠
            some true := by
        have notNullish : form.isNullish = false := by
          cases form <;> first | rfl | cases isUnion
        simp only [promptAnswer, inhabited, notNullish]
        split <;> simp_all
      obtain ⟨-, _, _, _, -, reachesTarget, -, -, settles⟩ :=
        compareWithin_takenApart reachesSource reachesTarget apart same
          unanswered settles
      rw [RelationStep.compareForms, if_pos isUnion] at settles
      exact .holds memberAgain reachesTarget (.inl (.inr memberAgain))
        (settles_orFail (settles_of_allOf_map settles member inForm))

section Whole

variable
  (unanswered :
    promptAnswer checker.options.strictNullChecks form wanted = none)
  (notUnion : form.isUnion = false)

include unanswered

/-- A form with values is admitted by none that has no values. -/
theorem inhabited
    (admits : checker.Admits form other)
    (again : Reaches checker form form) :
    other.isPrimitive .never = false := by
  cases isNever : other.isPrimitive .never with
  | false => rfl
  | true =>
  cases eq_of_isPrimitive isNever
  have valued := inhabited_of_promptAnswer unanswered
  have refused :
      promptAnswer checker.options.strictNullChecks form .never =
        some false := by
    rw [promptAnswer, valued]
    rfl
  cases admits with
  | fits fits => cases promptAnswer_of_fits fits again refused
  | holds reachesSource reachesTarget apart settles =>
      have differ : form ≠ .primitive .never := fun same => by
        rw [same] at valued
        cases valued
      obtain ⟨missing, -⟩ :=
        compareWithin_takenApart reachesSource reachesTarget apart differ
          (promptAnswer_ne_true unanswered) settles
      cases refused.symm.trans missing

include notUnion

/-- What is no union is admitted by some member. -/
theorem some_member
    (admits : checker.Admits form other)
    (again : Reaches checker other other) :
    ∃ member ∈ other.members, checker.Admits form member := by
  cases isUnion : other.isUnion with
  | false =>
      rw [Ty.members_eq isUnion]
      exact ⟨other, List.mem_singleton_self other, admits⟩
  | true =>
  cases admits with
  | fits fits =>
      have valued := inhabited_of_promptAnswer unanswered
      have each := fits.resolve_left (by simp [valued])
      rw [Ty.members_eq notUnion, List.forall_mem_singleton] at each
      obtain ⟨factor, isFactor, inOther⟩ := each
      exact ⟨factor, inOther, .fits (.single isFactor notUnion
        (again.again_members.2 factor inOther).2)⟩
  | holds reachesSource reachesTarget apart settles =>
      have differ : form ≠ other := fun same => by
        rw [same, isUnion] at notUnion
        cases notUnion
      obtain ⟨-, _, _, _, reachesSource, -, -, -, settles⟩ :=
        compareWithin_takenApart reachesSource reachesTarget apart differ
          (promptAnswer_ne_true unanswered) settles
      rw [RelationStep.compareForms, if_neg (by simp [notUnion]),
        if_pos isUnion] at settles
      obtain ⟨member, inOther, settles⟩ :=
        settles_of_anyOf_map (settles_orFail settles)
      have memberAgain := (again.again_members.2 member inOther).1
      exact ⟨member, inOther, .holds reachesSource memberAgain
        (.inr (.inl (.inr memberAgain))) settles⟩

/-- What is admitted by an intersection is admitted by its factors. -/
theorem each_factor
    (admits : checker.Admits form other)
    (again : Reaches checker form form)
    (otherAgain : Reaches checker other other)
    (otherWhole : other.isUnion = false)
    (isFactor : factor ∈ other :: other.factors) :
    checker.Admits form factor := by
  rcases List.mem_cons.mp isFactor with rfl | inOther
  · exact admits
  cases isMet : RelationStep.isIntersection other with
  | false =>
      rw [Ty.factors_eq isMet, List.mem_singleton] at inOther
      exact inOther ▸ admits
  | true =>
  have valued := admits.inhabited unanswered again
  have flat := (otherAgain.factors_proper otherWhole valued factor inOther).1
  have factorWhole : factor.isUnion = false := by
    rw [Ty.isCompound, Bool.or_eq_false_iff] at flat
    exact flat.1
  by_cases same : form = other
  · exact .fits (.single (same ▸ isFactor) notUnion factorWhole)
  cases admits with
  | fits fits =>
      have inhabited := inhabited_of_promptAnswer unanswered
      have each := fits.resolve_left (by simp [inhabited])
      rw [Ty.members_eq notUnion, Ty.members_eq otherWhole,
        List.forall_mem_singleton] at each
      obtain ⟨part, isPart, isOther⟩ := each
      cases List.mem_singleton.mp isOther
      rcases List.mem_cons.mp isPart with rfl | isPart
      · exact absurd rfl same
      · have simple := (again.factors_proper notUnion inhabited _ isPart).1
        rw [Ty.isCompound, isMet, Bool.or_true] at simple
        cases simple
  | holds reachesSource reachesTarget apart settles =>
      obtain ⟨-, _, _, _, reachesSource, -, -, -, settles⟩ :=
        compareWithin_takenApart reachesSource reachesTarget apart same
          (promptAnswer_ne_true unanswered) settles
      rw [RelationStep.compareForms, if_neg (by simp [notUnion]),
        if_neg (by simp [otherWhole]), if_pos isMet] at settles
      have factorAgain := otherAgain.factors_again factor inOther
      exact .holds reachesSource factorAgain (.inr (.inl (.inr factorAgain)))
        (settles_orFail (settles_of_allOf_map settles factor inOther))

end Whole

end Admits

/-- Forms are accepted if they are wherever they are taken apart. -/
theorem accepts_of_forms
    (prompt :
      ∀ answer,
        promptAnswer checker.options.strictNullChecks form other = some answer →
        answer = true)
    (forms :
      promptAnswer checker.options.strictNullChecks form other = none →
      ∀ {below assumptions source target},
        Reaches checker source form →
        Reaches checker target other →
        Apart checker assumptions source target →
        (form.isCompound = false →
          other.isCompound = false →
          source.isCompound = false ∧ target.isCompound = false) →
        Succeeds
          (RelationStep.compareForms
            { checker
              depth := checker.options.maxDepth - below
              compare := checker.compareWithin below }
            assumptions source target form other)) :
    checker.Accepts form other := by
  intro remaining assumptions source target reachesSource reachesTarget apart
  induction remaining using Nat.strongRecOn
    generalizing assumptions source target with
  | _ remaining nearer =>
  intro answer settles
  by_cases same : source.sameNode target = true
  · cases eq_of_sameNode same
    cases reachesSource.unique reachesTarget
    exact compareWithin_succeeds (.self _) reachesSource reachesTarget answer
      settles
  obtain ⟨below, rfl, comes⟩ :=
    compareWithin_comesTo reachesSource reachesTarget same settles
  cases comes with
  | prompt answered => exact prompt answer answered
  | source settles =>
      have again := reachesSource.again_members.1
      exact nearer below (Nat.lt_succ_self below) again reachesTarget
        (.inl (.inr again)) answer settles
  | target settles =>
      have again := reachesTarget.again_members.1
      exact nearer below (Nat.lt_succ_self below) reachesSource again
        (.inr (.inl (.inr again))) answer settles
  | forms unanswered simple settles =>
      exact forms unanswered reachesSource reachesTarget apart simple answer
        settles

/-- No failure is prompt where the target has values. -/
theorem promptAnswer_of_inhabited
    (inhabited : other.isPrimitive .never = false)
    (answered : promptAnswer strict form other = some answer) :
    answer = true := by
  unfold promptAnswer at answered
  rw [inhabited] at answered
  split at answered
  · exact (Option.some.inj answered).symm
  rw [if_neg (by simp)] at answered
  split at answered
  · exact (Option.some.inj answered).symm
  · cases answered

namespace Accepts

/-- A form is accepted if all of its members are. -/
theorem of_each
    (inhabited : other.isPrimitive .never = false)
    (each : ∀ member ∈ form.members, checker.Accepts member other) :
    checker.Accepts form other := by
  cases isUnion : form.isUnion with
  | false =>
      rw [Ty.members_eq isUnion, List.forall_mem_singleton] at each
      exact each
  | true =>
  refine accepts_of_forms (fun answer => promptAnswer_of_inhabited inhabited)
    fun _ _ _ _ _ reachesSource reachesTarget _ _ => ?_
  rw [RelationStep.compareForms, if_pos isUnion]
  refine Succeeds.allOf_map fun member inForm answer settles => ?_
  have again := (reachesSource.again_members.2 member inForm).1
  exact each member inForm again reachesTarget (.inl (.inr again)) answer
    (settles_orFail settles)

/-- A form that is no union is accepted if it is by some member. -/
theorem of_some
    (notUnion : form.isUnion = false)
    (inOther : member ∈ other.members)
    (accepts : checker.Accepts form member) :
    checker.Accepts form other := by
  cases isUnion : other.isUnion with
  | false =>
      rw [Ty.members_eq isUnion, List.mem_singleton] at inOther
      exact inOther ▸ accepts
  | true =>
  have inhabited : other.isPrimitive .never = false := by
    cases other <;> first | rfl | cases isUnion
  refine accepts_of_forms (fun answer => promptAnswer_of_inhabited inhabited)
    fun _ _ _ _ _ reachesSource reachesTarget _ _ => ?_
  rw [RelationStep.compareForms, if_neg (by simp [notUnion]), if_pos isUnion]
  intro answer settles
  have again := (reachesTarget.again_members.2 member inOther).1
  exact Succeeds.anyOf_map inOther
    (accepts reachesSource again (.inr (.inl (.inr again)))) answer
    (settles_orFail settles)

/-- A form is accepted if it is where no answer is prompt. -/
theorem of_unanswered
    (inhabited : other.isPrimitive .never = false)
    (accepts :
      promptAnswer checker.options.strictNullChecks form other = none →
      checker.Accepts form other) :
    checker.Accepts form other := by
  cases answered :
      promptAnswer checker.options.strictNullChecks form other with
  | none => exact accepts answered
  | some =>
      exact accepts_of_forms (fun answer => promptAnswer_of_inhabited inhabited)
        fun unanswered => by cases answered.symm.trans unanswered

end Accepts

/--
A form is accepted if each of its members is admitted by some form that fits
into the other one.
-/
theorem accepts_widened
    (inhabited : wanted.isPrimitive .never = false)
    (again : Reaches checker form form)
    (each :
      ∀ member ∈ form.members,
        ∃ other,
          Reaches checker other other ∧ checker.Admits member other ∧
            other.FitsInto wanted) :
    checker.Accepts form wanted := by
  refine .of_each inhabited fun member inForm =>
    .of_unanswered inhabited fun unanswered => ?_
  obtain ⟨memberAgain, notUnion⟩ := again.again_members.2 member inForm
  obtain ⟨other, otherAgain, admits, fits⟩ := each member inForm
  -- Some factor of a member of the form that admits the source is wanted.
  have fitting :=
    fits.resolve_left (by simp [admits.inhabited unanswered memberAgain])
  obtain ⟨part, inOther, admits⟩ :=
    admits.some_member unanswered notUnion otherAgain
  obtain ⟨factor, isFactor, isWanted⟩ := fitting part inOther
  obtain ⟨partAgain, partWhole⟩ := otherAgain.again_members.2 part inOther
  exact .of_some notUnion isWanted
    (admits.each_factor unanswered notUnion memberAgain partAgain partWhole
      isFactor).accepts

end Checker

end StructuralTyping
