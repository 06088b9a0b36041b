import StructuralTyping.Proofs.MemberFits

namespace StructuralTyping

/-!
# Forms that accept what two others accept
-/

open Stateful Relating

/-- Not an intersection. -/
def Ty.Unmixed
    (type : Ty) :
    Prop :=
  RelationStep.isIntersection type = false

/-- Some member of a type that has values is related to the type. -/
def Ty.Finds
    (related : Ty → Ty → Prop)
    (type target : Ty) :
    Prop :=
  ∃ member ∈ target.members,
    member.isPrimitive .never = false ∧ related type member

/-- Only a target with values finds something. -/
theorem Ty.Finds.inhabited
    {form target : Ty}
    (finds : form.Finds related target) :
    target.isPrimitive .never = false := by
  obtain ⟨member, inTarget, inhabited, -⟩ := finds
  cases isNever : target.isPrimitive .never with
  | false => rfl
  | true =>
      rw [eq_of_isPrimitive isNever] at inTarget
      rw [List.mem_singleton.mp inTarget] at inhabited
      cases inhabited

/-- What is found stays so in every way that follows. -/
theorem Ty.Finds.imp
    {form target : Ty}
    (finds : form.Finds related target)
    (weaker : ∀ member, related form member → wanted form member) :
    form.Finds wanted target := by
  obtain ⟨member, inTarget, inhabited, relates⟩ := finds
  exact ⟨member, inTarget, inhabited, weaker member relates⟩

/-- What is no union is all that can be found in it. -/
theorem Ty.finds_whole
    {form target : Ty}
    (notUnion : target.isUnion = false) :
    form.Finds related target ↔
      target.isPrimitive .never = false ∧ related form target := by
  rw [Ty.Finds, Ty.members_eq notUnion]
  simp

/-- A form with values of which comparison takes nothing apart but its parts. -/
structure Checker.Single
    (checker : Checker)
    (form : Ty) :
    Prop where
  again : Reaches checker form form
  simple : form.isCompound = false
  inhabited : form.isPrimitive .never = false
  unmixed : form.Every Ty.Unmixed

namespace Checker

variable {checker : Checker}

/-- A single form is no union. -/
theorem Single.notUnion
    (single : checker.Single form) :
    form.isUnion = false :=
  (Bool.or_eq_false_iff.mp single.simple).1

/-- A single form is no intersection. -/
theorem Single.notIntersection
    (single : checker.Single form) :
    RelationStep.isIntersection form = false :=
  (Bool.or_eq_false_iff.mp single.simple).2

/-- The members of a form with values and without intersections are single. -/
theorem single_of_member
    (again : Reaches checker form form)
    (unmixed : form.Every Ty.Unmixed)
    (inhabited : form.isPrimitive .never = false)
    (inForm : member ∈ form.members) :
    checker.Single member := by
  obtain ⟨memberAgain, notUnion⟩ := again.again_members.2 member inForm
  have every := unmixed.member inForm
  refine ⟨memberAgain, ?_, ?_, every⟩
  · rw [Ty.isCompound, notUnion, every.here]
    rfl
  · have valued := (again.members_proper inhabited).2 member inForm
    cases member <;> first | rfl | exact valued

variable (strict : checker.options.strictNullChecks = true)

include strict in
/-- A single form that is admitted is admitted by some member. -/
theorem Single.finds
    (single : checker.Single form)
    (again : Reaches checker other other)
    (admits : checker.Admits form other) :
    form.Finds checker.Admits other := by
  have unanswered :
      promptAnswer checker.options.strictNullChecks form .undefined = none := by
    rw [promptAnswer, single.inhabited, strict]
    rfl
  obtain ⟨member, inOther, admits⟩ :=
    admits.some_member unanswered single.notUnion again
  exact ⟨member, inOther, admits.inhabited unanswered single.again, admits⟩

include strict in
/-- The members of an admitted form find what admits them. -/
theorem finds_of_admits
    (again : Reaches checker form form)
    (unmixed : form.Every Ty.Unmixed)
    (otherAgain : Reaches checker other other)
    (admits : checker.Admits form other)
    (inhabited : form.isPrimitive .never = false)
    (inForm : member ∈ form.members) :
    checker.Single member ∧ member.Finds checker.Admits other :=
  have single := single_of_member again unmixed inhabited inForm
  ⟨single, single.finds strict otherAgain (admits.each_member again inForm)⟩

/-- A form is accepted if each of its members finds what accepts it. -/
theorem accepts_of_finds
    (again : Reaches checker form form)
    (each :
      form.isPrimitive .never = false →
      ∀ member ∈ form.members, member.Finds checker.Accepts other) :
    checker.Accepts form other := by
  cases isNever : form.isPrimitive .never with
  | true => exact Admits.accepts (.fits (.inl isNever))
  | false =>
  obtain ⟨first, isFirst⟩ := again.exists_member
  refine .of_each (each isNever first isFirst).inhabited
    fun member inForm => ?_
  obtain ⟨found, inOther, -, accepts⟩ := each isNever member inForm
  exact .of_some (again.again_members.2 member inForm).2 inOther accepts

end Checker

/-- What a property that may be left out finds, with `undefined` taken up. -/
theorem Reaches.finds_orUndefined
    {checker : Checker}
    {member : Ty}
    {related : Ty → Ty → Prop}
    {optional : Bool}
    (reaches : Reaches checker type form) :
    member.Finds related (checker.arena.orUndefined optional form) ↔
      optional = true ∧ related member .undefined ∨
        member.Finds related form := by
  cases optional with
  | false =>
      rw [Arena.orUndefined, if_neg (by simp)]
      simp
  | true =>
  rw [Arena.orUndefined, if_pos rfl]
  constructor
  · rintro ⟨found, inJoined, inhabited, relates⟩
    rcases reaches.mem_optional inJoined with inForm | rfl
    · exact .inr ⟨found, inForm, inhabited, relates⟩
    · exact .inl ⟨rfl, relates⟩
  · rintro (⟨-, relates⟩ | ⟨found, inForm, inhabited, relates⟩)
    · exact ⟨_, reaches.undefined_mem_optional, rfl, relates⟩
    · have valued : member.Finds related form :=
        ⟨found, inForm, inhabited, relates⟩
      exact ⟨found, reaches.mem_optional_of_mem valued.inhabited inForm,
        inhabited, relates⟩

/-- Whether a constant or primitive type accepts another type. -/
def Ty.isTakenAs
    (type target : Ty) :
    Bool :=
  match target with
  | .primitive kind =>
      match type with
      | .primitive actual =>
          actual == kind || kind == .void && actual == .undefined
      | .literal _ value => value.base == kind
      | _ => false
  | .literal _ value =>
      match type with
      | .literal _ actual => actual.equal value
      | _ => false
  | _ => false

namespace Checker

variable {checker : Checker}

/-- Comparison with a constant or primitive asks whether it accepts the source. -/
theorem compareShapes_atom
    {step : RelationStep}
    (atom : target.isAtom = true)
    (settles : Settles (step.compareShapes assumptions source target) answer) :
    answer = source.isTakenAs target := by
  cases target with
  | primitive => exact settles_accepted settles
  | literal => exact settles_accepted settles
  | _ => cases atom

/-- A constant or primitive accepts a type as it accepts its form. -/
theorem isTakenAs_form
    (reaches : Reaches checker source form)
    (simple : source.isCompound = false) :
    source.isTakenAs target = form.isTakenAs target := by
  cases reaches with
  | union => cases simple
  | intersection => cases simple
  | _ => rfl

/-- What reaches a constant or primitive and is not taken apart is the same. -/
theorem isTakenAs_target
    {source : Ty}
    (reaches : Reaches checker target form)
    (simple : target.isCompound = false)
    (atom : form.isAtom = true) :
    target.isAtom = true ∧ source.isTakenAs target = source.isTakenAs form := by
  cases reaches with
  | union => cases simple
  | intersection => cases simple
  | primitive => exact ⟨rfl, rfl⟩
  | literal => exact ⟨rfl, rfl⟩
  | _ => cases atom

/-- A single form that is admitted is the same, or taken apart with success. -/
theorem Single.admits_cases
    (single : checker.Single form)
    (strict : checker.options.strictNullChecks = true)
    (simple : other.isCompound = false)
    (admits : checker.Admits form other) :
    form = other ∨
      ∃ below assumptions source target,
        Reaches checker source form ∧ Reaches checker target other ∧
          Apart checker assumptions source target ∧
          (source.isCompound = false ∧ target.isCompound = false) ∧
          Settles
            (RelationStep.compareShapes
              { checker
                depth := checker.options.maxDepth - below
                compare := checker.compareWithin below }
              assumptions source target)
            true := by
  obtain ⟨whole, plain⟩ := Bool.or_eq_false_iff.mp simple
  by_cases same : form = other
  · exact .inl same
  refine .inr ?_
  cases admits with
  | fits fits =>
      have each := fits.resolve_left (by simp [single.inhabited])
      rw [Ty.members_eq single.notUnion, Ty.members_eq whole,
        List.forall_mem_singleton, Ty.factors_eq single.notIntersection] at each
      exact absurd (by simpa using each) same
  | holds reachesSource reachesTarget apart settles =>
      have prompt :
          promptAnswer checker.options.strictNullChecks form other ≠
            some true := by
        rw [promptAnswer, single.inhabited, strict]
        split <;> simp_all
      obtain ⟨-, below, source, target, reachesSource, reachesTarget, apart,
          apartForms, settles⟩ :=
        compareWithin_takenApart reachesSource reachesTarget apart same prompt
          settles
      rw [RelationStep.compareForms, if_neg (by simp [single.notUnion]),
        if_neg (by simp [whole]), if_neg (by simp [plain]),
        if_neg (by simp [single.notIntersection])] at settles
      exact ⟨below, _, source, target, reachesSource, reachesTarget, apart,
        apartForms single.simple simple, settles⟩

/-- A single form is accepted if it is wherever its parts are compared. -/
theorem Single.accepts_of_shapes
    (single : checker.Single form)
    (simple : other.isCompound = false)
    (inhabited : other.isPrimitive .never = false)
    (shapes :
      ∀ {below assumptions source target},
        Reaches checker source form →
        Reaches checker target other →
        Apart checker assumptions source target →
        source.isCompound = false ∧ target.isCompound = false →
        Succeeds
          (RelationStep.compareShapes
            { checker
              depth := checker.options.maxDepth - below
              compare := checker.compareWithin below }
            assumptions source target)) :
    checker.Accepts form other := by
  obtain ⟨whole, plain⟩ := Bool.or_eq_false_iff.mp simple
  refine accepts_of_forms (fun _ => promptAnswer_of_inhabited inhabited)
    fun _ _ _ _ _ reachesSource reachesTarget apart apartForms => ?_
  rw [RelationStep.compareForms, if_neg (by simp [single.notUnion]),
    if_neg (by simp [whole]), if_neg (by simp [plain]),
    if_neg (by simp [single.notIntersection])]
  exact shapes reachesSource reachesTarget apart
    (apartForms single.simple simple)

/-- Constants and primitives are not taken apart. -/
theorem simple_of_isAtom
    {type : Ty}
    (atom : type.isAtom = true) :
    type.isCompound = false := by
  cases type <;> first | rfl | cases atom

/-- A single form that a constant or primitive admits is accepted by it. -/
theorem Single.isTakenAs
    (single : checker.Single form)
    (strict : checker.options.strictNullChecks = true)
    (atom : target.isAtom = true)
    (admits : checker.Admits form target) :
    form.isTakenAs target = true := by
  have again := single.again
  rcases single.admits_cases strict (simple_of_isAtom atom) admits with
    rfl | ⟨_, _, source, other, reachesSource, reachesTarget, -, simple, settles⟩
  · cases again with
    | primitive => simp [Ty.isTakenAs]
    | literal equal => exact equal
    | _ => cases atom
  · obtain ⟨otherAtom, same⟩ := isTakenAs_target reachesTarget simple.2 atom
    rw [← same, ← isTakenAs_form reachesSource simple.1]
    exact (compareShapes_atom otherAtom settles).symm

/-- Nothing with values is taken as `never`. -/
theorem Single.takes_inhabited
    (single : checker.Single form)
    (taken : form.isTakenAs target = true) :
    target.isPrimitive .never = false := by
  cases isNever : target.isPrimitive .never with
  | false => rfl
  | true =>
      have valued := single.inhabited
      rw [eq_of_isPrimitive isNever] at taken
      cases form with
      | primitive kind => simp_all [Ty.isTakenAs, Ty.isPrimitive]
      | literal occurrence value => cases value <;> cases taken
      | _ => cases taken

/-- A constant or primitive accepts a single form in every comparison. -/
theorem Single.accepts_atom
    (single : checker.Single form)
    (atom : target.isAtom = true)
    (taken : form.isTakenAs target = true) :
    checker.Accepts form target := by
  refine single.accepts_of_shapes (simple_of_isAtom atom)
    (single.takes_inhabited taken) fun reachesSource reachesTarget _ simple answer settles => ?_
  obtain ⟨otherAtom, same⟩ := isTakenAs_target reachesTarget simple.2 atom
  rw [compareShapes_atom otherAtom settles, same,
    isTakenAs_form reachesSource simple.1, taken]

/-- A form without index signature fits itself. -/
theorem takesObject_self
    {shape : Shape Ty}
    (again : Reaches checker (.ofShape shape) (.ofShape shape)) :
    TakesObject checker.arena checker.Admits (.ofShape shape) shape := by
  cases again with
  | object names properties distinct closed =>
  refine ⟨⟨rfl, rfl⟩, .inr ⟨shape, rfl, fun property member => ?_,
    fun index written => ?_, fun index written => ?_⟩⟩
  · rw [Shape.property?_of_mem distinct member]
    refine .found id (.fits ?_)
    have reaches := properties property property (mem_zip_self member)
    unfold Arena.orUndefined
    split
    · exact .optional reaches
    · exact .self _
  · cases closed.symm.trans written
  · cases closed.symm.trans written

/-- What a single form exposes fits an object that admits it. -/
theorem Single.takesObject
    {shape : Shape Ty}
    (single : checker.Single form)
    (strict : checker.options.strictNullChecks = true)
    (again : Reaches checker (.ofShape shape) (.ofShape shape))
    (admits : checker.Admits form (.ofShape shape)) :
    TakesObject checker.arena checker.Admits form shape := by
  rcases single.admits_cases strict rfl admits with
    rfl | ⟨_, _, source, target, reachesSource, reachesTarget, apart, simple,
      settles⟩
  · exact takesObject_self again
  · cases target with
    | object node written =>
        exact (RelationStep.toObject_decided rfl compareWithin_decided
          (.closed reachesSource) simple.1 reachesTarget.shape.related apart
          settles).only rfl
    | union => cases simple.2
    | intersection => cases simple.2
    | _ => cases reachesTarget

/-- An object accepts a single form if what the form exposes fits it. -/
theorem Single.accepts_object
    {shape : Shape Ty}
    (single : checker.Single form)
    (takes : TakesObject checker.arena checker.Accepts form shape) :
    checker.Accepts form (.ofShape shape) := by
  refine single.accepts_of_shapes rfl rfl
    fun reachesSource reachesTarget apart simple answer settles => ?_
  rename_i target
  cases target with
  | object node written =>
      exact (RelationStep.toObject_decided rfl compareWithin_decided
        (.closed reachesSource) simple.1 reachesTarget.shape.related apart
        settles).whenever takes
  | union => cases simple.2
  | intersection => cases simple.2
  | _ => cases reachesTarget

/--
A form that accepts the single forms that two others both accept. Where one of
the two takes up `undefined`, the other has to leave it to the form as well.
-/
structure IsMeet
    (checker : Checker)
    (first second met : Ty) :
    Prop where
  again : Reaches checker met met
  left :
    ∀ {form}, checker.Single form →
      form.Finds checker.Admits met → form.Finds checker.Accepts first
  right :
    ∀ {form}, checker.Single form →
      form.Finds checker.Admits met → form.Finds checker.Accepts second
  both :
    ∀ {form}, checker.Single form →
      form.Finds checker.Admits first →
      form.Finds checker.Admits second →
      form.Finds checker.Accepts met
  leftMissing :
    Ty.undefined.Finds checker.Admits first →
    Ty.undefined.Finds checker.Accepts met
  rightMissing :
    Ty.undefined.Finds checker.Admits second →
    Ty.undefined.Finds checker.Accepts met

/-- Only `undefined` itself is a single form that `undefined` admits. -/
theorem Single.eq_undefined
    (single : checker.Single form)
    (strict : checker.options.strictNullChecks = true)
    (admits : checker.Admits form .undefined) :
    form = .undefined := by
  have taken := single.isTakenAs strict rfl admits
  cases form with
  | primitive kind =>
      exact congrArg Ty.primitive (by simpa [Ty.isTakenAs] using taken)
  | literal occurrence value => cases value <;> cases taken
  | _ => cases taken

namespace IsMeet

/-- Which of two forms comes first does not matter. -/
theorem symm
    (meets : checker.IsMeet first second met) :
    checker.IsMeet second first met where
  again := meets.again
  left := meets.right
  right := meets.left
  both := fun single one other => meets.both single other one
  leftMissing := meets.rightMissing
  rightMissing := meets.leftMissing

variable
  {form first second met : Ty}
  {optional otherOptional : Bool}
  (strict : checker.options.strictNullChecks = true)
  (meets : checker.IsMeet first second met)
  (again : Reaches checker form form)
  (unmixed : form.Every Ty.Unmixed)
  (firstAgain : Reaches checker first first)

include strict meets again unmixed firstAgain

/-- What a meet admits the first form accepts, and when both may be left out. -/
theorem accepts_left
    (kept : optional = true → otherOptional = true)
    (admits :
      checker.Admits form (checker.arena.orUndefined optional met)) :
    checker.Accepts form (checker.arena.orUndefined otherOptional first) := by
  have metAgain := (meets.again.orUndefined optional).again_members.1
  refine accepts_of_finds again fun inhabited member inForm => ?_
  obtain ⟨single, finds⟩ :=
    finds_of_admits strict again unmixed metAgain admits inhabited inForm
  rw [meets.again.finds_orUndefined] at finds
  rw [firstAgain.finds_orUndefined]
  rcases finds with ⟨left, admits⟩ | finds
  · exact .inl ⟨kept left, admits.accepts⟩
  · exact .inr (meets.left single finds)

/-- What both forms admit a meet accepts, and when both may be left out. -/
theorem accepts_both
    (secondAgain : Reaches checker second second)
    (admits :
      checker.Admits form (checker.arena.orUndefined optional first))
    (otherAdmits :
      checker.Admits form (checker.arena.orUndefined otherOptional second)) :
    checker.Accepts form
      (checker.arena.orUndefined (optional && otherOptional) met) := by
  have wanted := (firstAgain.orUndefined optional).again_members.1
  have otherWanted := (secondAgain.orUndefined otherOptional).again_members.1
  refine accepts_of_finds again fun inhabited member inForm => ?_
  obtain ⟨single, finds⟩ :=
    finds_of_admits strict again unmixed wanted admits inhabited inForm
  obtain ⟨-, otherFinds⟩ :=
    finds_of_admits strict again unmixed otherWanted otherAdmits inhabited
      inForm
  rw [firstAgain.finds_orUndefined] at finds
  rw [secondAgain.finds_orUndefined] at otherFinds
  rw [meets.again.finds_orUndefined]
  rcases finds with ⟨left, missing⟩ | finds
  · rcases otherFinds with ⟨otherLeft, -⟩ | otherFinds
    · exact .inl ⟨by rw [left, otherLeft]; rfl, missing.accepts⟩
    · cases single.eq_undefined strict missing
      exact .inr (meets.rightMissing otherFinds)
  · rcases otherFinds with ⟨-, missing⟩ | otherFinds
    · cases single.eq_undefined strict missing
      exact .inr (meets.leftMissing finds)
    · exact .inr (meets.both single finds otherFinds)

end IsMeet

end Checker

end StructuralTyping
