import StructuralTyping.Proofs.Idempotence
import StructuralTyping.Proofs.KeptApplications

namespace StructuralTyping

/-!
# The form that a type reaches part by part

Comparison takes types apart as they are written and normalizes unions and
intersections only when it meets them. What it meets in the end are the parts of
one form, which normalization of the whole type leads to at once. For
intersections the form is the answer of normalization; it has to be neither a
union nor a type without objects, since such an intersection is met too late.
-/

open Stateful

/-- The mode of normalization that keeps or evaluates applications. -/
def Checker.modeKeeping
    (checker : Checker)
    (keepReferences : Bool) :
    NormalMode :=
  { checker
    evaluate := checker.evaluation.evaluate
    keepReferences }

instance
    (checker : Checker)
    (keepReferences : Bool) :
    (checker.modeKeeping keepReferences).evaluate.Reports := by
  unfold Checker.modeKeeping
  infer_instance

/--
Normalization of a type leads to a form, in every mode, with every budget and
at every depth that leaves no report.
-/
def Checker.NormalizesTo
    (checker : Checker)
    (type form : Ty) :
    Prop :=
  ∀ keepReferences budget depth result,
    Settles
      ((normalPass (checker.modeKeeping keepReferences) budget).normalize depth
        type)
      result →
    result = form

/-- Some normalization of the type leaves no report. -/
def Checker.IsSettled
    (checker : Checker)
    (type : Ty) :
    Prop :=
  ∃ keepReferences budget depth result,
    Settles
      ((normalPass (checker.modeKeeping keepReferences) budget).normalize depth
        type)
      result

namespace Ty

/-- Whether a type is a union or an intersection. -/
def isCompound
    (type : Ty) :
    Bool :=
  type.isUnion || RelationStep.isIntersection type

/-- The members of an intersection; any other type is its own only factor. -/
def factors :
    Ty →
    List Ty
  | intersection _ members => members
  | type => [type]

/-- What is no intersection is its own only factor. -/
theorem factors_eq
    {type : Ty}
    (notIntersection : RelationStep.isIntersection type = false) :
    type.factors = [type] := by
  cases type <;> first | rfl | cases notIntersection

end Ty

/--
A type and the form that it reaches. Objects, sequences and functions reach the
form part by part, unions join the forms of their members. What an intersection
reaches is an object type, a constant or the like, or an intersection of such
types, and stays as it is when it is normalized again.
-/
inductive Reaches
    (checker : Checker) :
    Ty →
    Ty →
    Prop
  | primitive
      (notAny : kind ≠ .any)
      (notUnknown : kind ≠ .unknown) :
      Reaches checker (.primitive kind) (.primitive kind)
  | literal
      (equal : value.equal value = true) :
      Reaches checker (.literal occurrence value) (.literal occurrence value)
  | object
      {shape form : Shape Ty}
      (names :
        List.Forall₂
          (fun before after : Property Ty =>
            after = { before with type := after.type })
          shape.properties form.properties)
      (properties :
        ∀ before after,
          (before, after) ∈ shape.properties.zip form.properties →
          Reaches checker before.type after.type)
      (distinct : shape.names.Nodup)
      (closed : shape.index = none)
      (formClosed : form.index = none) :
      Reaches checker (.object occurrence shape) (.ofShape form)
  | array
      (element : Reaches checker before after) :
      Reaches checker
        (.array occurrence before readonly) (.array none after readonly)
  | tuple
      {elements forms : List Ty}
      (length : forms.length = elements.length)
      (each :
        ∀ before after,
          (before, after) ∈ elements.zip forms →
          Reaches checker before after) :
      Reaches checker
        (.tuple occurrence elements readonly) (.tuple none forms readonly)
  | function
      {signature form : Signature Ty}
      (method : form.method = signature.method)
      (names :
        List.Forall₂
          (fun before after : Parameter Ty =>
            after = { before with type := after.type })
          signature.parameters form.parameters)
      (parameters :
        ∀ before after,
          (before, after) ∈ signature.parameters.zip form.parameters →
          Reaches checker before.type after.type)
      (rested : form.rest.isAbsent = signature.rest.isAbsent)
      (rest :
        signature.rest.isAbsent = false →
        Reaches checker signature.rest form.rest)
      (resulted : form.result.isAbsent = signature.result.isAbsent)
      (result :
        signature.result.isAbsent = false →
        Reaches checker signature.result form.result)
      (valued :
        form.result.isPrimitive .void = signature.result.isPrimitive .void) :
      Reaches checker (.function occurrence signature) (.function none form)
  | union
      {members forms : List Ty}
      (length : forms.length = members.length)
      (each :
        ∀ before after,
          (before, after) ∈ members.zip forms →
          Reaches checker before after)
      (joined : checker.arena.joinMembers (flattenUnion forms) = form)
      (inhabited : form.isPrimitive .never = false) :
      Reaches checker (.union occurrence members) form
  | intersection
      (settled : checker.IsSettled (.intersection occurrence members))
      (normalizes :
        checker.NormalizesTo (.intersection occurrence members) form)
      (settledAgain : checker.IsSettled form)
      (again : checker.NormalizesTo form form)
      (factors : ∀ factor ∈ form.factors, Reaches checker factor factor)
      (flat : ∀ factor ∈ form.factors, factor.isCompound = false)
      (inhabited :
        ∀ factor ∈ form.factors, factor.isPrimitive .never = false)
      (present : form.isNullish = false) :
      Reaches checker (.intersection occurrence members) form

namespace Checker.NormalizesTo

variable {checker : Checker}

/-- A type leads to a form when its node does below the depth bound. -/
theorem of_node
    (present : type.isAbsent = false)
    (node :
      ∀ keepReferences budget depth result,
        Settles
          ((normalPass (checker.modeKeeping keepReferences)
              budget).normalizeNode
            (checker.modeKeeping keepReferences) depth type)
          result →
        result = form) :
    checker.NormalizesTo type form := by
  intro keepReferences budget depth result settles
  cases budget with
  | zero => exact (not_settles_emptyPass settles).elim
  | succ budget =>
      change
        Settles
          ((normalPass (checker.modeKeeping keepReferences)
              budget).nextNormalize
            (checker.modeKeeping keepReferences) depth type)
          result at settles
      unfold NormalPass.nextNormalize at settles
      rw [present, if_neg (by simp)] at settles
      split at settles
      · obtain ⟨_, reported, _⟩ := settles.of_bind
        exact absurd reported not_settles_reportOnce
      · exact node _ _ _ _ settles

/-- What was left out stays so. -/
theorem absent :
    checker.NormalizesTo .absent .absent := by
  intro keepReferences budget depth result settles
  cases budget with
  | zero => exact (not_settles_emptyPass settles).elim
  | succ budget => exact settles.of_pure

/-- A type that is no application leads to its form in structural positions. -/
theorem inner
    {budget : Nat}
    (normalizes : checker.NormalizesTo type form)
    (unapplied : type.isApplication = false)
    (settles :
      Settles
        ((normalPass (checker.modeKeeping keepReferences) budget).inner depth
          type)
        result) :
    result = form := by
  cases budget with
  | zero => exact (not_settles_emptyPass settles).elim
  | succ budget =>
      change
        Settles
          ((normalPass (checker.modeKeeping keepReferences) budget).nextInner
            depth type)
          result at settles
      cases type with
      | generic occurrence application => cases unapplied
      | _ => exact normalizes _ _ _ _ settles

end Checker.NormalizesTo

namespace Reaches

variable {checker : Checker}

/-- What reaches a form was not left out. -/
theorem isAbsent
    (reaches : Reaches checker type form) :
    type.isAbsent = false := by
  cases reaches <;> rfl

/-- What reaches a form is neither a name nor an application. -/
theorem isReference
    (reaches : Reaches checker type form) :
    type.isReference = false := by
  cases reaches <;> rfl

/-- What reaches a form is neither `any` nor `unknown`. -/
theorem isPrimitive
    (reaches : Reaches checker type form) :
    type.isPrimitive .any = false ∧ type.isPrimitive .unknown = false := by
  cases reaches with
  | primitive notAny notUnknown =>
      exact ⟨by simpa [Ty.isPrimitive] using notAny,
        by simpa [Ty.isPrimitive] using notUnknown⟩
  | _ => exact ⟨rfl, rfl⟩

/-- What every item of a list beside others is like, its copies are like too. -/
theorem forall_zip_self
    {related : β → β → Prop}
    {items : List α}
    {others : List β}
    (length : others.length = items.length)
    (each :
      ∀ item other, (item, other) ∈ items.zip others → related other other) :
    ∀ first second, (first, second) ∈ others.zip others →
      related first second := by
  intro first second member
  obtain ⟨position, inside, same⟩ := List.getElem_of_mem member
  rw [List.length_zip] at inside
  rw [List.getElem_zip, Prod.mk.injEq] at same
  obtain ⟨rfl, rfl⟩ := same
  have within : position < (items.zip others).length := by
    rw [List.length_zip]
    omega
  have beside := List.getElem_mem within
  rw [List.getElem_zip] at beside
  exact each _ _ beside

/-- The union of some types is `never` or one of them if it is a primitive. -/
theorem joinMembers_eq_primitive
    {arena : Arena}
    {types : List Ty}
    (joined : arena.joinMembers types = .primitive kind) :
    kind = .never ∨ .primitive kind ∈ types := by
  have found {top : Primitive}
      (some :
        (types.filter fun type => !type.isNever).any (Ty.isPrimitive · top) =
          true) :
      .primitive top ∈ types := by
    obtain ⟨type, member, isTop⟩ := List.any_eq_true.mp some
    rw [← eq_of_isPrimitive isTop]
    exact (List.mem_filter.mp member).1
  unfold Arena.joinMembers at joined
  dsimp only at joined
  split at joined
  · next some =>
    cases joined
    exact .inr (found some)
  split at joined
  · next some =>
    cases joined
    exact .inr (found some)
  split at joined
  · cases joined
    exact .inl rfl
  · next type single =>
    subst joined
    have member :=
      (@unique_sublist arena _).subset
        (single ▸ List.mem_singleton_self (Ty.primitive kind))
    exact .inr (List.mem_filter.mp member).1
  · cases joined

/-- A form reaches itself, and so do its members, none of which is a union. -/
def Again
    (checker : Checker)
    (form : Ty) :
    Prop :=
  Reaches checker form form ∧
    ∀ member ∈ form.members,
      Reaches checker member member ∧ member.isUnion = false

/-- What is no union has no members to look at. -/
theorem again_of_whole
    (notUnion : form.isUnion = false)
    (again : Reaches checker form form) :
    Again checker form := by
  rw [Again, Ty.members_eq notUnion]
  exact ⟨again, List.forall_mem_singleton.mpr ⟨again, notUnion⟩⟩

/-- What types that reach themselves join to reaches itself. -/
theorem again_of_joined
    {pieces : List Ty}
    (each :
      ∀ piece ∈ pieces, Reaches checker piece piece ∧ piece.isUnion = false)
    (joined : checker.arena.joinMembers pieces = form)
    (inhabited : form.isPrimitive .never = false) :
    Again checker form := by
  rcases @joinMembers_cases checker.arena pieces with
    ⟨kind, same⟩ | member | ⟨parts, same, origin, proper⟩
  · rcases joinMembers_eq_primitive same with rfl | member
    · rw [← joined, same] at inhabited
      cases inhabited
    · rw [← joined, same]
      exact again_of_whole rfl (each _ member).1
  · rw [joined] at member
    exact again_of_whole (each form member).2 (each form member).1
  · have whole := proper fun piece member => (each piece member).2
    rw [joined] at same
    subst same
    refine ⟨.union rfl ?_ ?_ rfl, fun part member =>
      each part (origin part member)⟩
    · exact @forall_zip_self _ _ _ parts _ rfl fun _ part beside =>
        (each part (origin part (List.of_mem_zip beside).2)).1
    · rw [flattenUnion_of_flat whole.flat, joinMembers_of_parts whole]

/-- What a type reaches is a form that is its own. -/
theorem again_members
    (reaches : Reaches checker type form) :
    Again checker form := by
  induction reaches with
  | primitive notAny notUnknown =>
      exact again_of_whole rfl (.primitive notAny notUnknown)
  | literal equal => exact again_of_whole rfl (.literal equal)
  | @object occurrence shape form names properties distinct closed formClosed
      inductionHypothesis =>
      have sameNames :
          List.Forall₂ (· = ·)
            (form.properties.map Property.name)
            (shape.properties.map Property.name) := by
        rw [List.forall₂_map_left_iff, List.forall₂_map_right_iff]
        exact names.flip.imp fun after before same => by rw [same]
      rw [List.forall₂_eq_eq_eq] at sameNames
      refine again_of_whole rfl (.object (List.forall₂_same.mpr fun _ _ => rfl)
        ?_ ?_ formClosed formClosed)
      · exact forall_zip_self names.length_eq.symm fun before after member =>
          (inductionHypothesis before after member).1
      · rw [Shape.names, sameNames]
        exact distinct
  | array element inductionHypothesis =>
      exact again_of_whole rfl (.array inductionHypothesis.1)
  | tuple length each inductionHypothesis =>
      refine again_of_whole rfl (.tuple rfl ?_)
      exact forall_zip_self length fun before after member =>
        (inductionHypothesis before after member).1
  | @function occurrence signature form method names parameters rested rest
      resulted result valued parametersAgain restAgain resultAgain =>
      refine again_of_whole rfl (.function rfl
        (List.forall₂_same.mpr fun _ _ => rfl) ?_ rfl ?_ rfl ?_ rfl)
      · exact forall_zip_self names.length_eq.symm fun before after member =>
          (parametersAgain before after member).1
      · exact fun present => (restAgain (rested ▸ present)).1
      · exact fun present => (resultAgain (resulted ▸ present)).1
  | @union form occurrence members forms length each joined inhabited
      inductionHypothesis =>
      refine again_of_joined (fun piece member => ?_) joined inhabited
      obtain ⟨form, inForms, inForm⟩ := List.mem_flatMap.mp member
      obtain ⟨member, -, again⟩ :=
        exists_related_left
          (List.forall₂_iff_zip.mpr
            ⟨length.symm, inductionHypothesis _ _⟩) inForms
      exact again.2 piece inForm
  | @intersection occurrence members form settled normalizes settledAgain again
      factors flat inhabited present inductionHypothesis =>
      cases form with
      | intersection other parts =>
          exact again_of_whole rfl
            (.intersection settledAgain again settledAgain again factors flat
              inhabited present)
      | union other parts =>
          cases flat _ (List.mem_singleton_self _)
      | _ =>
          exact again_of_whole rfl (factors _ (List.mem_singleton_self _))

/-- Items that each lead to one form lead to the list of the forms. -/
theorem eq_of_forall_zip
    {related : α → β → Prop}
    {items : List α}
    {forms values : List β}
    (length : forms.length = items.length)
    (each :
      ∀ item form, (item, form) ∈ items.zip forms →
        ∀ value, related item value → value = form)
    (visited : List.Forall₂ related items values) :
    values = forms := by
  induction visited generalizing forms with
  | nil => exact (List.length_eq_zero_iff.mp length).symm
  | cons head _ inductionHypothesis =>
      cases forms with
      | nil => cases length
      | cons form rest =>
          rw [each _ form List.mem_cons_self _ head,
            inductionHypothesis (by simpa using length)
              fun item form member => each item form (.tail _ member)]

/-- What reaches a form is no application. -/
theorem isApplication
    (reaches : Reaches checker type form) :
    type.isApplication = false := by
  cases reaches <;> rfl

/-- A rest or a result leads to its form, or was left out and stays so. -/
theorem inner_of_present
    {budget : Nat}
    (absent : after.isAbsent = before.isAbsent)
    (reaches : before.isAbsent = false → Reaches checker before after)
    (normalizes :
      before.isAbsent = false → checker.NormalizesTo before after)
    (settles :
      Settles
        ((normalPass (checker.modeKeeping keepReferences) budget).inner depth
          before)
        result) :
    result = after := by
  cases missing : before.isAbsent with
  | false =>
      exact (normalizes missing).inner (reaches missing).isApplication settles
  | true =>
      rw [missing] at absent
      rw [Ty.eq_absent missing] at settles
      rw [Ty.eq_absent absent]
      exact Checker.NormalizesTo.absent.inner rfl settles

/-- A union leads to what the forms of its members join to. -/
theorem normalizesTo_union
    {members forms : List Ty}
    (length : forms.length = members.length)
    (each :
      ∀ before after,
        (before, after) ∈ members.zip forms →
        checker.NormalizesTo before after) :
    checker.NormalizesTo (.union occurrence members)
      (checker.arena.joinMembers (flattenUnion forms)) := by
  refine .of_node rfl fun keepReferences budget depth result settles => ?_
  obtain ⟨normals, visits, rfl⟩ := NormalPass.union_cases settles
  rw [eq_of_forall_zip length
    (fun before after member value inside =>
      each before after member _ _ _ _ inside)
    (Outcome.of_mapM visits)]
  rfl

/-- Normalization leads to the form that a type reaches. -/
theorem normalizesTo
    (reaches : Reaches checker type form) :
    checker.NormalizesTo type form := by
  induction reaches with
  | primitive | literal =>
      exact .of_node rfl fun _ _ _ _ settles => settles.of_pure
  | @object occurrence shape form names properties distinct closed formClosed
      inductionHypothesis =>
      refine .of_node rfl fun keepReferences budget depth result settles => ?_
      obtain ⟨normal, visits, settles⟩ := Settles.of_bind settles
      obtain ⟨visited, index⟩ := NormalPass.normalizeShape_cases visits
      rw [settles.of_pure]
      have sameProperties :=
        eq_of_forall_zip names.length_eq.symm
          (fun before after member value ⟨same, inside⟩ => by
            rw [same, (forall_zip names).2 before after member,
              (inductionHypothesis before after member).inner
                (properties before after member).isApplication inside])
          visited
      have sameIndex : normal.index = shape.index := by
        rw [closed] at index ⊢
        generalize normal.index = written at index ⊢
        cases index
        rfl
      obtain ⟨normalProperties, normalIndex⟩ := normal
      obtain ⟨formProperties, formIndex⟩ := form
      cases sameProperties
      cases sameIndex.trans (closed.trans formClosed.symm)
      rfl
  | array element inductionHypothesis =>
      refine .of_node rfl fun keepReferences budget depth result settles => ?_
      obtain ⟨normal, visits, settles⟩ := Settles.of_bind settles
      rw [settles.of_pure,
        inductionHypothesis.inner element.isApplication visits]
  | tuple length each inductionHypothesis =>
      refine .of_node rfl fun keepReferences budget depth result settles => ?_
      obtain ⟨normals, visits, settles⟩ := Settles.of_bind settles
      rw [settles.of_pure, eq_of_forall_zip length
        (fun before after member value inside =>
          (inductionHypothesis before after member).inner
            (each before after member).isApplication inside)
        (Outcome.of_mapM visits)]
  | @function occurrence signature form method names parameters rested rest
      resulted result valued parametersLead restLeads resultLeads =>
      refine .of_node rfl fun keepReferences budget depth answer settles => ?_
      obtain ⟨normal, visits, settles⟩ := Settles.of_bind settles
      obtain ⟨sameMethod, visited, visitsRest, visitsResult⟩ :=
        NormalPass.normalizeSignature_cases visits
      have sameParameters :=
        eq_of_forall_zip names.length_eq.symm
          (fun before after member value ⟨same, inside⟩ => by
            rw [same, (forall_zip names).2 before after member,
              (parametersLead before after member).inner
                (parameters before after member).isApplication inside])
          visited
      have sameRest :=
        inner_of_present rested rest restLeads visitsRest
      have sameResult :=
        inner_of_present resulted result resultLeads visitsResult
      obtain ⟨_, _, _, _⟩ := normal
      obtain ⟨_, _, _, _⟩ := form
      cases sameParameters
      cases sameRest
      cases sameResult
      cases sameMethod.trans method.symm
      exact settles.of_pure
  | union length each joined inhabited inductionHypothesis =>
      exact joined ▸ normalizesTo_union length inductionHypothesis
  | intersection settled normalizes => exact normalizes

/-- What is not distributed leads to what the members come to together. -/
theorem normalizesTo_intersection
    {members forms : List Ty}
    (length : forms.length = members.length)
    (each :
      ∀ before after,
        (before, after) ∈ members.zip forms →
        Reaches checker before after)
    (undistributed : distribute? (flattenIntersection forms) = none)
    (meet :
      ∀ keepReferences budget depth result,
        Settles
          ((normalPass (checker.modeKeeping keepReferences) budget).meetMembers
            checker.arena depth (flattenIntersection forms))
          result →
        result = form) :
    checker.NormalizesTo (.intersection occurrence members) form := by
  refine .of_node rfl fun keepReferences budget depth result settles => ?_
  cases budget with
  | zero => exact (not_settles_emptyPass settles).elim
  | succ budget =>
      obtain ⟨normals, visits, settles⟩ :=
        @Settles.of_bind _ _ _ _ _ _
          (fun _ => by dsimp only; split <;> infer_instance) _ settles
      dsimp only at settles
      rw [eq_of_forall_zip length
        (fun before after member value inside =>
          (each before after member).normalizesTo _ _ _ _ inside)
        (Outcome.of_mapM visits), undistributed] at settles
      exact meet _ _ _ _ settles

/-- Items related pair by pair in two ways are related in both at once. -/
theorem forall₂_and_zip
    {related also : α → β → Prop}
    {items : List α}
    {others : List β}
    (all : List.Forall₂ related items others)
    (each :
      ∀ item other, (item, other) ∈ items.zip others → also item other) :
    List.Forall₂ (fun item other => related item other ∧ also item other)
      items others :=
  List.forall₂_iff_zip.mpr ⟨all.length_eq, fun member =>
    ⟨(forall_zip all).2 _ _ member, each _ _ member⟩⟩

/-- A type reaches one form only. -/
theorem unique
    (reaches : Reaches checker type form)
    (other : Reaches checker type otherForm) :
    otherForm = form := by
  induction reaches generalizing otherForm with
  | primitive | literal =>
      cases other
      rfl
  | @object occurrence shape form names properties distinct closed formClosed
      inductionHypothesis =>
      cases other with
      | @object _ _ otherForm otherNames otherProperties _ _ otherClosed =>
        have sameProperties :=
          eq_of_forall_zip names.length_eq.symm
            (fun before after member value ⟨same, reaches⟩ => by
              rw [same, (forall_zip names).2 before after member,
                inductionHypothesis before after member reaches])
            (forall₂_and_zip otherNames otherProperties)
        obtain ⟨_, _⟩ := form
        obtain ⟨_, _⟩ := otherForm
        cases sameProperties
        cases otherClosed.trans formClosed.symm
        rfl
  | array element inductionHypothesis =>
      cases other with
      | array otherElement => rw [inductionHypothesis otherElement]
  | tuple length each inductionHypothesis =>
      cases other with
      | tuple otherLength otherEach =>
        rw [eq_of_forall_zip length inductionHypothesis
          (List.forall₂_iff_zip.mpr ⟨otherLength.symm, otherEach _ _⟩)]
  | @function occurrence signature form method names parameters rested rest
      resulted result valued parametersUnique restUnique resultUnique =>
      cases other with
      | @function _ _ otherForm otherMethod otherNames otherParameters
          otherRested otherRest otherResulted otherResult =>
        have sameParameters :=
          eq_of_forall_zip names.length_eq.symm
            (fun before after member value ⟨same, reaches⟩ => by
              rw [same, (forall_zip names).2 before after member,
                parametersUnique before after member reaches])
            (forall₂_and_zip otherNames otherParameters)
        have sameRest : otherForm.rest = form.rest := by
          cases missing : signature.rest.isAbsent with
          | false => exact restUnique missing (otherRest missing)
          | true =>
              rw [Ty.eq_absent (rested.trans missing),
                Ty.eq_absent (otherRested.trans missing)]
        have sameResult : otherForm.result = form.result := by
          cases missing : signature.result.isAbsent with
          | false => exact resultUnique missing (otherResult missing)
          | true =>
              rw [Ty.eq_absent (resulted.trans missing),
                Ty.eq_absent (otherResulted.trans missing)]
        obtain ⟨_, _, _, _⟩ := form
        obtain ⟨_, _, _, _⟩ := otherForm
        cases sameParameters
        cases sameRest
        cases sameResult
        cases otherMethod.trans method.symm
        rfl
  | union length each joined inhabited inductionHypothesis =>
      cases other with
      | union otherLength otherEach otherJoined =>
        rw [← joined, ← otherJoined,
          eq_of_forall_zip length inductionHypothesis
            (List.forall₂_iff_zip.mpr ⟨otherLength.symm, otherEach _ _⟩)]
  | intersection settled normalizes =>
      cases other with
      | intersection _ otherNormalizes =>
        obtain ⟨keepReferences, budget, depth, result, settles⟩ := settled
        rw [← normalizes _ _ _ _ settles, ← otherNormalizes _ _ _ _ settles]

end Reaches

section Extending

variable {arena : Arena}

/-- A type that unions have as a member: none that holds or takes up others. -/
structure Ty.IsMember
    (type : Ty) :
    Prop where
  notUnion : type.isUnion = false
  notAny : type.isPrimitive .any = false
  notUnknown : type.isPrimitive .unknown = false

/-- What has no values adds nothing to a union. -/
theorem joinMembers_filter
    (types : List Ty) :
    arena.joinMembers (types.filter fun type => !type.isNever) =
      arena.joinMembers types := by
  unfold Arena.joinMembers
  rw [List.filter_filter]
  simp only [Bool.and_self]

/-- Members join to those of them that have values, each of them once. -/
theorem joinMembers_of_members
    {types : List Ty}
    (each : ∀ type ∈ types, type.IsMember) :
    arena.joinMembers types =
      match (types.filter fun type => !type.isNever).foldl arena.appendUnique
        [] with
      | [] => .never
      | [type] => type
      | types => .ofUnion types := by
  rw [← joinMembers_filter]
  refine joinMembers_of_plain fun type member => ?_
  obtain ⟨inTypes, notNever⟩ := List.mem_filter.mp member
  exact ⟨by simpa using notNever, (each type inTypes).notAny,
    (each type inTypes).notUnknown⟩

/-- The members of a union are the types with values, each of them once. -/
theorem members_joinMembers_valued
    {types : List Ty}
    (each : ∀ type ∈ types, type.IsMember)
    (inhabited : (arena.joinMembers types).isPrimitive .never = false) :
    (arena.joinMembers types).members =
      (types.filter fun type => !type.isNever).foldl arena.appendUnique [] := by
  rw [← joinMembers_filter] at inhabited ⊢
  refine members_joinMembers (fun type member => ?_) (fun type member =>
    (each type (List.mem_filter.mp member).1).notUnion) fun empty => ?_
  · obtain ⟨inTypes, notNever⟩ := List.mem_filter.mp member
    exact ⟨by simpa using notNever, (each type inTypes).notAny,
      (each type inTypes).notUnknown⟩
  · rw [empty] at inhabited
    cases inhabited

/-- A union is extended by the same members before or after it is reduced. -/
theorem joinMembers_extend
    {types : List Ty}
    {type : Ty}
    (each : ∀ type ∈ types, type.IsMember)
    (isMember : type.IsMember)
    (inhabited : (arena.joinMembers types).isPrimitive .never = false) :
    arena.joinMembers ((arena.joinMembers types).members ++ [type]) =
      arena.joinMembers (types ++ [type]) := by
  have extended {members : List Ty} (each : ∀ type ∈ members, type.IsMember) :
      ∀ other ∈ members ++ [type], other.IsMember :=
    List.forall_mem_append.mpr ⟨each, List.forall_mem_singleton.mpr isMember⟩
  have kept := members_joinMembers_valued each inhabited
  have part := @unique_sublist arena (types.filter fun type => !type.isNever)
  have again :
      ((arena.joinMembers types).members.filter fun type => !type.isNever).foldl
        arena.appendUnique [] =
      (types.filter fun type => !type.isNever).foldl arena.appendUnique [] := by
    rw [kept, List.filter_eq_self.mpr fun type member =>
      (List.mem_filter.mp (part.subset member)).2]
    exact foldl_appendUnique_of_pairwise
      (pairwise_foldl_appendUnique List.Pairwise.nil)
  rw [joinMembers_of_members (extended each),
    joinMembers_of_members (extended fun type member =>
      each type (List.mem_filter.mp (part.subset (kept ▸ member))).1),
    List.filter_append, List.filter_append, List.foldl_append,
    List.foldl_append, again]

/-- A member that a union has already does not extend it. -/
theorem joinMembers_absorb
    {types : List Ty}
    {type : Ty}
    (each : ∀ type ∈ types, type.IsMember)
    (present : type ∈ types)
    (inhabited : type.isNever = false)
    (self : arena.identical type type = true) :
    arena.joinMembers (types ++ [type]) = arena.joinMembers types := by
  have kept : type ∈ types.filter fun type => !type.isNever :=
    List.mem_filter.mpr ⟨present, by simp [inhabited]⟩
  obtain ⟨other, inKept, same⟩ := exists_counterpart_of_mem arena [] kept
  have repeats :
      (List.foldl arena.appendUnique []
        (types.filter fun type => !type.isNever)).any
          (arena.identical · type) = true :=
    List.any_eq_true.mpr ⟨other, inKept, same.elim (· ▸ self) id⟩
  rw [joinMembers_of_members each,
    joinMembers_of_members (List.forall_mem_append.mpr
      ⟨each, List.forall_mem_singleton.mpr (each type present)⟩),
    List.filter_append, List.foldl_append,
    List.filter_singleton, inhabited]
  simp [Arena.appendUnique, repeats]

/-- What is extended has values if the type does that extends it. -/
theorem joinMembers_inhabited
    {types : List Ty}
    {type : Ty}
    (each : ∀ other ∈ types, other.IsMember)
    (present : type ∈ types)
    (inhabited : type.isNever = false) :
    (arena.joinMembers types).isPrimitive .never = false := by
  have kept : type ∈ types.filter fun type => !type.isNever :=
    List.mem_filter.mpr ⟨present, by simp [inhabited]⟩
  rw [joinMembers_of_members each]
  split
  · next none =>
    exact absurd none (unique_ne_nil arena (List.ne_nil_of_mem kept))
  · next other single =>
    have member :=
      (@unique_sublist arena _).subset (single ▸ List.mem_singleton_self other)
    have notNever := (List.mem_filter.mp member).2
    cases other <;> first | rfl | simpa [Ty.isNever] using notNever
  · rfl

end Extending

namespace Reaches

variable {checker : Checker}

/-- The types whose union a form is are members of unions. -/
theorem isMember_of_members
    (reaches : Reaches checker type form) :
    ∀ member ∈ form.members, member.IsMember :=
  fun member inForm =>
    have again := reaches.again_members.2 member inForm
    ⟨again.2, again.1.isPrimitive.1, again.1.isPrimitive.2⟩

/-- The members of the forms in a list are members of unions. -/
theorem isMember_of_forms
    {members forms : List Ty}
    (length : forms.length = members.length)
    (each :
      ∀ before after,
        (before, after) ∈ members.zip forms →
        Reaches checker before after) :
    ∀ type ∈ flattenUnion forms, type.IsMember := by
  intro type inFlat
  obtain ⟨form, inForms, inForm⟩ := List.mem_flatMap.mp inFlat
  obtain ⟨member, -, reaches⟩ :=
    exists_related_left
      (List.forall₂_iff_zip.mpr ⟨length.symm, each _ _⟩) inForms
  exact reaches.isMember_of_members type inForm

/-- A union that takes up `undefined` reaches what its forms join to with it. -/
theorem union_optional
    {members forms : List Ty}
    (length : forms.length = members.length)
    (each :
      ∀ before after,
        (before, after) ∈ members.zip forms →
        Reaches checker before after) :
    Reaches checker (.ofUnion (members ++ [.undefined]))
      (checker.arena.joinMembers (flattenUnion forms ++ [.undefined])) := by
  have flat :
      flattenUnion (forms ++ [.undefined]) =
        flattenUnion forms ++ [.undefined] := by
    rw [flattenUnion, List.flatMap_append]
    rfl
  have lengths :
      (forms ++ [Ty.undefined]).length =
        (members ++ [Ty.undefined]).length := by
    simp [length]
  refine .union lengths ?_ (by rw [flat]) ?_
  · rw [List.zip_append length.symm]
    intro before after beside
    rcases List.mem_append.mp beside with beside | beside
    · exact each before after beside
    · cases List.mem_singleton.mp beside
      exact .primitive (by simp) (by simp)
  · refine joinMembers_inhabited ?_
      (List.mem_append_right _ (List.mem_singleton_self Ty.undefined)) rfl
    exact List.forall_mem_append.mpr ⟨isMember_of_forms length each,
      List.forall_mem_singleton.mpr ⟨rfl, rfl, rfl⟩⟩

/-- A type that takes up `undefined` reaches the form that takes it up. -/
theorem optional
    (reaches : Reaches checker type form) :
    Reaches checker type.optional
      (checker.arena.joinMembers (form.members ++ [.undefined])) := by
  have self : checker.arena.identical .undefined .undefined = true :=
    identicalWithin_self Ty.Tidy.primitive.recognizable .primitive []
  have isMember : Ty.IsMember .undefined := ⟨rfl, rfl, rfl⟩
  have alone (notUnion : type.isUnion = false) :
      Reaches checker type.optional
        (checker.arena.joinMembers (form.members ++ [.undefined])) := by
    unfold Ty.optional
    rw [Ty.members_eq notUnion]
    split
    · next isUndefined =>
      cases eq_of_isPrimitive (by simpa using isUndefined)
      cases reaches with
      | primitive notAny notUnknown =>
        have same :
            checker.arena.joinMembers [.undefined, .undefined] = .undefined :=
          joinMembers_absorb (List.forall_mem_singleton.mpr isMember)
            (List.mem_singleton_self _) rfl self
        exact same.symm ▸ .primitive notAny notUnknown
    · have extended :=
        @union_optional checker [type] [form] rfl fun before after beside => by
          cases List.mem_singleton.mp beside
          exact reaches
      simpa [flattenUnion] using extended
  cases reaches with
  | @union _ _ members forms length each joined inhabited =>
      have isMembers := isMember_of_forms length each
      have extended :=
        joinMembers_extend isMembers isMember (joined ▸ inhabited)
      rw [joined] at extended
      rw [extended]
      unfold Ty.optional
      split
      · next has =>
        -- A member that is `undefined` is among the forms, and absorbs it.
        obtain ⟨member, inMembers, isUndefined⟩ := List.any_eq_true.mp has
        obtain rfl : member = .undefined := eq_of_isPrimitive isUndefined
        obtain ⟨form, inForms, reaches⟩ :=
          exists_related_right
            (List.forall₂_iff_zip.mpr ⟨length.symm, each _ _⟩) inMembers
        cases reaches with
        | primitive notAny notUnknown =>
          have present : .undefined ∈ flattenUnion forms :=
            List.mem_flatMap.mpr ⟨_, inForms, List.mem_singleton_self _⟩
          rw [joinMembers_absorb isMembers present rfl self]
          exact .union length each rfl (joined ▸ inhabited)
      · exact union_optional length each
  | _ => exact alone rfl

end Reaches

end StructuralTyping
