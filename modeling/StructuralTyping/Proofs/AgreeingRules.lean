import StructuralTyping.Proofs.AssignMeaning
import StructuralTyping.Proofs.FittingForms

namespace StructuralTyping

/-!
# Rules of comparison agree on counterparts

A pair of objects never comes back below itself, since the types that are
compared get smaller until they are renewed, and a renewed type is no node that
was compared before. What two comparisons meet inside types that share a form
are counterparts, and each rule has one outcome wherever counterparts are
compared with one outcome.
-/

open Stateful Relating

variable {checker : Checker}

/-- A type that is normalized before it is taken apart, or a form. -/
def Renewed
    (checker : Checker)
    (type : Ty) :
    Prop :=
  type.isCompound = true ∨ Reaches checker type type

/-- A type that comparison meets inside another one. -/
def MetIn
    (checker : Checker)
    (type part : Ty) :
    Prop :=
  part ∈ type.parts ∨ Renewed checker part

/-- The types to compare are renewed or smaller than all pairs of objects. -/
def Apart
    (checker : Checker)
    (assumptions : Assumptions)
    (source target : Ty) :
    Prop :=
  Renewed checker source ∨ Renewed checker target ∨
    ∀ pair ∈ assumptions.objects,
      sizeOf source + sizeOf target < sizeOf pair.1 + sizeOf pair.2

/-- Each item stands beside itself. -/
theorem mem_zip_self
    {items : List α}
    (member : item ∈ items) :
    (item, item) ∈ items.zip items := by
  induction items with
  | nil => cases member
  | cons first rest inductionHypothesis =>
      rcases List.mem_cons.mp member with rfl | inRest
      · exact List.mem_cons_self
      · exact .tail _ (inductionHypothesis inRest)

/-- The parts of a form that is not taken apart are forms. -/
theorem Reaches.parts_again
    {type part : Ty}
    (again : Reaches checker type type)
    (simple : type.isCompound = false)
    (inside : part ∈ type.parts)
    (present : part.isAbsent = false) :
    Reaches checker part part := by
  cases type with
  | object occurrence shape =>
      cases again with
      | object names properties distinct closed =>
        rw [Ty.parts, closed] at inside
        obtain ⟨property, member, rfl⟩ :=
          List.mem_map.mp (by simpa using inside)
        exact properties property property (mem_zip_self member)
  | array =>
      cases again with
      | array element =>
        cases List.mem_singleton.mp inside
        exact element
  | tuple =>
      cases again with
      | tuple length each => exact each part part (mem_zip_self inside)
  | function occurrence signature =>
      cases again with
      | function method names parameters rested rest resulted result =>
        rcases List.mem_append.mp inside with inside | inside
        · obtain ⟨parameter, member, rfl⟩ := List.mem_map.mp inside
          exact parameters parameter parameter (mem_zip_self member)
        · rcases List.mem_cons.mp inside with rfl | inside
          · exact rest present
          · cases List.mem_singleton.mp inside
            exact result present
  | union | intersection => cases simple
  | generic => cases again
  | _ => cases inside

namespace Apart

variable {assumptions grown : Assumptions} {source target : Ty}

/-- Being apart does not depend on which of the types is the source. -/
theorem symm
    (apart : Apart checker assumptions source target) :
    Apart checker assumptions target source := by
  rcases apart with renewed | renewed | smaller
  · exact .inr (.inl renewed)
  · exact .inl renewed
  · refine .inr (.inr fun pair member => ?_)
    rw [Nat.add_comm]
    exact smaller pair member

/-- What is met inside types that are apart is apart, from these types too. -/
theorem inside
    {part otherPart : Ty}
    (apart : Apart checker assumptions source target)
    (simple : source.isCompound = false)
    (otherSimple : target.isCompound = false)
    (grows :
      ∀ pair ∈ grown.objects,
        pair ∈ assumptions.objects ∨ pair = (source, target))
    (met : MetIn checker source part)
    (otherMet : MetIn checker target otherPart)
    (present : part.isAbsent = false)
    (otherPresent : otherPart.isAbsent = false) :
    Apart checker grown part otherPart := by
  -- Below a renewed type everything is renewed; other parts are smaller.
  rcases met with isPart | renewed
  swap
  · exact .inl renewed
  rcases otherMet with isOtherPart | renewed
  swap
  · exact .inr (.inl renewed)
  rcases apart with renewed | renewed | smaller
  · have again := renewed.resolve_left (by simp [simple])
    exact .inl (.inr (again.parts_again simple isPart present))
  · have again := renewed.resolve_left (by simp [otherSimple])
    exact .inr (.inl (.inr
      (again.parts_again otherSimple isOtherPart otherPresent)))
  · have less := Ty.sizeOf_part_lt isPart
    have otherLess := Ty.sizeOf_part_lt isOtherPart
    refine .inr (.inr fun pair member => ?_)
    rcases grows pair member with member | rfl
    · have := smaller pair member
      omega
    · dsimp only
      omega

/-- Objects that are apart are not under comparison. -/
theorem underComparison
    {shape otherShape : Shape Ty}
    (apart :
      Apart checker assumptions (.object occurrence shape)
        (.object other otherShape)) :
    RelationStep.underComparison assumptions (.object occurrence shape)
      (.object other otherShape) = false := by
  refine List.any_eq_false.mpr fun ⟨first, second⟩ member same => ?_
  rw [Bool.and_eq_true] at same
  have sameSource := Checker.eq_of_sameNode same.1
  have sameTarget := Checker.eq_of_sameNode same.2
  subst sameSource sameTarget
  have renewed {node : Occurrence} {shape : Shape Ty}
      (renewed : Renewed checker (.object node shape)) :
      (Ty.object node shape).sameNode (.object node shape) = false := by
    rcases renewed with compound | again
    · cases compound
    · cases again with
      | object => rfl
  rcases apart with again | again | smaller
  · rw [renewed again] at same
    cases same.1
  · rw [renewed again] at same
    cases same.2
  · exact Nat.lt_irrefl _ (smaller _ member)

end Apart

/-- Parts of two types that share a form, or what comparison takes for them. -/
structure Counterparts
    (checker : Checker)
    (type otherType part otherPart : Ty) :
    Prop where
  shares : ShareForm checker part otherPart
  met : MetIn checker type part
  otherMet : MetIn checker otherType otherPart

/-- Items in pairs stand at the same positions. -/
theorem forall₂_getElem?
    {related : α → β → Prop}
    {items : List α}
    {others : List β}
    (all : List.Forall₂ related items others)
    (position : Nat) :
    Option.Rel related items[position]? others[position]? := by
  induction all generalizing position with
  | nil => exact .none
  | cons head _ inductionHypothesis =>
      cases position with
      | zero => exact .some head
      | succ position => exact inductionHypothesis position

namespace Counterparts

variable {type otherType part otherPart : Ty}

/-- A form may be met inside every type. -/
theorem self
    (again : Reaches checker part part) :
    Counterparts checker type otherType part part :=
  ⟨.self again, .inr (.inr again), .inr (.inr again)⟩

/-- Counterparts stay so when they take up `undefined`. -/
theorem optional
    (counterparts : Counterparts checker type otherType part otherPart) :
    Counterparts checker type otherType part.optional otherPart.optional := by
  have met {type part : Ty} (met : MetIn checker type part) :
      MetIn checker type part.optional := by
    unfold Ty.optional
    split
    · exact met
    · exact .inr (.inl rfl)
  exact ⟨counterparts.shares.optional, met counterparts.met,
    met counterparts.otherMet⟩

/-- Counterparts are both there. -/
theorem isAbsent
    (counterparts : Counterparts checker type otherType part otherPart) :
    part.isAbsent = false ∧ otherPart.isAbsent = false := by
  obtain ⟨form, reaches, otherReaches⟩ := counterparts.shares
  exact ⟨reaches.isAbsent, otherReaches.isAbsent⟩

/-- Counterparts that were both left out are there when `void` stands in. -/
theorem orElse
    (counterparts :
      RelatedOptional (Counterparts checker type otherType) part otherPart) :
    Counterparts checker type otherType (part.orElse .void)
      (otherPart.orElse .void) := by
  rcases counterparts with ⟨rfl, rfl⟩ | counterparts
  · exact .self (.primitive (by simp) (by simp))
  · rw [counterparts.shares.orElse, counterparts.shares.symm.orElse]
    exact counterparts

end Counterparts

/-- Types that share a form and are not taken apart have counterparts. -/
theorem ShareForm.counterparts
    (shares : ShareForm checker first second)
    (simple : first.isCompound = false)
    (otherSimple : second.isCompound = false) :
    Parallel (Counterparts checker first second) first second :=
  (shares.parallel simple otherSimple).imp fun _ isPart _ isOther shares =>
    ⟨shares, .inl isPart, .inl isOther⟩

/-- Counterparts are compared with one outcome. -/
structure PartsAgree
    (checker : Checker)
    (compare otherCompare : Ty → Ty → Relating Bool)
    (source otherSource target otherTarget : Ty) :
    Prop where
  along :
    ∀ {first otherFirst second otherSecond},
      Counterparts checker source otherSource first otherFirst →
      Counterparts checker target otherTarget second otherSecond →
      Agree (compare first second) (otherCompare otherFirst otherSecond)
  /-- Arguments are compared the other way around. -/
  across :
    ∀ {first otherFirst second otherSecond},
      Counterparts checker source otherSource first otherFirst →
      Counterparts checker target otherTarget second otherSecond →
      Agree (compare second first) (otherCompare otherSecond otherFirst)

namespace RelationStep

variable {step other : RelationStep}

/-- Alike sources are accepted by a primitive or not. -/
theorem toPrimitive_agree
    (sources : Parallel related source otherSource) :
    Agree (toPrimitive source kind) (toPrimitive otherSource kind) := by
  intro answer other settles otherSettles
  rw [settles_accepted settles, settles_accepted otherSettles]
  cases sources <;> rfl

/-- Alike sources are accepted by a constant or not. -/
theorem toLiteral_agree
    (sources : Parallel related source otherSource) :
    Agree (toLiteral source target value)
      (toLiteral otherSource target value) := by
  intro answer other settles otherSettles
  rw [settles_accepted settles, settles_accepted otherSettles]
  cases sources <;> rfl

section Parts

variable
  {assumptions others : Assumptions}
  {source otherSource target otherTarget : Ty}
  (parts :
    PartsAgree checker (step.compare assumptions) (other.compare others) source
      otherSource target otherTarget)

include parts

/-- Elements are compared with one element type with one outcome. -/
theorem elementsTo_agree
    {elements otherElements : List Ty}
    (all :
      List.Forall₂ (Counterparts checker source otherSource)
        elements otherElements)
    (element : Counterparts checker target otherTarget first otherFirst) :
    List.Forall₂ Agree
      (step.elementsTo assumptions first position elements)
      (other.elementsTo others otherFirst position otherElements) := by
  induction all generalizing position with
  | nil => exact .nil
  | cons head _ inductionHypothesis =>
      exact .cons (parts.along head element).orFail inductionHypothesis

/-- Elements are compared in pairs with one outcome. -/
theorem elementPairs_agree
    {sources otherSources targets otherTargets : List Ty}
    (all :
      List.Forall₂ (Counterparts checker source otherSource)
        sources otherSources)
    (allTargets :
      List.Forall₂ (Counterparts checker target otherTarget)
        targets otherTargets) :
    List.Forall₂ Agree
      (step.elementPairs assumptions position sources targets)
      (other.elementPairs others position otherSources otherTargets) := by
  induction all generalizing position targets otherTargets with
  | nil => cases allTargets <;> exact .nil
  | cons head _ inductionHypothesis =>
      cases allTargets with
      | nil => exact .nil
      | cons targetHead targetTail =>
          exact .cons (parts.along head targetHead).orFail
            (inductionHypothesis targetTail)

/-- Results are compared with one outcome. -/
theorem resultTo_agree
    (sources :
      RelatedOptional (Counterparts checker source otherSource)
        first otherFirst)
    (targets :
      RelatedOptional (Counterparts checker target otherTarget)
        second otherSecond)
    (valued : second.isPrimitive .void = otherSecond.isPrimitive .void) :
    Agree (step.resultTo assumptions first second)
      (other.resultTo others otherFirst otherSecond) := by
  unfold resultTo
  rcases targets with ⟨rfl, rfl⟩ | targets
  · exact .holds
  rw [targets.isAbsent.1, targets.isAbsent.2, valued]
  split
  · exact .holds
  · exact (parts.along (.orElse sources) targets).orFail

variable [step.compare.Reports] [other.compare.Reports]

/-- Parameters are compared with arguments with one outcome. -/
theorem toArgument_agree
    (parameter :
      Counterparts checker source otherSource first otherFirst)
    (argument :
      Counterparts checker target otherTarget second otherSecond) :
    Agree (step.toArgument assumptions bivariant first second)
      (other.toArgument others bivariant otherFirst otherSecond) := by
  intro answer otherAnswer settles otherSettles
  unfold toArgument at settles otherSettles
  split at settles
  · next both =>
    rw [if_pos both] at otherSettles
    obtain ⟨holds, compares, settles⟩ := settles.of_bind
    obtain ⟨otherHolds, otherCompares, otherSettles⟩ := otherSettles.of_bind
    cases parts.across parameter argument holds otherHolds
      (settles_attempt compares) (settles_attempt otherCompares)
    cases holds with
    | true => exact settles.of_pure.trans otherSettles.of_pure.symm
    | false => exact parts.along parameter argument _ _ settles otherSettles
  · next notBoth =>
    rw [if_neg notBoth] at otherSettles
    exact parts.across parameter argument _ _ settles otherSettles

/-- Parameters are compared with those that are supplied with one outcome. -/
theorem suppliedParameters_agree
    {signature otherSignature : Signature Ty}
    (parameters :
      List.Forall₂
        (RelatedParameter (Counterparts checker source otherSource))
        first second)
    (targets :
      RelatedSignature (Counterparts checker target otherTarget)
        signature otherSignature) :
    List.Forall₂ Agree
      (step.suppliedParameters assumptions bivariant signature position first)
      (other.suppliedParameters others bivariant otherSignature position
        second) := by
  induction parameters generalizing position with
  | nil => exact .nil
  | @cons parameter otherParameter _ _ head _ inductionHypothesis =>
      refine .cons ?_ inductionHypothesis
      have supplied := forall₂_getElem? targets.parameters position
      generalize signature.parameters[position]? = argument at supplied ⊢
      generalize otherSignature.parameters[position]? = otherArgument
        at supplied ⊢
      cases supplied with
      | some argument =>
          exact (toArgument_agree parts head.type argument.type).orFail
      | none =>
          rcases targets.rest with ⟨absent, otherAbsent⟩ | rest
          · rw [absent, otherAbsent, head.optional]
            change
              Agree
                (if otherParameter.optional = true then pure true else fail _)
                (if otherParameter.optional = true then pure true else fail _)
            split
            · exact .holds
            · exact .fail
          · rw [rest.isAbsent.1, rest.isAbsent.2]
            exact (toArgument_agree parts head.type rest).orFail

/-- Rest parameters are compared with parameters with one outcome. -/
theorem restParameters_agree
    (rest : Counterparts checker source otherSource first otherFirst)
    (parameters :
      List.Forall₂
        (RelatedParameter (Counterparts checker target otherTarget))
        supplied otherSupplied) :
    List.Forall₂ Agree
      (step.restParameters assumptions bivariant first position supplied)
      (other.restParameters others bivariant otherFirst position
        otherSupplied) := by
  induction parameters generalizing position with
  | nil => exact .nil
  | cons head _ inductionHypothesis =>
      exact .cons (toArgument_agree parts rest head.type).orFail
        inductionHypothesis

/-- Rest parameters are compared with one outcome. -/
theorem restTo_agree
    {first otherFirst second otherSecond : Signature Ty}
    (sources :
      RelatedSignature (Counterparts checker source otherSource)
        first otherFirst)
    (targets :
      RelatedSignature (Counterparts checker target otherTarget)
        second otherSecond) :
    List.Forall₂ Agree
      (step.restTo assumptions bivariant first second)
      (other.restTo others bivariant otherFirst otherSecond) := by
  unfold restTo
  rcases sources.rest with ⟨absent, otherAbsent⟩ | rest
  · rw [absent, otherAbsent]
    exact .nil
  rw [if_neg (show ¬ first.rest.isAbsent = true by simp [rest.isAbsent.1]),
    if_neg (show ¬ otherFirst.rest.isAbsent = true by simp [rest.isAbsent.2]),
    sources.parameters.length_eq]
  refine List.rel_append (restParameters_agree parts rest
    (List.forall₂_drop _ targets.parameters)) ?_
  rcases targets.rest with ⟨absent, otherAbsent⟩ | targetRest
  · rw [absent, otherAbsent]
    exact .nil
  · rw [if_neg (show ¬ second.rest.isAbsent = true by
        simp [targetRest.isAbsent.1]),
      if_neg (show ¬ otherSecond.rest.isAbsent = true by
        simp [targetRest.isAbsent.2])]
    exact .cons (toArgument_agree parts rest targetRest).orFail .nil

/-- Functions are compared with one outcome. -/
theorem toFunction_agree
    {second otherSecond : Signature Ty}
    (sources :
      Parallel (Counterparts checker source otherSource) first otherFirst)
    (targets :
      RelatedSignature (Counterparts checker target otherTarget)
        second otherSecond) :
    Agree (step.toFunction assumptions first second)
      (other.toFunction others otherFirst otherSecond) := by
  cases sources with
  | function signature =>
      unfold toFunction
      dsimp only
      rw [signature.method, targets.method]
      refine .allOf (signatureParts_accountable step)
        (signatureParts_accountable other) ?_
      refine List.rel_append (List.rel_append ?_ ?_) ?_
      · exact suppliedParameters_agree parts signature.parameters targets
      · exact restTo_agree parts signature targets
      · exact .cons (resultTo_agree parts signature.result targets.result
          targets.valued) .nil
  | _ => exact .fail

/-- Tuples are compared with one outcome. -/
theorem toTuple_agree
    {elements otherElements : List Ty}
    (sources :
      Parallel (Counterparts checker source otherSource) first otherFirst)
    (targets :
      List.Forall₂ (Counterparts checker target otherTarget)
        elements otherElements) :
    Agree (step.toTuple assumptions first second elements readonly)
      (other.toTuple others otherFirst otherSecond otherElements readonly) := by
  cases sources with
  | tuple all =>
      unfold toTuple
      dsimp only
      rw [all.length_eq, targets.length_eq]
      split
      · exact .fail
      split
      · exact .fail
      · exact .allOf (fun _ => step.elementPairs_accountable)
          (fun _ => other.elementPairs_accountable)
          (elementPairs_agree parts all targets)
  | _ => exact .fail

/-- Sequences are compared with arrays with one outcome. -/
theorem toArray_agree
    {element otherElement : Ty}
    (sources :
      Parallel (Counterparts checker source otherSource) first otherFirst)
    (target : Counterparts checker target otherTarget element otherElement) :
    Agree (step.toArray assumptions first second element readonly)
      (other.toArray others otherFirst otherSecond otherElement readonly) := by
  cases sources with
  | array sourceElement =>
      unfold toArray
      dsimp only
      split
      · exact .fail
      · exact (parts.along sourceElement target).orFail
  | tuple all =>
      unfold toArray
      dsimp only
      split
      · exact .fail
      · exact .allOf (fun _ => step.elementsTo_accountable)
          (fun _ => other.elementsTo_accountable)
          (elementsTo_agree parts all target)
  | _ => exact .fail

omit [step.compare.Reports] [other.compare.Reports] in
/-- Properties are compared with one outcome. -/
theorem toProperty_agree
    {members otherMembers : Shape Ty}
    {property otherProperty : Property Ty}
    (properties :
      List.Forall₂ (RelatedProperty (Counterparts checker source otherSource))
        members.properties otherMembers.properties)
    (targets :
      RelatedProperty (Counterparts checker target otherTarget)
        property otherProperty) :
    Agree (step.toProperty assumptions first second members property)
      (other.toProperty others otherFirst otherSecond otherMembers
        otherProperty) := by
  have found := Parallel.property? properties property.name
  unfold toProperty
  rw [← targets.name, ← targets.optional]
  generalize members.property? property.name = actual at found ⊢
  generalize otherMembers.property? property.name = otherActual at found ⊢
  cases found with
  | none =>
      dsimp only
      split
      · exact .holds
      · exact .fail
  | some shared =>
      dsimp only
      rw [shared.optional]
      split
      · exact .fail
      split
      · exact (parts.along shared.type targets.type.optional).orFail
      · exact (parts.along shared.type targets.type).orFail

/-- The members of objects without index signature agree in outcome. -/
theorem toMembers_agree
    {members otherMembers shape otherShape : Shape Ty}
    (properties :
      List.Forall₂ (RelatedProperty (Counterparts checker source otherSource))
        members.properties otherMembers.properties)
    (targets :
      List.Forall₂ (RelatedProperty (Counterparts checker target otherTarget))
        shape.properties otherShape.properties)
    (closed : shape.index = none)
    (otherClosed : otherShape.index = none) :
    Agree (step.toMembers assumptions first second members shape)
      (other.toMembers others otherFirst otherSecond otherMembers
        otherShape) := by
  have fit :
      Agree
        (allOf (shape.properties.map
          (step.toProperty assumptions first second members)))
        (allOf (otherShape.properties.map
          (other.toProperty others otherFirst otherSecond otherMembers))) :=
    .allOf_map (targets.imp fun _ _ => toProperty_agree parts properties)
  intro answer otherAnswer settles otherSettles
  unfold toMembers at settles otherSettles
  rw [closed] at settles
  rw [otherClosed] at otherSettles
  obtain ⟨fits, compares, settles⟩ :=
    @Settles.of_bind _ _ _ _ _ _ (fun fits => by split <;> infer_instance) _
      settles
  obtain ⟨otherFits, otherCompares, otherSettles⟩ :=
    @Settles.of_bind _ _ _ _ _ _ (fun fits => by split <;> infer_instance) _
      otherSettles
  cases fit fits otherFits compares otherCompares
  cases fits <;> exact settles.of_pure.trans otherSettles.of_pure.symm

end Parts

end RelationStep

end StructuralTyping
