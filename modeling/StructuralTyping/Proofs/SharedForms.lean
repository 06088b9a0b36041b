import StructuralTyping.Proofs.Likeness
import StructuralTyping.Proofs.ReachedForms

namespace StructuralTyping

/-!
# Types that share a form

Types that reach the same form may be taken for each other. Those among them
that are no unions or intersections agree part by part: objects in the names and
in the flags of their properties, sequences in their lengths, functions in what
they leave out. What they expose to property access agrees in the same way.
-/

open Stateful

/-- Two types reach one form. -/
def ShareForm
    (checker : Checker)
    (first second : Ty) :
    Prop :=
  ∃ form, Reaches checker first form ∧ Reaches checker second form

section Related

variable (related : Ty → Ty → Prop)

/-- Two types are related, unless both were left out. -/
def RelatedOptional
    (first second : Ty) :
    Prop :=
  first = .absent ∧ second = .absent ∨ related first second

/-- Properties of one name whose types are related. -/
structure RelatedProperty
    (first second : Property Ty) :
    Prop where
  name : first.name = second.name
  optional : first.optional = second.optional
  type : related first.type second.type

/-- Parameters whose types are related. -/
structure RelatedParameter
    (first second : Parameter Ty) :
    Prop where
  optional : first.optional = second.optional
  type : related first.type second.type

/-- Signatures whose parts are related, and that both return a value or not. -/
structure RelatedSignature
    (first second : Signature Ty) :
    Prop where
  method : first.method = second.method
  parameters :
    List.Forall₂ (RelatedParameter related) first.parameters second.parameters
  rest : RelatedOptional related first.rest second.rest
  result : RelatedOptional related first.result second.result
  valued : first.result.isPrimitive .void = second.result.isPrimitive .void

/-- Two types that are no unions or intersections are related part by part. -/
inductive Parallel :
    Ty →
    Ty →
    Prop
  | primitive :
      Parallel (.primitive kind) (.primitive kind)
  | literal
      (equal : value.equal value = true) :
      Parallel (.literal occurrence value) (.literal occurrence value)
  | object
      {first second : Shape Ty}
      (properties :
        List.Forall₂ (RelatedProperty related)
          first.properties second.properties)
      (distinct : first.names.Nodup)
      (closed : first.index = none)
      (otherClosed : second.index = none) :
      Parallel (.object occurrence first) (.object other second)
  | array
      (element : related first second) :
      Parallel
        (.array occurrence first readonly) (.array other second readonly)
  | tuple
      {first second : List Ty}
      (elements : List.Forall₂ related first second) :
      Parallel
        (.tuple occurrence first readonly) (.tuple other second readonly)
  | function
      {first second : Signature Ty}
      (signature : RelatedSignature related first second) :
      Parallel (.function occurrence first) (.function other second)

end Related

variable {checker : Checker}

namespace ShareForm

/-- Sharing a form does not depend on the order. -/
theorem symm
    (shares : ShareForm checker first second) :
    ShareForm checker second first := by
  obtain ⟨form, reachesFirst, reachesSecond⟩ := shares
  exact ⟨form, reachesSecond, reachesFirst⟩

/-- Types that reach forms share them with themselves. -/
theorem self
    (reaches : Reaches checker type form) :
    ShareForm checker type type :=
  ⟨form, reaches, reaches⟩

/-- A type that shares a form is there, and stands in for no other. -/
theorem orElse
    (shares : ShareForm checker first second) :
    first.orElse other = first := by
  obtain ⟨form, reaches, -⟩ := shares
  cases reaches <;> rfl

/-- Types that take up `undefined` share a form if they did without it. -/
theorem optional
    (shares : ShareForm checker first second) :
    ShareForm checker first.optional second.optional := by
  obtain ⟨form, reachesFirst, reachesSecond⟩ := shares
  exact ⟨_, reachesFirst.optional, reachesSecond.optional⟩

/-- Parts that were left out of one form were left out of both types. -/
theorem orOptional
    {first second form : Ty}
    (absentFirst : form.isAbsent = first.isAbsent)
    (absentSecond : form.isAbsent = second.isAbsent)
    (reachesFirst : first.isAbsent = false → Reaches checker first form)
    (reachesSecond : second.isAbsent = false → Reaches checker second form) :
    RelatedOptional (ShareForm checker) first second := by
  cases missing : form.isAbsent with
  | true =>
      exact .inl ⟨Ty.eq_absent (absentFirst ▸ missing),
        Ty.eq_absent (absentSecond ▸ missing)⟩
  | false =>
      exact .inr ⟨form, reachesFirst (absentFirst ▸ missing),
        reachesSecond (absentSecond ▸ missing)⟩

/-- Types that share a form and are not taken apart are alike part by part. -/
theorem parallel
    (shares : ShareForm checker first second)
    (simple : first.isCompound = false)
    (otherSimple : second.isCompound = false) :
    Parallel (ShareForm checker) first second := by
  obtain ⟨form, reachesFirst, reachesSecond⟩ := shares
  cases reachesFirst with
  | primitive =>
      cases reachesSecond with
      | primitive => exact .primitive
      | _ => cases otherSimple
  | literal equal =>
      cases reachesSecond with
      | literal => exact .literal equal
      | _ => cases otherSimple
  | object names properties distinct closed =>
      cases reachesSecond with
      | object otherNames otherProperties _ otherClosed =>
          refine .object (forall₂_trans_of_mem
            (Reaches.forall₂_and_zip names properties)
            (Reaches.forall₂_and_zip otherNames otherProperties).flip ?_)
            distinct closed otherClosed
          rintro property - form - other - ⟨same, reaches⟩
            ⟨otherSame, otherReaches⟩
          refine ⟨?_, ?_, form.type, reaches, otherReaches⟩
          · exact (congrArg Property.name same).symm.trans
              (congrArg Property.name otherSame :)
          · exact (congrArg Property.optional same).symm.trans
              (congrArg Property.optional otherSame :)
      | _ => cases otherSimple
  | array element =>
      cases reachesSecond with
      | array otherElement => exact .array ⟨_, element, otherElement⟩
      | _ => cases otherSimple
  | tuple length each =>
      cases reachesSecond with
      | tuple otherLength otherEach =>
          exact .tuple (forall₂_trans_of_mem
            (List.forall₂_iff_zip.mpr ⟨length.symm, each _ _⟩)
            (List.forall₂_iff_zip.mpr ⟨otherLength.symm, otherEach _ _⟩).flip
            fun _ _ _ _ _ _ reaches otherReaches =>
              ⟨_, reaches, otherReaches⟩)
      | _ => cases otherSimple
  | function method names parameters rested rest resulted result valued =>
      cases reachesSecond with
      | function otherMethod otherNames otherParameters otherRested otherRest
          otherResulted otherResult otherValued =>
          refine .function ⟨method.symm.trans otherMethod, forall₂_trans_of_mem
            (Reaches.forall₂_and_zip names parameters)
            (Reaches.forall₂_and_zip otherNames otherParameters).flip ?_,
            orOptional rested otherRested rest otherRest,
            orOptional resulted otherResulted result otherResult,
            valued.symm.trans otherValued⟩
          rintro parameter - form - other - ⟨same, reaches⟩
            ⟨otherSame, otherReaches⟩
          refine ⟨?_, form.type, reaches, otherReaches⟩
          exact (congrArg Parameter.optional same).symm.trans
            (congrArg Parameter.optional otherSame :)
      | _ => cases otherSimple
  | union => cases simple
  | intersection => cases simple

end ShareForm

namespace Parallel

variable {related : Ty → Ty → Prop}

/-- Alike types are the same primitive or both none. -/
theorem isPrimitive
    (parallel : Parallel related first second) :
    first.isPrimitive kind = second.isPrimitive kind := by
  cases parallel <;> rfl

/-- Types are related part by part in every way that follows for their parts. -/
theorem imp
    {wanted : Ty → Ty → Prop}
    (parallel : Parallel related first second)
    (each :
      ∀ part ∈ first.parts, ∀ other ∈ second.parts,
        related part other → wanted part other) :
    Parallel wanted first second := by
  cases parallel with
  | primitive => exact .primitive
  | literal equal => exact .literal equal
  | object properties distinct closed otherClosed =>
      refine .object (forall₂_imp_of_mem properties fun property member other
        otherMember shared => ⟨shared.name, shared.optional, ?_⟩) distinct
        closed otherClosed
      exact each _ (List.mem_append_left _ (List.mem_map_of_mem member)) _
        (List.mem_append_left _ (List.mem_map_of_mem otherMember)) shared.type
  | array element =>
      exact .array (each _ (List.mem_singleton_self _) _
        (List.mem_singleton_self _) element)
  | tuple elements => exact .tuple (forall₂_imp_of_mem elements each)
  | @function occurrence other first second signature =>
      have optional {part otherPart : Ty}
          (isPart : part ∈ [first.rest, first.result])
          (isOther : otherPart ∈ [second.rest, second.result])
          (shared : RelatedOptional related part otherPart) :
          RelatedOptional wanted part otherPart :=
        shared.imp_right (each _ (List.mem_append_right _ isPart) _
          (List.mem_append_right _ isOther))
      refine .function ⟨signature.method, forall₂_imp_of_mem signature.parameters
        fun parameter member other otherMember shared =>
          ⟨shared.optional, ?_⟩,
        optional (by simp) (by simp) signature.rest,
        optional (by simp) (by simp) signature.result, signature.valued⟩
      exact each _ (List.mem_append_left _ (List.mem_map_of_mem member)) _
        (List.mem_append_left _ (List.mem_map_of_mem otherMember)) shared.type

/-- Types that are related part by part are not taken apart. -/
theorem simple
    (parallel : Parallel related first second) :
    first.isCompound = false ∧ second.isCompound = false := by
  cases parallel <;> exact ⟨rfl, rfl⟩

/-- Positions of tuples with related elements are related properties. -/
theorem positionProperties
    {elements others : List Ty}
    (all : List.Forall₂ related elements others)
    (readonly : Bool)
    (position : Nat) :
    List.Forall₂ (RelatedProperty related)
      (positionProperties readonly position elements)
      (positionProperties readonly position others) := by
  induction all generalizing position with
  | nil => exact .nil
  | cons head _ inductionHypothesis =>
      exact .cons ⟨rfl, rfl, head⟩ (inductionHypothesis (position + 1))

/--
Types that are related part by part expose related properties, if forms are
related to themselves: the lengths that are exposed have forms as types.
-/
theorem apparent
    (self : ∀ {type}, Reaches checker type type → related type type)
    (parallel : Parallel related first second)
    (settles : Check.Settles (checker.apparent first) members)
    (otherSettles : Check.Settles (checker.apparent second) others) :
    Option.Rel
      (fun members others =>
        List.Forall₂ (RelatedProperty related)
          members.properties others.properties)
      members others := by
  have counted (count : Nat) :
      related (.ofLiteral (.number (.ofNat count)))
        (.ofLiteral (.number (.ofNat count))) :=
    self (.literal (Literal.equal_self (Number.isNaN_ofNat count)))
  have numeric : related .number .number :=
    self (.primitive (by simp) (by simp))
  unfold Checker.apparent at settles otherSettles
  generalize checker.budget = budget at settles otherSettles
  cases budget with
  | zero =>
      obtain ⟨_, run, _⟩ := settles
      cases run
  | succ budget =>
  unfold Checker.apparentWithin at settles otherSettles
  cases parallel with
  | @primitive kind =>
      cases kind <;> cases Check.settles_pure.mp settles <;>
        cases Check.settles_pure.mp otherSettles <;>
        first
          | exact .none
          | exact .some .nil
          | exact .some (.cons ⟨rfl, rfl, numeric⟩ .nil)
  | @literal _ value equal =>
      cases value <;> cases Check.settles_pure.mp settles <;>
        cases Check.settles_pure.mp otherSettles <;>
        first
          | exact .some .nil
          | exact .some (.cons ⟨rfl, rfl, numeric⟩ .nil)
  | object properties =>
      cases Check.settles_pure.mp settles
      cases Check.settles_pure.mp otherSettles
      exact .some properties
  | array element =>
      cases Check.settles_pure.mp settles
      cases Check.settles_pure.mp otherSettles
      exact .some (.cons ⟨rfl, rfl, numeric⟩ .nil)
  | tuple elements =>
      obtain ⟨_, _, settles⟩ := Check.settles_bind.mp settles
      obtain ⟨_, _, otherSettles⟩ := Check.settles_bind.mp otherSettles
      cases Check.settles_pure.mp settles
      cases Check.settles_pure.mp otherSettles
      refine .some (.cons ⟨rfl, rfl, ?_⟩ (positionProperties elements _ _))
      dsimp only
      rw [elements.length_eq]
      exact counted _
  | function =>
      cases Check.settles_pure.mp settles
      cases Check.settles_pure.mp otherSettles
      exact .some (.cons ⟨rfl, rfl, numeric⟩ .nil)

/-- Related properties are found under the same names. -/
theorem property?
    {first second : Shape Ty}
    (properties :
      List.Forall₂ (RelatedProperty related)
        first.properties second.properties)
    (name : String) :
    Option.Rel (RelatedProperty related)
      (first.property? name) (second.property? name) := by
  unfold Shape.property?
  generalize first.properties = members at properties
  generalize second.properties = others at properties
  induction properties with
  | nil => exact .none
  | cons head _ inductionHypothesis =>
      rw [List.find?_cons, List.find?_cons, head.name]
      split
      · exact .some head
      · exact inductionHypothesis

end Parallel

end StructuralTyping
