import StructuralTyping.Proofs.CopiedEvaluations
import StructuralTyping.Proofs.JoinedContents

namespace StructuralTyping

/-!
# Unions form a semilattice

What a union is normalized to does not depend on the order of its members, on how
often a member is given, on members without values, or on how the members are put
together into unions of their own. Whatever the arrangement, the alternatives of
the union are the same but for copies, and the union offers what its alternatives
are normalized to. Joining keeps one of every few offers that look alike.
-/

/-- What a type, taken for a union of unions, is in the end a union of. -/
inductive Ty.Alternative :
    Ty →
    Ty →
    Prop
  | self :
      type.isUnion = false →
      Alternative type type
  | member {members : List Ty} :
      member ∈ members →
      Alternative member alternative →
      Alternative (.union occurrence members) alternative

/-- Two lists of members that are arranged differently for the same union. -/
inductive Rearranged :
    List Ty →
    List Ty →
    Prop
  | permuted {members others : List Ty} :
      members.Perm others →
      Rearranged members others
  | repeated {members : List Ty} :
      member ∈ members →
      member.form = copy.form →
      Rearranged members (copy :: members)
  | padded :
      type.isNever = true →
      Rearranged members (type :: members)
  | grouped {inner members : List Ty} :
      Rearranged (inner ++ members) (.union occurrence inner :: members)
  | symm :
      Rearranged members others →
      Rearranged others members
  | trans :
      Rearranged first second →
      Rearranged second third →
      Rearranged first third

/-- Every alternative with values has a copy among those of other members. -/
def Covers
    (members others : List Ty) :
    Prop :=
  ∀ member ∈ members,
    ∀ alternative,
      member.Alternative alternative →
      alternative.isNever = false →
      ∃ other ∈ others,
        ∃ copy, other.Alternative copy ∧ alternative.form = copy.form

section Arrangements

variable {members others : List Ty}

/-- The alternatives of a union are those of its members. -/
theorem Ty.forall_alternative_union
    {kind : Ty → Prop} :
    (∀ alternative,
        (Ty.union occurrence members).Alternative alternative →
        kind alternative) ↔
      ∀ member ∈ members,
        ∀ alternative, member.Alternative alternative → kind alternative := by
  constructor
  · intro each member inMembers alternative chosen
    exact each alternative (.member inMembers chosen)
  · intro each alternative chosen
    cases chosen with
    | self isNoUnion => cases isNoUnion
    | member inMembers chosen => exact each _ inMembers alternative chosen

/-- A type that is no union is its own only alternative. -/
theorem Ty.forall_alternative_single
    {kind : Ty → Prop}
    {type : Ty}
    (single : type.isUnion = false) :
    (∀ alternative, type.Alternative alternative → kind alternative) ↔
      kind type := by
  constructor
  · exact fun each => each type (.self single)
  · intro ofKind alternative chosen
    cases chosen with
    | self => exact ofKind
    | member => cases single

/-- A copy of a type has copies of its alternatives. -/
theorem Ty.Alternative.copy
    {type copy alternative : Ty}
    (chosen : type.Alternative alternative)
    (same : type.form = copy.form) :
    ∃ other, copy.Alternative other ∧ alternative.form = other.form := by
  induction chosen generalizing copy with
  | self single =>
      refine ⟨copy, .self ?_, same⟩
      rw [← Ty.isUnion_form, ← same, Ty.isUnion_form]
      exact single
  | member inMembers _ inductionHypothesis =>
      cases Ty.copied_of_form same with
      | union sameMembers =>
          obtain ⟨other, inCopies, sameMember⟩ :=
            exists_related_right (forall₂_of_map_eq sameMembers) inMembers
          obtain ⟨found, chosen, sameFound⟩ := inductionHypothesis sameMember
          exact ⟨found, .member inCopies chosen, sameFound⟩

/-- A type without values has no alternatives with values. -/
theorem Ty.Alternative.isNever
    {type alternative : Ty}
    (chosen : type.Alternative alternative)
    (empty : type.isNever = true) :
    alternative.isNever = true := by
  cases chosen with
  | self => exact empty
  | member inMembers =>
      rw [Ty.isNever, List.isEmpty_iff] at empty
      cases empty ▸ inMembers

/-- An alternative without values is `never`. -/
theorem Ty.Alternative.eq_never
    {type alternative : Ty}
    (chosen : type.Alternative alternative)
    (empty : alternative.isNever = true) :
    alternative = .never := by
  induction chosen with
  | @self type single =>
      cases type with
      | primitive kind =>
          have same : kind = .never := by
            simpa [Ty.isNever, Ty.isPrimitive] using empty
          exact same ▸ rfl
      | union => cases single
      | _ => cases empty
  | member _ _ inductionHypothesis =>
      exact inductionHypothesis empty

theorem Covers.of_subset
    (within : ∀ member ∈ members, member ∈ others) :
    Covers members others :=
  fun member inMembers alternative chosen _ =>
    ⟨member, within member inMembers, alternative, chosen, rfl⟩

theorem Covers.cons
    {first : Ty}
    (head :
      ∀ alternative,
        first.Alternative alternative →
        alternative.isNever = false →
        ∃ other ∈ others,
          ∃ copy, other.Alternative copy ∧ alternative.form = copy.form)
    (tail : Covers members others) :
    Covers (first :: members) others := by
  intro member inMembers
  cases List.mem_cons.mp inMembers with
  | inl same => exact same ▸ head
  | inr inTail => exact tail member inTail

theorem Covers.trans
    {first second third : List Ty}
    (early : Covers first second)
    (late : Covers second third) :
    Covers first third := by
  intro member inFirst alternative chosen inhabits
  obtain ⟨other, inSecond, copy, chosenCopy, same⟩ :=
    early member inFirst alternative chosen inhabits
  have inhabitsCopy : copy.isNever = false := by
    rw [← Ty.isNever_form, ← same, Ty.isNever_form]
    exact inhabits
  obtain ⟨last, inThird, found, chosenFound, sameFound⟩ :=
    late other inSecond copy chosenCopy inhabitsCopy
  exact ⟨last, inThird, found, chosenFound, same.trans sameFound⟩

/-- Differently arranged members have the same alternatives but for copies. -/
theorem Rearranged.covers
    (rearranged : Rearranged members others) :
    Covers members others ∧ Covers others members := by
  induction rearranged with
  | permuted permutes =>
      exact ⟨.of_subset fun _ => permutes.mem_iff.mp,
        .of_subset fun _ => permutes.mem_iff.mpr⟩
  | repeated inMembers same =>
      refine ⟨.of_subset fun _ => .tail _, .cons ?_ (.of_subset fun _ => id)⟩
      intro alternative chosen _
      obtain ⟨found, chosenFound, sameFound⟩ := chosen.copy same.symm
      exact ⟨_, inMembers, found, chosenFound, sameFound⟩
  | padded empty =>
      refine ⟨.of_subset fun _ => .tail _, .cons ?_ (.of_subset fun _ => id)⟩
      intro alternative chosen inhabits
      rw [chosen.isNever empty] at inhabits
      cases inhabits
  | @grouped occurrence inner members =>
      constructor
      · intro member inBoth alternative chosen _
        cases List.mem_append.mp inBoth with
        | inl inInner =>
            exact ⟨_, List.mem_cons_self, alternative, .member inInner chosen,
              rfl⟩
        | inr inMembers =>
            exact ⟨member, .tail _ inMembers, alternative, chosen, rfl⟩
      · apply Covers.cons _ (.of_subset fun _ => List.mem_append_right inner)
        intro alternative chosen _
        cases chosen with
        | self isNoUnion => cases isNoUnion
        | member inInner chosen =>
            exact ⟨_, List.mem_append_left members inInner, alternative, chosen,
              rfl⟩
  | symm _ inductionHypothesis =>
      exact inductionHypothesis.symm
  | trans _ _ early late =>
      exact ⟨early.1.trans late.1, late.2.trans early.2⟩

/-- The alternatives of a type that can be told apart can be told apart. -/
theorem Ty.Alternative.identifies
    {arena : Arena}
    {type alternative : Ty}
    (chosen : type.Alternative alternative)
    (identifies : arena.Identifies type) :
    arena.Identifies alternative := by
  induction chosen with
  | self => exact identifies
  | member inMembers _ inductionHypothesis =>
      exact inductionHypothesis (identifies.parts _ inMembers)

/-- A union can be told apart exactly when its members can. -/
theorem Arena.identifies_union
    {arena : Arena} :
    arena.Identifies (.union occurrence members) ↔
      ∀ member ∈ members, arena.Identifies member := by
  constructor
  · exact Arena.Identifies.parts
  · intro each
    exact Arena.identifies_iff.mpr
      ⟨.union fun member inMembers => (each member inMembers).tidy,
        .of_parts rfl fun member inMembers =>
          (Arena.identifies_iff.mp (each member inMembers)).2⟩

/-- A type can be told apart if its alternatives with values can. -/
theorem Arena.identifies_of_alternatives
    {arena : Arena}
    {type : Ty}
    (each :
      ∀ alternative,
        type.Alternative alternative →
        alternative.isNever = false →
        arena.Identifies alternative) :
    arena.Identifies type := by
  induction type using Ty.partsInduction with
  | node type inductionHypothesis =>
  by_cases isUnion : type.isUnion = true
  · cases type with
    | union occurrence members =>
        apply Arena.identifies_union.mpr
        intro member inMembers
        exact inductionHypothesis member inMembers fun alternative chosen =>
          each alternative (.member inMembers chosen)
    | _ => cases isUnion
  · rw [Bool.not_eq_true] at isUnion
    by_cases empty : type.isNever = true
    · cases type with
      | primitive kind =>
          exact Arena.identifies_primitive
      | union => cases isUnion
      | _ => cases empty
    · exact each type (.self isUnion) (by simpa using empty)

/-- Arranging members differently keeps what can be told apart. -/
theorem Rearranged.identifies
    {arena : Arena}
    (rearranged : Rearranged members others)
    (each : ∀ member ∈ members, arena.Identifies member) :
    ∀ other ∈ others, arena.Identifies other := by
  intro other inOthers
  apply Arena.identifies_of_alternatives
  intro alternative chosen inhabits
  obtain ⟨member, inMembers, copy, chosenCopy, same⟩ :=
    rearranged.covers.2 other inOthers alternative chosen inhabits
  exact (chosenCopy.identifies (each member inMembers)).copy same.symm

end Arrangements

namespace Checker

variable {checker : Checker} {members : List Ty}

/-- Normalizing a node settles below the depth bound. -/
theorem NormalizesInto.node
    {type result : Ty}
    (normalizes : checker.NormalizesInto type result)
    (present : type.isAbsent = false) :
    ∃ inner budget depth,
      Stateful.Settles
        ((normalPass (checker.modeWithin inner) budget).normalizeNode
          (checker.modeWithin inner) depth type)
        result := by
  obtain ⟨pass, depth, uses, settles⟩ := normalizes
  obtain ⟨inner, budget, rfl⟩ := uses.within
  cases budget with
  | zero => exact (not_settles_emptyPass settles).elim
  | succ budget =>
      rw [normalPass_succ] at settles
      change Stateful.Settles (NormalPass.nextNormalize _ _ depth type) result
        at settles
      unfold NormalPass.nextNormalize at settles
      rw [present] at settles
      split at settles
      · next absent => cases absent
      split at settles
      · obtain ⟨_, reported, _⟩ := settles.of_bind
        exact absurd reported not_settles_reportOnce
      · exact ⟨inner, budget, depth + 1, settles⟩

/-- A primitive is normalized to itself. -/
theorem NormalizesInto.primitive
    (normalizes : checker.NormalizesInto (.primitive kind) result) :
    result = .primitive kind := by
  obtain ⟨inner, budget, depth, settles⟩ := normalizes.node rfl
  exact settles.of_pure

/-- A union is normalized to the union of what its members are normalized to. -/
theorem NormalizesInto.union
    (normalizes : checker.NormalizesInto (.union occurrence members) result) :
    ∃ types,
      List.Forall₂ checker.NormalizesInto members types ∧
        result = checker.arena.joinMembers (flattenUnion types) := by
  obtain ⟨inner, budget, depth, settles⟩ := normalizes.node rfl
  obtain ⟨types, visits, same⟩ := NormalPass.union_cases settles
  exact ⟨types, Uses.normalizesAll ⟨inner, budget, rfl⟩ visits, same⟩

/-- What is normalized to something can be told apart, and so can that. -/
theorem NormalizesInto.presents
    (normalizes : checker.NormalizesInto type result)
    (identifiable : checker.arena.Identifiable)
    (identifies : checker.arena.Identifies type) :
    checker.arena.Presents result := by
  obtain ⟨pass, depth, uses, settles⟩ := normalizes
  exact (uses.presents identifiable).normalize identifies settles

/-- Copies are normalized to copies. -/
theorem NormalizesInto.copies
    (normalizes : checker.NormalizesInto type result)
    (normalizesCopy : checker.NormalizesInto copy other)
    (identifiable : checker.arena.Identifiable)
    (identifies : checker.arena.Identifies type)
    (same : type.form = copy.form)
    (decides : checker.DecidesAll (.normalize type))
    (decidesCopy : checker.DecidesAll (.normalize copy)) :
    result.form = other.form := by
  obtain ⟨pass, depth, uses, settles⟩ := normalizes
  obtain ⟨passCopy, flat, usesCopy, settlesCopy⟩ := normalizesCopy
  exact ((uses.mirrors identifiable usesCopy).normalize same identifies decides
    decidesCopy).relates settles settlesCopy

/-- The alternatives of a type are normalized on the way. -/
theorem NormalizesInto.alternative
    {type alternative result : Ty}
    (normalizes : checker.NormalizesInto type result)
    (chosen : type.Alternative alternative) :
    ∃ normal, checker.NormalizesInto alternative normal := by
  induction chosen generalizing result with
  | self => exact ⟨result, normalizes⟩
  | member inMembers _ inductionHypothesis =>
      obtain ⟨types, each, _⟩ := normalizes.union
      obtain ⟨normal, _, normalizes⟩ := exists_related_right each inMembers
      exact inductionHypothesis normalizes

/-- A type that decides all comparisons does so for its alternatives. -/
theorem DecidesAll.alternative
    {type alternative : Ty}
    (decides : checker.DecidesAll (.normalize type))
    (chosen : type.Alternative alternative) :
    checker.DecidesAll (.normalize alternative) := by
  induction chosen with
  | self => exact decides
  | member inMembers _ inductionHypothesis =>
      exact inductionHypothesis ((decides.asks .union).asks (.member inMembers))

end Checker

namespace Checker

variable {checker : Checker}

/-- What a union of a type has to offer: what an alternative is normalized to. -/
def Offers
    (checker : Checker)
    (type offer : Ty) :
    Prop :=
  ∃ alternative normal,
    type.Alternative alternative ∧
      checker.NormalizesInto alternative normal ∧
      offer ∈ inhabited normal.members

/-- A union offers what its members offer. -/
theorem offers_union_iff
    {members : List Ty} :
    checker.Offers (.union occurrence members) offer ↔
      ∃ member ∈ members, checker.Offers member offer := by
  constructor
  · rintro ⟨alternative, normal, chosen, normalizes, inNormal⟩
    cases chosen with
    | self isNoUnion => cases isNoUnion
    | member inMembers chosen =>
        exact ⟨_, inMembers, alternative, normal, chosen, normalizes, inNormal⟩
  · rintro ⟨member, inMembers, alternative, normal, chosen, normalizes, inNormal⟩
    exact ⟨alternative, normal, .member inMembers chosen, normalizes, inNormal⟩

/-- The contents of a union come from what its members are normalized to. -/
theorem mem_inhabited_flattenUnion
    {types : List Ty} :
    content ∈ inhabited (flattenUnion types) ↔
      ∃ type ∈ types, content ∈ inhabited type.members := by
  simp only [inhabited, flattenUnion, List.mem_filter, List.mem_flatMap]
  constructor
  · rintro ⟨⟨type, inTypes, inMembers⟩, inhabits⟩
    exact ⟨type, inTypes, inMembers, inhabits⟩
  · rintro ⟨type, inTypes, inMembers, inhabits⟩
    exact ⟨⟨type, inTypes, inMembers⟩, inhabits⟩

variable (identifiable : checker.arena.Identifiable)
include identifiable

/-- What the members of a union are normalized to has proper contents. -/
theorem contents_of_normalizesInto
    {members types : List Ty}
    (identifies : ∀ member ∈ members, checker.arena.Identifies member)
    (normalizes : List.Forall₂ checker.NormalizesInto members types)
    (decides : checker.DecidesAll (.unite members)) :
    checker.arena.Contents (inhabited (flattenUnion types)) := by
  have each :
      ∀ content ∈ inhabited (flattenUnion types),
        checker.arena.Presents content ∧ content.isUnion = false := by
    intro content inContents
    obtain ⟨type, inTypes, inType⟩ := mem_inhabited_flattenUnion.mp inContents
    obtain ⟨member, inMembers, normalizes⟩ :=
      exists_related_left normalizes inTypes
    have presents :=
      normalizes.presents identifiable (identifies member inMembers)
    have inMembers : content ∈ type.members := (List.mem_filter.mp inType).1
    exact ⟨presents.members inMembers,
      (presents.canonical.members inMembers).2⟩
  constructor
  · exact fun content inContents => (each content inContents).1
  · exact fun content inContents => (each content inContents).2
  · intro content inContents
    simpa using (List.mem_filter.mp inContents).2
  · intro noAny noUnknown first second compares
    have absent {kind : Primitive}
        (missing : .primitive kind ∉ inhabited (flattenUnion types)) :
        (inhabited (flattenUnion types)).any (Ty.isPrimitive · kind) = false :=
      Bool.eq_false_iff.mpr (Arena.any_isPrimitive_iff.not.mpr missing)
    exact decides.compares
      (.unite normalizes (absent noAny) (absent noUnknown) compares)

omit identifiable in
/-- The contents of a union represent offers when those of its members do. -/
theorem represents_flattenUnion
    {members types : List Ty}
    (each :
      List.Forall₂
        (fun member type =>
          checker.arena.Represents (inhabited type.members)
            (checker.Offers member))
        members types) :
    checker.arena.Represents (inhabited (flattenUnion types))
      (fun offer => ∃ member ∈ members, checker.Offers member offer) := by
  have missing {kind : Primitive} {type : Ty}
      (absent : .primitive kind ∉ inhabited (flattenUnion types))
      (inTypes : type ∈ types) :
      .primitive kind ∉ inhabited type.members :=
    fun inType => absent (mem_inhabited_flattenUnion.mpr ⟨type, inTypes, inType⟩)
  constructor
  · rw [mem_inhabited_flattenUnion]
    constructor
    · rintro ⟨type, inTypes, isAny⟩
      obtain ⟨member, inMembers, represents⟩ := exists_related_left each inTypes
      exact ⟨member, inMembers, represents.any.mp isAny⟩
    · rintro ⟨member, inMembers, isOffer⟩
      obtain ⟨type, inTypes, represents⟩ := exists_related_right each inMembers
      exact ⟨type, inTypes, represents.any.mpr isOffer⟩
  · intro noAny
    rw [mem_inhabited_flattenUnion]
    constructor
    · rintro ⟨type, inTypes, isUnknown⟩
      obtain ⟨member, inMembers, represents⟩ := exists_related_left each inTypes
      exact ⟨member, inMembers,
        (represents.unknown (missing noAny inTypes)).mp isUnknown⟩
    · rintro ⟨member, inMembers, isOffer⟩
      obtain ⟨type, inTypes, represents⟩ := exists_related_right each inMembers
      exact ⟨type, inTypes,
        (represents.unknown (missing noAny inTypes)).mpr isOffer⟩
  · intro noAny noUnknown content inContents
    obtain ⟨type, inTypes, inType⟩ := mem_inhabited_flattenUnion.mp inContents
    obtain ⟨member, inMembers, represents⟩ := exists_related_left each inTypes
    exact ⟨member, inMembers,
      represents.offered (missing noAny inTypes) (missing noUnknown inTypes)
        content inType⟩
  · rintro noAny noUnknown offer ⟨member, inMembers, isOffer⟩
    obtain ⟨type, inTypes, represents⟩ := exists_related_right each inMembers
    obtain ⟨content, inType, same⟩ :=
      represents.covers (missing noAny inTypes) (missing noUnknown inTypes)
        isOffer
    exact ⟨content, mem_inhabited_flattenUnion.mpr ⟨type, inTypes, inType⟩, same⟩

/-- What a type is normalized to represents what the type offers. -/
theorem represents_of_normalizesInto
    {type normal : Ty}
    (identifies : checker.arena.Identifies type)
    (normalizes : checker.NormalizesInto type normal)
    (decides : checker.DecidesAll (.normalize type)) :
    checker.arena.Represents (inhabited normal.members)
      (checker.Offers type) := by
  induction type using Ty.partsInduction generalizing normal with
  | node type inductionHypothesis =>
  by_cases isUnion : type.isUnion = true
  · cases type with
    | union occurrence members =>
        obtain ⟨types, each, rfl⟩ := normalizes.union
        have unites := decides.asks .union
        have represents :
            checker.arena.Represents (inhabited (flattenUnion types))
              (fun offer =>
                ∃ member ∈ members, checker.Offers member offer) := by
          apply represents_flattenUnion
          refine forall₂_imp_of_mem each ?_
          intro member inMembers normal _ normalizes
          exact inductionHypothesis member inMembers
            (identifies.parts member inMembers) normalizes
            (unites.asks (.member inMembers))
        have same :
            checker.Offers (.union occurrence members) =
              fun offer => ∃ member ∈ members, checker.Offers member offer := by
          funext offer
          exact propext offers_union_iff
        rw [same, ← Arena.joinMembers_inhabited]
        exact represents.join identifiable
          (contents_of_normalizesInto identifiable identifies.parts each unites)
    | _ => cases isUnion
  rw [Bool.not_eq_true] at isUnion
  have offers_iff (offer : Ty) :
      checker.Offers type offer ↔ offer ∈ inhabited normal.members := by
    constructor
    · rintro ⟨alternative, other, chosen, normalizesOther, inOther⟩
      cases chosen with
      | member => cases isUnion
      | self => exact normalizes.unique normalizesOther ▸ inOther
    · exact fun inNormal => ⟨type, normal, .self isUnion, normalizes, inNormal⟩
  constructor
  · exact (offers_iff .any).symm
  · exact fun _ => (offers_iff .unknown).symm
  · exact fun _ _ content => (offers_iff content).mpr
  · intro _ _ offer isOffer
    have inNormal := (offers_iff offer).mp isOffer
    have inMembers : offer ∈ normal.members := (List.mem_filter.mp inNormal).1
    have presents := normalizes.presents identifiable identifies
    exact ⟨offer, inNormal,
      .of_form identifiable (presents.members inMembers).identifies rfl⟩

/-- Members with values have copies of their offers among those of other members. -/
theorem offers_of_covers
    {members others : List Ty}
    (covers : Covers members others)
    (identifies : ∀ member ∈ members, checker.arena.Identifies member)
    (decides : ∀ member ∈ members, checker.DecidesAll (.normalize member))
    (decidesOthers : ∀ other ∈ others, checker.DecidesAll (.normalize other))
    (normalizes :
      ∀ other ∈ others, ∃ normal, checker.NormalizesInto other normal)
    {offer : Ty}
    (offers : ∃ member ∈ members, checker.Offers member offer) :
    ∃ copy,
      (∃ other ∈ others, checker.Offers other copy) ∧
        offer.form = copy.form := by
  obtain ⟨member, inMembers, alternative, normal, chosen, normalizesOne,
    inNormal⟩ := offers
  have inhabits : alternative.isNever = false := by
    by_contra empty
    rw [Bool.not_eq_false] at empty
    cases chosen.eq_never empty
    cases normalizesOne.primitive
    cases inNormal
  obtain ⟨other, inOthers, copy, chosenCopy, same⟩ :=
    covers member inMembers alternative chosen inhabits
  obtain ⟨normalOther, normalizesOther⟩ := normalizes other inOthers
  obtain ⟨normalCopy, normalizesCopy⟩ := normalizesOther.alternative chosenCopy
  have sameNormal :=
    normalizesOne.copies normalizesCopy identifiable
      (chosen.identifies (identifies member inMembers)) same
      ((decides member inMembers).alternative chosen)
      ((decidesOthers other inOthers).alternative chosenCopy)
  have sameMembers :
      (inhabited normal.members).map Ty.form =
        (inhabited normalCopy.members).map Ty.form := by
    rw [← inhabited_form, ← inhabited_form, ← Ty.members_form,
      ← Ty.members_form, sameNormal]
  obtain ⟨offerCopy, inCopy, sameOffer⟩ :=
    exists_related_right (forall₂_of_map_eq sameMembers) inNormal
  exact ⟨offerCopy,
    ⟨other, inOthers, copy, normalCopy, chosenCopy, normalizesCopy, inCopy⟩,
    sameOffer⟩

/-- The members of a union offer what the members are normalized to. -/
theorem represents_of_members
    {members types : List Ty}
    (identifies : ∀ member ∈ members, checker.arena.Identifies member)
    (normalizes : List.Forall₂ checker.NormalizesInto members types)
    (decides : checker.DecidesAll (.unite members)) :
    checker.arena.Represents (inhabited (flattenUnion types))
      (fun offer => ∃ member ∈ members, checker.Offers member offer) := by
  apply represents_flattenUnion
  refine forall₂_imp_of_mem normalizes ?_
  intro member inMembers type _ normalizes
  exact represents_of_normalizesInto identifiable (identifies member inMembers)
    normalizes (decides.asks (.member inMembers))

/--
Normalization takes unions for the same whose members differ in order, repetition,
members without values and nesting only, where no depth bound has a say.
-/
theorem normalize_rearranged
    {members others : List Ty}
    (identifies : ∀ member ∈ members, checker.arena.Identifies member)
    (rearranged : Rearranged members others)
    (settles :
      Check.Settles (checker.normalize (.union occurrence members)) result)
    (settlesOther :
      Check.Settles (checker.normalize (.union otherOccurrence others)) other)
    (decides : checker.DecidesAll (.normalize (.union occurrence members)))
    (decidesOther :
      checker.DecidesAll (.normalize (.union otherOccurrence others)))
    (decided : checker.arena.Decides other result) :
    checker.arena.identical other result = true := by
  have identifiesOthers := rearranged.identifies identifies
  have normalizes : checker.NormalizesInto (.union occurrence members) result :=
    normalizesInto_of_settles settles
  have normalizesOther :
      checker.NormalizesInto (.union otherOccurrence others) other :=
    normalizesInto_of_settles settlesOther
  have presents :=
    normalizes.presents identifiable
      (Arena.identifies_union.mpr identifies)
  have presentsOther :=
    normalizesOther.presents identifiable
      (Arena.identifies_union.mpr identifiesOthers)
  obtain ⟨types, each, rfl⟩ := normalizes.union
  obtain ⟨otherTypes, eachOther, rfl⟩ := normalizesOther.union
  have unites := decides.asks .union
  have unitesOther := decidesOther.asks .union
  have normal :
      ∀ member ∈ members, ∃ normal, checker.NormalizesInto member normal := by
    intro member inMembers
    obtain ⟨normal, _, normalizes⟩ := exists_related_right each inMembers
    exact ⟨normal, normalizes⟩
  have normalOther :
      ∀ member ∈ others, ∃ normal, checker.NormalizesInto member normal := by
    intro member inOthers
    obtain ⟨normal, _, normalizes⟩ := exists_related_right eachOther inOthers
    exact ⟨normal, normalizes⟩
  have decidesEach (member : Ty) (inMembers : member ∈ members) :=
    unites.asks (.member inMembers)
  have decidesEachOther (member : Ty) (inOthers : member ∈ others) :=
    unitesOther.asks (.member inOthers)
  obtain ⟨covers, coversBack⟩ := rearranged.covers
  have represents :=
    represents_of_members identifiable identifies each unites
  have representsOther :=
    represents_of_members identifiable identifiesOthers eachOther unitesOther
  have same :
      checker.arena.Same
        (checker.arena.joinMembers (inhabited (flattenUnion otherTypes)))
        (checker.arena.joinMembers (inhabited (flattenUnion types))) := by
    apply representsOther.join_same represents identifiable
    · exact contents_of_normalizesInto identifiable identifiesOthers eachOther
        unitesOther
    · exact contents_of_normalizesInto identifiable identifies each unites
    · exact offers_of_covers identifiable coversBack identifiesOthers
        decidesEachOther decidesEach normal
    · exact offers_of_covers identifiable covers identifies decidesEach
        decidesEachOther normalOther
  rw [Arena.joinMembers_inhabited, Arena.joinMembers_inhabited] at same
  exact (Arena.identical_iff_alike identifiable presentsOther.identifies
    presents.identifies decided).mpr same

end Checker

section Chains

namespace Checker

/-- Names and primitives, which normalization leaves alone. -/
structure Plain
    (checker : Checker)
    (kind : Ty → Prop) :
    Prop where
  plain :
    ∀ {type},
      kind type →
      type.isNamed = true ∨ ∃ primitive, type = .primitive primitive
  decides :
    ∀ {first second},
      kind first → kind second → checker.arena.Decides first second

variable {checker : Checker} {kind : Ty → Prop}

/-- Names and primitives are their own only alternatives. -/
theorem Plain.alternatives
    {type : Ty}
    (plain : checker.Plain kind)
    (ofKind : kind type) :
    ∀ alternative, type.Alternative alternative → kind alternative := by
  have single : type.isUnion = false := by
    rcases plain.plain ofKind with isNamed | ⟨primitive, rfl⟩
    · cases type with
      | named => rfl
      | _ => cases isNamed
    · rfl
  exact (Ty.forall_alternative_single single).mpr ofKind

/-- What a union of names and primitives is normalized to consists of them. -/
theorem Plain.contents
    {type normal : Ty}
    (plain : checker.Plain kind)
    (chosen : ∀ alternative, type.Alternative alternative → kind alternative)
    (normalizes : checker.NormalizesInto type normal) :
    ∀ content ∈ inhabited normal.members,
      kind content ∧ content.isUnion = false := by
  induction type using Ty.partsInduction generalizing normal with
  | node type inductionHypothesis =>
  by_cases isUnion : type.isUnion = true
  · cases type with
    | union occurrence members =>
        obtain ⟨types, each, rfl⟩ := normalizes.union
        have contents :
            ∀ content ∈ inhabited (flattenUnion types),
              kind content ∧ content.isUnion = false := by
          intro content inContents
          obtain ⟨normal, inTypes, inNormal⟩ :=
            mem_inhabited_flattenUnion.mp inContents
          obtain ⟨member, inMembers, normalizes⟩ :=
            exists_related_left each inTypes
          exact inductionHypothesis member inMembers
            (fun alternative isChosen =>
              chosen alternative (.member inMembers isChosen))
            normalizes content inNormal
        intro content inUnion
        exact contents content
          (Arena.mem_of_mem_joinMembers
            (fun content inContents => (contents content inContents).2) inUnion)
    | _ => cases isUnion
  · rw [Bool.not_eq_true] at isUnion
    have ofKind : kind type := chosen type (.self isUnion)
    have same : normal = type := by
      rcases plain.plain ofKind with isNamed | ⟨primitive, rfl⟩
      · cases type with
        | named =>
            obtain ⟨inner, budget, depth, settles⟩ := normalizes.node rfl
            exact settles.of_pure
        | _ => cases isNamed
      · exact normalizes.primitive
    intro content inNormal
    rw [same, Ty.members_eq isUnion] at inNormal
    cases List.mem_singleton.mp (List.mem_filter.mp inNormal).1
    exact ⟨ofKind, isUnion⟩

/-- An inquiry about unions of types of a kind. -/
inductive Inquires
    (kind : Ty → Prop) :
    Inquiry →
    Prop
  | normalize :
      (∀ alternative, type.Alternative alternative → kind alternative) →
      Inquires kind (.normalize type)
  | unite {members : List Ty} :
      (∀ member ∈ members,
        ∀ alternative, member.Alternative alternative → kind alternative) →
      Inquires kind (.unite members)

/-- Inquiries about unions of names and primitives ask such inquiries only. -/
theorem Inquires.asks
    (inquires : Inquires kind inquiry)
    (plain : checker.Plain kind)
    (asks : checker.Asks inquiry asked) :
    Inquires kind asked := by
  cases inquires with
  | @normalize type chosen =>
      have ofKind (single : type.isUnion = false) :=
        plain.plain (chosen type (.self single))
      cases asks with
      | union =>
          exact .unite fun member inMembers alternative isChosen =>
            chosen alternative (.member inMembers isChosen)
      | part isObject =>
          have single : type.isUnion = false := by
            cases type <;> first | rfl | cases isObject
          rcases ofKind single with isNamed | ⟨_, rfl⟩
          · cases type with
            | named => cases isObject
            | _ => cases isNamed
          · cases isObject
      | _ =>
          rcases ofKind rfl with isNamed | ⟨_, ⟨⟩⟩
          cases isNamed
  | unite chosen =>
      cases asks with
      | member inMembers => exact .normalize (chosen _ inMembers)

/-- Unions of names and primitives decide all comparisons if these do. -/
theorem Plain.decidesAll
    {type : Ty}
    (plain : checker.Plain kind)
    (chosen : ∀ alternative, type.Alternative alternative → kind alternative) :
    checker.DecidesAll (.normalize type) := by
  intro asked reaches
  have inquires : Inquires kind asked := by
    induction reaches with
    | refl => exact .normalize chosen
    | tail _ asks inductionHypothesis => exact inductionHypothesis.asks plain asks
  intro first second compares
  cases inquires with
  | normalize => cases compares
  | @unite members each =>
  cases compares with
  | @unite _ types _ _ normalizes _ _ joins =>
      obtain ⟨earlier, later, before, after, split, kept, _⟩ := joins
      have contents :
          ∀ content ∈ inhabited (flattenUnion types), kind content := by
        intro content inContents
        obtain ⟨normal, inTypes, inNormal⟩ :=
          mem_inhabited_flattenUnion.mp inContents
        obtain ⟨member, inMembers, normalizes⟩ :=
          exists_related_left normalizes inTypes
        exact (plain.contents (each member inMembers) normalizes content
          inNormal).1
      have inEarlier : first ∈ earlier := by
        apply Arena.mem_of_kept
        rw [kept]
        simp
      exact plain.decides (contents first (by simp [split, inEarlier]))
        (contents second (by simp [split]))

/--
Chains with links of one kind and chains whose links take turns are the same, so
the union of both is one of them: the one that is met first.
-/
theorem normalize_rearranged_chains :
    let checker : Checker := { arena := Arena.chains, budget := 20 }
    let members : List Ty := [Arena.chain 0 "Chain", Arena.chain 1 "Even"]
    let others : List Ty :=
      [.ofUnion [Arena.chain 1 "Even", .never], Arena.chain 0 "Chain",
        Arena.chain 1 "Even"]
    checker.arena.Identifiable ∧
      Rearranged members others ∧
      Check.Settles (checker.normalize (.ofUnion members))
        (Arena.chain 0 "Chain") ∧
      Check.Settles (checker.normalize (.ofUnion others))
        (Arena.chain 1 "Even") ∧
      checker.arena.identical (Arena.chain 1 "Even") (Arena.chain 0 "Chain") =
        true := by
  intro checker members others
  have resolves :
      Arena.chains.resolve (Arena.chain 0 "Chain") 1 =
          .resolved (Arena.link none (Arena.chain 0 "Chain")) ∧
        Arena.chains.resolve (Arena.chain 1 "Even") 1 =
          .resolved (Arena.link none (Arena.chain 2 "Odd")) ∧
        Arena.chains.resolve (Arena.chain 2 "Odd") 1 =
          .resolved (Arena.link none (Arena.chain 1 "Even")) := by
    decide +kernel
  obtain ⟨chainResolves, evenResolves, oddResolves⟩ := resolves
  have identifiable : checker.arena.Identifiable := by
    apply Arena.forall_definition checker.arena.Identifies
    exact List.forall_mem_cons.mpr ⟨Arena.identifies_link chainResolves,
      List.forall_mem_cons.mpr ⟨Arena.identifies_link oddResolves,
        List.forall_mem_singleton.mpr (Arena.identifies_link evenResolves)⟩⟩
  have identifies : ∀ member ∈ members, checker.arena.Identifies member :=
    List.forall_mem_cons.mpr ⟨Arena.identifies_chain chainResolves,
      List.forall_mem_singleton.mpr (Arena.identifies_chain evenResolves)⟩
  let kind (type : Ty) : Prop :=
    type = Arena.chain 0 "Chain" ∨ type = Arena.chain 1 "Even" ∨ type = .never
  have plain : checker.Plain kind := by
    constructor
    · rintro type (rfl | rfl | rfl)
      · exact .inl rfl
      · exact .inl rfl
      · exact .inr ⟨_, rfl⟩
    · rintro first second (rfl | rfl | rfl) (rfl | rfl | rfl) <;>
        exact Arena.decides_iff.mpr (by decide +kernel)
  have ofChain := plain.alternatives (.inl rfl)
  have ofEven := plain.alternatives (.inr (.inl rfl))
  have ofNever := plain.alternatives (.inr (.inr rfl))
  have rearranged : Rearranged members others := by
    have repeated : Rearranged members (Arena.chain 1 "Even" :: members) :=
      .repeated (by simp [members]) rfl
    have padded :
        Rearranged (Arena.chain 1 "Even" :: members)
          (.never :: Arena.chain 1 "Even" :: members) :=
      .padded rfl
    have permuted :
        Rearranged (.never :: Arena.chain 1 "Even" :: members)
          ([Arena.chain 1 "Even", .never] ++ members) :=
      .permuted (.swap ..)
    exact ((repeated.trans padded).trans permuted).trans .grouped
  have settles :
      Check.Settles (checker.normalize (.ofUnion members))
        (Arena.chain 0 "Chain") :=
    ⟨[], by decide +kernel, Log.quiet_nil⟩
  have settlesOther :
      Check.Settles (checker.normalize (.ofUnion others))
        (Arena.chain 1 "Even") :=
    ⟨[], by decide +kernel, Log.quiet_nil⟩
  refine ⟨identifiable, rearranged, settles, settlesOther, ?_⟩
  apply normalize_rearranged identifiable identifies rearranged settles
    settlesOther
  · apply plain.decidesAll
    exact Ty.forall_alternative_union.mpr (List.forall_mem_cons.mpr
      ⟨ofChain, List.forall_mem_singleton.mpr ofEven⟩)
  · apply plain.decidesAll
    have inner :
        ∀ alternative,
          (Ty.ofUnion [Arena.chain 1 "Even", .never]).Alternative alternative →
          kind alternative :=
      Ty.forall_alternative_union.mpr (List.forall_mem_cons.mpr
        ⟨ofEven, List.forall_mem_singleton.mpr ofNever⟩)
    exact Ty.forall_alternative_union.mpr (List.forall_mem_cons.mpr
      ⟨inner, List.forall_mem_cons.mpr
        ⟨ofChain, List.forall_mem_singleton.mpr ofEven⟩⟩)
  · exact Arena.decides_iff.mpr (by decide +kernel)

end Checker

end Chains

end StructuralTyping
