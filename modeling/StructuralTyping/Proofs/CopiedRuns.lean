import StructuralTyping.Proofs.Comparisons
import StructuralTyping.Proofs.Copies
import StructuralTyping.Proofs.Mirroring

namespace StructuralTyping

/-!
# Copies are normalized to copies

Two runs on copies ask the same inquiries about copies and compare copies. Where
the depth bound of identity has no say, copies compare alike, so the runs go the
same way, at whatever depths and with whatever budgets, and settle with copies.
-/

/-- The union of types that differ has the form of the union of their forms. -/
theorem Ty.ofDistinct_form
    {types : List Ty} :
    Ty.ofDistinct (types.map Ty.form) = (Ty.ofDistinct types).form := by
  rcases types with _ | ⟨type, _ | ⟨other, rest⟩⟩ <;>
    simp [Ty.ofDistinct, Ty.ofUnion]

/-- The forms of the types with values are the forms with values. -/
theorem inhabited_form
    {types : List Ty} :
    inhabited (types.map Ty.form) = (inhabited types).map Ty.form :=
  filter_map_form (by simp)

/-- Copies of shapes stay copies where properties are replaced by merged ones. -/
theorem Shape.replace_merged_of_form
    {shape other : Shape Ty}
    {property twin existing existingTwin : Property Ty}
    {type copy : Ty}
    (same : shape.form = other.form)
    (here : shape.property? property.name = some existing)
    (there : other.property? twin.name = some existingTwin)
    (sameExisting : existing.form = existingTwin.form)
    (sameProperty : property.form = twin.form)
    (sameType : type.form = copy.form) :
    ({ shape with
        properties :=
          shape.properties.replace existing
            (mergedProperty existing property type) } : Shape Ty).form =
      ({ other with
          properties :=
            other.properties.replace existingTwin
              (mergedProperty existingTwin twin copy) } : Shape Ty).form := by
  obtain ⟨sameProperties, sameIndex⟩ := Shape.form_eq_iff.mp same
  obtain ⟨sameName, _, sameOptional, sameReadonly⟩ :=
    Property.form_eq_iff.mp sameExisting
  obtain ⟨_, _, addedOptional, addedReadonly⟩ :=
    Property.form_eq_iff.mp sameProperty
  have first : shape.property? existing.name = some existing :=
    (Shape.mem_of_property? here).2 ▸ here
  have firstTwin : other.property? existingTwin.name = some existingTwin :=
    (Shape.mem_of_property? there).2 ▸ there
  have sameMerged :
      (mergedProperty existing property type).form =
        (mergedProperty existingTwin twin copy).form :=
    Property.form_eq_iff.mpr ⟨sameName, sameType,
      by simp only [mergedProperty, sameOptional, addedOptional],
      by simp only [mergedProperty, sameReadonly, addedReadonly]⟩
  refine Shape.form_eq_iff.mpr ⟨?_, sameIndex⟩
  dsimp only
  rw [← Shape.replace_form first, sameProperties, sameMerged, sameExisting,
    Shape.replace_form firstTwin]

namespace Arena

variable {arena : Arena}

/-- Two types look alike to every level. -/
def Same
    (arena : Arena)
    (first second : Ty) :
    Prop :=
  ∀ levels, arena.Alike levels first second

/-- Copies look alike to every level. -/
theorem Same.of_form
    (identifiable : arena.Identifiable)
    (identifies : arena.Identifies type)
    (same : type.form = copy.form) :
    arena.Same type copy :=
  alike_of_form identifiable identifies (identifies.copy same) same

theorem Same.symm
    (identifiable : arena.Identifiable)
    (identifiesFirst : arena.Identifies first)
    (identifiesSecond : arena.Identifies second)
    (same : arena.Same first second) :
    arena.Same second first :=
  fun levels =>
    (same levels).symm identifiable identifiesFirst identifiesSecond

theorem Same.trans
    (early : arena.Same first second)
    (late : arena.Same second third) :
    arena.Same first third :=
  fun levels => (early levels).trans (late levels)

/-- Copies compare alike where the depth bound has no say. -/
theorem identical_of_form
    (identifiable : arena.Identifiable)
    (identifiesFirst : arena.Identifies first)
    (identifiesSecond : arena.Identifies second)
    (sameFirst : first.form = firstCopy.form)
    (sameSecond : second.form = secondCopy.form)
    (decides : arena.Decides first second)
    (decidesCopies : arena.Decides firstCopy secondCopy) :
    arena.identical first second =
      arena.identical firstCopy secondCopy := by
  have identifiesFirstCopy := identifiesFirst.copy sameFirst
  have identifiesSecondCopy := identifiesSecond.copy sameSecond
  have toFirst := Same.of_form identifiable identifiesFirst sameFirst
  have toSecond := Same.of_form identifiable identifiesSecond sameSecond
  rw [Bool.eq_iff_iff,
    identical_iff_alike identifiable identifiesFirst identifiesSecond decides,
    identical_iff_alike identifiable identifiesFirstCopy identifiesSecondCopy
      decidesCopies]
  constructor
  · intro same
    exact ((toFirst.symm identifiable identifiesFirst identifiesFirstCopy).trans
      same).trans toSecond
  · intro same
    exact (toFirst.trans same).trans
      (toSecond.symm identifiable identifiesSecond identifiesSecondCopy)

/-- A copy is found among copies where the type is found among types. -/
theorem any_identical_of_form
    {kept copies : List Ty}
    (identifiable : arena.Identifiable)
    (identifies : ∀ member ∈ kept, arena.Identifies member)
    (identifiesType : arena.Identifies type)
    (sameKept : kept.map Ty.form = copies.map Ty.form)
    (same : type.form = copy.form)
    (decides :
      ∀ before first after,
        kept = before ++ first :: after →
        (∀ other ∈ before, arena.identical other type = false) →
        arena.Decides first type)
    (decidesCopies :
      ∀ before first after,
        copies = before ++ first :: after →
        (∀ other ∈ before, arena.identical other copy = false) →
        arena.Decides first copy) :
    kept.any (arena.identical · type) = copies.any (arena.identical · copy) := by
  induction kept generalizing copies with
  | nil =>
      cases copies with
      | nil => rfl
      | cons => cases sameKept
  | cons first rest inductionHypothesis =>
      cases copies with
      | nil => cases sameKept
      | cons firstCopy restCopies =>
      rw [List.map_cons, List.map_cons, List.cons.injEq] at sameKept
      have head :=
        identical_of_form identifiable
          (identifies first List.mem_cons_self) identifiesType sameKept.1 same
          (decides [] first rest rfl (by simp))
          (decidesCopies [] firstCopy restCopies rfl (by simp))
      rw [List.any_cons, List.any_cons, ← head]
      cases hit : arena.identical first type with
      | true => rfl
      | false =>
          rw [Bool.false_or, Bool.false_or]
          apply inductionHypothesis _ sameKept.2
          · intro before member after split misses
            apply decides (first :: before) member after
            · rw [split, List.cons_append]
            · exact List.forall_mem_cons.mpr ⟨hit, misses⟩
          · intro before member after split misses
            apply decidesCopies (firstCopy :: before) member after
            · rw [split, List.cons_append]
            · exact List.forall_mem_cons.mpr ⟨head ▸ hit, misses⟩
          · exact fun member inRest => identifies member (.tail _ inRest)

/-- Joining copies keeps copies. -/
theorem foldl_appendUnique_of_form
    {types copies : List Ty}
    (identifiable : arena.Identifiable)
    (identifies : ∀ type ∈ types, arena.Identifies type)
    (same : types.map Ty.form = copies.map Ty.form)
    (decides :
      ∀ {first second},
        arena.JoinCompares types first second → arena.Decides first second)
    (decidesCopies :
      ∀ {first second},
        arena.JoinCompares copies first second → arena.Decides first second) :
    (types.foldl arena.appendUnique []).map Ty.form =
      (copies.foldl arena.appendUnique []).map Ty.form := by
  induction types using List.reverseRecOn generalizing copies with
  | nil =>
      cases copies with
      | nil => rfl
      | cons => cases same
  | append_singleton types type inductionHypothesis =>
      obtain ⟨copies, copy, rfl, pairs, sameLast⟩ :=
        exists_last_of_forall₂ (forall₂_of_map_eq same)
      have sameKept :
          (types.foldl arena.appendUnique []).map Ty.form =
            (copies.foldl arena.appendUnique []).map Ty.form := by
        apply inductionHypothesis _ (map_eq_of_forall₂ pairs)
        · rintro first second ⟨earlier, later, before, after, split, rest⟩
          exact decides ⟨earlier, later ++ [type], before, after,
            by rw [split, List.append_assoc, List.cons_append], rest⟩
        · rintro first second ⟨earlier, later, before, after, split, rest⟩
          exact decidesCopies ⟨earlier, later ++ [copy], before, after,
            by rw [split, List.append_assoc, List.cons_append], rest⟩
        · exact fun member inTypes =>
            identifies member (List.mem_append_left _ inTypes)
      have sameHits :=
        any_identical_of_form identifiable
          (fun member inKept =>
            identifies member
              (List.mem_append_left _
                ((foldl_appendUnique_sublist types []).mem inKept)))
          (identifies type (List.mem_append_right _ (by simp)))
          sameKept sameLast
          (fun before first after split misses =>
            decides ⟨types, [], before, after, rfl, split, misses⟩)
          (fun before first after split misses =>
            decidesCopies ⟨copies, [], before, after, rfl, split, misses⟩)
      rw [List.foldl_append, List.foldl_append]
      simp only [List.foldl_cons, List.foldl_nil, appendUnique, sameHits]
      split
      · exact sameKept
      · rw [List.map_append, List.map_append, sameKept, List.map_singleton,
          List.map_singleton, sameLast]

/-- The union of copies is a copy of the union. -/
theorem joinMembers_of_form
    {types copies : List Ty}
    (identifiable : arena.Identifiable)
    (identifies : ∀ type ∈ types, arena.Identifies type)
    (same : types.map Ty.form = copies.map Ty.form)
    (decides :
      ∀ {first second},
        (inhabited types).any (Ty.isPrimitive · .any) = false →
        (inhabited types).any (Ty.isPrimitive · .unknown) = false →
        arena.JoinCompares (inhabited types) first second →
        arena.Decides first second)
    (decidesCopies :
      ∀ {first second},
        (inhabited copies).any (Ty.isPrimitive · .any) = false →
        (inhabited copies).any (Ty.isPrimitive · .unknown) = false →
        arena.JoinCompares (inhabited copies) first second →
        arena.Decides first second) :
    (arena.joinMembers types).form = (arena.joinMembers copies).form := by
  have sameInhabited :
      (inhabited types).map Ty.form = (inhabited copies).map Ty.form := by
    rw [← inhabited_form, same, inhabited_form]
  have sameAny (kind : Primitive) :
      (inhabited types).any (Ty.isPrimitive · kind) =
        (inhabited copies).any (Ty.isPrimitive · kind) := by
    rw [← any_map_form fun _ => Ty.isPrimitive_form, sameInhabited,
      any_map_form fun _ => Ty.isPrimitive_form]
  rw [joinMembers_eq, joinMembers_eq, ← sameAny, ← sameAny]
  split
  · rfl
  next noAny =>
  split
  · rfl
  next noUnknown =>
  rw [Bool.not_eq_true] at noAny noUnknown
  have kept :
      ((inhabited types).foldl arena.appendUnique []).map Ty.form =
        ((inhabited copies).foldl arena.appendUnique []).map Ty.form :=
    foldl_appendUnique_of_form identifiable
      (fun type inhabits => identifies type (List.mem_filter.mp inhabits).1)
      sameInhabited (decides noAny noUnknown)
      (decidesCopies (sameAny _ ▸ noAny) (sameAny _ ▸ noUnknown))
  rw [← Ty.ofDistinct_form, kept, Ty.ofDistinct_form]

end Arena

open Stateful

/-- Two passes that settle with copies on copies. -/
structure NormalPass.Mirrors
    (checker : Checker)
    (first second : NormalPass) :
    Prop where
  normalize :
    ∀ {depth flat type copy},
      type.form = copy.form →
      checker.arena.Identifies type →
      checker.DecidesAll (.normalize type) →
      checker.DecidesAll (.normalize copy) →
      Stateful.Mirrors (fun type copy => type.form = copy.form)
        (first.normalize depth type) (second.normalize flat copy)
  inner :
    ∀ {depth flat type copy},
      type.form = copy.form →
      checker.arena.Identifies type →
      checker.DecidesAll (.inner type) →
      checker.DecidesAll (.inner copy) →
      Stateful.Mirrors (fun type copy => type.form = copy.form)
        (first.inner depth type) (second.inner flat copy)
  intersection :
    ∀ {depth flat members copies},
      members.map Ty.form = copies.map Ty.form →
      (∀ member ∈ members, checker.arena.Identifies member) →
      checker.DecidesAll (.meet members) →
      checker.DecidesAll (.meet copies) →
      Stateful.Mirrors (fun type copy => type.form = copy.form)
        (first.intersection depth members) (second.intersection flat copies)

/-- Two evaluators that settle with copies, or both with failures, on copies. -/
def Evaluator.Mirrors
    (checker : Checker)
    (first second : Evaluator) :
    Prop :=
  ∀ {application copy : Application Ty} {depth flat},
    application.form = copy.form →
    (application.base.isAbsent = false →
      checker.arena.Identifies application.base) →
    checker.DecidesAll (.evaluate application) →
    checker.DecidesAll (.evaluate copy) →
    Evaluate.Mirrors (fun type copy => type.form = copy.form)
      (first application depth) (second copy flat)

/-- Visits that settle item by item lead somewhere on the way. -/
theorem Checker.Uses.normalizesAll
    {checker : Checker}
    {pass : NormalPass}
    [pass.Reports]
    (uses : checker.Uses pass)
    {types results : List Ty}
    (settles : Settles (types.mapM (pass.normalize depth)) results) :
    List.Forall₂ checker.NormalizesInto types results :=
  settles.of_mapM.imp fun _ _ settles => ⟨pass, depth, uses, settles⟩

namespace NormalPass.Mirrors

variable
  {checker : Checker} {first second : NormalPass}
  [first.Reports] [second.Reports]
  (identifiable : checker.arena.Identifiable)
  (usesFirst : checker.Uses first)
  (usesSecond : checker.Uses second)
  (presents : first.Presents checker.arena)
  (mirrors : NormalPass.Mirrors checker first second)

include mirrors

/-- Copies are normalized to copies, one after the other. -/
theorem normalizeAll
    {types copies : List Ty}
    (same : types.map Ty.form = copies.map Ty.form)
    (identifies : ∀ type ∈ types, checker.arena.Identifies type)
    (decides : ∀ type ∈ types, checker.DecidesAll (.normalize type))
    (decidesCopies : ∀ copy ∈ copies, checker.DecidesAll (.normalize copy)) :
    Stateful.Mirrors
      (fun types copies => types.map Ty.form = copies.map Ty.form)
      (types.mapM (first.normalize depth))
      (copies.mapM (second.normalize flat)) := by
  constructor
  intro results others settles settlesOthers
  apply map_eq_of_forall₂
  refine (Stateful.Mirrors.mapM ?_).relates settles settlesOthers
  exact forall₂_imp_of_mem (forall₂_of_map_eq same)
    fun type inTypes copy inCopies same =>
      mirrors.normalize same (identifies type inTypes) (decides type inTypes)
        (decidesCopies copy inCopies)

@[inherit_doc normalizeAll]
theorem innerAll
    {types copies : List Ty}
    (same : types.map Ty.form = copies.map Ty.form)
    (identifies : ∀ type ∈ types, checker.arena.Identifies type)
    (decides : ∀ type ∈ types, checker.DecidesAll (.inner type))
    (decidesCopies : ∀ copy ∈ copies, checker.DecidesAll (.inner copy)) :
    Stateful.Mirrors
      (fun types copies => types.map Ty.form = copies.map Ty.form)
      (types.mapM (first.inner depth)) (copies.mapM (second.inner flat)) := by
  constructor
  intro results others settles settlesOthers
  apply map_eq_of_forall₂
  refine (Stateful.Mirrors.mapM ?_).relates settles settlesOthers
  exact forall₂_imp_of_mem (forall₂_of_map_eq same)
    fun type inTypes copy inCopies same =>
      mirrors.inner same (identifies type inTypes) (decides type inTypes)
        (decidesCopies copy inCopies)

include identifiable usesFirst usesSecond presents in
/-- The unions of copies are copies. -/
theorem union
    {members copies : List Ty}
    (same : members.map Ty.form = copies.map Ty.form)
    (identifies : ∀ member ∈ members, checker.arena.Identifies member)
    (decides : checker.DecidesAll (.unite members))
    (decidesCopies : checker.DecidesAll (.unite copies)) :
    Stateful.Mirrors (fun type copy => type.form = copy.form)
      (first.union checker.arena depth members)
      (second.union checker.arena flat copies) := by
  unfold NormalPass.union
  apply Stateful.Mirrors.bind
  · exact mirrors.normalizeAll same identifies
      (fun _ member => decides.asks (.member member))
      (fun _ member => decidesCopies.asks (.member member))
  intro types others settles settlesOthers same
  apply Stateful.Mirrors.pure
  apply Arena.joinMembers_of_form identifiable
  · intro type inFlat
    obtain ⟨whole, inTypes, inWhole⟩ := List.mem_flatMap.mp inFlat
    have presented :=
      presents.normalizeAll identifies settles whole inTypes
    exact (presented.members inWhole).identifies
  · rw [← flattenUnion_form, same, flattenUnion_form]
  · intro _ _ noAny noUnknown compares
    exact decides.compares
      (.unite (usesFirst.normalizesAll settles) noAny noUnknown compares)
  · intro _ _ noAny noUnknown compares
    exact decidesCopies.compares
      (.unite (usesSecond.normalizesAll settlesOthers) noAny noUnknown
        compares)

omit [first.Reports] [second.Reports] in
include identifiable in
/-- Merging a copy of a property into a copy of a shape gives a copy. -/
theorem mergeProperty
    {shape other : Shape Ty}
    (same : shape.form = other.form)
    (sameProperty : property.form = twin.form)
    (each : shape.Each checker.arena.Presents)
    (presented : checker.arena.Presents property.type)
    (decides : checker.DecidesAll (.mergeProperty shape property))
    (decidesCopy : checker.DecidesAll (.mergeProperty other twin)) :
    Stateful.Mirrors (fun shape other => shape.form = other.form)
      (first.mergeProperty checker.arena depth shape property)
      (second.mergeProperty checker.arena flat other twin) := by
  obtain ⟨sameName, sameType, _, _⟩ := Property.form_eq_iff.mp sameProperty
  obtain ⟨sameProperties, sameIndex⟩ := Shape.form_eq_iff.mp same
  have found :
      (shape.property? property.name).map Property.form =
        (other.property? twin.name).map Property.form := by
    rw [← Shape.property?_form, same, sameName, Shape.property?_form]
  unfold NormalPass.mergeProperty
  cases here : shape.property? property.name with
  | none =>
      rw [here] at found
      rw [Option.map_eq_none_iff.mp found.symm]
      apply Stateful.Mirrors.pure
      apply Shape.form_eq_iff.mpr
      rw [List.map_append, List.map_append, sameProperties, List.map_singleton,
        List.map_singleton, sameProperty]
      exact ⟨rfl, sameIndex⟩
  | some existing =>
      rw [here] at found
      obtain ⟨existingTwin, there, sameExisting⟩ :=
        Option.map_eq_some_iff.mp found.symm
      rw [there]
      obtain ⟨_, existingType, _, _⟩ :=
        Property.form_eq_iff.mp sameExisting.symm
      have identifies : checker.arena.Identifies existing.type :=
        (each.properties existing (Shape.mem_of_property? here).1).identifies
      have alike :=
        Arena.identical_of_form identifiable identifies presented.identifies
          existingType sameType (decides.compares (.property here))
          (decidesCopy.compares (.property there))
      have merges
          {type copy : Ty}
          (sameMet : type.form = copy.form) :=
        Shape.replace_merged_of_form same here there sameExisting.symm
          sameProperty sameMet
      dsimp only
      rw [← alike]
      split
      · exact .pure (merges existingType)
      · next differs =>
        rw [Bool.not_eq_true] at differs
        apply Stateful.Mirrors.bind
        · apply mirrors.intersection
          · simp [existingType, sameType]
          · simp [identifies, presented.identifies]
          · exact decides.asks (.propertyTypes here differs)
          · exact decidesCopy.asks (.propertyTypes there (alike ▸ differs))
        intro type copy _ _ sameMet
        exact .pure (merges sameMet)

omit [first.Reports] [second.Reports] in
include identifiable in
/-- Merging copies of index signatures gives copies. -/
theorem mergeIndex
    {one other oneCopy otherCopy : Option (IndexSignature Ty)}
    (sameOne : one.map IndexSignature.form = oneCopy.map IndexSignature.form)
    (sameOther :
      other.map IndexSignature.form = otherCopy.map IndexSignature.form)
    (presentsOne :
      ∀ index, one = some index → checker.arena.Presents index.value)
    (presentsOther :
      ∀ index, other = some index → checker.arena.Presents index.value)
    (decides :
      ∀ index added,
        one = some index →
        other = some added →
        checker.DecidesAll (.mergeIndex index added))
    (decidesCopies :
      ∀ index added,
        oneCopy = some index →
        otherCopy = some added →
        checker.DecidesAll (.mergeIndex index added)) :
    Stateful.Mirrors
      (fun index copy =>
        index.map IndexSignature.form = copy.map IndexSignature.form)
      (first.mergeIndex checker.arena depth one other)
      (second.mergeIndex checker.arena flat oneCopy otherCopy) := by
  cases one with
  | none =>
      rw [Option.map_eq_none_iff.mp sameOne.symm]
      exact .pure sameOther
  | some index =>
  obtain ⟨copy, rfl, copied⟩ := Option.map_eq_some_iff.mp sameOne.symm
  cases other with
  | none =>
      rw [Option.map_eq_none_iff.mp sameOther.symm]
      exact .pure sameOne
  | some added =>
  obtain ⟨addedCopy, rfl, addedCopied⟩ := Option.map_eq_some_iff.mp sameOther.symm
  obtain ⟨sameKey, sameValue⟩ := IndexSignature.form_eq_iff.mp copied.symm
  obtain ⟨_, sameAdded⟩ := IndexSignature.form_eq_iff.mp addedCopied.symm
  have decidesHere := decides index added rfl rfl
  have decidesThere := decidesCopies copy addedCopy rfl rfl
  have identifies := (presentsOne index rfl).identifies
  have identifiesAdded := (presentsOther added rfl).identifies
  have alike :=
    Arena.identical_of_form identifiable identifies identifiesAdded sameValue
      sameAdded (decidesHere.compares .index) (decidesThere.compares .index)
  unfold NormalPass.mergeIndex
  dsimp only
  rw [← alike]
  split
  · exact .pure sameOne
  · next differs =>
    rw [Bool.not_eq_true] at differs
    apply Stateful.Mirrors.bind
    · apply mirrors.intersection
      · simp [sameValue, sameAdded]
      · simp [identifies, identifiesAdded]
      · exact decidesHere.asks (.indexValues differs)
      · exact decidesThere.asks (.indexValues (alike ▸ differs))
    intro value valueCopy _ _ sameMet
    apply Stateful.Mirrors.pure
    exact congrArg some (IndexSignature.form_eq_iff.mpr ⟨sameKey, sameMet⟩)

include identifiable usesFirst usesSecond presents in
/-- Merging a copy of a shape into a copy of another gives a copy. -/
theorem mergeShape
    {shape other added addedCopy : Shape Ty}
    (same : shape.form = other.form)
    (sameAdded : added.form = addedCopy.form)
    (each : shape.Each checker.arena.Presents)
    (addedEach : added.Each checker.arena.Presents)
    (decides : checker.DecidesAll (.mergeShape shape added))
    (decidesCopy : checker.DecidesAll (.mergeShape other addedCopy)) :
    Stateful.Mirrors (fun shape other => shape.form = other.form)
      (first.mergeShape checker.arena depth shape added)
      (second.mergeShape checker.arena flat other addedCopy) := by
  obtain ⟨sameProperties, sameIndex⟩ := Shape.form_eq_iff.mp sameAdded
  have joined
      {properties : List (Property Ty)}
      {merged : Shape Ty}
      (within : ∀ property ∈ properties, property ∈ added.properties)
      (joins :
        Settles
          (properties.foldlM (first.mergeProperty checker.arena depth) shape)
          merged) :
      merged.Each checker.arena.Presents :=
    Outcome.of_foldlM joins each fun shape each property member _ settles =>
      presents.mergeProperty each
        (addedEach.properties property (within property member)) settles
  unfold NormalPass.mergeShape
  apply Stateful.Mirrors.bind
  · show
      Stateful.Mirrors (fun shape other : Shape Ty => shape.form = other.form)
        _ _
    refine Stateful.Mirrors.foldlM (forall₂_of_map_eq sameProperties) same ?_
    intro earlier property later earlierTwin twin laterTwin state stateTwin split
      splitTwin reached reachedTwin sameProperty sameState
    apply mirrors.mergeProperty identifiable sameState sameProperty
    · apply joined _ reached
      simp +contextual [split]
    · exact addedEach.properties property (by simp [split])
    · exact decides.asks (.property split ⟨first, depth, usesFirst, reached⟩)
    · exact decidesCopy.asks
        (.property splitTwin ⟨second, flat, usesSecond, reachedTwin⟩)
  intro merged mergedTwin joins joinsTwin sameMerged
  obtain ⟨mergedProperties, mergedIndex⟩ := Shape.form_eq_iff.mp sameMerged
  apply Stateful.Mirrors.bind
  · apply mirrors.mergeIndex identifiable mergedIndex sameIndex
    · exact (joined (fun _ => id) joins).values
    · exact addedEach.values
    · intro index added isIndex isAdded
      exact decides.asks
        (.index ⟨first, depth, usesFirst, joins⟩ isIndex isAdded)
    · intro index added isIndex isAdded
      exact decidesCopy.asks
        (.index ⟨second, flat, usesSecond, joinsTwin⟩ isIndex isAdded)
  intro index indexTwin _ _ sameMet
  exact .pure (Shape.form_eq_iff.mpr ⟨mergedProperties, sameMet⟩)

include identifiable usesFirst usesSecond presents in
/-- Merging copies of the objects among some members gives copies. -/
theorem mergeObjects
    {members copies : List Ty}
    (same : members.map Ty.form = copies.map Ty.form)
    (presented : ∀ member ∈ members, checker.arena.Presents member)
    (decides :
      ∀ shape earlier added later merged,
        NormalPass.shapesOf members = shape :: (earlier ++ added :: later) →
        checker.MergesShapes earlier shape merged →
        checker.DecidesAll (.mergeShape merged added))
    (decidesCopies :
      ∀ shape earlier added later merged,
        NormalPass.shapesOf copies = shape :: (earlier ++ added :: later) →
        checker.MergesShapes earlier shape merged →
        checker.DecidesAll (.mergeShape merged added)) :
    Stateful.Mirrors
      (fun members copies => members.map Ty.form = copies.map Ty.form)
      (first.mergeObjects checker.arena depth members)
      (second.mergeObjects checker.arena flat copies) := by
  have sameShapes :
      (NormalPass.shapesOf members).map Shape.form =
        (NormalPass.shapesOf copies).map Shape.form := by
    rw [← shapesOf_form, same, shapesOf_form]
  have each :
      ∀ shape ∈ NormalPass.shapesOf members,
        shape.Each checker.arena.Presents := by
    intro shape listed
    obtain ⟨occurrence, member⟩ := NormalPass.mem_shapesOf.mp listed
    exact (presented _ member).object
  unfold NormalPass.mergeObjects
  rcases here : NormalPass.shapesOf members with _ | ⟨shape, _ | ⟨added, rest⟩⟩
  · rw [here] at sameShapes
    rw [List.map_eq_nil_iff.mp sameShapes.symm]
    exact .pure same
  · rw [here] at sameShapes
    obtain ⟨copy, _, there, _, nothing⟩ := List.map_eq_cons_iff.mp sameShapes.symm
    rw [there, List.map_eq_nil_iff.mp nothing]
    exact .pure same
  rw [here] at sameShapes
  obtain ⟨copy, others, there, sameShape, sameOthers⟩ :=
    List.map_eq_cons_iff.mp sameShapes.symm
  obtain ⟨addedCopy, restCopies, rfl, _, _⟩ := List.map_eq_cons_iff.mp sameOthers
  rw [there]
  have merged
      {shapes : List (Shape Ty)}
      {merged : Shape Ty}
      (within : ∀ other ∈ shapes, other ∈ added :: rest)
      (folds :
        Settles (shapes.foldlM (first.mergeShape checker.arena depth) shape)
          merged) :
      merged.Each checker.arena.Presents :=
    Outcome.of_foldlM folds (each shape (by simp [here]))
      fun shape shapeEach other member _ settles =>
        presents.mergeShape shapeEach
          (each other (here ▸ .tail _ (within other member))) settles
  apply Stateful.Mirrors.bind
  · show
      Stateful.Mirrors (fun shape other : Shape Ty => shape.form = other.form)
        _ _
    refine
      Stateful.Mirrors.foldlM (forall₂_of_map_eq sameOthers.symm) sameShape.symm
        ?_
    intro earlier item later earlierCopy itemCopy laterCopy state stateCopy split
      splitCopy reached reachedCopy sameItem sameState
    apply mirrors.mergeShape identifiable usesFirst usesSecond presents
      sameState sameItem
    · apply merged _ reached
      simp +contextual [split]
    · exact each item (by simp [here, split])
    · exact decides shape earlier item later state (split ▸ here)
        ⟨first, depth, usesFirst, reached⟩
    · exact decidesCopies copy earlierCopy itemCopy laterCopy stateCopy
        (splitCopy ▸ there) ⟨second, flat, usesSecond, reachedCopy⟩
  intro merged mergedCopy _ _ sameMerged
  apply Stateful.Mirrors.pure
  have copied : (Ty.ofShape merged).form = (Ty.ofShape mergedCopy).form :=
    (Ty.form_object.trans (congrArg _ sameMerged)).trans Ty.form_object.symm
  rw [← replaceObjects_form, same, copied, replaceObjects_form]

include identifiable usesFirst usesSecond presents in
/-- The intersections of copies without unions are copies. -/
theorem meetMembers
    {types copies : List Ty}
    (same : types.map Ty.form = copies.map Ty.form)
    (presented : ∀ type ∈ types, checker.arena.Presents type)
    (decides : checker.DecidesAll (.reduce types))
    (decidesCopies : checker.DecidesAll (.reduce copies)) :
    Stateful.Mirrors (fun type copy => type.form = copy.form)
      (first.meetMembers checker.arena depth types)
      (second.meetMembers checker.arena flat copies) := by
  have sameFound :=
    congrArg (List.find? fun type => type.isNever || type.isPrimitive .any) same
  rw [find?_map_form (by simp), find?_map_form (by simp)] at sameFound
  unfold NormalPass.meetMembers
  cases here :
      types.find? fun type => type.isNever || type.isPrimitive .any with
  | some type =>
      rw [here] at sameFound
      obtain ⟨copy, there, sameType⟩ :=
        Option.map_eq_some_iff.mp sameFound.symm
      rw [there]
      apply Stateful.Mirrors.pure
      rw [← Ty.isNever_form, ← sameType, Ty.isNever_form]
  | none =>
  rw [here] at sameFound
  have there := Option.map_eq_none_iff.mp sameFound.symm
  rw [there]
  have sameKept :
      ((types.filter fun type => !type.isPrimitive .unknown).foldl
          checker.arena.appendUnique []).map Ty.form =
        ((copies.filter fun type => !type.isPrimitive .unknown).foldl
          checker.arena.appendUnique []).map Ty.form := by
    apply Arena.foldl_appendUnique_of_form identifiable
    · intro type kept
      exact (presented type (List.mem_filter.mp kept).1).identifies
    · rw [← filter_map_form (by simp), same, filter_map_form (by simp)]
    · exact fun compares => decides.compares (.reduce here compares)
    · exact fun compares => decidesCopies.compares (.reduce there compares)
  have sameReduced := congrArg reduceAtoms sameKept
  rw [reduceAtoms_form, reduceAtoms_form] at sameReduced
  dsimp only
  cases reduced :
      reduceAtoms
        ((types.filter fun type => !type.isPrimitive .unknown).foldl
          checker.arena.appendUnique []) with
  | none =>
      rw [reduced] at sameReduced
      rw [Option.map_eq_none_iff.mp sameReduced.symm]
      exact .pure rfl
  | some members =>
  rw [reduced] at sameReduced
  obtain ⟨memberCopies, reducedCopies, sameMembers⟩ :=
    Option.map_eq_some_iff.mp sameReduced.symm
  rw [reducedCopies]
  dsimp only
  apply
    @Stateful.Mirrors.bind _ _ _ _ _ _ _ _ _ _
      (fun _ => by split <;> infer_instance)
      (fun _ => by split <;> infer_instance)
  · apply mirrors.mergeObjects identifiable usesFirst usesSecond presents
      sameMembers.symm
    · intro member inMembers
      have inTypes :=
        (List.mem_filter.mp
          ((foldl_appendUnique_sublist _ []).mem
            (mem_of_mem_reduceAtoms reduced inMembers))).1
      exact presented member inTypes
    · intro shape earlier added later merged listed merges
      exact decides.asks (.shape here reduced listed merges)
    · intro shape earlier added later merged listed merges
      exact decidesCopies.asks (.shape there reducedCopies listed merges)
  intro merged mergedCopies _ _ sameMerged
  rcases merged with _ | ⟨type, _ | ⟨other, rest⟩⟩
  · rw [List.map_eq_nil_iff.mp sameMerged.symm]
    exact .pure rfl
  · obtain ⟨copy, _, rfl, sameType, nothing⟩ :=
      List.map_eq_cons_iff.mp sameMerged.symm
    rw [List.map_eq_nil_iff.mp nothing]
    exact .pure sameType.symm
  · obtain ⟨copy, _, rfl, _, others⟩ := List.map_eq_cons_iff.mp sameMerged.symm
    obtain ⟨otherCopy, restCopies, rfl, _, _⟩ := List.map_eq_cons_iff.mp others
    apply Stateful.Mirrors.pure
    simpa [Ty.ofIntersection] using sameMerged

include identifiable usesFirst usesSecond presents in
/-- The intersections of copies are copies. -/
theorem nextIntersection
    {members copies : List Ty}
    (same : members.map Ty.form = copies.map Ty.form)
    (identifies : ∀ member ∈ members, checker.arena.Identifies member)
    (decides : checker.DecidesAll (.meet members))
    (decidesCopies : checker.DecidesAll (.meet copies)) :
    Stateful.Mirrors (fun type copy => type.form = copy.form)
      (first.nextIntersection checker.arena depth members)
      (second.nextIntersection checker.arena flat copies) := by
  simp only [NormalPass.nextIntersection]
  apply
    @Stateful.Mirrors.bind _ _ _ _ _ _ _ _ _ _
      (fun _ => by split <;> infer_instance)
      (fun _ => by split <;> infer_instance)
  · exact mirrors.normalizeAll same identifies
      (fun _ member => decides.asks (.factor member))
      (fun _ member => decidesCopies.asks (.factor member))
  intro types typeCopies settles settlesCopies sameTypes
  have visits := usesFirst.normalizesAll settles
  have visitCopies := usesSecond.normalizesAll settlesCopies
  have presented :=
    Arena.Presents.factors (presents.normalizeAll identifies settles)
  have sameFlat :
      (flattenIntersection types).map Ty.form =
        (flattenIntersection typeCopies).map Ty.form := by
    rw [← flattenIntersection_form, sameTypes, flattenIntersection_form]
  have sameChoices := congrArg distribute? sameFlat
  rw [distribute?_form, distribute?_form] at sameChoices
  cases here : distribute? (flattenIntersection types) with
  | none =>
      rw [here] at sameChoices
      have there := Option.map_eq_none_iff.mp sameChoices.symm
      rw [there]
      exact mirrors.meetMembers identifiable usesFirst usesSecond presents
        sameFlat presented (decides.asks (.reduced visits here))
        (decidesCopies.asks (.reduced visitCopies there))
  | some combinations =>
      rw [here] at sameChoices
      obtain ⟨combinationCopies, there, sameCombinations⟩ :=
        Option.map_eq_some_iff.mp sameChoices.symm
      rw [there]
      have identifiesChoice :
          ∀ combination ∈ combinations, ∀ member ∈ combination,
            checker.arena.Identifies member := by
        intro combination inChoices member inChoice
        obtain ⟨_, rfl⟩ := expanded_cases here
        obtain ⟨type, inFlat, inType⟩ := mem_of_mem_choice inChoices inChoice
        exact ((presented type inFlat).members inType).identifies
      dsimp only
      apply Stateful.Mirrors.bind
      · apply Stateful.Mirrors.mapM
        refine forall₂_imp_of_mem (forall₂_of_map_eq sameCombinations.symm) ?_
        intro combination inChoices combinationCopy inCopies sameCombination
        exact mirrors.intersection sameCombination
          (identifiesChoice combination inChoices)
          (decides.asks (.choice visits here inChoices))
          (decidesCopies.asks (.choice visitCopies there inCopies))
      intro results resultCopies meets meetCopies sameResults
      have meetsIn : List.Forall₂ checker.MeetsInto combinations results :=
        meets.of_mapM.imp fun _ _ settles => ⟨first, depth, usesFirst, settles⟩
      have meetsInCopies :
          List.Forall₂ checker.MeetsInto combinationCopies resultCopies :=
        meetCopies.of_mapM.imp fun _ _ settles =>
          ⟨second, flat, usesSecond, settles⟩
      apply mirrors.union identifiable usesFirst usesSecond presents
      · exact map_eq_of_forall₂ sameResults
      · intro result inResults
        obtain ⟨combination, inChoices, settles⟩ :=
          exists_related_left meets.of_mapM inResults
        exact (presents.intersection (identifiesChoice combination inChoices)
          settles).identifies
      · exact decides.asks (.joined visits here meetsIn)
      · exact decidesCopies.asks (.joined visitCopies there meetsInCopies)

/-- The parts of copies of an object are normalized to copies. -/
theorem normalizeShape
    {shape other : Shape Ty}
    (same : shape.form = other.form)
    (identifies : shape.All checker.arena.Identifies)
    (decides : shape.All fun type => checker.DecidesAll (.inner type))
    (decidesCopy : other.All fun type => checker.DecidesAll (.inner type)) :
    Stateful.Mirrors (fun shape other => shape.form = other.form)
      (first.normalizeShape depth shape)
      (second.normalizeShape flat other) := by
  obtain ⟨sameProperties, sameIndex⟩ := Shape.form_eq_iff.mp same
  unfold NormalPass.normalizeShape
  apply
    @Stateful.Mirrors.bind _ _ _ _ _ _ _ _ _ _
      (fun _ => by
        cases shape.index <;>
          (simp only [Option.mapM_none, Option.mapM_some]; infer_instance))
      (fun _ => by
        cases other.index <;>
          (simp only [Option.mapM_none, Option.mapM_some]; infer_instance))
  · show
      Stateful.Mirrors
        (List.Forall₂ fun one other : Property Ty => one.form = other.form) _ _
    apply Stateful.Mirrors.mapM
    refine forall₂_imp_of_mem (forall₂_of_map_eq sameProperties) ?_
    intro property inShape twin inOther sameProperty
    obtain ⟨sameName, sameType, rest⟩ := Property.form_eq_iff.mp sameProperty
    apply Stateful.Mirrors.bind
    · exact mirrors.inner sameType (identifies.properties property inShape)
        (decides.properties property inShape)
        (decidesCopy.properties twin inOther)
    intro type copy _ _ sameInner
    exact .pure (Property.form_eq_iff.mpr ⟨sameName, sameInner, rest⟩)
  intro properties copies _ _ samePairs
  have sameNormal : properties.map Property.form = copies.map Property.form :=
    map_eq_of_forall₂ samePairs
  cases here : shape.index with
  | none =>
      rw [here] at sameIndex
      rw [Option.map_eq_none_iff.mp sameIndex.symm]
      exact .pure (Shape.form_eq_iff.mpr ⟨sameNormal, rfl⟩)
  | some index =>
      rw [here] at sameIndex
      obtain ⟨twin, there, copied⟩ := Option.map_eq_some_iff.mp sameIndex.symm
      obtain ⟨sameKey, sameValue⟩ := IndexSignature.form_eq_iff.mp copied.symm
      simp only [there, Option.mapM_some, map_eq_pure_bind, bind_assoc,
        pure_bind]
      apply Stateful.Mirrors.bind
      · exact mirrors.inner sameKey (identifies.keys index here)
          (decides.keys index here) (decidesCopy.keys twin there)
      intro key keyCopy _ _ sameKey
      apply Stateful.Mirrors.bind
      · exact mirrors.inner sameValue (identifies.values index here)
          (decides.values index here) (decidesCopy.values twin there)
      intro value valueCopy _ _ sameValue
      apply Stateful.Mirrors.pure
      refine Shape.form_eq_iff.mpr ⟨sameNormal, ?_⟩
      exact congrArg some (IndexSignature.form_eq_iff.mpr ⟨sameKey, sameValue⟩)

/-- The parts of copies of a signature are normalized to copies. -/
theorem normalizeSignature
    {signature other : Signature Ty}
    (same : signature.form = other.form)
    (identifies :
      ∀ part ∈ (Ty.function occurrence signature).parts,
        checker.arena.Identifies part)
    (decides :
      ∀ part ∈ (Ty.function occurrence signature).parts,
        checker.DecidesAll (.inner part))
    (decidesCopy :
      ∀ part ∈ (Ty.function occurrenceCopy other).parts,
        checker.DecidesAll (.inner part)) :
    Stateful.Mirrors (fun signature other => signature.form = other.form)
      (first.normalizeSignature depth signature)
      (second.normalizeSignature flat other) := by
  obtain ⟨sameParameters, sameRest, sameResult, sameMethod⟩ :=
    Signature.form_eq_iff.mp same
  rw [Ty.forall_parts_function] at identifies decides decidesCopy
  unfold NormalPass.normalizeSignature
  apply Stateful.Mirrors.bind
  · show
      Stateful.Mirrors
        (List.Forall₂ fun one other : Parameter Ty => one.form = other.form) _ _
    apply Stateful.Mirrors.mapM
    refine forall₂_imp_of_mem (forall₂_of_map_eq sameParameters) ?_
    intro parameter inSignature twin inOther sameParameter
    obtain ⟨sameName, sameType, sameOptional⟩ :=
      Parameter.form_eq_iff.mp sameParameter
    apply Stateful.Mirrors.bind
    · exact mirrors.inner sameType (identifies.1 parameter inSignature)
        (decides.1 parameter inSignature) (decidesCopy.1 twin inOther)
    intro type copy _ _ sameInner
    exact .pure
      (Parameter.form_eq_iff.mpr ⟨sameName, sameInner, sameOptional⟩)
  intro parameters copies _ _ samePairs
  have sameNormal : parameters.map Parameter.form = copies.map Parameter.form :=
    map_eq_of_forall₂ samePairs
  apply Stateful.Mirrors.bind
  · exact mirrors.inner sameRest identifies.2.1 decides.2.1 decidesCopy.2.1
  intro rest restCopy _ _ sameRest
  apply Stateful.Mirrors.bind
  · exact mirrors.inner sameResult identifies.2.2 decides.2.2 decidesCopy.2.2
  intro result resultCopy _ _ sameResult
  exact .pure
    (Signature.form_eq_iff.mpr ⟨sameNormal, sameRest, sameResult, sameMethod⟩)

/-- Copies of an application that stay become copies. -/
theorem rebuild
    {application other : Application Ty}
    (same : application.form = other.form)
    (identifies :
      ∀ part ∈ (Ty.generic occurrence application).parts,
        checker.arena.Identifies part)
    (decides : checker.DecidesAll (.inner (.generic occurrence application)))
    (decidesCopy : checker.DecidesAll (.inner (.generic occurrenceCopy other))) :
    Stateful.Mirrors (fun type copy => type.form = copy.form)
      (first.rebuild depth occurrence application)
      (second.rebuild flat occurrenceCopy other) := by
  obtain ⟨sameUtility, sameBase, sameArguments⟩ :=
    Application.form_eq_iff.mp same
  have asks :
      ∀ part ∈ (Ty.generic occurrence application).parts,
        checker.DecidesAll (.inner part) :=
    fun _ inside => decides.asks (.operand inside)
  have asksCopy :
      ∀ part ∈ (Ty.generic occurrenceCopy other).parts,
        checker.DecidesAll (.inner part) :=
    fun _ inside => decidesCopy.asks (.operand inside)
  rw [Ty.forall_parts_generic] at identifies asks asksCopy
  constructor
  intro result resultCopy settles settlesCopy
  obtain ⟨kept, base, arguments, baseSettles, argumentsSettle, rfl⟩ :=
    rebuild_cases settles
  obtain ⟨keptCopy, baseCopy, argumentCopies, baseCopySettles,
    copiesSettle, rfl⟩ := rebuild_cases settlesCopy
  have sameNormal :=
    (mirrors.inner sameBase identifies.1 asks.1 asksCopy.1).relates baseSettles
      baseCopySettles
  have sameOperands :=
    (mirrors.innerAll sameArguments identifies.2 asks.2 asksCopy.2).relates
      argumentsSettle copiesSettle
  rw [Ty.form_generic, Ty.form_generic]
  exact congrArg _
    (Application.form_eq_iff.mpr ⟨sameUtility, sameNormal, sameOperands⟩)

variable
  {budget less : Nat}
  (evaluates :
    Evaluator.Mirrors checker (checker.evaluateWithin budget)
      (checker.evaluateWithin less))

include identifiable evaluates in
/-- Copies of an application evaluate and are normalized to copies, or stay. -/
theorem normalizeApplication
    {application other : Application Ty}
    (same : application.form = other.form)
    (identifies :
      ∀ part ∈ (Ty.generic occurrence application).parts,
        checker.arena.Identifies part)
    (decides : checker.DecidesAll (.normalize (.generic occurrence application)))
    (decidesCopy :
      checker.DecidesAll (.normalize (.generic occurrenceCopy other))) :
    Stateful.Mirrors (fun type copy => type.form = copy.form)
      (first.normalizeApplication (checker.modeWithin budget) depth occurrence
        application)
      (second.normalizeApplication (checker.modeWithin less) flat
        occurrenceCopy other) := by
  have identifiesBase : checker.arena.Identifies application.base :=
    (Ty.forall_parts_generic.mp identifies).1
  unfold NormalPass.normalizeApplication
  apply
    @Stateful.Mirrors.bind _ _ _ _ _ _ _ _ _ _
      (fun _ => by split <;> infer_instance)
      (fun _ => by split <;> infer_instance)
  · exact .lift (evaluates same (fun _ => identifiesBase)
      (decides.asks .application) (decidesCopy.asks .application))
  intro outcome outcomeCopy settles settlesCopy sameOutcome
  cases sameOutcome with
  | ok sameType =>
      apply mirrors.normalize sameType
      · exact Checker.evaluateWithin_identifies identifiable budget
          (fun _ => identifiesBase) settles.of_lift
      · exact decides.asks (.evaluated ⟨budget, _, settles.of_lift⟩)
      · exact decidesCopy.asks (.evaluated ⟨less, _, settlesCopy.of_lift⟩)
  | error =>
      apply Stateful.Mirrors.bind
      · exact ⟨fun _ _ => trivial⟩
      intro _ _ _ _ _
      exact mirrors.rebuild same identifies
        (decides.asks (.failed ⟨budget, _, settles.of_lift⟩))
        (decidesCopy.asks (.failed ⟨less, _, settlesCopy.of_lift⟩))

include identifiable evaluates usesFirst usesSecond presents in
/-- Copies below the depth bound are normalized to copies. -/
theorem normalizeNode
    {type copy : Ty}
    (same : type.form = copy.form)
    (identifies : checker.arena.Identifies type)
    (decides : checker.DecidesAll (.normalize type))
    (decidesCopy : checker.DecidesAll (.normalize copy)) :
    Stateful.Mirrors (fun type copy => type.form = copy.form)
      (first.normalizeNode (checker.modeWithin budget) depth type)
      (second.normalizeNode (checker.modeWithin less) flat copy) := by
  cases Ty.copied_of_form same with
  | absent => exact .pure rfl
  | primitive => exact .pure rfl
  | literal => exact .pure same
  | named => exact .pure rfl
  | object sameShape =>
      apply Stateful.Mirrors.bind
      · exact mirrors.normalizeShape sameShape
          (Ty.forall_parts_object.mp identifies.parts)
          (Ty.forall_parts_object.mp fun _ inside =>
            decides.asks (.part rfl inside))
          (Ty.forall_parts_object.mp fun _ inside =>
            decidesCopy.asks (.part rfl inside))
      intro shape other _ _ sameNormal
      apply Stateful.Mirrors.pure
      simpa [Ty.ofShape] using sameNormal
  | array sameElement =>
      apply Stateful.Mirrors.bind
      · exact mirrors.inner sameElement
          (identifies.parts _ List.mem_cons_self)
          (decides.asks (.part rfl List.mem_cons_self))
          (decidesCopy.asks (.part rfl List.mem_cons_self))
      intro element other _ _ sameNormal
      apply Stateful.Mirrors.pure
      simpa using sameNormal
  | tuple sameElements =>
      apply Stateful.Mirrors.bind
      · exact mirrors.innerAll sameElements
          identifies.parts
          (fun _ inside => decides.asks (.part rfl inside))
          (fun _ inside => decidesCopy.asks (.part rfl inside))
      intro elements others _ _ sameNormal
      apply Stateful.Mirrors.pure
      simpa using sameNormal
  | function sameSignature =>
      apply Stateful.Mirrors.bind
      · exact mirrors.normalizeSignature sameSignature
          identifies.parts
          (fun _ inside => decides.asks (.part rfl inside))
          (fun _ inside => decidesCopy.asks (.part rfl inside))
      intro signature other _ _ sameNormal
      apply Stateful.Mirrors.pure
      simpa using sameNormal
  | union sameMembers =>
      exact mirrors.union identifiable usesFirst usesSecond presents
        sameMembers identifies.parts (decides.asks .union)
        (decidesCopy.asks .union)
  | intersection sameMembers =>
      exact mirrors.intersection sameMembers identifies.parts
        (decides.asks .intersection) (decidesCopy.asks .intersection)
  | generic sameApplication =>
      exact mirrors.normalizeApplication identifiable evaluates sameApplication
        identifies.parts decides decidesCopy

include identifiable evaluates usesFirst usesSecond presents in
/-- The next passes normalize copies to copies if the passes do. -/
theorem next :
    NormalPass.Mirrors checker (first.next (checker.modeWithin budget))
      (second.next (checker.modeWithin less)) where
  normalize {depth flat type copy} same identifies decides decidesCopy := by
    show
      Stateful.Mirrors _
        (first.nextNormalize (checker.modeWithin budget) depth type)
        (second.nextNormalize (checker.modeWithin less) flat copy)
    have sameAbsent : copy.isAbsent = type.isAbsent := by
      rw [← Ty.isAbsent_form, ← same, Ty.isAbsent_form]
    unfold NormalPass.nextNormalize
    rw [sameAbsent]
    split
    · exact .pure same
    -- A pass that meets its depth bound reports that and does not settle.
    split
    · constructor
      intro _ _ settles _
      obtain ⟨_, reported, _⟩ := settles.of_bind
      exact absurd reported not_settles_reportOnce
    split
    · constructor
      intro _ _ _ settles
      obtain ⟨_, reported, _⟩ := settles.of_bind
      exact absurd reported not_settles_reportOnce
    · exact mirrors.normalizeNode identifiable usesFirst usesSecond presents
        evaluates same identifies decides decidesCopy
  inner {depth flat type copy} same identifies decides decidesCopy := by
    show
      Stateful.Mirrors _ (first.nextInner depth type)
        (second.nextInner flat copy)
    cases Ty.copied_of_form same with
    | generic sameApplication =>
        exact mirrors.rebuild sameApplication identifies.parts decides
          decidesCopy
    | _ =>
        exact mirrors.normalize same identifies (decides.asks (.whole rfl))
          (decidesCopy.asks (.whole rfl))
  intersection same identifies decides decidesCopies :=
    mirrors.nextIntersection identifiable usesFirst usesSecond presents same
      identifies decides decidesCopies

end NormalPass.Mirrors

namespace Checker

variable {checker : Checker} (identifiable : checker.arena.Identifiable)
include identifiable

/-- Passes on the way settle with types that can be told apart. -/
theorem Uses.presents
    {pass : NormalPass}
    (uses : checker.Uses pass) :
    pass.Presents checker.arena := by
  obtain ⟨inner, budget, rfl⟩ := uses.within
  have keepsTidy : (checker.modeWithin inner).evaluate.Keeps Ty.Tidy :=
    (keeps_tidy identifiable.tidy).evaluateWithin inner
  have keepsNames :
      (checker.modeWithin inner).evaluate.Keeps
        (Ty.Naming checker.arena.Resolves) :=
    (keeps_resolving identifiable).evaluateWithin inner
  exact
    ⟨normalPass_canonizes _ keepsTidy budget,
      normalPass_keepsNames _ keepsNames budget⟩

/-- Passes normalize copies to copies if the evaluations in them do. -/
theorem normalPass_mirrors
    {budget less : Nat}
    (evaluates :
      Evaluator.Mirrors checker (checker.evaluateWithin budget)
        (checker.evaluateWithin less))
    (high low : Nat) :
    NormalPass.Mirrors checker (normalPass (checker.modeWithin budget) high)
      (normalPass (checker.modeWithin less) low) := by
  induction high generalizing low with
  | zero =>
      exact
        { normalize := fun _ _ _ _ =>
            ⟨fun settles => (not_settles_emptyPass settles).elim⟩
          inner := fun _ _ _ _ =>
            ⟨fun settles => (not_settles_emptyPass settles).elim⟩
          intersection := fun _ _ _ _ =>
            ⟨fun settles => (not_settles_emptyPass settles).elim⟩ }
  | succ high inductionHypothesis =>
      cases low with
      | zero =>
          exact
            { normalize := fun _ _ _ _ =>
                ⟨fun _ settles => (not_settles_emptyPass settles).elim⟩
              inner := fun _ _ _ _ =>
                ⟨fun _ settles => (not_settles_emptyPass settles).elim⟩
              intersection := fun _ _ _ _ =>
                ⟨fun _ settles => (not_settles_emptyPass settles).elim⟩ }
      | succ low =>
          rw [normalPass_succ, normalPass_succ]
          have uses :
              checker.Uses (normalPass (checker.modeWithin budget) high) :=
            ⟨budget, high, rfl⟩
          exact (inductionHypothesis low).next identifiable uses
            ⟨less, low, rfl⟩ (uses.presents identifiable) evaluates

end Checker

end StructuralTyping
