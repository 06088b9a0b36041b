import StructuralTyping.Proofs.Ending
import StructuralTyping.Proofs.Limits
import StructuralTyping.Proofs.Lowering
import StructuralTyping.Proofs.Outcomes

namespace StructuralTyping

/-!
# When normalization comes to an end

The depth bound ends every way down through the parts of a type and through the
definitions behind its applications. It does not count the merging of objects:
properties of one name are intersected at the depth of the objects, and an
application among them is evaluated anew each time. Intersections are therefore
done by induction on the weight of their members, which merging and expanding
lower; where an application inside an intersection leads back to itself, there
is no such weight, and normalization may run on forever.
-/

open Check Stateful Ty

namespace Checker

/-- The normalization pass with the whole budget of a checker. -/
def pass
    (checker : Checker) :
    NormalPass :=
  normalPass checker.normalMode checker.budget

instance
    (checker : Checker) :
    checker.pass.Reports := by
  unfold pass
  infer_instance

instance
    (small large : Checker)
    [widens : Checker.Widens gap small large] :
    NormalMode.Widens gap small.normalMode large.normalMode :=
  ⟨widens, small.evaluateWithin_carries large widens.longer, inferInstance, rfl⟩

end Checker

section Calm

variable
  {arena : Arena} {options : Options} {known : Reference → Prop} {depth : Nat}

/-- A checker over an arena with some budget. -/
abbrev checkerOf
    (arena : Arena)
    (options : Options)
    (budget : Nat) :
    Checker :=
  { arena, options, budget }

instance :
    Checker.Widens .budgets
      (checkerOf arena options budget)
      (checkerOf arena options (budget + 1)) :=
  ⟨rfl, rfl, le_rfl, fun _ => rfl, Nat.le_succ budget⟩

/-- The normalization pass of a checker over an arena with some budget. -/
abbrev passOf
    (arena : Arena)
    (options : Options)
    (budget : Nat) :
    NormalPass :=
  (checkerOf arena options budget).pass

/-- The evaluation of a checker over an arena with some budget. -/
abbrev evaluationOf
    (arena : Arena)
    (options : Options)
    (budget : Nat) :
    Evaluation :=
  (checkerOf arena options budget).evaluation

/-- Normalizing a type converges, to a type that it settles with. -/
def NormalizeEnds
    (arena : Arena)
    (options : Options)
    (known : Reference → Prop)
    (depth : Nat)
    (type : Ty) :
    Prop :=
  Converges
    (fun (_ : Unit) budget => (passOf arena options budget).normalize depth type)
    (type.Settles arena known)

@[inherit_doc NormalizeEnds]
def InnerEnds
    (arena : Arena)
    (options : Options)
    (known : Reference → Prop)
    (depth : Nat)
    (type : Ty) :
    Prop :=
  Converges
    (fun (_ : Unit) budget => (passOf arena options budget).inner depth type)
    (type.Settles arena known)

/-- Intersecting some members converges, to a type that they settle with. -/
def IntersectionEnds
    (arena : Arena)
    (options : Options)
    (known : Reference → Prop)
    (depth : Nat)
    (members : List Ty) :
    Prop :=
  Converges
    (fun (_ : Unit) budget =>
      (passOf arena options budget).intersection depth members)
    ((Ty.ofIntersection members).Settles arena known)

/-- An evaluation of an open type ends, and succeeds with a step from it. -/
def EvaluationEnds
    (arena : Arena)
    (known : Reference → Prop)
    (type : Ty)
    (evaluation : Nat → Evaluate Ty) :
    Prop :=
  Ends (fun budget => (evaluation budget).run)
    (Succeeding (type.Lowers arena known true true))

/-- What is met at a depth can be normalized, evaluated and followed. -/
structure EndsAt
    (arena : Arena)
    (options : Options)
    (known : Reference → Prop)
    (depth : Nat) :
    Prop where
  normalize :
    ∀ {type : Ty},
      type.Calm arena known false → NormalizeEnds arena options known depth type
  evaluate :
    ∀ {application : Application Ty},
      application.base.Calm arena known true →
      EvaluationEnds arena known application.base fun budget =>
        (evaluationOf arena options budget).evaluate application depth
  resolve :
    ∀ {type : Ty},
      type.Calm arena known true →
      EvaluationEnds arena known type fun budget =>
        (evaluationOf arena options budget).resolve depth type
  structural :
    ∀ {type : Ty},
      type.Calm arena known true →
      EvaluationEnds arena known type fun budget =>
        (evaluationOf arena options budget).structural depth type

section Normalizing

/-- A part of normalization converges when one more unfolding of it does. -/
theorem pass_ofNext
    {yields : Ty → Prop}
    (part : NormalPass → Normalizing Ty)
    (carries :
      ∀ small large, NormalPass.Carries .budgets small large →
        Stateful.Carries .budgets (part small) (part large))
    (converges :
      Converges
        (fun (_ : Unit) budget =>
          part ((passOf arena options budget).next
            (checkerOf arena options budget).normalMode))
        yields) :
    Converges (fun (_ : Unit) budget => part (passOf arena options budget))
      yields := by
  refine .ofSucc ?_
  change Converges
    (fun (_ : Unit) budget =>
      part ((normalPass (checkerOf arena options (budget + 1)).normalMode
        budget).next (checkerOf arena options (budget + 1)).normalMode))
    yields
  refine converges.carried fun budget => carries _ _ ?_
  have passes :
      NormalPass.Carries .budgets
        (passOf arena options budget)
        (normalPass (checkerOf arena options (budget + 1)).normalMode budget) :=
    normalPass_carries le_rfl
  infer_instance

/-- The operands of an application can be normalized when each of them can be. -/
theorem rebuild_ends
    {application : Application Ty}
    (inner :
      ∀ part ∈ (Ty.generic none application).parts,
        InnerEnds arena options known depth part) :
    Converges
      (fun (_ : Unit) budget =>
        (passOf arena options budget).rebuild depth occurrence application)
      ((Ty.generic occurrence application).Settles arena known) := by
  refine (rebuild_converges inner).weaken fun result found => ?_
  obtain ⟨_, after, rfl, steps⟩ := found
  exact fun opened => .node rfl (steps.imp fun _ _ settles => settles _)

/-- Types in structural positions can be normalized. -/
theorem EndsAt.inner
    (ends : EndsAt arena options known depth)
    {type : Ty}
    (calm : type.Calm arena known false) :
    InnerEnds arena options known depth type := by
  induction type using partsInduction with
  | node type inductionHypothesis =>
      refine pass_ofNext (fun pass => pass.inner depth type)
        (fun _ _ passes => passes.inner depth depth type) ?_
      cases type with
      | generic occurrence application =>
          exact rebuild_ends fun part inside =>
            inductionHypothesis part inside (calm.inside inside).closed
      | _ =>
          exact ends.normalize calm

/-- The union of types that can be normalized can be. -/
theorem EndsAt.union
    (ends : EndsAt arena options known depth)
    {members : List Ty}
    (calm : ∀ member ∈ members, member.Calm arena known false) :
    Converges
      (fun (_ : Unit) budget =>
        (passOf arena options budget).union arena depth members)
      ((Ty.ofUnion members).Settles arena known) := by
  unfold NormalPass.union
  refine (Converges.mapM fun member inMembers =>
    ends.normalize (calm member inMembers)).bind fun types related =>
      .pure fun opened => ?_
  have normal :
      (Ty.ofUnion members).Settles arena known (.ofUnion types) :=
    fun opened => .node rfl (related.imp fun _ _ settles => settles _)
  exact (normal opened).trans
    ((settles_flattenUnion types opened).trans
      (settles_joinMembers (flattenUnion types) opened))

/-- Intersections of tame members converge when they are lighter than a limit. -/
def MeetsBelow
    (arena : Arena)
    (options : Options)
    (known : Reference → Prop)
    (depth limit : Nat) :
    Prop :=
  ∀ members : List Ty,
    (∀ member ∈ members, member.Tame arena known false) →
    (members.map (weight arena.level false)).prod < limit →
    IntersectionEnds arena options known depth members

/-- Two types of members can be intersected, and the result is one of a member. -/
theorem MeetsBelow.pair
    (meets : MeetsBelow arena options known depth limit)
    {first second : Ty}
    (firstTame : first.Tame arena known false)
    (secondTame : second.Tame arena known false)
    (fits :
      memberWeight arena.level first * memberWeight arena.level second ≤
        limit) :
    Converges
      (fun (_ : Unit) budget =>
        (passOf arena options budget).intersection depth [first, second])
      (fun type =>
        type.Tame arena known false ∧
          memberWeight arena.level type ≤
            memberWeight arena.level first *
              memberWeight arena.level second) := by
  have each :
      ∀ member ∈ [first, second], member.Tame arena known false := by
    simp [firstTame, secondTame]
  have tame : (Ty.ofIntersection [first, second]).Tame arena known false :=
    (calm_ofIntersection.mpr each).tame rfl
  have less :
      first.weight arena.level false * second.weight arena.level false <
        memberWeight arena.level first * memberWeight arena.level second :=
    weights_lt_memberWeights first second
  refine (meets [first, second] each ?_).weaken fun type settles =>
    ⟨(settles false).tame tame, memberWeight_meet ?_⟩
  · simp
    omega
  · simpa [ofIntersection] using (settles false).weight tame

/-- Merging one more property into a shape converges. -/
theorem MeetsBelow.mergeProperty
    (meets : MeetsBelow arena options known depth limit)
    {shape : Shape Ty}
    {property : Property Ty}
    (shapeTame : shape.All (Ty.Tame arena known false))
    (propertyTame : property.type.Tame arena known false)
    (fits :
      shape.weight arena.level * memberWeight arena.level property.type ≤
        limit) :
    Converges
      (fun (_ : Unit) budget =>
        (passOf arena options budget).mergeProperty arena depth shape property)
      (fun merged =>
        merged.All (Ty.Tame arena known false) ∧
          merged.weight arena.level ≤
            shape.weight arena.level *
              memberWeight arena.level property.type) := by
  unfold NormalPass.mergeProperty
  cases found : shape.property? property.name with
  | none =>
      refine .pure ⟨⟨?_, shapeTame.keys, shapeTame.values⟩,
        (weight_appendProperty shape property).le⟩
      exact List.forall_mem_append.mpr ⟨shapeTame.properties,
        List.forall_mem_singleton.mpr propertyTame⟩
  | some existing =>
      obtain ⟨inShape, _⟩ := Shape.mem_of_property? found
      have existingTame := shapeTame.properties existing inShape
      have replaced :
          ∀ type : Ty,
            type.Tame arena known false →
            memberWeight arena.level type ≤
              memberWeight arena.level existing.type *
                memberWeight arena.level property.type →
            Shape.All (Ty.Tame arena known false)
                { shape with
                  properties := shape.properties.replace existing
                    (mergedProperty existing property type) } ∧
              Shape.weight arena.level
                  { shape with
                    properties := shape.properties.replace existing
                      (mergedProperty existing property type) } ≤
                shape.weight arena.level *
                  memberWeight arena.level property.type := by
        refine fun type tame light =>
          ⟨⟨fun other member => ?_, shapeTame.keys, shapeTame.values⟩,
            weight_replaceProperty inShape light⟩
        rcases mem_of_mem_replace member with inShape | rfl
        · exact shapeTame.properties other inShape
        · exact tame
      dsimp only
      split
      · exact .pure (replaced existing.type existingTame
          (Nat.le_mul_of_pos_right _ (memberWeight_pos property.type)))
      · refine (meets.pair existingTame propertyTame ?_).bind
          fun type found => .pure (replaced type found.1 found.2)
        exact (Nat.mul_le_mul_right _ (memberWeight_le_shape inShape)).trans
          fits

/-- Merging index signatures converges. -/
theorem MeetsBelow.mergeIndex
    (meets : MeetsBelow arena options known depth limit)
    {first second : Shape Ty}
    (firstTame : first.All (Ty.Tame arena known false))
    (secondTame : second.All (Ty.Tame arena known false))
    (fits :
      indexWeight arena.level first.index *
          indexWeight arena.level second.index ≤
        limit) :
    Converges
      (fun (_ : Unit) budget =>
        (passOf arena options budget).mergeIndex arena depth first.index
          second.index)
      (fun merged =>
        (∀ index, merged = some index →
          index.key.Tame arena known false ∧
            index.value.Tame arena known false) ∧
          indexWeight arena.level merged ≤
            indexWeight arena.level first.index *
              indexWeight arena.level second.index) := by
  have secondPositive : 0 < indexWeight arena.level second.index :=
    indexWeight_pos second.index
  have firstKept :
      (∀ index, first.index = some index →
          index.key.Tame arena known false ∧
            index.value.Tame arena known false) ∧
        indexWeight arena.level first.index ≤
          indexWeight arena.level first.index *
            indexWeight arena.level second.index :=
    ⟨fun index present =>
      ⟨firstTame.keys index present, firstTame.values index present⟩,
      Nat.le_mul_of_pos_right _ secondPositive⟩
  cases firstIndex : first.index with
  | none =>
      refine .pure ⟨fun index present =>
        ⟨secondTame.keys index present, secondTame.values index present⟩, ?_⟩
      simp [indexWeight]
  | some one =>
  cases secondIndex : second.index with
  | none =>
      rw [firstIndex, secondIndex] at firstKept
      exact .pure firstKept
  | some other =>
      rw [firstIndex, secondIndex] at firstKept fits
      simp only [NormalPass.mergeIndex]
      split
      · exact .pure firstKept
      · have keyPositive : 0 < memberWeight arena.level one.key :=
          memberWeight_pos one.key
        have otherPositive : 0 < memberWeight arena.level other.key :=
          memberWeight_pos other.key
        have fitsValues :
            memberWeight arena.level one.value *
                memberWeight arena.level other.value ≤
              indexWeight arena.level (some one) *
                indexWeight arena.level (some other) :=
          Nat.mul_le_mul (Nat.le_mul_of_pos_left _ keyPositive)
            (Nat.le_mul_of_pos_left _ otherPositive)
        refine (meets.pair (firstTame.values one firstIndex)
          (secondTame.values other secondIndex) (fitsValues.trans fits)).bind
            fun value found => .pure ⟨?_, ?_⟩
        · rintro _ ⟨⟩
          exact ⟨firstTame.keys one firstIndex, found.1⟩
        · calc
            _ ≤ memberWeight arena.level one.key *
                  (memberWeight arena.level one.value *
                    memberWeight arena.level other.value) :=
                Nat.mul_le_mul_left _ found.2
            _ = indexWeight arena.level (some one) *
                  memberWeight arena.level other.value :=
                (Nat.mul_assoc ..).symm
            _ ≤ _ :=
                Nat.mul_le_mul_left _ (Nat.le_mul_of_pos_left _ otherPositive)

/-- Merging a second shape into a first converges. -/
theorem MeetsBelow.mergeShape
    (meets : MeetsBelow arena options known depth limit)
    {first second : Shape Ty}
    (firstTame : first.All (Ty.Tame arena known false))
    (secondTame : second.All (Ty.Tame arena known false))
    (fits : first.weight arena.level * second.weight arena.level ≤ limit) :
    Converges
      (fun (_ : Unit) budget =>
        (passOf arena options budget).mergeShape arena depth first second)
      (fun merged =>
        merged.All (Ty.Tame arena known false) ∧
          merged.weight arena.level ≤
            first.weight arena.level * second.weight arena.level) := by
  let weights (properties : List (Property Ty)) : Nat :=
    (properties.map fun property =>
      memberWeight arena.level property.type).prod
  have secondIndex : 0 < indexWeight arena.level second.index :=
    indexWeight_pos second.index
  have whole :
      weights second.properties * indexWeight arena.level second.index ≤
        second.weight arena.level :=
    members_le_shape second
  -- What the shape weighs, and what is left to merge, stay within a product.
  let Remaining (rest : List (Property Ty)) (shape : Shape Ty) : Prop :=
    shape.All (Ty.Tame arena known false) ∧
      (∀ property ∈ rest, property.type.Tame arena known false) ∧
      shape.weight arena.level * weights rest ≤
        first.weight arena.level * weights second.properties
  have properties :
      Converges
        (fun (_ : Unit) budget =>
          second.properties.foldlM
            ((passOf arena options budget).mergeProperty arena depth) first)
        (Remaining []) := by
    refine Converges.foldlM
      ⟨firstTame, secondTame.properties, le_rfl⟩ ?_
    rintro property rest shape ⟨shapeTame, restTame, light⟩
    have factor :
        weights (property :: rest) =
          memberWeight arena.level property.type * weights rest :=
      List.prod_cons
    have restPositive : 0 < weights rest := propertyWeights_pos rest
    rw [factor, ← Nat.mul_assoc] at light
    refine (meets.mergeProperty shapeTame (restTame property (by simp)) ?_).weaken
      fun merged found => ⟨found.1, fun other member =>
        restTame other (.tail _ member),
        (Nat.mul_le_mul_right _ found.2).trans light⟩
    calc
      _ ≤ _ := Nat.le_mul_of_pos_right _ restPositive
      _ ≤ _ := light
      _ ≤ _ := Nat.mul_le_mul_left _
          ((Nat.le_mul_of_pos_right _ secondIndex).trans whole)
      _ ≤ limit := fits
  unfold NormalPass.mergeShape
  refine properties.bind fun shape found => ?_
  obtain ⟨shapeTame, _, light⟩ := found
  have both :
      shape.weight arena.level * indexWeight arena.level second.index ≤
        first.weight arena.level * second.weight arena.level := by
    calc
      _ ≤ first.weight arena.level * weights second.properties *
            indexWeight arena.level second.index :=
          Nat.mul_le_mul_right _ ((Nat.mul_one _).symm.le.trans light)
      _ = first.weight arena.level *
            (weights second.properties *
              indexWeight arena.level second.index) := Nat.mul_assoc ..
      _ ≤ _ := Nat.mul_le_mul_left _ whole
  have shapeIndex :
      indexWeight arena.level shape.index ≤ shape.weight arena.level :=
    (Nat.le_mul_of_pos_left _ (propertyWeights_pos shape.properties)).trans
      (members_le_shape shape)
  refine (meets.mergeIndex shapeTame secondTame
    ((Nat.mul_le_mul_right _ shapeIndex).trans (both.trans fits))).bind
      fun index indexFound => .pure ⟨⟨shapeTame.properties,
        fun found present => (indexFound.1 found present).1,
        fun found present => (indexFound.1 found present).2⟩, ?_⟩
  calc
    _ ≤ 2 * weights shape.properties *
          (indexWeight arena.level shape.index *
            indexWeight arena.level second.index) :=
        Nat.mul_le_mul_left _ indexFound.2
    _ = shape.weight arena.level * indexWeight arena.level second.index :=
        (Nat.mul_assoc ..).symm
    _ ≤ _ := both

/-- Merging the object members of an intersection converges, and is a step. -/
theorem MeetsBelow.mergeObjects
    {members : List Ty}
    (tame : ∀ member ∈ members, member.Tame arena known false)
    (meets :
      MeetsBelow arena options known depth
        (members.map (weight arena.level false)).prod) :
    Converges
      (fun (_ : Unit) budget =>
        (passOf arena options budget).mergeObjects arena depth members)
      (fun merged =>
        (Ty.ofIntersection members).Settles arena known
          (.ofIntersection merged)) := by
  have kept :
      Converges
        (fun (_ : Unit) _ => (pure members : Normalizing (List Ty)))
        (fun merged =>
          (Ty.ofIntersection members).Settles arena known
            (.ofIntersection merged)) :=
    .pure fun _ => .refl
  unfold NormalPass.mergeObjects
  cases shapes : NormalPass.shapesOf members with
  | nil =>
      exact kept
  | cons first others =>
  cases others with
  | nil =>
      exact kept
  | cons second rest =>
      have shapeTame :
          ∀ shape ∈ first :: second :: rest,
            shape.All (Ty.Tame arena known false) := by
        intro shape inShapes
        obtain ⟨occurrence, member⟩ :=
          NormalPass.mem_shapesOf.mp (shapes ▸ inShapes)
        exact tame_object.mp (tame _ member)
      let weights (shapes : List (Shape Ty)) : Nat :=
        (shapes.map (Shape.weight arena.level)).prod
      let Remaining (left : List (Shape Ty)) (shape : Shape Ty) : Prop :=
        shape.All (Ty.Tame arena known false) ∧
          (∀ other ∈ left, other.All (Ty.Tame arena known false)) ∧
          shape.weight arena.level * weights left ≤
            weights (first :: second :: rest)
      have merges :
          Converges
            (fun (_ : Unit) budget =>
              (second :: rest).foldlM
                ((passOf arena options budget).mergeShape arena depth) first)
            (Remaining []) := by
        refine Converges.foldlM
          ⟨shapeTame first (by simp), fun other member =>
            shapeTame other (.tail _ member), List.prod_cons.symm.le⟩ ?_
        rintro other left shape ⟨tame, leftTame, light⟩
        have factor :
            weights (other :: left) =
              other.weight arena.level * weights left :=
          List.prod_cons
        have leftPositive : 0 < weights left := shapeWeights_pos left
        rw [factor, ← Nat.mul_assoc] at light
        refine (meets.mergeShape tame (leftTame other (by simp)) ?_).weaken
          fun merged found => ⟨found.1, fun next member =>
            leftTame next (.tail _ member),
            (Nat.mul_le_mul_right _ found.2).trans light⟩
        calc
          _ ≤ _ := Nat.le_mul_of_pos_right _ leftPositive
          _ ≤ _ := light
          _ = ((NormalPass.shapesOf members).map
                (Shape.weight arena.level)).prod := by rw [shapes]
          _ ≤ _ := weights_shapesOf_le members
      refine merges.bind fun merged found => .pure ?_
      obtain ⟨mergedTame, _, light⟩ := found
      have inShapes : first ∈ NormalPass.shapesOf members := by
        simp [shapes]
      refine settles_replaceObjects mergedTame ?_ inShapes
      rw [shapes]
      exact (Nat.mul_one _).symm.le.trans light

/-- Meeting members without unions to expand converges, and is a step. -/
theorem MeetsBelow.meetMembers
    {types : List Ty}
    (tame : ∀ type ∈ types, type.Tame arena known false)
    (meets :
      MeetsBelow arena options known depth
        (types.map (weight arena.level false)).prod) :
    Converges
      (fun (_ : Unit) budget =>
        (passOf arena options budget).meetMembers arena depth types)
      ((Ty.ofIntersection types).Settles arena known) := by
  unfold NormalPass.meetMembers
  cases types.find? fun type => type.isNever || type.isPrimitive .any with
  | some type =>
      dsimp only
      split
      · exact .pure fun _ => .leaf rfl
      · exact .pure fun _ => .leaf rfl
  | none =>
      have sublist :
          ((types.filter fun type => !type.isPrimitive .unknown).foldl
            arena.appendUnique []).Sublist types :=
        (unique_sublist _).trans List.filter_sublist
      dsimp only
      cases succeeded : reduceAtoms
          ((types.filter fun type => !type.isPrimitive .unknown).foldl
            arena.appendUnique []) with
      | none =>
          exact .pure fun _ => .leaf rfl
      | some reduced =>
          have unique :
              (Ty.ofIntersection types).Settles arena known
                (.ofIntersection
                  ((types.filter fun type => !type.isPrimitive .unknown).foldl
                    arena.appendUnique [])) :=
            fun _ => .fewer rfl sublist
          have reduces :
              (Ty.ofIntersection types).Settles arena known
                (.ofIntersection reduced) :=
            fun opened =>
              (unique opened).trans (settles_reduceAtoms succeeded opened)
          have reducedTame :=
            calm_ofIntersection.mp
              ((reduces false).calm (calm_ofIntersection.mpr tame))
          have reducedLight :
              (reduced.map (weight arena.level false)).prod ≤
                (types.map (weight arena.level false)).prod :=
            (weights_reduceAtoms succeeded).trans (weights_sublist sublist)
          refine (MeetsBelow.mergeObjects reducedTame
            fun members membersTame less =>
              meets members membersTame (less.trans_le reducedLight)).bind
            fun merged merges => ?_
          have settles :
              (Ty.ofIntersection types).Settles arena known
                (.ofIntersection merged) :=
            fun opened => (reduces opened).trans (merges opened)
          cases merged with
          | nil =>
              exact .pure fun _ => .leaf rfl
          | cons first rest =>
              cases rest with
              | nil =>
                  have inside : first ∈ (Ty.ofIntersection [first]).parts :=
                    List.mem_singleton_self first
                  exact .pure fun opened =>
                    (settles opened).trans (.inside inside)
              | cons second rest =>
                  exact .pure settles

/-- Intersections converge when all lighter ones do. -/
theorem EndsAt.nextIntersection
    (ends : EndsAt arena options known depth)
    {members : List Ty}
    (tame : ∀ member ∈ members, member.Tame arena known false)
    (meets :
      MeetsBelow arena options known depth
        (members.map (weight arena.level false)).prod) :
    IntersectionEnds arena options known depth members := by
  refine pass_ofNext (fun pass => pass.intersection depth members)
    (fun _ _ passes => passes.intersection depth depth members) ?_
  change Converges
    (fun (_ : Unit) budget =>
      (passOf arena options budget).nextIntersection arena depth members) _
  unfold NormalPass.nextIntersection
  refine (Converges.mapM fun member inMembers =>
    ends.normalize (tame member inMembers).calm).bind fun types related => ?_
  have normal :
      (Ty.ofIntersection members).Settles arena known (.ofIntersection types) :=
    fun opened => .node rfl (related.imp fun _ _ settles => settles _)
  have flat :
      (Ty.ofIntersection members).Settles arena known
        (.ofIntersection (flattenIntersection types)) :=
    fun opened =>
      (normal opened).trans (settles_flattenIntersection types opened)
  have whole : (Ty.ofIntersection members).Tame arena known false :=
    (calm_ofIntersection.mpr tame).tame rfl
  have flatTame :=
    calm_ofIntersection.mp ((flat false).calm whole.calm)
  have flatLight :
      ((flattenIntersection types).map (weight arena.level false)).prod ≤
        (members.map (weight arena.level false)).prod := by
    have light := (flat false).weight whole
    rw [ofIntersection, ofIntersection, weight_intersection,
      weight_intersection] at light
    omega
  dsimp only
  cases expands : distribute? (flattenIntersection types) with
  | none =>
      refine (MeetsBelow.meetMembers flatTame fun others othersTame less =>
        meets others othersTame (less.trans_le flatLight)).weaken
          fun _ settles opened => (flat opened).trans (settles opened)
  | some combinations =>
      obtain ⟨anyUnion, rfl⟩ := expanded_cases expands
      have choiceTame :
          ∀ choice ∈ choices (flattenIntersection types),
            ∀ member ∈ choice, member.Tame arena known false := by
        intro choice inChoices member inChoice
        obtain ⟨type, inFlat, inType⟩ := mem_of_mem_choice inChoices inChoice
        exact (Lowers.member inType).tame (flatTame type inFlat)
      refine (Converges.mapM fun choice inChoices =>
        meets choice (choiceTame choice inChoices)
          ((weights_choice_lt anyUnion inChoices).trans_le flatLight)).bind
            fun results related => ?_
      have expanded :
          (Ty.ofIntersection members).Settles arena known (.ofUnion results) :=
        fun opened =>
          (flat opened).trans (settles_choices anyUnion related opened)
      have resultsCalm :=
        calm_ofUnion.mp ((expanded false).calm whole.calm)
      exact (ends.union resultsCalm).weaken fun _ settles opened =>
        (expanded opened).trans (settles opened)

/-- Intersections of every weight converge. -/
theorem EndsAt.intersection
    (ends : EndsAt arena options known depth)
    {members : List Ty}
    (tame : ∀ member ∈ members, member.Tame arena known false) :
    IntersectionEnds arena options known depth members := by
  have meets :
      ∀ limit, MeetsBelow arena options known depth limit := by
    intro limit
    induction limit with
    | zero =>
        exact fun _ _ impossible => absurd impossible (Nat.not_lt_zero _)
    | succ limit inductionHypothesis =>
        exact fun others othersTame fits =>
          ends.nextIntersection othersTame fun lighter lighterTame less =>
            inductionHypothesis lighter lighterTame (by omega)
  exact meets _ members tame (Nat.lt_succ_self _)

/-- Nodes whose parts can be normalized and evaluated can be normalized. -/
theorem EndsAt.normalizeNode
    (ends : EndsAt arena options known depth)
    {type : Ty}
    (calm : type.Calm arena known false) :
    Converges
      (fun (_ : Unit) budget =>
        (passOf arena options budget).normalizeNode
          (checkerOf arena options budget).normalMode depth type)
      (type.Settles arena known) := by
  have inner :
      ∀ part ∈ type.parts, InnerEnds arena options known depth part :=
    fun part inside => ends.inner (calm.inside inside).closed
  cases type with
  | absent => exact .pure fun _ => .refl
  | primitive kind => exact .pure fun _ => .refl
  | literal occurrence value => exact .pure fun _ => .refl
  | named reference => exact .pure fun _ => .refl
  | object occurrence shape =>
      exact (normalizeShape_converges inner).bind fun _ steps =>
        .pure fun _ => .node rfl (steps.imp fun _ _ settles => settles _)
  | array occurrence element readonly =>
      refine (inner element (List.mem_singleton_self element)).bind
        fun _ settles => .pure fun _ => .node rfl (.cons (settles _) .nil)
  | tuple occurrence elements readonly =>
      exact (Converges.mapM inner).bind fun _ steps =>
        .pure fun _ => .node rfl (steps.imp fun _ _ settles => settles _)
  | function occurrence signature =>
      exact (normalizeSignature_converges inner).bind fun _ steps =>
        .pure fun _ => .node rfl (steps.imp fun _ _ settles => settles _)
  | union occurrence members =>
      have same :
          (Ty.union occurrence members).Settles arena known
            (.ofUnion members) :=
        fun _ => .fewer rfl (List.Sublist.refl members)
      exact (ends.union (calm_ofUnion.mp ((same false).calm calm))).weaken
        fun _ settles opened => (same opened).trans (settles opened)
  | intersection occurrence members =>
      have same :
          (Ty.intersection occurrence members).Settles arena known
            (.ofIntersection members) :=
        fun _ => .fewer rfl (List.Sublist.refl members)
      exact (ends.intersection
        (calm_ofIntersection.mp ((same false).calm calm))).weaken
          fun _ settles opened => (same opened).trans (settles opened)
  | generic occurrence application =>
      change Converges
        (fun (_ : Unit) budget =>
          (passOf arena options budget).normalizeApplication
            (checkerOf arena options budget).normalMode depth occurrence
            application)
        _
      have inside :
          application.base ∈ (Ty.generic occurrence application).parts :=
        List.mem_cons_self
      have base :
          ∀ opened,
            (Ty.generic occurrence application).Lowers arena known opened true
              application.base :=
        fun opened => .inside inside
      unfold NormalPass.normalizeApplication
      refine (Converges.ofEnds (ends.evaluate ((base false).calm calm))).bind
        fun result found => ?_
      cases result with
      | ok type =>
          have evaluates :
              (Ty.generic occurrence application).Settles arena known type :=
            fun opened => (base opened).trans ((found type rfl).trans .closed)
          exact (ends.normalize ((evaluates false).calm calm)).weaken
            fun _ settles opened => (evaluates opened).trans (settles opened)
      | error error =>
          exact (Converges.ofEnds (.reportFailure error)).bind fun _ _ =>
            rebuild_ends inner

/-- What can be done below the bound can be done where the bound may be met. -/
theorem normalize_ends
    (below : depth < options.maxDepth → EndsAt arena options known (depth + 1))
    {type : Ty}
    (calm : type.Calm arena known false) :
    NormalizeEnds arena options known depth type := by
  have sameBound :
      ∀ budget,
        (checkerOf arena options budget).normalMode.checker.options.maxDepth =
          options.maxDepth :=
    fun _ => rfl
  have kept : type.Settles arena known type :=
    fun _ => .refl
  refine pass_ofNext (fun pass => pass.normalize depth type)
    (fun _ _ passes => passes.normalize depth depth type) ?_
  simp only [NormalPass.next, NormalPass.nextNormalize, sameBound]
  split
  · exact .pure kept
  split
  · exact ((reportOnce_converges type).along fun budget =>
      ⟨(checkerOf arena options budget).normalMode, rfl, rfl⟩).bind
        fun _ _ => .pure kept
  · next within =>
    exact (below (Nat.lt_of_not_le within)).normalizeNode calm

end Normalizing

section Evaluating

/-- A step after an evaluation that ends ends. -/
theorem EvaluationEnds.bind
    {first : Nat → Evaluate Ty}
    {next : Nat → Ty → Evaluate Ty}
    {type : Ty}
    (ends : EvaluationEnds arena known type first)
    (nextEnds :
      ∀ found : Ty,
        type.Lowers arena known true true found →
        EvaluationEnds arena known found fun budget => next budget found) :
    EvaluationEnds arena known type fun budget =>
      first budget >>= next budget :=
  Ends.evaluateBind ends fun found lowers =>
    (nextEnds found lowers).weaken fun _ succeeds value same =>
      lowers.trans (succeeds value same)

/-- Normalization that converges ends as a question of its own. -/
theorem EndsAt.normalizeAt
    (ends : EndsAt arena options known depth)
    {type : Ty}
    (calm : type.Calm arena known true) :
    Ends
      (fun budget => (evaluationOf arena options budget).normalizeAt depth type)
      (type.Lowers arena known true true) :=
  (ends.normalize calm.closed).ends.weaken fun _ settles => settles true

/-- Expanding the names in an intersection ends. -/
theorem EndsAt.mergeMembers
    (ends : EndsAt arena options known depth)
    (next : EndsAt arena options known (depth + 1))
    {members : List Ty}
    (tame : ∀ member ∈ members, member.Tame arena known true) :
    Ends
      (fun budget =>
        (evaluationOf arena options budget).mergeMembers depth members)
      fun merged? =>
        ∀ merged, merged? = some merged →
          (Ty.ofIntersection members).Lowers arena known true true merged := by
  unfold Evaluation.mergeMembers
  split
  · have expands :
        Ends
          (fun budget =>
            (members.mapM fun member : Ty =>
              if member.isReference then
                (evaluationOf arena options budget).resolve depth member
              else
                (pure member : Evaluate Ty)).run)
          (Succeeding
            (List.Forall₂ (Ty.Lowers arena known true true) members)) := by
      refine Ends.evaluateMapM fun member inMembers => ?_
      split
      · exact ends.resolve (tame member inMembers).calm
      · exact .succeed .refl
    refine expands.bind fun result found => ?_
    cases result with
    | error error =>
        exact .pure (by rintro _ ⟨⟩)
    | ok expanded =>
        have resolves :
            (Ty.ofIntersection members).Lowers arena known true true
              (.ofIntersection expanded) :=
          .node rfl (found expanded rfl)
        refine (next.normalizeAt
          (resolves.calm (calm_ofIntersection.mpr tame))).bind
            fun merged lowers => .pure ?_
        rintro _ ⟨⟩
        exact resolves.trans lowers
  · exact .pure (by rintro _ ⟨⟩)

/-- Normalizing a union or an intersection behind references ends. -/
theorem EndsAt.normalizeMerged
    (ends : EndsAt arena options known depth)
    (next : EndsAt arena options known (depth + 1))
    {type : Ty}
    (calm : type.Calm arena known true) :
    Ends
      (fun budget =>
        (evaluationOf arena options budget).normalizeMerged depth type)
      (type.Lowers arena known true true) := by
  unfold Evaluation.normalizeMerged
  refine (ends.normalizeAt calm).bind fun normal lowers => ?_
  cases normal with
  | intersection occurrence members =>
      have same :
          type.Lowers arena known true true (.ofIntersection members) :=
        lowers.trans (.fewer rfl (List.Sublist.refl members))
      refine (ends.mergeMembers next
        (calm_ofIntersection.mp (same.calm calm))).bind
          fun merged? found => ?_
      cases merged? with
      | some merged =>
          exact .pure (same.trans (found merged rfl))
      | none =>
          exact .pure lowers
  | _ =>
      exact .pure lowers

/-- How many references are followed from a depth is told by the bound. -/
theorem resolve_start :
    (evaluationOf arena options budget).resolve depth type =
      (evaluationOf arena options budget).resolveWithin
        (options.maxDepth + 1 - depth) depth type :=
  rfl

/-- Beyond the bound no reference is followed. -/
theorem resolve_fails
    (beyond : options.maxDepth < depth) :
    Ends
      (fun budget =>
        ((evaluationOf arena options budget).resolve depth type).run)
      (Succeeding fun _ => False) := by
  have reached : options.maxDepth + 1 - depth = 0 := by
    omega
  simp only [resolve_start, reached]
  exact .failTooComplex (checkerOf arena options 0) type

/-- Following a reference ends when it does from the next depth on. -/
theorem resolve_ends
    (calmArena : arena.Calm known)
    (below : depth ≤ options.maxDepth → EndsAt arena options known (depth + 1))
    {type : Ty}
    (calm : type.Calm arena known true) :
    EvaluationEnds arena known type fun budget =>
      (evaluationOf arena options budget).resolve depth type := by
  have sameArena :
      ∀ budget, (evaluationOf arena options budget).checker.arena = arena :=
    fun _ => rfl
  by_cases within : depth ≤ options.maxDepth
  · have next := below within
    have further :
        options.maxDepth + 1 - depth =
          options.maxDepth + 1 - (depth + 1) + 1 := by
      omega
    simp only [resolve_start, further]
    cases type with
    | named reference =>
        have followed := Lowers.definition calmArena reference
        simp only [Evaluation.resolveWithin, sameArena]
        split
        · exact .fail _
        · exact (next.resolve (followed.calm calm)).weaken
            fun _ succeeds value same => followed.trans (succeeds value same)
    | generic occurrence application =>
        have inside :
            application.base ∈ (Ty.generic occurrence application).parts :=
          List.mem_cons_self
        have base :
            (Ty.generic occurrence application).Lowers arena known true true
              application.base :=
          .inside inside
        refine Ends.evaluateBind (next.evaluate (base.calm calm))
          fun type evaluates => ?_
        have found := base.trans evaluates
        exact (next.resolve (found.calm calm)).weaken
          fun _ succeeds value same => found.trans (succeeds value same)
    | _ =>
        exact .succeed .refl
  · exact (resolve_fails (Nat.lt_of_not_le within)).weaken
      fun _ fails value succeeds => (fails value succeeds).elim

/-- Looking behind a reference ends when all that it takes does so deeper down. -/
theorem structural_ends
    (calmArena : arena.Calm known)
    (below :
      depth ≤ options.maxDepth →
        ∀ deeper, depth < deeper → EndsAt arena options known deeper)
    {type : Ty}
    (calm : type.Calm arena known true) :
    EvaluationEnds arena known type fun budget =>
      (evaluationOf arena options budget).structural depth type := by
  have start :
      ∀ budget,
        (evaluationOf arena options budget).structural depth type =
          (evaluationOf arena options budget).structuralWithin
            (options.maxDepth + 1 - depth) depth type :=
    fun _ => rfl
  have resolves :=
    resolve_ends calmArena (fun within => below within (depth + 1) (by omega))
      calm
  by_cases within : depth ≤ options.maxDepth
  · have next := below within (depth + 1) (by omega)
    have merges :
        ∀ {type : Ty}, type.Calm arena known true →
          EvaluationEnds arena known type fun budget => do
            let type ←
              (evaluationOf arena options budget).normalizeMerged (depth + 1)
                type
            if type.isReference then
              (evaluationOf arena options budget).structural (depth + 1) type
            else
              return type := by
      intro type calm
      have normalizes :=
        next.normalizeMerged (below within (depth + 2) (by omega)) calm
      refine EvaluationEnds.bind normalizes.evaluateLift fun found lowers => ?_
      split
      · exact next.structural (lowers.calm calm)
      · exact .succeed .refl
    have further :
        options.maxDepth + 1 - depth =
          options.maxDepth + 1 - (depth + 1) + 1 := by
      omega
    simp only [start, further]
    unfold Evaluation.structuralWithin
    refine EvaluationEnds.bind resolves fun found lowers => ?_
    cases found with
    | union occurrence members =>
        exact merges (lowers.calm calm)
    | intersection occurrence members =>
        exact merges (lowers.calm calm)
    | _ =>
        exact .succeed .refl
  · have reached : options.maxDepth + 1 - depth = 0 := by
      omega
    simp only [start, reached]
    unfold Evaluation.structuralWithin
    exact (resolve_fails (Nat.lt_of_not_le within)).evaluateBind
      fun _ impossible => impossible.elim

end Evaluating

section Utilities

/-- An object with fewer members of some types is a step from the object. -/
theorem lowers_object
    {before after : Shape Ty}
    (sublist :
      (Ty.object none after).parts.Sublist (Ty.object none before).parts) :
    (Ty.object occurrence before).Lowers arena known true true
      (.ofShape after) :=
  .fewer rfl sublist

/-- The picked members of an object are a step from it. -/
theorem lowers_pick
    (shape : Shape Ty)
    (keys : List String) :
    (Ty.object occurrence shape).Lowers arena known true true
      (.ofShape (shape.pick keys)) := by
  refine lowers_object ?_
  simp only [Ty.parts, Shape.pick, Option.toList_none, List.flatMap_nil,
    List.append_nil]
  exact (List.filter_sublist.map _).trans (List.sublist_append_left _ _)

/-- The members left over of an object are a step from it. -/
theorem lowers_without
    (shape : Shape Ty)
    (keys : List String) :
    (Ty.object occurrence shape).Lowers arena known true true
      (.ofShape (shape.without keys)) :=
  lowers_object ((List.filter_sublist.map _).append_right _)

/-- Changing properties without their types is a step. -/
theorem lowers_mapProperties
    {change : Property Ty → Property Ty}
    (shape : Shape Ty)
    (keeps : ∀ property, (change property).type = property.type) :
    (Ty.object occurrence shape).Lowers arena known true true
      (.ofShape (shape.mapProperties change)) := by
  have same :
      (Ty.object none (shape.mapProperties change)).parts =
        (Ty.object none shape).parts := by
    simp [Ty.parts, Shape.mapProperties, Function.comp_def, keeps]
  exact lowers_object (same ▸ List.Sublist.refl _)

/-- Looking for the object behind a base ends. -/
theorem EndsAt.objectBase
    (next : EndsAt arena options known (depth + 1))
    {base : Ty}
    (calm : base.Calm arena known true) :
    Ends
      (fun budget =>
        ((evaluationOf arena options budget).objectBase utility depth
          base).run)
      (Succeeding fun shape =>
        base.Lowers arena known true true (.ofShape shape)) := by
  refine Ends.evaluateBind (next.structural calm) fun type lowers => ?_
  cases type with
  | object occurrence shape =>
      exact .succeed (lowers.trans (.fewer rfl (List.Sublist.refl _)))
  | _ =>
      exact .fail _

/-- Looking for the function behind a base ends. -/
theorem EndsAt.functionBase
    (next : EndsAt arena options known (depth + 1))
    {base : Ty}
    (calm : base.Calm arena known true) :
    Ends
      (fun budget =>
        ((evaluationOf arena options budget).functionBase utility depth
          base).run)
      (Succeeding fun signature =>
        base.Lowers arena known true true (.function none signature)) := by
  refine Ends.evaluateBind (next.structural calm) fun type lowers => ?_
  cases type with
  | function occurrence signature =>
      exact .succeed (lowers.trans (.fewer rfl (List.Sublist.refl _)))
  | _ =>
      exact .fail _

/-- Reading a key set ends. -/
theorem keySet_ends
    (utility : String)
    (keys : Ty) :
    Ends
      (fun budget =>
        ((evaluationOf arena options budget).keySet utility keys).run)
      (Succeeding fun _ => True) := by
  have each :
      ∀ member,
        Ends (fun _ => (Evaluation.keyOf utility member).run)
          (Succeeding fun _ => True) := by
    intro member
    unfold Evaluation.keyOf
    split
    · exact .succeed trivial
    · exact .fail _
  have reads :
      ∀ members : List Ty,
        Ends (fun _ => (members.mapM (Evaluation.keyOf utility)).run)
          (Succeeding fun _ => True) :=
    fun members =>
      (Ends.evaluateMapM fun member _ => each member).weaken
        fun _ _ _ _ => trivial
  have sameArena :
      ∀ budget, (evaluationOf arena options budget).checker.arena = arena :=
    fun _ => rfl
  simp only [Evaluation.keySet, sameArena]
  split
  · exact .succeed trivial
  split
  · split
    · exact reads _
    · exact .fail _
  · exact reads _

/-- Reading the base and the keys of a utility ends. -/
theorem EndsAt.keyedBase
    (next : EndsAt arena options known (depth + 1))
    {application : Application Ty}
    (calm : application.base.Calm arena known true) :
    Ends
      (fun budget =>
        ((evaluationOf arena options budget).keyedBase application depth).run)
      (Succeeding fun keyed =>
        application.base.Lowers arena known true true
          (.ofShape keyed.1)) := by
  unfold Evaluation.keyedBase
  rcases application.arguments with _ | ⟨keys, _ | ⟨other, rest⟩⟩
  · exact .fail _
  · refine (next.objectBase calm).evaluateBind fun shape lowers => ?_
    exact (keySet_ends _ keys).evaluateBind fun _ _ => .succeed lowers
  · exact .fail _

/-- Applying a utility ends when looking behind its base does. -/
theorem apply_ends
    (below : depth ≤ options.maxDepth → EndsAt arena options known (depth + 1))
    {application : Application Ty}
    (calm : application.base.Calm arena known true) :
    EvaluationEnds arena known application.base fun budget =>
      (evaluationOf arena options budget).apply application depth := by
  have sameBound :
      ∀ budget,
        (evaluationOf arena options budget).checker.options.maxDepth =
          options.maxDepth :=
    fun _ => rfl
  have refuses :
      Ends (fun _ => (Evaluation.expectNoArguments application).run)
        (Succeeding fun _ => True) := by
    unfold Evaluation.expectNoArguments
    split
    · exact .succeed trivial
    · exact .fail _
  simp only [Evaluation.apply, sameBound]
  split
  · exact .fail _
  split
  · exact .failTooComplex (checkerOf arena options 0) _
  next within =>
  have next := below (Nat.le_of_not_lt within)
  cases Utility.ofName? application.utility with
  | none =>
      exact .fail _
  | some utility =>
  cases utility with
  | pickKeys =>
      refine (next.keyedBase calm).evaluateBind fun keyed lowers => ?_
      dsimp only
      split
      · exact .fail _
      · exact .succeed (lowers.trans (lowers_pick _ _))
  | omitKeys =>
      refine (next.keyedBase calm).evaluateBind fun keyed lowers => ?_
      exact .succeed (lowers.trans (lowers_without _ _))
  | allOptional =>
      refine refuses.evaluateBind fun _ _ => ?_
      refine (next.objectBase calm).evaluateBind fun shape lowers => ?_
      exact .succeed (lowers.trans (lowers_mapProperties _ fun _ => by rfl))
  | allRequired =>
      refine refuses.evaluateBind fun _ _ => ?_
      refine (next.objectBase calm).evaluateBind fun shape lowers => ?_
      exact .succeed (lowers.trans (lowers_mapProperties _ fun _ => by rfl))
  | allReadonly =>
      refine refuses.evaluateBind fun _ _ => ?_
      refine Ends.evaluateBind (next.structural calm) fun type lowers => ?_
      cases type with
      | array occurrence element readonly =>
          exact .succeed (lowers.trans (.fewer rfl (List.Sublist.refl _)))
      | tuple occurrence elements readonly =>
          exact .succeed (lowers.trans (.fewer rfl (List.Sublist.refl _)))
      | object occurrence shape =>
          exact .succeed (lowers.trans (lowers_mapProperties _ fun _ => by rfl))
      | _ =>
          exact .fail _
  | returnType =>
      refine refuses.evaluateBind fun _ _ => ?_
      refine (next.functionBase calm).evaluateBind fun signature lowers => ?_
      have result : signature.result ∈ (Ty.function none signature).parts := by
        simp [Ty.parts]
      have part :
          (Ty.function none signature).Lowers arena known true true
            signature.result :=
        .inside result
      exact .succeed (lowers.trans (part.trans (.orElse rfl)))
  | parameters =>
      refine refuses.evaluateBind fun _ _ => ?_
      refine (next.functionBase calm).evaluateBind fun signature lowers => ?_
      exact .succeed (lowers.trans (lowers_parameters signature))
  | nonNullable =>
      refine refuses.evaluateBind fun _ _ => ?_
      refine Ends.evaluateBind (next.structural calm) fun type lowers => ?_
      have present := lowers.trans (settles_nonNullable type true)
      exact (next.normalizeAt (present.calm calm)).evaluateLift.weaken
        fun _ succeeds value same => present.trans (succeeds value same)

/-- Evaluating an application ends when applying its utility does. -/
theorem evaluate_ends
    (below : depth ≤ options.maxDepth → EndsAt arena options known (depth + 1))
    {application : Application Ty}
    (calm : application.base.Calm arena known true) :
    EvaluationEnds arena known application.base fun budget =>
      (evaluationOf arena options budget).evaluate application depth := by
  refine .ofSucc ((apply_ends below calm).carried fun budget => ?_)
  let larger := checkerOf arena options (budget + 1)
  let evaluation : Evaluation :=
    { checker := larger
      evaluate := larger.evaluateWithin budget
      budget }
  have widens :
      Evaluation.Widens .budgets (evaluationOf arena options budget) evaluation :=
    ⟨(inferInstance :
        Checker.Widens .budgets (checkerOf arena options budget) larger),
      Checker.evaluateWithin_carries _ larger le_rfl, inferInstance, le_rfl⟩
  change
    Check.Carries .budgets _ (evaluation.apply application depth).run
  infer_instance

end Utilities

/-- Whatever is met at a depth ends when it ends deeper down. -/
theorem endsAt_of_deeper
    (calmArena : arena.Calm known)
    (below :
      depth ≤ options.maxDepth →
        ∀ deeper, depth < deeper → EndsAt arena options known deeper) :
    EndsAt arena options known depth where
  normalize calm :=
    normalize_ends
      (fun within => below (Nat.le_of_lt within) _ (Nat.lt_succ_self depth))
      calm
  evaluate calm :=
    evaluate_ends (fun within => below within _ (Nat.lt_succ_self depth)) calm
  resolve calm :=
    resolve_ends calmArena
      (fun within => below within _ (Nat.lt_succ_self depth)) calm
  structural calm :=
    structural_ends calmArena below calm

/-- Whatever is met at any depth ends, since it is cut off beyond the bound. -/
theorem endsAt
    (calmArena : arena.Calm known)
    (options : Options)
    (depth : Nat) :
    EndsAt arena options known depth := by
  obtain ⟨left, reaches⟩ : ∃ left, options.maxDepth + 1 ≤ depth + left :=
    ⟨options.maxDepth + 1, by omega⟩
  induction left generalizing depth with
  | zero =>
      exact endsAt_of_deeper calmArena fun within => by omega
  | succ left inductionHypothesis =>
      exact endsAt_of_deeper calmArena fun _ deeper further =>
        inductionHypothesis deeper (by omega)

end Calm

namespace Checker

/--
Normalization terminates where no application in an intersection leads back to
itself. It has one answer for all budgets from some on, at every depth bound, if
following the names that are open in an intersection comes to an end. Elsewhere
names may lead back to themselves through applications, and names that are not
open may do so anywhere. Only the definitions of names that are followed matter,
so every type without applications has a normal form over every arena.
-/
theorem normalize_terminates
    {known : Reference → Prop}
    {arena : Arena}
    {type : Ty}
    (calmArena : arena.Calm known)
    (calm : type.Calm arena known false)
    (options : Options) :
    ∃ result added enough,
      ∀ budget, enough ≤ budget → ∀ log,
        Checker.normalize { arena, options, budget } type log =
          .ok (result, log ++ added) := by
  obtain ⟨result, added, enough, _, runs⟩ :=
    ((endsAt calmArena options 0).normalize calm).ends []
  exact ⟨result, added, enough, fun budget fits =>
    Check.Appends.run (runs budget fits)⟩

section Nodes

/-- A loosened type of a nodes arena. -/
def loosely
    (id : Nat)
    (name : String) :
    Ty :=
  .generic none
    { utility := "Partial"
      base := .named { arena := 0, id, name }
      arguments := [] }

/--
A node of a list: the loosened next node, or `null`, and a loosened owner with a
tag.
-/
def nodeArena : Arena :=
  { declarations :=
      [{ name := "Owner"
         definition :=
          .ofShape { properties := [{ name := "name", type := .string }] } },
        { name := "Node"
          definition :=
          .ofShape
            { properties :=
                [{ name := "next"
                   type := .ofUnion [loosely 1 "Node", .null] },
                  { name := "owner"
                    type :=
                      .ofIntersection
                        [loosely 0 "Owner",
                          .ofShape
                            { properties :=
                                [{ name := "tag", type := .number }] }] }] } }] }

/-- A node that refers to itself through a utility has a normal form. -/
theorem normalize_terminates_node :
    ∃ result added enough,
      ∀ budget, enough ≤ budget → ∀ log,
        Checker.normalize { arena := nodeArena, options := {}, budget }
            (loosely 1 "Node") log =
          .ok (result, log ++ added) := by
  have calmNode :
      ∀ {opened : Bool} {type : Ty}, type.nodeKind ≠ .intersection →
        (∀ part ∈ type.parts,
          part.Calm nodeArena (fun _ => True) (type.nodeKind.opens opened)) →
        type.Calm nodeArena (fun _ => True) opened :=
    fun other parts =>
      .node (fun _ _ _ => trivial) (fun same => absurd same other) parts
  have loose :
      ∀ {opened : Bool} {id : Nat} {name : String},
        (loosely id name).Calm nodeArena (fun _ => True) opened :=
    calmNode (by simp [loosely, nodeKind]) (List.forall_mem_singleton.mpr
      (calmNode (by simp [nodeKind]) (by simp [Ty.parts])))
  have primitive :
      ∀ {opened : Bool} {kind : Primitive},
        (Ty.primitive kind).Calm nodeArena (fun _ => True) opened :=
    calmNode (by simp [nodeKind]) (by simp [Ty.parts])
  have plainObject :
      ∀ {opened : Bool} {name : String} {kind : Primitive},
        (Ty.ofShape
          { properties := [{ name, type := .primitive kind }] }).Calm
            nodeArena (fun _ => True) opened :=
    calmNode (by simp [ofShape, nodeKind])
      (List.forall_mem_singleton.mpr primitive)
  have plainFollows :
      ∀ {opened : Bool} {name : String} {kind : Primitive}
        {reference : Reference},
        ¬ (Ty.ofShape
            { properties := [{ name, type := .primitive kind }] }).Follows
              reference opened := by
    intro opened name kind reference follows
    obtain ⟨part, inside, follows⟩ := follows.part (by simp [ofShape, nodeKind])
    cases List.mem_singleton.mp inside
    obtain ⟨_, inside, _⟩ := follows.part (by simp [nodeKind])
    simp [Ty.parts] at inside
  have owner :
      nodeArena.Grounded { arena := 0, id := 0, name := "Owner" } := by
    exact .intro _ fun other follows => absurd follows plainFollows
  refine @normalize_terminates (fun _ => True) nodeArena (loosely 1 "Node")
    (fun reference _ => ?_) loose {}
  by_cases undefined : nodeArena.definition reference = .absent
  · rw [undefined]
    exact calmNode (by simp [nodeKind]) (by simp [Ty.parts])
  refine Arena.forall_definition (Ty.Calm nodeArena (fun _ => True) true) ?_
    reference undefined
  refine List.forall_mem_cons.mpr ⟨plainObject,
    List.forall_mem_singleton.mpr (calmNode (by simp [ofShape, nodeKind]) ?_)⟩
  refine List.forall_mem_cons.mpr
    ⟨calmNode (by simp [ofUnion, nodeKind]) (List.forall_mem_cons.mpr
      ⟨loose, List.forall_mem_singleton.mpr primitive⟩),
      List.forall_mem_singleton.mpr ?_⟩
  refine .node (fun _ _ _ => trivial) (fun _ reference follows => ?_)
    (List.forall_mem_cons.mpr
      ⟨loose, List.forall_mem_singleton.mpr plainObject⟩)
  -- The loosened owner is all that this intersection follows.
  obtain ⟨part, inside, follows⟩ :=
    follows.part (by simp [ofIntersection, nodeKind])
  rcases List.mem_cons.mp inside with rfl | isTag
  · obtain ⟨base, isBase, follows⟩ := follows.part (by simp [loosely, nodeKind])
    cases List.mem_singleton.mp isBase
    cases follows with
    | named => exact owner
    | inside impossible _ => simp [Ty.parts] at impossible
  · cases List.mem_singleton.mp isTag
    exact absurd follows plainFollows

end Nodes

section Loops

/-- A loosened `Loose`. -/
def loosened : Ty :=
  .generic none
    { utility := "Partial"
      base := .named { arena := 0, id := 0, name := "Loose" }
      arguments := [] }

/-- A tightened `Strict`. -/
def tightened : Ty :=
  .generic none
    { utility := "Required"
      base := .named { arena := 0, id := 1, name := "Strict" }
      arguments := [] }

/-- An object with a next object. -/
def nextOnly
    (type : Ty)
    (optional : Bool) :
    Ty :=
  .ofShape { properties := [{ name := "next", type, optional }] }

/-- Two kinds of nodes that refer to themselves through different utilities. -/
def loopArena : Arena :=
  { declarations :=
      [{ name := "Loose", definition := nextOnly loosened false },
        { name := "Strict", definition := nextOnly tightened false }] }

/-- A pass over the two kinds of nodes, with budgets for itself and the checker. -/
abbrev loopPass
    (whole budget : Nat) :
    NormalPass :=
  normalPass (checkerOf loopArena {} whole).normalMode budget

/-- Computations that more budget makes the same give the same values. -/
theorem answer_unique
    {first second common : Normalizing α}
    [accountable : Accountable second]
    (firstCarries : Stateful.Carries .budgets first common)
    (secondCarries : Stateful.Carries .budgets second common)
    (runs : ∀ flag, second flag [] = .ok ((answer, flag), []))
    (answers : Answers first value) :
    value = answer := by
  obtain ⟨flag, after, log, last, run⟩ := answers
  have firstRun := (firstCarries.repeats run (.inl trivial)).2
  have shifted : second flag log = .ok ((answer, flag), log) := by
    rw [(accountable.appends flag).shift log, runs flag]
    simp [Except.map]
  have secondRun := (secondCarries.repeats shifted (.inl trivial)).2
  rw [firstRun] at secondRun
  cases secondRun
  rfl

/-- Every run that normalizes an application agrees with one of them. -/
theorem loop_answer
    {whole budget : Nat}
    {type value answer : Ty}
    (runs :
      ∀ flag,
        (loopPass 20 20).normalize 1 type flag [] = .ok ((answer, flag), []))
    (answers : Answers ((loopPass whole budget).normalize 1 type) value) :
    value = answer := by
  have carries :
      ∀ {small own : Nat}, small ≤ max whole 20 → own ≤ max budget 20 →
        NormalPass.Carries .budgets
          (loopPass small own) (loopPass (max whole 20) (max budget 20)) := by
    intro small own longer further
    have widens :
        Checker.Widens .budgets
          (checkerOf loopArena {} small)
          (checkerOf loopArena {} (max whole 20)) :=
      ⟨rfl, rfl, le_rfl, fun _ => rfl, longer⟩
    exact normalPass_carries further
  exact answer_unique
    ((carries (le_max_left ..) (le_max_left ..)).normalize 1 1 type)
    ((carries (le_max_right ..) (le_max_right ..)).normalize 1 1 type)
    runs answers

/-- A loosened node is an object that may hold a loosened node. -/
theorem loosened_runs :
    ∀ flag,
      (loopPass 20 20).normalize 1 loosened flag [] =
        .ok ((nextOnly loosened true, flag), []) := by
  decide +kernel

/-- A tightened node is an object that holds a tightened node. -/
theorem tightened_runs :
    ∀ flag,
      (loopPass 20 20).normalize 1 tightened flag [] =
        .ok ((nextOnly tightened false, flag), []) := by
  decide +kernel

/-- Merging the two objects intersects what they hold. -/
theorem meets_loop
    {pass : NormalPass}
    [pass.Reports]
    (answers :
      Answers
        (pass.meetMembers loopArena 1
          [nextOnly loosened true, nextOnly tightened false])
        value) :
    ∃ met, Answers (pass.intersection 1 [loosened, tightened]) met := by
  have kept :
      [nextOnly loosened true, nextOnly tightened false].find?
          (fun type => type.isNever || type.isPrimitive .any) = none := by
    decide
  have reduced :
      reduceAtoms
          (([nextOnly loosened true, nextOnly tightened false].filter
            fun type => !type.isPrimitive .unknown).foldl
              loopArena.appendUnique []) =
        some [nextOnly loosened true, nextOnly tightened false] := by
    decide +kernel
  unfold NormalPass.meetMembers at answers
  simp only [kept, reduced] at answers
  obtain ⟨merged, merges, _⟩ := Answers.of_bind answers
  obtain ⟨shape, folds, _⟩ := Answers.of_bind merges
  rw [List.foldlM_cons] at folds
  obtain ⟨joined, merges, _⟩ := folds.of_bind
  obtain ⟨_, _, folds, _, _⟩ := NormalPass.mergeShape_cases merges
  obtain ⟨_, merges, _⟩ := Answers.of_bind folds
  rcases NormalPass.mergeProperty_cases merges with
    ⟨missing, _⟩ | ⟨existing, type, found, ⟨identical, _⟩ | ⟨_, meets⟩, _⟩
  · exact absurd missing (by decide)
  · cases found
    exact absurd identical (by decide +kernel)
  · cases found
    exact ⟨type, meets⟩

/-- The intersection of the two utilities leads back to itself. -/
theorem not_answers_loop
    (whole budget : Nat)
    (value : Ty) :
    ¬ Answers
        ((loopPass whole budget).intersection 1 [loosened, tightened]) value := by
  induction budget generalizing value with
  | zero =>
      exact not_answers_exhausted
  | succ budget inductionHypothesis =>
      intro answers
      change
        Answers
          ((loopPass whole budget).nextIntersection loopArena 1
            [loosened, tightened])
          value at answers
      obtain ⟨types, visits, outcome⟩ :=
        NormalPass.nextIntersection_cases answers
      have normal :
          types = [nextOnly loosened true, nextOnly tightened false] := by
        cases Outcome.of_mapM visits with
        | cons first rest =>
        cases rest with
        | cons second rest =>
        cases rest
        rw [loop_answer loosened_runs first, loop_answer tightened_runs second]
      rw [normal] at outcome
      obtain ⟨_, answers⟩ | ⟨anyUnion, _⟩ := outcome
      · obtain ⟨met, meets⟩ := meets_loop answers
        exact inductionHypothesis met meets
      · exact absurd anyUnion (by decide)

/--
Normalization need not terminate. The intersection of two utilities whose objects
hold themselves under one name intersects the same utilities again, at the same
depth, so that no budget is enough for it.
-/
theorem normalize_loops :
    ¬ ∃ budget result,
        Check.Answers
          (Checker.normalize { arena := loopArena, budget }
            (.ofIntersection [loosened, tightened]))
          result := by
  rintro ⟨budget, value, answers⟩
  have normalizes := answers_of_normalizeIn answers
  cases budget with
  | zero =>
      exact not_answers_exhausted normalizes
  | succ budget =>
      exact not_answers_loop (budget + 1) budget value normalizes

end Loops

end Checker

end StructuralTyping
