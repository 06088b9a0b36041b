import Mathlib.Algebra.BigOperators.Ring.List
import Mathlib.Algebra.Order.BigOperators.Group.List
import Mathlib.Algebra.Order.BigOperators.GroupWithZero.List
import Mathlib.Algebra.Order.Ring.Nat
import Mathlib.Tactic.Ring
import StructuralTyping.Proofs.Nodes
import StructuralTyping.Proofs.NormalizeMeaning

namespace StructuralTyping

/-!
# How heavy a type can become

A part of a type stands open when evaluation may follow the names in it: the
operands of an application do, and from there on the members of unions and
intersections and the parts of functions. Objects and sequences guard the names
in them. The weight of a type adds up the members of a union and multiplies
those of an intersection and the parts of other nodes; a name counts only where
it is open, with the weight of its definition. Expanding an intersection over
its unions, merging its objects and evaluating an application make nothing
heavier.
-/

namespace Ty

/-- A part of a type is smaller than the type. -/
theorem sizeOf_part_lt
    {type part : Ty}
    (inside : part ∈ type.parts) :
    sizeOf part < sizeOf type := by
  cases type with
  | object occurrence shape =>
      obtain ⟨properties, index⟩ := shape
      rcases List.mem_append.mp inside with inProperties | inIndex
      · obtain ⟨property, member, rfl⟩ := List.mem_map.mp inProperties
        have smaller := List.sizeOf_lt_of_mem member
        cases property
        simp only [Property.mk.sizeOf_spec] at smaller
        simp only [object.sizeOf_spec, Shape.mk.sizeOf_spec]
        omega
      · cases index with
        | none => simp at inIndex
        | some index =>
            cases index
            simp at inIndex
            rcases inIndex with rfl | rfl <;> simp <;> omega
  | array occurrence element readonly =>
      simp [parts] at inside
      subst inside
      simp only [array.sizeOf_spec]
      omega
  | tuple occurrence elements readonly =>
      have smaller : sizeOf part < sizeOf elements :=
        List.sizeOf_lt_of_mem inside
      simp
      omega
  | function occurrence signature =>
      cases signature
      simp [parts] at inside
      rcases inside with ⟨parameter, member, rfl⟩ | rfl | rfl
      · have smaller := List.sizeOf_lt_of_mem member
        cases parameter
        simp only [Parameter.mk.sizeOf_spec] at smaller
        simp only [function.sizeOf_spec, Signature.mk.sizeOf_spec]
        omega
      · simp
        omega
      · simp
        omega
  | union occurrence members =>
      have smaller : sizeOf part < sizeOf members :=
        List.sizeOf_lt_of_mem inside
      simp
      omega
  | intersection occurrence members =>
      have smaller : sizeOf part < sizeOf members :=
        List.sizeOf_lt_of_mem inside
      simp
      omega
  | generic occurrence application =>
      cases application
      rcases List.mem_cons.mp inside with rfl | member
      · simp
        omega
      · have := List.sizeOf_lt_of_mem member
        simp at this ⊢
        omega
  | _ => simp [parts] at inside

/-- Induction over types, from the parts of a type to the type. -/
theorem partsInduction
    {motive : Ty → Prop}
    (node : ∀ type : Ty, (∀ part ∈ type.parts, motive part) → motive type)
    (type : Ty) :
    motive type :=
  node type fun part _ => partsInduction node part
termination_by sizeOf type
decreasing_by exact sizeOf_part_lt ‹_›

end Ty

/-- What counts of a node when it is followed or weighed. -/
inductive NodeKind where
  | leaf
  | name (reference : Reference)
  | guard
  | function
  | union
  | intersection
  | application

/-- The kind of a node. -/
def Ty.nodeKind :
    Ty →
    NodeKind
  | .named reference => .name reference
  | .object _ _ => .guard
  | .array _ _ _ => .guard
  | .tuple _ _ _ => .guard
  | .function _ _ => .function
  | .union _ _ => .union
  | .intersection _ _ => .intersection
  | .generic _ _ => .application
  | _ => .leaf

namespace NodeKind

/-- Whether the parts of a node stand open when the node does. -/
def opens
    (opened : Bool) :
    NodeKind →
    Bool
  | guard => false
  | application => true
  | _ => opened

/-- The weight of a node with parts of given weights. -/
def weight
    (level : Reference → Nat)
    (opened : Bool) :
    NodeKind →
    List Nat →
    Nat
  | name reference, _ => if opened then level reference + 2 else 2
  | union, weights => weights.sum + 2
  | intersection, weights => 2 * weights.prod
  | function, weights => 2 * (weights.map fun weight => 2 * (weight + 5)).prod
  | _, weights => 2 * (weights.map fun weight => 2 * (weight + 1)).prod

end NodeKind

namespace Ty

/--
Evaluation of a type that stands open or not may follow a name: it is open
itself, or stands open in a part.
-/
inductive Follows
    (reference : Reference) :
    (opened : Bool) →
    Ty →
    Prop
  | named :
      Follows reference true (.named reference)
  | inside :
      part ∈ type.parts →
      Follows reference (type.nodeKind.opens opened) part →
      Follows reference opened type

/-- A name that a type follows and is not itself, it follows in a part. -/
theorem Follows.part
    {type : Ty}
    (follows : type.Follows reference opened)
    (other : type.nodeKind ≠ .name reference) :
    ∃ part ∈ type.parts,
      part.Follows reference (type.nodeKind.opens opened) := by
  cases follows with
  | named => exact absurd rfl other
  | inside inside follows => exact ⟨_, inside, follows⟩

/-- The weight of a type, with names that stand open at given levels. -/
def weight
    (level : Reference → Nat)
    (opened : Bool)
    (type : Ty) :
    Nat :=
  type.nodeKind.weight level opened
    (type.parts.pmap
      (fun part (_ : part ∈ type.parts) =>
        weight level (type.nodeKind.opens opened) part)
      fun _ inside => inside)
termination_by sizeOf type
decreasing_by exact sizeOf_part_lt ‹_›

variable {level : Reference → Nat} {opened : Bool}

/-- The weight of a type is that of its node with the weights of its parts. -/
theorem weight_eq
    (type : Ty) :
    type.weight level opened =
      type.nodeKind.weight level opened
        (type.parts.map (weight level (type.nodeKind.opens opened))) := by
  rw [weight, List.pmap_eq_map]

end Ty

namespace NodeKind

variable {level : Reference → Nat} {opened : Bool} {kind : NodeKind}

/-- A node is no lighter than the node with lighter parts. -/
theorem weight_mono
    {fewer weights : List Nat}
    (lighter : List.Forall₂ (· ≤ ·) fewer weights) :
    kind.weight level opened fewer ≤ kind.weight level opened weights := by
  have scaled :
      ∀ scale : Nat → Nat, Monotone scale →
        (fewer.map scale).prod ≤ (weights.map scale).prod := by
    intro scale monotone
    refine List.Forall₂.prod_le_prod' ?_
    rw [List.forall₂_map_left_iff, List.forall₂_map_right_iff]
    exact lighter.imp fun _ _ less => monotone less
  unfold weight
  split
  · exact le_rfl
  · exact Nat.add_le_add_right lighter.sum_le_sum 2
  · exact Nat.mul_le_mul_left 2 lighter.prod_le_prod'
  · exact Nat.mul_le_mul_left 2 (scaled _ fun _ _ less => by omega)
  · exact Nat.mul_le_mul_left 2 (scaled _ fun _ _ less => by omega)

/-- A node is no lighter than the node with fewer parts. -/
theorem weight_sublist
    {fewer weights : List Nat}
    (sublist : fewer.Sublist weights)
    (positive : ∀ weight ∈ weights, 0 < weight) :
    kind.weight level opened fewer ≤ kind.weight level opened weights := by
  have scaled :
      ∀ scale : Nat → Nat, (∀ weight, 0 < scale weight) →
        (fewer.map scale).prod ≤ (weights.map scale).prod :=
    fun scale above => (sublist.map scale).prod_le_prod'
      (List.forall_mem_map.mpr fun weight _ => above weight)
  unfold weight
  split
  · exact le_rfl
  · exact Nat.add_le_add_right (sublist.sum_le_sum fun _ _ => Nat.zero_le _) 2
  · exact Nat.mul_le_mul_left 2 (sublist.prod_le_prod' positive)
  · exact Nat.mul_le_mul_left 2 (scaled _ fun _ => by omega)
  · exact Nat.mul_le_mul_left 2 (scaled _ fun _ => by omega)

/-- A node that is no name is heavier than each part. -/
theorem part_lt_weight
    {weights : List Nat}
    (unnamed : ∀ reference, kind ≠ .name reference)
    (positive : ∀ weight ∈ weights, 0 < weight)
    (member : part ∈ weights) :
    part < kind.weight level opened weights := by
  have some := positive part member
  have single : part < kind.weight level opened [part] := by
    cases kind with
    | name reference =>
        exact absurd rfl (unnamed reference)
    | _ =>
        simp only [weight, List.map_singleton, List.sum_singleton,
          List.prod_singleton]
        omega
  exact single.trans_le
    (weight_sublist (List.singleton_sublist.mpr member) positive)

/-- Every node has some weight. -/
theorem two_le_weight
    {weights : List Nat}
    (positive : ∀ weight ∈ weights, 0 < weight) :
    2 ≤ kind.weight level opened weights := by
  have scaled :
      ∀ scale : Nat → Nat, (∀ weight, 0 < scale weight) →
        0 < (weights.map scale).prod :=
    fun scale above =>
      List.prod_pos (List.forall_mem_map.mpr fun weight _ => above weight)
  unfold weight
  split
  · split <;> omega
  · omega
  · exact Nat.mul_le_mul_left 2 (List.prod_pos positive)
  · exact Nat.mul_le_mul_left 2 (scaled _ fun _ => by omega)
  · exact Nat.mul_le_mul_left 2 (scaled _ fun _ => by omega)

end NodeKind

namespace Ty

variable {level : Reference → Nat} {opened : Bool}

/-- Every type has some weight. -/
theorem two_le_weight
    (type : Ty) :
    2 ≤ type.weight level opened := by
  induction type using partsInduction generalizing opened with
  | node type inductionHypothesis =>
      rw [weight_eq]
      refine NodeKind.two_le_weight (List.forall_mem_map.mpr ?_)
      intro part inside
      exact Nat.lt_of_lt_of_le Nat.zero_lt_two (inductionHypothesis part inside)

/-- No type weighs nothing. -/
theorem weight_pos
    (type : Ty) :
    0 < type.weight level opened :=
  Nat.lt_of_lt_of_le Nat.zero_lt_two type.two_le_weight

/-- A type is no heavier where it is not open. -/
theorem weight_closed_le
    (type : Ty) :
    type.weight level false ≤ type.weight level opened := by
  induction type using partsInduction generalizing opened with
  | node type inductionHypothesis =>
      have lighter :
          type.nodeKind.weight level false
              (type.parts.map (weight level (type.nodeKind.opens false))) ≤
            type.nodeKind.weight level false
              (type.parts.map (weight level (type.nodeKind.opens opened))) := by
        refine NodeKind.weight_mono ?_
        rw [List.forall₂_map_left_iff, List.forall₂_map_right_iff,
          List.forall₂_same]
        intro part inside
        cases type <;> first | exact le_rfl | exact inductionHypothesis part inside
      rw [weight_eq, weight_eq]
      refine lighter.trans ?_
      cases type <;> simp [nodeKind, NodeKind.weight]
      split <;> omega

/-- The weight of a type depends on the levels of the names that it follows. -/
theorem weight_congr
    {other : Reference → Nat}
    {type : Ty}
    (same :
      ∀ reference, type.Follows reference opened →
        level reference = other reference) :
    type.weight level opened = type.weight other opened := by
  induction type using partsInduction generalizing opened with
  | node type inductionHypothesis =>
      have parts :
          type.parts.map (weight level (type.nodeKind.opens opened)) =
            type.parts.map (weight other (type.nodeKind.opens opened)) :=
        List.map_congr_left fun part inside =>
          inductionHypothesis part inside fun reference follows =>
            same reference (.inside inside follows)
      rw [weight_eq, weight_eq, parts]
      cases type with
      | named reference =>
          cases opened with
          | false => rfl
          | true => simp [nodeKind, NodeKind.weight, same reference .named]
      | _ => rfl


@[simp] theorem weight_union
    {members : List Ty} :
    (Ty.union occurrence members).weight level opened =
      (members.map (weight level opened)).sum + 2 :=
  weight_eq _

@[simp] theorem weight_intersection
    {members : List Ty} :
    (Ty.intersection occurrence members).weight level opened =
      2 * (members.map (weight level opened)).prod :=
  weight_eq _

@[simp] theorem weight_named :
    (Ty.named reference).weight level opened =
      if opened then level reference + 2 else 2 :=
  weight_eq _

/-- A type without parts other than a name has the least weight. -/
theorem weight_leaf
    {type : Ty}
    (leaf : type.nodeKind = .leaf) :
    type.weight level opened = 2 := by
  rw [weight_eq]
  cases type <;> simp [nodeKind] at leaf <;> rfl

/-- Every product of weights is positive. -/
theorem weights_pos
    (types : List Ty) :
    0 < (types.map (weight level opened)).prod := by
  exact List.prod_pos (List.forall_mem_map.mpr fun type _ => type.weight_pos)

/-- Fewer types have a smaller product of weights. -/
theorem weights_sublist
    {fewer types : List Ty}
    (sublist : fewer.Sublist types) :
    (fewer.map (weight level opened)).prod ≤
      (types.map (weight level opened)).prod := by
  exact (sublist.map _).prod_le_prod'
    (List.forall_mem_map.mpr fun type _ => type.weight_pos)

end Ty

section Lists

open Ty

variable {arena : Arena} {level : Reference → Nat} {opened : Bool}

/-- Adding types that are not there yet keeps them in their order. -/
theorem foldl_appendUnique_sublist
    (types kept : List Ty) :
    (types.foldl arena.appendUnique kept).Sublist (kept ++ types) := by
  induction types generalizing kept with
  | nil =>
      simp
  | cons type others inductionHypothesis =>
      rw [List.foldl_cons]
      apply (inductionHypothesis (arena.appendUnique kept type)).trans
      unfold Arena.appendUnique
      split
      · exact (List.sublist_cons_self type others).append_left kept
      · rw [List.append_assoc, List.singleton_append]

/-- A list without repetitions is a part of the list. -/
theorem unique_sublist
    (types : List Ty) :
    (types.foldl arena.appendUnique []).Sublist types :=
  foldl_appendUnique_sublist types []

/-- Flattening a union does not make it heavier. -/
theorem weights_flattenUnion
    (types : List Ty) :
    ((flattenUnion types).map (weight level opened)).sum ≤
      (types.map (weight level opened)).sum := by
  unfold flattenUnion
  induction types with
  | nil =>
      simp
  | cons type rest inductionHypothesis =>
      have head :
          (type.members.map (weight level opened)).sum ≤
            type.weight level opened := by
        cases type <;> simp [Ty.members]
      rw [List.flatMap_cons, List.map_append, List.sum_append, List.map_cons,
        List.sum_cons]
      exact Nat.add_le_add head inductionHypothesis

/-- Flattening an intersection does not make it heavier. -/
theorem weights_flattenIntersection
    (types : List Ty) :
    ((flattenIntersection types).map (weight level opened)).prod ≤
      (types.map (weight level opened)).prod := by
  unfold flattenIntersection
  induction types with
  | nil =>
      simp
  | cons type rest inductionHypothesis =>
      rw [List.flatMap_cons, List.map_append, List.prod_append, List.map_cons,
        List.prod_cons]
      refine Nat.mul_le_mul ?_ inductionHypothesis
      cases type <;> simp
      exact Nat.le_mul_of_pos_left _ (by omega)

/-- The weights of all choices together. -/
def choiceWeights
    (level : Reference → Nat)
    (opened : Bool)
    (types : List Ty) :
    Nat :=
  ((choices types).map fun choice =>
    (choice.map (weight level opened)).prod).sum

/-- The choices of a list are those of its rest, once per member. -/
theorem choiceWeights_cons
    (type : Ty)
    (rest : List Ty) :
    choiceWeights level opened (type :: rest) =
      (type.members.map (weight level opened)).sum *
        choiceWeights level opened rest := by
  unfold choiceWeights
  rw [choices]
  generalize type.members = members
  induction members with
  | nil =>
      simp
  | cons member others inductionHypothesis =>
      have scaled :
          (((choices rest).map (member :: ·)).map fun choice =>
              (choice.map (weight level opened)).prod).sum =
            member.weight level opened *
              ((choices rest).map fun choice =>
                (choice.map (weight level opened)).prod).sum := by
        rw [List.map_map, ← List.sum_map_mul_left]
        simp only [Function.comp_def, List.map_cons, List.prod_cons]
      rw [List.flatMap_cons, List.map_append, List.sum_append,
        inductionHypothesis, scaled, List.map_cons, List.sum_cons, Nat.add_mul]

/-- The choices together are no heavier than the list, less where it has a union. -/
theorem choiceWeights_le
    (types : List Ty) :
    choiceWeights level opened types ≤
        (types.map (weight level opened)).prod ∧
      (types.any Ty.isUnion = true →
        choiceWeights level opened types + 1 ≤
          (types.map (weight level opened)).prod) := by
  induction types with
  | nil =>
      simp [choiceWeights, choices]
  | cons type rest inductionHypothesis =>
      obtain ⟨whole, less⟩ := inductionHypothesis
      have positive : 0 < (rest.map (weight level opened)).prod :=
        weights_pos rest
      rw [choiceWeights_cons, List.map_cons, List.prod_cons]
      cases isUnion : type.isUnion with
      | false =>
          have single :
              (type.members.map (weight level opened)).sum =
                type.weight level opened := by
            cases type <;> simp [Ty.isUnion] at isUnion <;> simp [Ty.members]
          rw [single, List.any_cons, isUnion, Bool.false_or]
          refine ⟨Nat.mul_le_mul_left _ whole, fun some => ?_⟩
          have heavy : 2 ≤ type.weight level opened := type.two_le_weight
          calc type.weight level opened * choiceWeights level opened rest + 1
              ≤ type.weight level opened * choiceWeights level opened rest +
                  type.weight level opened := by omega
            _ = type.weight level opened *
                  (choiceWeights level opened rest + 1) := by ring
            _ ≤ type.weight level opened *
                  (rest.map (weight level opened)).prod :=
              Nat.mul_le_mul_left _ (less some)
      | true =>
          have split :
              type.weight level opened =
                (type.members.map (weight level opened)).sum + 2 := by
            cases type <;> simp [Ty.isUnion] at isUnion
            simp [Ty.members]
          have bounded :
              (type.members.map (weight level opened)).sum *
                    choiceWeights level opened rest + 1 ≤
                type.weight level opened *
                  (rest.map (weight level opened)).prod := by
            calc (type.members.map (weight level opened)).sum *
                    choiceWeights level opened rest + 1
                ≤ (type.members.map (weight level opened)).sum *
                      (rest.map (weight level opened)).prod +
                    2 * (rest.map (weight level opened)).prod := by
                  have := Nat.mul_le_mul_left
                    (type.members.map (weight level opened)).sum whole
                  omega
              _ = type.weight level opened *
                    (rest.map (weight level opened)).prod := by
                  rw [split]; ring
          exact ⟨by omega, fun _ => bounded⟩

/-- A choice from a list with a union is lighter than the list. -/
theorem weights_choice_lt
    {types : List Ty}
    (some : types.any Ty.isUnion = true)
    (inChoices : choice ∈ choices types) :
    (choice.map (weight level opened)).prod <
      (types.map (weight level opened)).prod := by
  have single :
      (choice.map (weight level opened)).prod ≤
        choiceWeights level opened types :=
    List.single_le_sum (by simp) _
      (List.mem_map.mpr ⟨choice, inChoices, rfl⟩)
  exact single.trans_lt ((choiceWeights_le types).2 some)

/-- What reducing the atoms of a list leads to. -/
theorem reduceAtoms_cases
    {members reduced : List Ty}
    (succeeded : reduceAtoms members = some reduced) :
    reduced = members ∨
      ∃ atom : Ty,
        atom.isAtom = true ∧ reduced = replaceAtoms atom members := by
  cases literalMeets : meetLiterals none (literalMembers members) with
  | none =>
      simp [reduceAtoms, literalMeets] at succeeded
  | some literal =>
  cases kindMeets : meetPrimitives (primitiveMembers members) with
  | none =>
      simp [reduceAtoms, literalMeets, kindMeets] at succeeded
  | some kind =>
  simp only [reduceAtoms, literalMeets, kindMeets, Option.bind_eq_bind,
    Option.bind_some] at succeeded
  cases literal with
  | some literal =>
      have origin :=
        (@meetLiterals_spec ⟨true, true⟩ {} (literalMembers members)
          fun type member => (mem_literalMembers.mp member).2).2
            literal literalMeets
      have isLiteral := (mem_literalMembers.mp origin).2
      refine .inr ⟨literal, ?_, ?_⟩
      · cases literal <;> simp [Ty.isLiteral] at isLiteral
        rfl
      · cases kind <;> simp_all
  | none =>
      cases kind with
      | none =>
          simp only [Bool.false_or] at succeeded
          split at succeeded
          · cases succeeded
          · cases succeeded
            exact .inl rfl
      | some kind =>
          dsimp only at succeeded
          split at succeeded
          · cases succeeded
          split at succeeded
          · cases succeeded
            exact .inl rfl
          · cases succeeded
            exact .inr ⟨.primitive kind, rfl, rfl⟩

/-- Putting one atom in the place of all atoms does not make a list heavier. -/
theorem weights_replaceAtoms
    {atom : Ty}
    (isAtom : atom.isAtom = true)
    (members : List Ty) :
    ((replaceAtoms atom members).map (weight level opened)).prod ≤
      (members.map (weight level opened)).prod := by
  have light : atom.weight level opened = 2 := by
    refine weight_leaf ?_
    cases atom <;> simp [Ty.isAtom] at isAtom <;> rfl
  induction members with
  | nil =>
      simp [replaceAtoms]
  | cons member rest inductionHypothesis =>
      rw [replaceAtoms]
      split
      · rw [List.map_cons, List.map_cons, List.prod_cons, List.prod_cons, light]
        exact Nat.mul_le_mul member.two_le_weight
          (weights_sublist List.filter_sublist)
      · rw [List.map_cons, List.map_cons, List.prod_cons, List.prod_cons]
        exact Nat.mul_le_mul_left _ inductionHypothesis

/-- Reducing the atoms of a list does not make it heavier. -/
theorem weights_reduceAtoms
    {members reduced : List Ty}
    (succeeded : reduceAtoms members = some reduced) :
    (reduced.map (weight level opened)).prod ≤
      (members.map (weight level opened)).prod := by
  rcases reduceAtoms_cases succeeded with rfl | ⟨atom, isAtom, rfl⟩
  · exact le_rfl
  · exact weights_replaceAtoms isAtom members

end Lists

section Shapes

variable {level : Reference → Nat} {opened : Bool}

/-- The weight of the members that are declared with a type. -/
def memberWeight
    (level : Reference → Nat)
    (type : Ty) :
    Nat :=
  2 * (type.weight level false + 1)

/-- The weight of an index signature. -/
def indexWeight
    (level : Reference → Nat) :
    Option (IndexSignature Ty) →
    Nat
  | none => 1
  | some index => memberWeight level index.key * memberWeight level index.value

/-- The weight of an object. -/
def Shape.weight
    (level : Reference → Nat)
    (shape : Shape Ty) :
    Nat :=
  2 * (shape.properties.map fun property =>
    memberWeight level property.type).prod * indexWeight level shape.index

/-- An object has the weight of its shape, whether it is open or not. -/
theorem weight_object :
    (Ty.object occurrence shape).weight level opened = shape.weight level := by
  have index :
      ((shape.index.toList.flatMap fun index => [index.key, index.value]).map
          (memberWeight level)).prod =
        indexWeight level shape.index := by
    cases shape.index <;> simp [indexWeight]
  rw [Ty.weight_eq]
  simp only [Ty.nodeKind, NodeKind.weight, NodeKind.opens, List.map_map]
  change 2 * ((Ty.object occurrence shape).parts.map (memberWeight level)).prod =
    _
  rw [Ty.parts, List.map_append, List.prod_append, index, List.map_map,
    ← Nat.mul_assoc]
  rfl

/-- The members of a list that are no objects weigh what the objects leave. -/
theorem weights_shapesOf
    {keep : Ty → Bool}
    (drops : ∀ occurrence shape, keep (.object occurrence shape) = false)
    (keeps :
      ∀ type, (∀ occurrence shape, type ≠ .object occurrence shape) →
        keep type = true)
    (members : List Ty) :
    ((NormalPass.shapesOf members).map (Shape.weight level)).prod *
        ((members.filter keep).map (Ty.weight level opened)).prod =
      (members.map (Ty.weight level opened)).prod := by
  induction members with
  | nil =>
      rfl
  | cons member rest inductionHypothesis =>
      rw [List.map_cons, List.prod_cons, ← inductionHypothesis]
      cases member with
      | object occurrence shape =>
          rw [weight_object, List.filter_cons_of_neg (by simp [drops])]
          exact Nat.mul_assoc ..
      | _ =>
          rw [List.filter_cons_of_pos (keeps _ (by simp)), List.map_cons,
            List.prod_cons]
          exact Nat.mul_left_comm ..

/-- The objects of a list weigh no more than the list. -/
theorem weights_shapesOf_le
    (members : List Ty) :
    ((NormalPass.shapesOf members).map (Shape.weight level)).prod ≤
      (members.map (Ty.weight level opened)).prod := by
  induction members with
  | nil =>
      exact le_rfl
  | cons member rest inductionHypothesis =>
      rw [List.map_cons, List.prod_cons]
      cases member with
      | object occurrence shape =>
          rw [weight_object]
          exact Nat.mul_le_mul_left _ inductionHypothesis
      | _ =>
          exact inductionHypothesis.trans
            (Nat.le_mul_of_pos_left _ (Ty.weight_pos _))

/-- An object that weighs no more than all objects of a list can replace them. -/
theorem weights_replaceObjects
    {merged : Shape Ty}
    {members : List Ty}
    (light :
      merged.weight level ≤
        ((NormalPass.shapesOf members).map (Shape.weight level)).prod) :
    ((NormalPass.replaceObjects (.ofShape merged) members).map
        (Ty.weight level opened)).prod ≤
      (members.map (Ty.weight level opened)).prod := by
  induction members with
  | nil =>
      simp [NormalPass.replaceObjects]
  | cons member rest inductionHypothesis =>
      cases member with
      | object occurrence shape =>
          rw [NormalPass.replaceObjects, List.map_cons, List.map_cons,
            List.prod_cons, List.prod_cons, Ty.ofShape, weight_object,
            weight_object]
          have objects :
              merged.weight level ≤
                shape.weight level *
                  ((NormalPass.shapesOf rest).map (Shape.weight level)).prod :=
            light
          refine (Nat.mul_le_mul_right _ objects).trans (Nat.le_of_eq ?_)
          rw [Nat.mul_assoc]
          refine congrArg _ (weights_shapesOf (fun _ _ => rfl) ?_ rest)
          intro type other
          cases type <;> simp_all
      | _ =>
          rw [NormalPass.replaceObjects, List.map_cons, List.map_cons,
            List.prod_cons, List.prod_cons]
          · exact Nat.mul_le_mul_left _ (inductionHypothesis light)
          · simp

/-- Replacing an item of a list exchanges its factor in a product. -/
theorem prod_map_replace
    [BEq α]
    [LawfulBEq α]
    {items : List α}
    {view : α → Nat}
    (member : old ∈ items) :
    ((items.replace old new).map view).prod * view old =
      (items.map view).prod * view new := by
  induction items with
  | nil =>
      simp at member
  | cons item rest inductionHypothesis =>
      rw [List.replace_cons]
      split
      · next isOld =>
        rw [eq_of_beq isOld, List.map_cons, List.map_cons, List.prod_cons,
          List.prod_cons]
        ring
      · next notOld =>
        have inRest : old ∈ rest := by
          rcases List.mem_cons.mp member with rfl | inRest
          · simp at notOld
          · exact inRest
        rw [List.map_cons, List.map_cons, List.prod_cons, List.prod_cons,
          Nat.mul_assoc, inductionHypothesis inRest, Nat.mul_assoc]

/-- Every member has some weight. -/
theorem memberWeight_pos
    (type : Ty) :
    0 < memberWeight level type :=
  Nat.mul_pos Nat.zero_lt_two (Nat.succ_pos _)

/-- Every index signature has some weight. -/
theorem indexWeight_pos
    (index : Option (IndexSignature Ty)) :
    0 < indexWeight level index := by
  cases index with
  | none => exact Nat.one_pos
  | some index =>
      exact Nat.mul_pos (memberWeight_pos index.key) (memberWeight_pos index.value)

/-- The weights of some properties have a positive product. -/
theorem propertyWeights_pos
    (properties : List (Property Ty)) :
    0 < (properties.map fun property =>
      memberWeight level property.type).prod :=
  List.prod_pos (List.forall_mem_map.mpr fun property _ =>
    memberWeight_pos property.type)

/-- An intersection weighs less as a type of a member than its members do. -/
theorem memberWeight_meet
    {first second type : Ty}
    (light :
      type.weight level false ≤
        2 * (first.weight level false * second.weight level false)) :
    memberWeight level type ≤
      memberWeight level first * memberWeight level second := by
  unfold memberWeight
  calc
    _ ≤ 2 * (2 * (first.weight level false * second.weight level false) + 1) := by
        omega
    _ ≤ 2 * (2 * (first.weight level false * second.weight level false) + 1) +
          (4 * first.weight level false + 4 * second.weight level false + 2) :=
        Nat.le_add_right _ _
    _ = _ := by ring

/-- Two members weigh more than their types. -/
theorem weights_lt_memberWeights
    (first second : Ty) :
    first.weight level false * second.weight level false <
      memberWeight level first * memberWeight level second := by
  unfold memberWeight
  exact Nat.mul_lt_mul'' (by omega) (by omega)

/-- Every object has some weight. -/
theorem shapeWeights_pos
    (shapes : List (Shape Ty)) :
    0 < (shapes.map (Shape.weight level)).prod :=
  List.prod_pos (List.forall_mem_map.mpr fun shape _ =>
    Nat.mul_pos
      (Nat.mul_pos Nat.zero_lt_two (propertyWeights_pos shape.properties))
      (indexWeight_pos shape.index))

/-- A property weighs no more than its shape. -/
theorem memberWeight_le_shape
    {shape : Shape Ty}
    (member : property ∈ shape.properties) :
    memberWeight level property.type ≤ shape.weight level := by
  have single :
      memberWeight level property.type ≤
        (shape.properties.map fun property =>
          memberWeight level property.type).prod :=
    List.single_le_prod
      (List.forall_mem_map.mpr fun property _ => memberWeight_pos property.type)
      _ (List.mem_map.mpr ⟨property, member, rfl⟩)
  have index : 0 < indexWeight level shape.index := indexWeight_pos shape.index
  calc
    _ ≤ _ := single
    _ ≤ 2 * _ := Nat.le_mul_of_pos_left _ Nat.zero_lt_two
    _ ≤ _ := Nat.le_mul_of_pos_right _ index

/-- The index signature and the properties weigh no more than the shape. -/
theorem members_le_shape
    (shape : Shape Ty) :
    (shape.properties.map fun property =>
          memberWeight level property.type).prod *
        indexWeight level shape.index ≤
      shape.weight level := by
  unfold Shape.weight
  exact Nat.mul_le_mul_right _ (Nat.le_mul_of_pos_left _ Nat.zero_lt_two)

/-- A new property multiplies the weight of a shape. -/
theorem weight_appendProperty
    (shape : Shape Ty)
    (property : Property Ty) :
    Shape.weight level
        { shape with properties := shape.properties ++ [property] } =
      shape.weight level * memberWeight level property.type := by
  simp only [Shape.weight, List.map_append, List.prod_append,
    List.map_singleton, List.prod_singleton]
  ring

/-- Two properties of one name weigh no more together when they are merged. -/
theorem weight_replaceProperty
    {shape : Shape Ty}
    {existing property : Property Ty}
    {type : Ty}
    (member : existing ∈ shape.properties)
    (light :
      memberWeight level type ≤
        memberWeight level existing.type * memberWeight level property.type) :
    Shape.weight level
        { shape with
          properties :=
            shape.properties.replace existing
              (mergedProperty existing property type) } ≤
      shape.weight level * memberWeight level property.type := by
  have replaced :
      ((shape.properties.replace existing
                (mergedProperty existing property type)).map fun property =>
              memberWeight level property.type).prod *
            memberWeight level existing.type =
          (shape.properties.map fun property =>
              memberWeight level property.type).prod *
            memberWeight level type :=
    prod_map_replace member
  have positive : 0 < memberWeight level existing.type := memberWeight_pos _
  have properties :
      ((shape.properties.replace existing
              (mergedProperty existing property type)).map fun property =>
            memberWeight level property.type).prod ≤
        (shape.properties.map fun property =>
              memberWeight level property.type).prod *
          memberWeight level property.type := by
    refine Nat.le_of_mul_le_mul_right ?_ positive
    rw [replaced, Nat.mul_assoc]
    refine Nat.mul_le_mul_left _ ?_
    rw [Nat.mul_comm (memberWeight level property.type)]
    exact light
  calc
    _ ≤ 2 * ((shape.properties.map fun property =>
              memberWeight level property.type).prod *
            memberWeight level property.type) *
          indexWeight level shape.index :=
        Nat.mul_le_mul_right _ (Nat.mul_le_mul_left _ properties)
    _ = _ := by
        unfold Shape.weight
        ring

end Shapes

section Levels

namespace Arena

/-- Evaluation of the definition of a name follows another name. -/
def Follows
    (arena : Arena)
    (reference other : Reference) :
    Prop :=
  (arena.definition reference).Follows other true

/-- Following names from a name on comes to an end. -/
def Grounded
    (arena : Arena)
    (reference : Reference) :
    Prop :=
  Acc (fun other reference => arena.Follows reference other) reference

/-- Names are followed from grounded names only so many times. -/
theorem wellFounded_grounded
    (arena : Arena) :
    WellFounded fun other reference =>
      arena.Grounded reference ∧ arena.Follows reference other := by
  refine ⟨fun reference => ?_⟩
  by_cases grounded : arena.Grounded reference
  · induction grounded with
    | intro reference _ inductionHypothesis =>
        exact .intro reference fun other step =>
          inductionHypothesis other step.2
  · exact .intro reference fun other step => absurd step.1 grounded

open Classical in
/-- The weight of what a grounded name stands for. -/
noncomputable def level
    (arena : Arena) :
    Reference →
    Nat :=
  arena.wellFounded_grounded.fix fun reference level =>
    (arena.definition reference).weight
      (fun other =>
        if step : arena.Grounded reference ∧ arena.Follows reference other then
          level other step
        else
          0)
      true

/-- The level of a grounded name is the weight of its definition. -/
theorem level_eq
    {arena : Arena}
    (grounded : arena.Grounded reference) :
    arena.level reference =
      (arena.definition reference).weight arena.level true := by
  rw [level, WellFounded.fix_eq]
  refine Ty.weight_congr fun other follows => ?_
  rw [dif_pos ⟨grounded, follows⟩]

end Arena

end Levels

end StructuralTyping
