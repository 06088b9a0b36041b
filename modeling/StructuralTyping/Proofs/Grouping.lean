import StructuralTyping.Proofs.CoverageMeaning
import StructuralTyping.Proofs.Idempotence
import StructuralTyping.Proofs.IdentityEquivalence

namespace StructuralTyping

/-!
# Unions of constants and the names in them

A union of literals is exhausted by the labels that equal its literals. A name
for the whole union is seen through; a name for a part of it keeps the rest
from being taken apart, so that no labels exhaust the union.
-/

/-- Literals, and `boolean` as the union of two of them. -/
def Ty.isConstant :
    Ty →
    Bool
  | .literal _ _ => true
  | .primitive .boolean => true
  | _ => false

/-- The literals that a constant type stands for. -/
def Ty.constants :
    Ty →
    List Literal
  | .literal _ value => [value]
  | .primitive .boolean => [.boolean true, .boolean false]
  | _ => []

/-- Whether labels equal all literals of a type. -/
def Ty.coveredBy
    (labels : List Literal)
    (type : Ty) :
    Bool :=
  type.constants.all fun value => labels.any (Literal.equal · value)

/-- Types that normalization leaves alone: constants and names. -/
def Ty.isFlat
    (type : Ty) :
    Bool :=
  type.isConstant || type.isNamed

section Normalizing

variable {mode : NormalMode} {members : List Ty}

/-- Normalization leaves literals, primitives and names alone. -/
theorem normalize_leaf
    {type : Ty}
    (leaf : type.isAtom = true ∨ type.isNamed = true)
    (shallow : depth < mode.checker.options.maxDepth)
    (budget : Nat) :
    (normalPass mode (budget + 1)).normalize depth type = pure type := by
  have below : ¬ mode.checker.options.maxDepth ≤ depth := Nat.not_le.mpr shallow
  rw [normalPass_succ]
  simp only [NormalPass.next, NormalPass.nextNormalize, if_neg below]
  cases type <;> first | rfl | simp [Ty.isAtom, Ty.isNamed] at leaf

/-- Flat types are left alone. -/
theorem leaf_of_flat
    {type : Ty}
    (flat : type.isFlat = true) :
    type.isAtom = true ∨ type.isNamed = true := by
  refine (Bool.or_eq_true_iff.mp flat).imp_left fun constant => ?_
  cases type <;> first | rfl | cases constant

/-- Items that are left alone make up the list again. -/
theorem mapM_pure_self
    [Monad m]
    [LawfulMonad m]
    {visit : α → m α}
    {items : List α}
    (each : ∀ item ∈ items, visit item = pure item) :
    items.mapM visit = pure items := by
  induction items with
  | nil => rfl
  | cons item rest inductionHypothesis =>
      rw [List.forall_mem_cons] at each
      simp [List.mapM_cons, each.1, inductionHypothesis each.2]

/-- Flat members are joined as they are. -/
theorem normalizeIn_flat
    (flat : ∀ member ∈ members, member.isFlat = true)
    (shallow : depth + 1 < mode.checker.options.maxDepth)
    (budget : Nat) :
    normalizeIn mode (budget + 2) depth (.union occurrence members) =
      pure (mode.checker.arena.joinMembers members) := by
  have below : ¬ mode.checker.options.maxDepth ≤ depth := by omega
  have each :
      ∀ member ∈ members,
        (normalPass mode (budget + 1)).normalize (depth + 1) member =
          pure member :=
    fun member inMembers =>
      normalize_leaf (leaf_of_flat (flat member inMembers)) shallow budget
  have noUnion : ∀ member ∈ members, member.isUnion = false := by
    intro member inMembers
    have := flat member inMembers
    cases member <;> first | rfl | cases this
  unfold normalizeIn
  rw [normalPass_succ]
  simp only [NormalPass.next, NormalPass.nextNormalize, Ty.isAbsent,
    if_neg below, NormalPass.normalizeNode, NormalPass.union,
    mapM_pure_self each, pure_bind, flattenUnion_of_flat noUnion]
  rfl

end Normalizing

section Joining

variable {arena : Arena} {members : List Ty}

/-- A flat member has values and is no top type. -/
theorem plain_of_isFlat
    {type : Ty}
    (isFlat : type.isFlat = true) :
    type.isNever = false ∧ type.isPrimitive .any = false ∧
      type.isPrimitive .unknown = false := by
  cases type with
  | primitive kind =>
      cases kind <;> first
        | exact ⟨rfl, rfl, rfl⟩
        | cases isFlat
  | _ => first | exact ⟨rfl, rfl, rfl⟩ | cases isFlat

/-- Flat members are joined without the repetitions. -/
theorem joinMembers_flat
    (flat : ∀ member ∈ members, member.isFlat = true) :
    arena.joinMembers members =
      match members.foldl arena.appendUnique [] with
      | [] => .never
      | [type] => type
      | types => .ofUnion types :=
  joinMembers_of_plain fun member inMembers =>
    plain_of_isFlat (flat member inMembers)

/-- Flat members join to neither an intersection nor an object. -/
theorem joinMembers_ne
    (flat : ∀ member ∈ members, member.isFlat = true)
    (occurrence : Occurrence) :
    (∀ parts, arena.joinMembers members ≠ .intersection occurrence parts) ∧
      ∀ shape, arena.joinMembers members ≠ .object occurrence shape := by
  rcases @joinMembers_cases arena members with
    ⟨kind, same⟩ | inMembers | ⟨parts, same, -⟩
  · simp [same]
  · have isFlat := flat _ inMembers
    constructor <;>
    · intro parts same
      rw [same] at isFlat
      cases isFlat
  · simp [same]

/-- Constants are flat. -/
theorem flat_of_constants
    (constants : ∀ member ∈ members, member.isConstant = true) :
    ∀ member ∈ members, member.isFlat = true :=
  fun member inMembers => by
    rw [Ty.isFlat, constants member inMembers, Bool.true_or]

/-- Constants join to a type that stands for itself. -/
theorem joinMembers_constants
    (constants : ∀ member ∈ members, member.isConstant = true) :
    (arena.joinMembers members).isReference = false := by
  rcases @joinMembers_cases arena members with
    ⟨kind, same⟩ | inMembers | ⟨parts, same, -⟩
  · rw [same]
    rfl
  · have := constants _ inMembers
    cases joined : arena.joinMembers members <;>
      simp_all [Ty.isConstant, Ty.isReference]
  · rw [same]
    rfl

variable (arena) in
/-- Flat members join to a type with the members that do not repeat. -/
theorem members_joinMembers_flat
    (flat : ∀ member ∈ members, member.isFlat = true)
    (nonempty : members ≠ []) :
    (arena.joinMembers members).members =
      members.foldl arena.appendUnique [] := by
  refine members_joinMembers (fun member inMembers =>
    plain_of_isFlat (flat member inMembers)) (fun member inMembers => ?_)
    nonempty
  have := flat member inMembers
  cases member <;> first | rfl | cases this

/-- A constant is no name. -/
theorem isNamed_of_isConstant
    {type : Ty}
    (constant : type.isConstant = true) :
    type.isNamed = false := by
  cases type <;> first | rfl | cases constant

/-- A constant stands for some literal. -/
theorem constants_ne_nil
    {type : Ty}
    (constant : type.isConstant = true) :
    type.constants ≠ [] := by
  cases type with
  | primitive kind => cases kind <;> simp_all [Ty.isConstant, Ty.constants]
  | _ => simp_all [Ty.isConstant, Ty.constants]

/-- Labels cover identical constants together. -/
theorem coveredBy_eq_of_identical
    {first second : Ty}
    (firstConstant : first.isConstant = true)
    (secondConstant : second.isConstant = true)
    (identical : arena.identical first second = true)
    (labels : List Literal) :
    first.coveredBy labels = second.coveredBy labels := by
  rcases Arena.equalNodes_of_identical
      (.here (isNamed_of_isConstant firstConstant))
      (.here (isNamed_of_isConstant secondConstant)) identical with
    rfl | ⟨_, equals⟩
  · rfl
  · unfold equalNodes at equals
    split at equals
    · cases eq_of_beq equals
      rfl
    · simp only [Ty.coveredBy, Ty.constants, List.all_cons, List.all_nil,
        Bool.and_true]
      congr 1
      funext label
      refine Bool.eq_iff_iff.mpr ⟨fun same => Literal.equal_trans same equals,
        fun same => Literal.equal_trans same ?_⟩
      rwa [Literal.equal_comm]
    all_goals first | cases firstConstant | cases equals

variable (arena) in
/-- Constants join to a type with constants as members. -/
theorem constants_joinMembers
    (constants : ∀ member ∈ members, member.isConstant = true)
    (nonempty : members ≠ []) :
    ∀ member ∈ (arena.joinMembers members).members,
      member.isConstant = true := by
  rw [members_joinMembers_flat arena (flat_of_constants constants) nonempty]
  exact fun member inKept =>
    constants member ((unique_sublist members).subset inKept)

variable (arena) in
/-- Labels cover constants exactly when they cover those without repetitions. -/
theorem all_coveredBy_unique
    (constants : ∀ member ∈ members, member.isConstant = true)
    (labels : List Literal) :
    (members.foldl arena.appendUnique []).all (Ty.coveredBy labels) =
      members.all (Ty.coveredBy labels) := by
  have sublist := @unique_sublist arena members
  rw [Bool.eq_iff_iff, List.all_eq_true, List.all_eq_true]
  refine ⟨fun covered member inMembers => ?_,
    fun covered member inKept => covered member (sublist.subset inKept)⟩
  obtain ⟨other, inKept, rfl | identical⟩ :=
    exists_counterpart_of_mem arena [] inMembers
  · exact covered other inKept
  · rw [← coveredBy_eq_of_identical
      (constants other (sublist.subset inKept)) (constants member inMembers)
      identical]
    exact covered other inKept

/-- The union of constants is empty only if there are none. -/
theorem isNever_joinMembers
    (constants : ∀ member ∈ members, member.isConstant = true) :
    (arena.joinMembers members).isNever = members.isEmpty := by
  rcases eq_or_ne members [] with rfl | nonempty
  · rfl
  have keptConstants := constants_joinMembers arena constants nonempty
  have someKept := unique_ne_nil arena nonempty
  rw [← members_joinMembers_flat arena (flat_of_constants constants) nonempty]
    at someKept
  rw [List.isEmpty_eq_false_iff.mpr nonempty]
  generalize arena.joinMembers members = joined at keptConstants someKept
  cases joined with
  | union occurrence parts => exact List.isEmpty_eq_false_iff.mpr someKept
  | primitive kind =>
      have := keptConstants _ List.mem_cons_self
      cases kind <;> first | rfl | cases this
  | _ => rfl

end Joining

namespace Checker

variable
  {checker : Checker}
  {members : List Ty}
  (deep : 4 ≤ checker.options.maxDepth)
  (funded : 2 ≤ checker.budget)

section Structure

include funded in
/-- A checker joins flat members as they are. -/
theorem normalizeAt_flat
    (flat : ∀ member ∈ members, member.isFlat = true)
    (shallow : depth + 1 < checker.options.maxDepth) :
    checker.evaluation.normalizeAt depth (.union occurrence members) =
      pure (checker.arena.joinMembers members) := by
  obtain ⟨budget, same⟩ := Nat.exists_eq_add_of_le' funded
  unfold Evaluation.normalizeAt
  rw [show checker.evaluation.budget = budget + 2 from same]
  exact normalizeIn_flat flat shallow budget

/-- A type that stands for itself is where its references lead. -/
theorem resolve_of_notReference
    {type : Ty}
    (notReference : type.isReference = false)
    (shallow : depth ≤ checker.options.maxDepth) :
    checker.evaluation.resolve depth type = pure type := by
  obtain ⟨remaining, same⟩ :
      ∃ remaining, checker.evaluation.remainingFrom depth = remaining + 1 :=
    ⟨checker.options.maxDepth - depth, Nat.sub_add_comm shallow⟩
  unfold Evaluation.resolve
  rw [same]
  cases type <;> first | rfl | cases notReference

/-- A name leads to its definition. -/
theorem resolve_named
    (defined : checker.arena.definition reference = .union occurrence members)
    (shallow : depth + 1 ≤ checker.options.maxDepth) :
    checker.evaluation.resolve depth (.named reference) =
      pure (.union occurrence members) := by
  obtain ⟨remaining, same⟩ :
      ∃ remaining, checker.evaluation.remainingFrom depth = remaining + 2 :=
    ⟨checker.options.maxDepth - depth - 1, by
      unfold Evaluation.remainingFrom
      change checker.options.maxDepth + 1 - depth = _
      omega⟩
  unfold Evaluation.resolve
  rw [same, Evaluation.resolveWithin,
    show checker.evaluation.checker.arena.definition reference = _ from defined]
  rfl

include funded in
/-- Joining flat members leaves no intersection to merge. -/
theorem normalizeMerged_flat
    (flat : ∀ member ∈ members, member.isFlat = true)
    (shallow : depth + 1 < checker.options.maxDepth) :
    checker.evaluation.normalizeMerged depth (.union occurrence members) =
      pure (checker.arena.joinMembers members) := by
  unfold Evaluation.normalizeMerged
  rw [normalizeAt_flat funded flat shallow, pure_bind]
  split
  · next parts same => exact absurd same ((joinMembers_ne flat _).1 parts)
  · rfl

include funded in
/-- Flat members make up the structure of their union, if that is no name. -/
theorem structuralWithin_flat
    {type : Ty}
    (flat : ∀ member ∈ members, member.isFlat = true)
    (resolves :
      checker.evaluation.resolve depth type = pure (.union occurrence members))
    (shallow : depth + 2 < checker.options.maxDepth)
    (notReference : (checker.arena.joinMembers members).isReference = false)
    (remaining : Nat) :
    checker.evaluation.structuralWithin remaining depth type =
      pure (checker.arena.joinMembers members) := by
  rw [Evaluation.structuralWithin, resolves, pure_bind]
  dsimp only
  rw [normalizeMerged_flat funded flat shallow, liftM_pure, pure_bind,
    if_neg (by simp [notReference])]

include funded in
/-- A union of nothing but a name has the structure that the name has. -/
theorem structuralWithin_onlyName
    (shallow : depth + 2 < checker.options.maxDepth)
    (remaining : Nat) :
    checker.evaluation.structuralWithin (remaining + 1) depth
        (.union occurrence [.named reference]) =
      checker.evaluation.structuralWithin remaining (depth + 1)
        (.named reference) := by
  have joined :
      checker.arena.joinMembers [.named reference] = .named reference := by
    rw [joinMembers_flat (by simp [Ty.isFlat, Ty.isNamed])]
    rfl
  rw [Evaluation.structuralWithin, resolve_of_notReference rfl (by omega),
    pure_bind]
  dsimp only
  rw [normalizeMerged_flat funded (by simp [Ty.isFlat, Ty.isNamed]) shallow,
    liftM_pure, pure_bind, joined]
  rfl

include deep funded in
/-- The structure of a union of constants, written out or under a name. -/
theorem structural_constants
    {type : Ty}
    (constants : ∀ member ∈ members, member.isConstant = true)
    (resolves :
      checker.evaluation.resolve depth type = pure (.union occurrence members))
    (shallow : depth ≤ 1) :
    checker.structural depth type =
      pure (.ok (checker.arena.joinMembers members)) := by
  unfold structural Evaluation.structural
  rw [structuralWithin_flat funded (flat_of_constants constants) resolves
    (by omega) (joinMembers_constants constants)]
  rfl

/-- A constant is its own structure. -/
theorem structural_constant
    {type : Ty}
    (constant : type.isConstant = true)
    (shallow : depth ≤ checker.options.maxDepth) :
    checker.structural depth type = pure (.ok type) := by
  have notReference : type.isReference = false := by
    cases type <;> first | rfl | cases constant
  unfold structural Evaluation.structural Evaluation.structuralWithin
  rw [resolve_of_notReference notReference shallow, pure_bind]
  cases type <;> first | rfl | cases constant

end Structure

section Coverage

/-- A member whose structure is no object has no shape. -/
theorem memberShape_of_structural
    {member found : Ty}
    (leads : checker.structural 1 member = pure (.ok found))
    (noObject : ∀ occurrence shape, found ≠ .object occurrence shape) :
    (checker.memberShape member).run = pure none := by
  unfold memberShape
  rw [leads, liftM_pure, pure_bind]
  split
  · next same => exact absurd (Except.ok.inj same) (noObject _ _)
  · rfl

include deep in
/-- A constant has no shape. -/
theorem memberShape_constant
    {member : Ty}
    (constant : member.isConstant = true) :
    (checker.memberShape member).run = pure none := by
  refine memberShape_of_structural (structural_constant constant (by omega))
    fun occurrence shape same => ?_
  rw [same] at constant
  cases constant

/-- A type is no union of objects when its members have no shapes. -/
theorem objectUnion?_of_noShapes
    {type found : Ty}
    (leads : checker.structural 0 type = pure (.ok found))
    (nonempty : found.members ≠ [])
    (noShapes :
      ∀ member ∈ found.members,
        (checker.memberShape member).run = pure none) :
    checker.objectUnion? type = pure none := by
  unfold objectUnion?
  rw [leads, pure_bind]
  split
  · next members same =>
    cases same
    obtain ⟨first, rest, same⟩ := List.exists_cons_of_ne_nil nonempty
    cases same
    rw [List.mapM_cons, OptionT.run_bind, noShapes first List.mem_cons_self]
    rfl
  · rfl

/-- Coverage of what is no union of objects goes by its members. -/
theorem coverage?_of_noShapes
    {type found : Ty}
    (leads : checker.structural 0 type = pure (.ok found))
    (nonempty : found.members ≠ [])
    (noShapes :
      ∀ member ∈ found.members,
        (checker.memberShape member).run = pure none) :
    checker.coverage? type =
      match Coverage.literalVariants? found.members with
      | some (variant :: rest) => pure (some { variants := variant :: rest })
      | _ => pure none := by
  have noUnion : checker.discriminant? type = pure none := by
    unfold discriminant?
    rw [objectUnion?_of_noShapes leads nonempty noShapes]
    rfl
  unfold coverage? literalCoverage?
  rw [noUnion, pure_bind]
  dsimp only
  rw [leads]
  exact pure_bind _ _

/-- Constants are taken apart into the literals they stand for. -/
theorem literalVariants?_constants
    (constants : ∀ member ∈ members, member.isConstant = true) :
    ∃ variants,
      Coverage.literalVariants? members = some variants ∧
        variants.map Variant.value = members.flatMap Ty.constants ∧
        ∀ variant ∈ variants, variant.type.isConstant = true := by
  induction members with
  | nil => exact ⟨[], rfl, rfl, by simp⟩
  | cons member rest inductionHypothesis =>
      rw [List.forall_mem_cons] at constants
      obtain ⟨constant, constants⟩ := constants
      obtain ⟨variants, taken, values, types⟩ := inductionHypothesis constants
      rw [List.flatMap_cons, ← values]
      cases member with
      | literal occurrence value =>
          refine ⟨_, by rw [Coverage.literalVariants?, taken]; rfl, rfl, ?_⟩
          exact List.forall_mem_cons.mpr ⟨rfl, types⟩
      | primitive kind =>
          cases kind <;> try cases constant
          refine ⟨_, by rw [Coverage.literalVariants?, taken]; rfl, rfl, ?_⟩
          exact List.forall_mem_cons.mpr
            ⟨rfl, List.forall_mem_cons.mpr ⟨rfl, types⟩⟩
      | _ => cases constant

/-- A name among the members keeps them from being taken apart. -/
theorem literalVariants?_named
    (inMembers : .named reference ∈ members) :
    Coverage.literalVariants? members = none := by
  fun_induction Coverage.literalVariants? members with
  | case1 => cases inMembers
  | case2 _ _ rest inductionHypothesis =>
      rw [inductionHypothesis (by simpa using inMembers)]
      rfl
  | case3 rest _ inductionHypothesis =>
      rw [inductionHypothesis (by simpa using inMembers)]
      rfl
  | case4 => rfl

include deep in
/-- Coverage of a union of constants takes apart those without repetitions. -/
theorem coverage?_constants
    {type : Ty}
    (constants : ∀ member ∈ members, member.isConstant = true)
    (nonempty : members ≠ [])
    (leads :
      checker.structural 0 type =
        pure (.ok (checker.arena.joinMembers members))) :
    ∃ variants,
      checker.coverage? type = pure (some { variants }) ∧
        variants.map Variant.value =
          (members.foldl checker.arena.appendUnique []).flatMap
            Ty.constants ∧
        ∀ variant ∈ variants, variant.type.isConstant = true := by
  have kept := members_joinMembers_flat checker.arena
    (flat_of_constants constants) nonempty
  have someKept := unique_ne_nil checker.arena nonempty
  have keptConstants :=
    constants_joinMembers checker.arena constants nonempty
  obtain ⟨variants, taken, values, types⟩ :=
    literalVariants?_constants keptConstants
  refine ⟨variants, ?_, kept ▸ values, types⟩
  rw [coverage?_of_noShapes leads (kept ▸ someKept)
    fun member inKept =>
      memberShape_constant deep (keptConstants member inKept),
    taken]
  cases variants with
  | cons => rfl
  | nil =>
      obtain ⟨first, rest, same⟩ := List.exists_cons_of_ne_nil someKept
      rw [kept, same, List.flatMap_cons] at values
      exact absurd (List.append_eq_nil_iff.mp values.symm).1
        (constants_ne_nil (keptConstants first (by simp [kept, same])))

include funded deep in
/-- The residual of constants is the union of what no label selects. -/
theorem residual_constants
    {coverage : StructuralTyping.Coverage}
    (fresh : coverage.handled = [])
    (types : ∀ variant ∈ coverage.variants, variant.type.isConstant = true)
    (labels : List Literal) :
    ∃ residual,
      (coverage.handleAll labels).residual checker = pure residual ∧
        residual.isNever =
          coverage.variants.all fun variant =>
            labels.any (Literal.equal · variant.value) := by
  have constants :
      ∀ type ∈ (coverage.handleAll labels).unhandled,
        type.isConstant = true := by
    rw [Coverage.unhandled_handleAll fresh]
    intro type unhandled
    obtain ⟨variant, kept, rfl⟩ := List.mem_map.mp unhandled
    exact types variant (List.mem_filter.mp kept).1
  refine ⟨_, normalizeAt_flat funded (flat_of_constants constants) (by omega),
    ?_⟩
  rw [isNever_joinMembers constants, Coverage.unhandled_handleAll fresh,
    List.isEmpty_map, Bool.eq_iff_iff]
  simp

include deep funded in
/--
A union of constants is exhausted exactly when the labels cover each of them,
whether it is written out or stands under a name.
-/
theorem checkExhaustive_constants
    {type : Ty}
    (constants : ∀ member ∈ members, member.isConstant = true)
    (nonempty : members ≠ [])
    (leads :
      checker.structural 0 type =
        pure (.ok (checker.arena.joinMembers members)))
    (labels : List Literal) :
    ∃ residual,
      checker.checkExhaustive type labels =
        pure
          { exhaustive := members.all (Ty.coveredBy labels), residual } := by
  obtain ⟨variants, starts, values, types⟩ :=
    coverage?_constants deep constants nonempty leads
  obtain ⟨residual, remains, isNever⟩ :=
    @residual_constants checker deep funded { variants } rfl types labels
  refine ⟨residual, ?_⟩
  unfold checkExhaustive
  rw [starts, pure_bind]
  dsimp only
  have covered :
      (variants.all fun variant => labels.any (Literal.equal · variant.value)) =
        members.all (Ty.coveredBy labels) := by
    rw [← all_coveredBy_unique checker.arena constants]
    change variants.all ((fun value => labels.any (Literal.equal · value)) ∘
      Variant.value) = _
    rw [← List.all_map, values, List.all_flatMap]
    rfl
  rw [remains, pure_bind, isNever, covered]

end Coverage

section Grouped

variable
  {reference : Reference}
  {group before after : List Ty}
  (defined : checker.arena.definition reference = .union occurrence group)
  (constants : ∀ member ∈ before ++ group ++ after, member.isConstant = true)

include defined in
/-- A name for a union leads to the union. -/
theorem unfolds_group :
    checker.arena.Unfolds 1 (.named reference) (.union occurrence group) :=
  .name (by simp [defined]) (by rw [defined]; exact .here rfl)

include defined in
/--
A name for a union is not identical to a type that leads to something else, in
either order.
-/
theorem not_identical_group
    {type node : Ty}
    (unfolds : checker.arena.Unfolds names type node)
    (notUnion : node.isUnion = false) :
    checker.arena.identical type (.named reference) = false ∧
      checker.arena.identical (.named reference) type = false := by
  have unfoldsGroup := unfolds_group defined
  constructor
  · by_contra identical
    rcases Arena.equalNodes_of_identical unfolds unfoldsGroup
      (by simpa using identical) with rfl | ⟨_, equal⟩
    · cases notUnion
    · cases node <;> first | cases equal | cases notUnion
  · by_contra identical
    rcases Arena.equalNodes_of_identical unfoldsGroup unfolds
      (by simpa using identical) with rfl | ⟨_, equal⟩
    · cases notUnion
    · cases node <;> first | cases equal | cases notUnion

include defined in
/-- A name for a union is not identical to a constant, in either order. -/
theorem not_identical_constant
    {type : Ty}
    (constant : type.isConstant = true) :
    checker.arena.identical type (.named reference) = false ∧
      checker.arena.identical (.named reference) type = false :=
  not_identical_group defined (.here (isNamed_of_isConstant constant))
    (by cases type <;> first | rfl | cases constant)

include constants in
/-- The members of a grouped union are the name and constants. -/
theorem mem_grouped
    {member : Ty}
    (inMembers : member ∈ before ++ .named reference :: after) :
    member = .named reference ∨ member.isConstant = true := by
  rcases List.mem_append.mp inMembers with inBefore | inRest
  · exact .inr (constants member (by simp [inBefore]))
  · rcases List.mem_cons.mp inRest with rfl | inAfter
    · exact .inl rfl
    · exact .inr (constants member (by simp [inAfter]))

include constants in
/-- The members of a grouped union are flat. -/
theorem flat_grouped :
    ∀ member ∈ before ++ .named reference :: after, member.isFlat = true := by
  intro member inMembers
  rcases mem_grouped constants inMembers with rfl | constant
  · rfl
  · rw [Ty.isFlat, constant, Bool.true_or]

include defined constants in
/-- Next to other members the name is kept, and so is one of the others. -/
theorem joinMembers_grouped
    (others : before ++ after ≠ []) :
    ∃ types,
      checker.arena.joinMembers (before ++ .named reference :: after) =
          .ofUnion types ∧
        .named reference ∈ types ∧
        ∀ type ∈ types, type = .named reference ∨ type.isConstant = true := by
  have sublist :=
    @unique_sublist checker.arena (before ++ .named reference :: after)
  have keepsName :
      .named reference ∈
        (before ++ .named reference :: after).foldl
          checker.arena.appendUnique [] := by
    obtain ⟨other, inKept, rfl | identical⟩ :=
      exists_counterpart_of_mem checker.arena []
        (show Ty.named reference ∈ before ++ .named reference :: after by simp)
    · exact inKept
    · rcases mem_grouped constants (sublist.subset inKept) with rfl | constant
      · exact inKept
      · rw [(not_identical_constant defined constant).1] at identical
        cases identical
  have keepsConstant :
      ∃ type ∈
        (before ++ .named reference :: after).foldl
          checker.arena.appendUnique [],
        type.isConstant = true := by
    obtain ⟨type, inOthers⟩ := List.exists_mem_of_ne_nil _ others
    have constant : type.isConstant = true := by
      refine constants type ?_
      rcases List.mem_append.mp inOthers with inBefore | inAfter
      · simp [inBefore]
      · simp [inAfter]
    obtain ⟨other, inKept, rfl | identical⟩ :=
      exists_counterpart_of_mem checker.arena []
        (show type ∈ before ++ .named reference :: after by
          rcases List.mem_append.mp inOthers with inBefore | inAfter
          · simp [inBefore]
          · simp [inAfter])
    · exact ⟨_, inKept, constant⟩
    · rcases mem_grouped constants (sublist.subset inKept) with rfl | kept
      · rw [(not_identical_constant defined constant).2] at identical
        cases identical
      · exact ⟨other, inKept, kept⟩
  refine ⟨_, ?_, keepsName,
    fun type inKept => mem_grouped constants (sublist.subset inKept)⟩
  rw [joinMembers_flat (flat_grouped constants)]
  split
  · next none =>
    rw [none] at keepsName
    cases keepsName
  · next type single =>
    rw [single] at keepsName keepsConstant
    obtain ⟨other, isType, constant⟩ := keepsConstant
    cases List.mem_singleton.mp keepsName
    cases List.mem_singleton.mp isType
    cases constant
  · rfl

include deep funded defined constants in
/-- A name for a part of a union of constants leaves the union unexhausted. -/
theorem checkExhaustive_part
    (others : before ++ after ≠ [])
    (labels : List Literal) :
    ∃ residual,
      checker.checkExhaustive
          (.union written (before ++ .named reference :: after)) labels =
        pure { exhaustive := false, residual } := by
  obtain ⟨types, joined, keepsName, each⟩ :=
    joinMembers_grouped defined constants others
  have flat := @flat_grouped reference group before after constants
  have leads :
      checker.structural 0
          (.union written (before ++ .named reference :: after)) =
        pure (.ok (.ofUnion types)) := by
    unfold structural Evaluation.structural
    rw [structuralWithin_flat funded flat
      (resolve_of_notReference rfl (by omega)) (by omega) (by rw [joined]; rfl),
      joined]
    rfl
  have noShapes :
      ∀ member ∈ (Ty.ofUnion types).members,
        (checker.memberShape member).run = pure none := by
    intro member inTypes
    rcases each member inTypes with rfl | constant
    · refine memberShape_of_structural
        (structural_constants deep funded
          (fun part inGroup => constants part (by simp [inGroup]))
          (resolve_named defined (by omega)) (Nat.le_refl 1))
        fun occurrence => (joinMembers_ne (flat_of_constants fun part inGroup =>
          constants part (by simp [inGroup])) occurrence).2
    · exact memberShape_constant deep constant
  have notTaken :
      Coverage.literalVariants? (Ty.ofUnion types).members = none :=
    literalVariants?_named keepsName
  have starts :
      checker.coverage? (.union written (before ++ .named reference :: after)) =
        pure none := by
    rw [coverage?_of_noShapes leads (List.ne_nil_of_mem keepsName) noShapes,
      notTaken]
  refine ⟨.ofUnion types, ?_⟩
  unfold checkExhaustive normalize
  rw [starts, pure_bind]
  dsimp only
  rw [normalizeAt_flat funded flat (by omega), pure_bind, joined]
  obtain ⟨first, rest, rfl⟩ :=
    List.exists_cons_of_ne_nil (List.ne_nil_of_mem keepsName)
  rfl

include deep funded defined constants in
/-- A name for a whole union of constants is seen through. -/
theorem structural_whole
    (whole : before ++ after = []) :
    checker.structural 0
        (.union written (before ++ .named reference :: after)) =
      pure (.ok (checker.arena.joinMembers group)) := by
  obtain ⟨rfl, rfl⟩ := List.append_eq_nil_iff.mp whole
  have groupConstants : ∀ member ∈ group, member.isConstant = true := by
    simpa using constants
  obtain ⟨remaining, same⟩ :
      ∃ remaining, checker.evaluation.remainingFrom 0 = remaining + 1 :=
    ⟨checker.options.maxDepth, rfl⟩
  unfold structural Evaluation.structural
  rw [same, List.nil_append, structuralWithin_onlyName funded (by omega),
    structuralWithin_flat funded (flat_of_constants groupConstants)
      (resolve_named defined (by omega)) (by omega)
      (joinMembers_constants groupConstants)]
  rfl

include deep funded defined constants in
/--
Grouping members of a union of constants under a name. The union written out is
exhausted exactly when the labels cover its members. With the name in their
place it is so too if the name stands for the whole union, and is never
exhausted if there are other members beside the name.
-/
theorem checkExhaustive_grouped
    {members : List Ty}
    (nonempty : group ≠ [])
    (same : ∀ member, member ∈ members ↔ member ∈ before ++ group ++ after)
    (labels : List Literal) :
    ∃ plain named,
      checker.checkExhaustive (.union written members) labels = pure plain ∧
        checker.checkExhaustive
            (.union rewritten (before ++ .named reference :: after)) labels =
          pure named ∧
        (plain.exhaustive = true ↔
          ∀ member ∈ members, member.coveredBy labels = true) ∧
        (named.exhaustive = true ↔
          before ++ after = [] ∧ plain.exhaustive = true) := by
  have plainConstants : ∀ member ∈ members, member.isConstant = true :=
    fun member inMembers => constants member ((same member).mp inMembers)
  have plainNonempty : members ≠ [] := by
    obtain ⟨member, inGroup⟩ := List.exists_mem_of_ne_nil group nonempty
    exact List.ne_nil_of_mem ((same member).mpr (by simp [inGroup]))
  obtain ⟨plainResidual, plainRuns⟩ :=
    checkExhaustive_constants deep funded plainConstants plainNonempty
      (structural_constants deep funded plainConstants
        (resolve_of_notReference rfl (Nat.zero_le _)) (Nat.zero_le 1)) labels
  by_cases whole : before ++ after = []
  · obtain ⟨residual, runs⟩ :=
      checkExhaustive_constants deep funded
        (fun member inGroup => constants member (by simp [inGroup])) nonempty
        (structural_whole deep funded defined constants whole) labels
    refine ⟨_, _, plainRuns, runs, by simp, ?_⟩
    obtain ⟨rfl, rfl⟩ := List.append_eq_nil_iff.mp whole
    simp [same]
  · obtain ⟨residual, runs⟩ :=
      checkExhaustive_part deep funded defined constants whole labels
    exact ⟨_, _, plainRuns, runs, by simp, by simp [whole]⟩

end Grouped

section Bits

/-- The constant of a digit. -/
def digit
    (value : Nat) :
    Literal :=
  .number (.ofNat value)

/-- A checker that knows `Bit`, the union of `0` and `1`. -/
def bits : Checker :=
  { arena :=
      { declarations :=
          [{ name := "Bit"
             definition :=
              .ofUnion [.ofLiteral (digit 0), .ofLiteral (digit 1)] }] }
    budget := 20 }

/-- The name of the bits. -/
def bit : Reference :=
  { arena := 0, id := 0, name := "Bit" }

/-- Both digits exhaust the bits, written out and under their name. -/
theorem checkExhaustive_grouped_bit :
    ∃ plain named,
      bits.checkExhaustive
          (.ofUnion [.ofLiteral (digit 1), .ofLiteral (digit 0)])
          [digit 0, digit 1] = pure plain ∧
        bits.checkExhaustive (.ofUnion [.named bit]) [digit 0, digit 1] =
          pure named ∧
        plain.exhaustive = true ∧
        named.exhaustive = true := by
  obtain ⟨plain, named, plainRuns, namedRuns, covered, whole⟩ :=
    @checkExhaustive_grouped none bits (by decide) (by decide) bit
      [.ofLiteral (digit 0), .ofLiteral (digit 1)] [] [] rfl
      (by simp [Ty.isConstant, Ty.ofLiteral])
      none none [.ofLiteral (digit 1), .ofLiteral (digit 0)]
      (by simp) (by simp [or_comm]) [digit 0, digit 1]
  have exhausted : plain.exhaustive = true := covered.mpr (by decide +kernel)
  exact ⟨plain, named, plainRuns, namedRuns, exhausted,
    whole.mpr ⟨rfl, exhausted⟩⟩

/-- With a third digit beside it, the name is not taken apart. -/
theorem checkExhaustive_misses_group :
    ((bits.checkExhaustive
        (.ofUnion
          [.ofLiteral (digit 0), .ofLiteral (digit 1), .ofLiteral (digit 2)])
        [digit 0, digit 1, digit 2]).run' []).map Exhaustiveness.exhaustive =
      .ok true ∧
    ((bits.checkExhaustive
        (.ofUnion [.named bit, .ofLiteral (digit 2)])
        [digit 0, digit 1, digit 2]).run' []).map Exhaustiveness.exhaustive =
      .ok false := by
  decide +kernel

end Bits

end Checker

end StructuralTyping
