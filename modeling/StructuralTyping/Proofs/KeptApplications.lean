import StructuralTyping.Proofs.Outcomes

namespace StructuralTyping

/-!
# Utility applications in structural positions

Property types, index signatures, elements, parameters, rest parameters and
results stand in structural positions, and so do the operands of an application
that stands in one. Normalization keeps the applications it meets there and only
normalizes their operands. A definition that refers to itself through such
applications is therefore normalized without being followed.

The members of a union inside such a position are missed: applications among them
are evaluated, as they are at the top, and a definition that refers to itself
through one of them is followed down to the depth bound. Nothing is said here of
the meeting of members in an intersection.
-/

open Check Stateful

/-- How normalization meets a type. -/
inductive Position where
  /-- As a property type, an element, an operand or the like. -/
  | structural
  /-- At the top, or as a member of a union or an intersection. -/
  | exposed
  deriving Repr, DecidableEq

/-- A checker evaluates an application to a type, at some depth. -/
def Checker.EvaluatesTo
    (checker : Checker)
    (application : Application Ty)
    (type : Ty) :
    Prop :=
  ∃ depth,
    Check.Answers (checker.evaluation.evaluate application depth).run (.ok type)

/--
A type and its normal form in a position, `remaining` levels above the depth
bound. An application in a structural position goes to an application of the same
utility, operand by operand. An exposed one goes to a normal form of what it is
evaluated to, or stays as well. What an intersection goes to is left open.
-/
inductive Normalized
    (checker : Checker) :
    Position →
    (remaining : Nat) →
    Ty →
    Ty →
    Prop
  | kept
      {application normal : Application Ty}
      (utility : normal.utility = application.utility)
      (base :
        Normalized checker .structural remaining application.base normal.base)
      (length : normal.arguments.length = application.arguments.length)
      (arguments :
        ∀ before after,
          (before, after) ∈ application.arguments.zip normal.arguments →
          Normalized checker .structural remaining before after) :
      Normalized checker .structural remaining
        (.generic occurrence application) (.generic other normal)
  | inside
      (unapplied : before.isApplication = false)
      (normalized : Normalized checker .exposed remaining before after) :
      Normalized checker .structural remaining before after
  | absent :
      Normalized checker .exposed remaining .absent .absent
  | cut :
      Normalized checker .exposed 0 type type
  | primitive :
      Normalized checker .exposed (remaining + 1)
        (.primitive kind) (.primitive kind)
  | literal :
      Normalized checker .exposed (remaining + 1)
        (.literal occurrence value) (.literal occurrence value)
  | named :
      Normalized checker .exposed (remaining + 1)
        (.named reference) (.named reference)
  | object
      {shape normal : Shape Ty}
      (names :
        List.Forall₂
          (fun before after : Property Ty =>
            after = { before with type := after.type })
          shape.properties normal.properties)
      (properties :
        ∀ before after,
          (before, after) ∈ shape.properties.zip normal.properties →
          Normalized checker .structural remaining before.type after.type)
      (indexed : normal.index.isSome = shape.index.isSome)
      (keys :
        ∀ before after,
          shape.index = some before →
          normal.index = some after →
          Normalized checker .structural remaining before.key after.key)
      (values :
        ∀ before after,
          shape.index = some before →
          normal.index = some after →
          Normalized checker .structural remaining before.value after.value) :
      Normalized checker .exposed (remaining + 1)
        (.object occurrence shape) (.ofShape normal)
  | array
      (element : Normalized checker .structural remaining before after) :
      Normalized checker .exposed (remaining + 1)
        (.array occurrence before readonly) (.array none after readonly)
  | tuple
      {elements normals : List Ty}
      (length : normals.length = elements.length)
      (each :
        ∀ before after,
          (before, after) ∈ elements.zip normals →
          Normalized checker .structural remaining before after) :
      Normalized checker .exposed (remaining + 1)
        (.tuple occurrence elements readonly) (.tuple none normals readonly)
  | function
      {signature normal : Signature Ty}
      (method : normal.method = signature.method)
      (names :
        List.Forall₂
          (fun before after : Parameter Ty =>
            after = { before with type := after.type })
          signature.parameters normal.parameters)
      (parameters :
        ∀ before after,
          (before, after) ∈ signature.parameters.zip normal.parameters →
          Normalized checker .structural remaining before.type after.type)
      (rest :
        Normalized checker .structural remaining signature.rest normal.rest)
      (result :
        Normalized checker .structural remaining signature.result
          normal.result) :
      Normalized checker .exposed (remaining + 1)
        (.function occurrence signature) (.function none normal)
  | union
      {members normals : List Ty}
      (length : normals.length = members.length)
      (each :
        ∀ before after,
          (before, after) ∈ members.zip normals →
          Normalized checker .exposed remaining before after) :
      Normalized checker .exposed (remaining + 1)
        (.union occurrence members)
        (checker.arena.joinMembers (flattenUnion normals))
  | intersection :
      Normalized checker .exposed (remaining + 1)
        (.intersection occurrence members) after
  | evaluated
      (evaluates : checker.EvaluatesTo application type)
      (normalized : Normalized checker .exposed remaining type after) :
      Normalized checker .exposed (remaining + 1)
        (.generic occurrence application) after
  | unevaluated
      (kept :
        Normalized checker .structural remaining
          (.generic occurrence application) after) :
      Normalized checker .exposed (remaining + 1)
        (.generic occurrence application) after

section Keeping

variable {checker : Checker}

/-- Every answer of a pass is a normal form of what it visits. -/
structure NormalPass.Normalizes
    (checker : Checker)
    (pass : NormalPass) :
    Prop where
  normalize :
    ∀ {depth type result},
      Answers (pass.normalize depth type) result →
      Normalized checker .exposed (checker.options.maxDepth - depth) type result
  inner :
    ∀ {depth type result},
      Answers (pass.inner depth type) result →
      Normalized checker .structural (checker.options.maxDepth - depth) type result

/-- What is related item by item is related pair by pair, at one length. -/
theorem forall_zip
    {relation : α → β → Prop}
    {items : List α}
    {others : List β}
    (related : List.Forall₂ relation items others) :
    others.length = items.length ∧
      ∀ item other, (item, other) ∈ items.zip others → relation item other :=
  ⟨related.length_eq.symm, fun _ _ member =>
    (List.forall₂_iff_zip.mp related).2 member⟩

namespace NormalPass

variable {pass : NormalPass} [pass.Reports]

/-- An application that stays has normal operands. -/
theorem Normalizes.rebuild
    (normalizes : pass.Normalizes checker)
    {application : Application Ty}
    (answers :
      Answers (pass.rebuild depth occurrence application) result) :
    Normalized checker .structural (checker.options.maxDepth - depth)
      (.generic occurrence application) result := by
  obtain ⟨kept, base, arguments, baseTold, argumentsTold, rfl⟩ :=
    rebuild_cases answers
  obtain ⟨length, each⟩ := forall_zip (Outcome.of_mapM argumentsTold)
  exact .kept rfl (normalizes.inner baseTold) length
    fun before after member => normalizes.inner (each before after member)

/-- A node above the bound is normalized by the rule for its constructor. -/
theorem Normalizes.normalizeNode
    (normalizes : pass.Normalizes checker)
    (within : depth < checker.options.maxDepth)
    {type : Ty}
    (present : type.isAbsent = false)
    (answers :
      Answers (pass.normalizeNode checker.normalMode (depth + 1) type) result) :
    Normalized checker .exposed (checker.options.maxDepth - depth) type result := by
  obtain ⟨remaining, left, below⟩ :
      ∃ remaining,
        checker.options.maxDepth - depth = remaining + 1 ∧
          checker.options.maxDepth - (depth + 1) = remaining :=
    ⟨checker.options.maxDepth - (depth + 1), by omega, rfl⟩
  have inner :
      ∀ {type result}, Answers (pass.inner (depth + 1) type) result →
        Normalized checker .structural remaining type result :=
    fun answers => below ▸ normalizes.inner answers
  rw [left]
  cases type with
  | absent => cases present
  | primitive kind =>
      cases answers_pure.mp answers
      exact .primitive
  | literal occurrence value =>
      cases answers_pure.mp answers
      exact .literal
  | named reference =>
      cases answers_pure.mp answers
      exact .named
  | object occurrence shape =>
      obtain ⟨normal, visits, answers⟩ := Answers.of_bind answers
      cases answers_pure.mp answers
      obtain ⟨properties, index⟩ := normalizeShape_cases visits
      have indexed : normal.index.isSome = shape.index.isSome := by
        generalize shape.index = before, normal.index = after at index ⊢
        cases index <;> rfl
      refine .object (properties.imp fun _ _ told => told.1)
        (fun before after member =>
          inner ((forall_zip properties).2 before after member).2)
        indexed ?_ ?_
      · intro before after written present
        rw [written, present] at index
        cases index with
        | some told => exact inner told.1
      · intro before after written present
        rw [written, present] at index
        cases index with
        | some told => exact inner told.2
  | array occurrence element readonly =>
      obtain ⟨normal, told, answers⟩ := Answers.of_bind answers
      cases answers_pure.mp answers
      exact .array (inner told)
  | tuple occurrence elements readonly =>
      obtain ⟨normals, visits, answers⟩ := Answers.of_bind answers
      cases answers_pure.mp answers
      obtain ⟨length, each⟩ := forall_zip (Outcome.of_mapM visits)
      exact .tuple length fun before after member =>
        inner (each before after member)
  | function occurrence signature =>
      obtain ⟨normal, visits, answers⟩ := Answers.of_bind answers
      cases answers_pure.mp answers
      obtain ⟨method, parameters, rest, result⟩ :=
        normalizeSignature_cases visits
      exact .function method (parameters.imp fun _ _ told => told.1)
        (fun before after member =>
          inner ((forall_zip parameters).2 before after member).2)
        (inner rest) (inner result)
  | union occurrence members =>
      obtain ⟨normals, visits, rfl⟩ := union_cases answers
      obtain ⟨length, each⟩ := forall_zip (Outcome.of_mapM visits)
      exact .union length fun before after member =>
        below ▸ normalizes.normalize (each before after member)
  | intersection occurrence members => exact .intersection
  | generic occurrence application =>
      unfold NormalPass.normalizeNode NormalPass.normalizeApplication at answers
      obtain ⟨outcome, evaluates, answers⟩ := Answers.of_bind answers
      cases outcome with
      | ok type =>
          exact .evaluated ⟨depth + 1, evaluates.of_lift⟩
            (below ▸ normalizes.normalize answers)
      | error error =>
          obtain ⟨_, _, answers⟩ := Answers.of_bind answers
          exact .unevaluated (below ▸ normalizes.rebuild answers)

/-- One step of normalization gives normal forms. -/
theorem Normalizes.next
    (normalizes : pass.Normalizes checker) :
    (pass.next checker.normalMode).Normalizes checker := by
  have normalize :
      ∀ {depth type result},
        Answers (pass.nextNormalize checker.normalMode depth type) result →
        Normalized checker .exposed
          (checker.options.maxDepth - depth) type result := by
    intro depth type result answers
    unfold NormalPass.nextNormalize at answers
    split at answers
    · next absent =>
      cases answers_pure.mp answers
      cases type <;> simp [Ty.isAbsent] at absent
      exact .absent
    next present =>
    split at answers
    · next reached =>
      obtain ⟨_, _, answers⟩ := answers.of_bind
      cases answers_pure.mp answers
      have bottom : checker.options.maxDepth - depth = 0 :=
        Nat.sub_eq_zero_of_le reached
      rw [bottom]
      exact .cut
    · next within =>
      exact normalizes.normalizeNode (Nat.lt_of_not_le within)
        (by simpa using present) answers
  refine ⟨normalize, ?_⟩
  intro depth type result answers
  change Answers (pass.nextInner depth type) result at answers
  unfold NormalPass.nextInner at answers
  split at answers
  · exact normalizes.rebuild answers
  · next notApplication =>
    refine .inside ?_ (normalizes.normalize answers)
    cases type with
    | generic occurrence application =>
        exact absurd rfl (notApplication occurrence application)
    | _ => rfl

end NormalPass

/-- Every answer of every pass is a normal form of what it visits. -/
theorem normalPass_normalizes
    (checker : Checker)
    (budget : Nat) :
    (normalPass checker.normalMode budget).Normalizes checker := by
  induction budget with
  | zero =>
      exact
        { normalize := fun answers => (not_answers_exhausted answers).elim
          inner := fun answers => (not_answers_exhausted answers).elim }
  | succ budget inductionHypothesis =>
      rw [normalPass_succ]
      exact inductionHypothesis.next

end Keeping

/-- From some budget on, a computation of each budget is one value. -/
def Steady
    (family : ι → Nat → Normalizing α) :
    Prop :=
  ∃ value enough, ∀ index budget, enough ≤ budget →
    family index budget = pure value

namespace Steady

variable {family : ι → Nat → Normalizing α}

/-- A value is steady. -/
theorem pure
    (value : α) :
    Steady fun (_ : ι) _ => Pure.pure value :=
  ⟨value, 0, fun _ _ _ => rfl⟩

/-- A sequence is steady when its parts are. -/
theorem bind
    {next : ι → Nat → α → Normalizing β}
    (first : Steady family)
    (second : ∀ value, Steady fun index budget => next index budget value) :
    Steady fun index budget => family index budget >>= next index budget := by
  obtain ⟨value, enough, firstSame⟩ := first
  obtain ⟨answer, more, nextSame⟩ := second value
  refine ⟨answer, max enough more, fun index budget fits => ?_⟩
  dsimp only
  rw [firstSame index budget (by omega), pure_bind]
  exact nextSame index budget (by omega)

/-- A visit to a list is steady when every single visit is. -/
theorem mapM
    {visit : ι → Nat → α → Normalizing β}
    {items : List α}
    (each : ∀ item ∈ items, Steady fun index budget => visit index budget item) :
    Steady fun index budget => items.mapM (visit index budget) := by
  induction items with
  | nil =>
      exact pure []
  | cons item rest inductionHypothesis =>
      simp only [List.mapM_cons]
      refine (each item (by simp)).bind fun value => ?_
      refine (inductionHypothesis fun other inRest =>
        each other (by simp [inRest])).bind fun values => ?_
      exact pure (value :: values)

/-- A visit to something that may be missing is steady when the visit is. -/
theorem optionMapM
    {visit : ι → Nat → α → Normalizing β}
    {written : Option α}
    (each :
      ∀ item, written = some item →
        Steady fun index budget => visit index budget item) :
    Steady fun index budget => written.mapM (visit index budget) := by
  cases written with
  | none =>
      exact pure none
  | some item =>
      exact (each item rfl).bind fun value => pure (some value)

/-- What is steady with one unit of budget more is steady. -/
theorem ofSucc
    (steady : Steady fun index budget => family index (budget + 1)) :
    Steady family := by
  obtain ⟨value, enough, same⟩ := steady
  refine ⟨value, enough + 1, fun index budget fits => ?_⟩
  obtain ⟨rest, rfl⟩ := Nat.exists_eq_add_of_le' fits
  exact same index (rest + enough) (by omega)

end Steady

section Parts

variable {pass : ι → Nat → NormalPass}

/-- An application whose operands are steady is put together again steadily. -/
theorem rebuild_steady
    {application : Application Ty}
    (inner :
      ∀ part ∈ (Ty.generic none application).parts,
        Steady fun index budget => (pass index budget).inner depth part) :
    Steady fun index budget =>
      (pass index budget).rebuild depth occurrence application := by
  obtain ⟨base, arguments⟩ := Ty.forall_parts_generic.mp inner
  unfold NormalPass.rebuild
  refine base.bind fun base => ?_
  refine (Steady.mapM arguments).bind fun arguments => ?_
  split <;> exact .pure _

/-- Normalizing the members of an object is steady when it is for each part. -/
theorem normalizeShape_steady
    {shape : Shape Ty}
    (inner :
      ∀ part ∈ (Ty.object none shape).parts,
        Steady fun index budget => (pass index budget).inner depth part) :
    Steady fun index budget =>
      (pass index budget).normalizeShape depth shape := by
  have all := Ty.forall_parts_object.mp inner
  unfold NormalPass.normalizeShape
  have properties :
      Steady fun index budget =>
        shape.properties.mapM fun property => do
          let type ← (pass index budget).inner depth property.type
          return { property with type } :=
    .mapM fun property member =>
      (all.properties property member).bind fun _ => .pure _
  refine properties.bind fun properties => ?_
  refine Steady.bind
    (Steady.optionMapM fun index written =>
      (all.keys index written).bind fun _ =>
        (all.values index written).bind fun _ => .pure _)
    fun _ => .pure _

/-- Normalizing a call signature is steady when it is for each part. -/
theorem normalizeSignature_steady
    {signature : Signature Ty}
    (inner :
      ∀ part ∈ (Ty.function none signature).parts,
        Steady fun index budget => (pass index budget).inner depth part) :
    Steady fun index budget =>
      (pass index budget).normalizeSignature depth signature := by
  obtain ⟨parameters, rest, result⟩ := Ty.forall_parts_function.mp inner
  unfold NormalPass.normalizeSignature
  have visits :
      Steady fun index budget =>
        signature.parameters.mapM fun parameter => do
          let type ← (pass index budget).inner depth parameter.type
          return { parameter with type } :=
    .mapM fun parameter member =>
      (parameters parameter member).bind fun _ => .pure _
  refine visits.bind fun parameters => ?_
  exact rest.bind fun _ => result.bind fun _ => .pure _

end Parts

/--
A type without intersections whose applications stand in structural positions and
whose nodes nest at most so deep.
-/
inductive Ty.Lazy :
    Position →
    (remaining : Nat) →
    Ty →
    Prop
  | absent :
      Lazy position remaining .absent
  | kept :
      (∀ part ∈ (Ty.generic occurrence application).parts,
        Lazy .structural remaining part) →
      Lazy .structural remaining (.generic occurrence application)
  | union {members : List Ty} :
      (∀ member ∈ members, Lazy .exposed remaining member) →
      Lazy position (remaining + 1) (.union occurrence members)
  | node
      (unapplied : type.isApplication = false)
      (notUnion : type.isUnion = false)
      (notIntersection : RelationStep.isIntersection type = false)
      (parts : ∀ part ∈ type.parts, Lazy .structural remaining part) :
      Lazy position (remaining + 1) type

section Standing

variable {arena : Arena} {options : Options}

/-- In a structural position a type is normalized unless it is an application. -/
theorem inner_steady
    {type : Ty}
    (unapplied : type.isApplication = false)
    (steady :
      Steady fun (mode : ModeOver arena options) budget =>
        (mode.pass budget).normalize depth type) :
    Steady fun (mode : ModeOver arena options) budget =>
      (mode.pass budget).inner depth type := by
  refine .ofSucc ?_
  cases type with
  | generic occurrence application => cases unapplied
  | _ => exact steady

/-- Above the bound a type is normalized as its node is. -/
theorem normalize_steady
    {type : Ty}
    (within : depth < options.maxDepth)
    (steady :
      Steady fun (mode : ModeOver arena options) budget =>
        (mode.pass budget).normalizeNode mode.val (depth + 1) type) :
    Steady fun (mode : ModeOver arena options) budget =>
      (mode.pass budget).normalize depth type := by
  refine .ofSucc ?_
  change
    Steady fun (mode : ModeOver arena options) budget =>
      (mode.pass budget).nextNormalize mode.val depth type
  have sameOptions :
      ∀ mode : ModeOver arena options, mode.val.checker.options = options :=
    fun mode => mode.property.2
  simp only [NormalPass.nextNormalize, sameOptions,
    if_neg (Nat.not_le_of_lt within)]
  split
  · exact .pure type
  · exact steady

/-- Nodes without applications to evaluate are normalized without a report. -/
theorem normalizeNode_steady
    {type : Ty}
    (unapplied : type.isApplication = false)
    (notUnion : type.isUnion = false)
    (notIntersection : RelationStep.isIntersection type = false)
    (inner :
      ∀ part ∈ type.parts,
        Steady fun (mode : ModeOver arena options) budget =>
          (mode.pass budget).inner depth part) :
    Steady fun (mode : ModeOver arena options) budget =>
      (mode.pass budget).normalizeNode mode.val depth type := by
  cases type with
  | absent => exact .pure _
  | primitive kind => exact .pure _
  | literal occurrence value => exact .pure _
  | named reference => exact .pure _
  | object occurrence shape =>
      exact (normalizeShape_steady inner).bind fun _ => .pure _
  | array occurrence element readonly =>
      exact (inner element (by simp [Ty.parts])).bind fun _ => .pure _
  | tuple occurrence elements readonly =>
      exact (Steady.mapM inner).bind fun _ => .pure _
  | function occurrence signature =>
      exact (normalizeSignature_steady inner).bind fun _ => .pure _
  | union occurrence members => cases notUnion
  | intersection occurrence members => cases notIntersection
  | generic occurrence application => cases unapplied

/-- Above the bound, types without applications to evaluate are steady. -/
theorem steady_of_lazy
    {type : Ty}
    (lazy : type.Lazy position remaining)
    (within : depth + remaining ≤ options.maxDepth) :
    (position = .exposed →
        Steady fun (mode : ModeOver arena options) budget =>
          (mode.pass budget).normalize depth type) ∧
      Steady fun (mode : ModeOver arena options) budget =>
        (mode.pass budget).inner depth type := by
  induction lazy generalizing depth with
  | absent =>
      have steady :
          Steady fun (mode : ModeOver arena options) budget =>
            (mode.pass budget).normalize depth .absent :=
        .ofSucc (.pure _)
      exact ⟨fun _ => steady, inner_steady rfl steady⟩
  | kept _ operands =>
      refine ⟨nofun, .ofSucc ?_⟩
      exact rebuild_steady fun part inside => (operands part inside within).2
  | @union remaining _ occurrence members _ inductionHypothesis =>
      have steady :
          Steady fun (mode : ModeOver arena options) budget =>
            (mode.pass budget).normalize depth
              (.union occurrence members) := by
        refine normalize_steady (by omega) ?_
        have sameArena :
            ∀ mode : ModeOver arena options, mode.val.checker.arena = arena :=
          fun mode => mode.property.1
        simp only [NormalPass.normalizeNode, NormalPass.union, sameArena]
        exact (Steady.mapM fun member inMembers =>
          (inductionHypothesis member inMembers (by omega)).1 rfl).bind
            fun _ => .pure _
      exact ⟨fun _ => steady, inner_steady rfl steady⟩
  | node unapplied notUnion notIntersection _ inductionHypothesis =>
      have above : depth < options.maxDepth := by omega
      have steady :=
        normalize_steady above
          (normalizeNode_steady unapplied notUnion notIntersection
            fun part inside =>
              (inductionHypothesis part inside (by omega)).2)
      exact ⟨fun _ => steady, inner_steady unapplied steady⟩

end Standing

namespace Checker

/--
Normalization keeps the applications in structural positions. Every answer is a
normal form in which each of them is an application of the same utility to
normal operands, at every depth bound. If no application stands anywhere else and
the type nests no deeper than the bound, there is an answer whatever the
definitions of the arena are, and no exceeded depth or anything else is reported.
-/
theorem normalize_keeps_applications
    {arena : Arena}
    {options : Options}
    {type : Ty} :
    (∀ budget result,
        Check.Answers (Checker.normalize { arena, options, budget } type)
          result →
        Normalized { arena, options, budget } .exposed options.maxDepth type
          result) ∧
      (type.Lazy .exposed options.maxDepth →
        ∃ result enough, ∀ budget, enough ≤ budget → ∀ log,
          Checker.normalize { arena, options, budget } type log =
            .ok (result, log)) := by
  constructor
  · intro budget result answers
    exact (normalPass_normalizes { arena, options, budget } budget).normalize
      (answers_of_normalizeIn answers)
  · intro lazy
    obtain ⟨result, enough, same⟩ :=
      (steady_of_lazy lazy (Nat.zero_add _).le).1 rfl
    refine ⟨result, enough, fun budget fits log => ?_⟩
    let mode := normalMode { arena, options, budget }
    have steady : (normalPass mode budget).normalize 0 type = pure result :=
      same ⟨mode, rfl, rfl⟩ budget fits
    change ((normalPass mode budget).normalize 0 type).run' false log = _
    rw [steady]
    rfl

section Rings

/-- A loosened member of the ring declared first. -/
def looseMember : Ty :=
  .generic none
    { utility := "Partial"
      base := .named { arena := 0, id := 0, name := "Member" }
      arguments := [] }

/-- A member of a ring: a loosened next one, and a list of loosened ones or `null`. -/
def ringMember
    (others : Ty) :
    Ty :=
  .ofShape
    { properties :=
        [{ name := "next", type := looseMember },
          { name := "others", type := others }] }

/-- A list of loosened members, or twice `null`. -/
def looseMembers : Ty :=
  .ofUnion [.array none looseMember false, .null, .null]

/-- A ring whose members refer to themselves through a utility. -/
def ringArena : Arena :=
  { declarations :=
      [{ name := "Member", definition := ringMember looseMembers }] }

/-- The members of a ring are normalized without being followed. -/
theorem normalize_keeps_applications_ring :
    Normalized { arena := ringArena, budget := 20 } .exposed 100
        (ringMember looseMembers)
        (ringMember
          (.ofUnion [.array none looseMember false, .null])) ∧
      ∃ result enough, ∀ budget, enough ≤ budget → ∀ log,
        Checker.normalize { arena := ringArena, options := {}, budget }
            (ringMember looseMembers) log =
          .ok (result, log) := by
  obtain ⟨keeps, halts⟩ :=
    @normalize_keeps_applications ringArena {} (ringMember looseMembers)
  refine ⟨keeps 20 _ ⟨[], [], by decide +kernel⟩, halts ?_⟩
  have loose {remaining : Nat} :
      looseMember.Lazy .structural (remaining + 1) :=
    .kept (List.forall_mem_singleton.mpr (.node rfl rfl rfl nofun))
  have null {remaining : Nat} :
      Ty.null.Lazy .exposed (remaining + 1) :=
    .node rfl rfl rfl nofun
  refine .node rfl rfl rfl
    (List.forall_mem_cons.mpr ⟨loose, List.forall_mem_singleton.mpr ?_⟩)
  refine .union (List.forall_mem_cons.mpr
    ⟨.node rfl rfl rfl (List.forall_mem_singleton.mpr loose),
      List.forall_mem_cons.mpr ⟨null, List.forall_mem_singleton.mpr null⟩⟩)

end Rings

section Chains

/-- A link of a chain: the loosened next one, or `null`. -/
def looseLink : Ty :=
  .ofShape
    { properties :=
        [{ name := "next"
           type :=
            .ofUnion
              [.generic none
                { utility := "Partial"
                  base := .named { arena := 0, id := 0, name := "Link" }
                  arguments := [] },
                .null] }] }

/--
Applications among the members of a union are missed, wherever it stands. The link
of a chain is unfolded down to the depth bound, which is then reported, although
its only application is a member of a union that is a property type.
-/
theorem normalize_unfolds_union_members :
    (Checker.normalize
          { arena :=
              { declarations := [{ name := "Link", definition := looseLink }] }
            budget := 400 }
          looseLink []).map
        (fun answer =>
          (decide (answer.1 = looseLink), answer.2.map Diagnostic.code)) =
      .ok (false, [.typeTooComplex]) := by
  decide +kernel

end Chains

end Checker

end StructuralTyping
