import StructuralTyping.Proofs.Canonizing

namespace StructuralTyping

/-!
# Normalization is idempotent where nothing is left over

A canonical type is its own normal form, unless its intersections still hold
identical members, or unions that could be distributed over, or an application
whose evaluation failed stands where normalization would try it again. Merging
the objects of an intersection comes after its members are compared, so such
members do occur in answers.
-/

/--
A type in which normalization finds nothing to do. The flag tells whether
applications are evaluated where the type stands.
-/
inductive Ty.Stable
    (arena : Arena) :
    Bool →
    Ty →
    Prop
  | absent :
      Stable arena evaluated .absent
  | primitive :
      Stable arena evaluated (.primitive kind)
  | literal :
      Stable arena evaluated (.literal occurrence value)
  | named :
      Stable arena evaluated (.named reference)
  | object :
      (∀ property ∈ shape.properties, Stable arena false property.type) →
      (∀ index, shape.index = some index → Stable arena false index.key) →
      (∀ index, shape.index = some index → Stable arena false index.value) →
      Stable arena evaluated (.object occurrence shape)
  | array :
      Stable arena false element →
      Stable arena evaluated (.array occurrence element readonly)
  | tuple :
      (∀ element ∈ elements, Stable arena false element) →
      Stable arena evaluated (.tuple occurrence elements readonly)
  | function :
      (∀ parameter ∈ signature.parameters,
        Stable arena false parameter.type) →
      Stable arena false signature.rest →
      Stable arena false signature.result →
      Stable arena evaluated (.function occurrence signature)
  | union {parts : List Ty} :
      (∀ part ∈ parts, Stable arena true part) →
      Stable arena evaluated (.union occurrence parts)
  | intersection {parts : List Ty} :
      (parts.Pairwise fun first second =>
        arena.identical first second = false) →
      distribute? parts = none →
      (∀ part ∈ parts, Stable arena true part) →
      Stable arena evaluated (.intersection occurrence parts)
  | generic :
      Stable arena false application.base →
      (∀ argument ∈ application.arguments, Stable arena false argument) →
      Stable arena false (.generic occurrence application)

section Fixed

variable {arena : Arena} {options : Options}

/-- Normalizing the type converges to the type itself, at every depth. -/
def Ty.Fixed
    (arena : Arena)
    (options : Options)
    (type : Ty) :
    Prop :=
  ∀ depth,
    Converges
      (fun (mode : ModeOver arena options) budget =>
        (mode.pass budget).normalize depth type)
      (· = type)

@[inherit_doc Ty.Fixed]
def Ty.FixedInside
    (arena : Arena)
    (options : Options)
    (type : Ty) :
    Prop :=
  ∀ depth,
    Converges
      (fun (mode : ModeOver arena options) budget =>
        (mode.pass budget).inner depth type)
      (· = type)

/-- Where only applications are treated apart, other types are fixed alike. -/
theorem Ty.Fixed.inside
    {type : Ty}
    (fixed : type.Fixed arena options)
    (plain : ∀ occurrence application, type ≠ .generic occurrence application) :
    type.FixedInside arena options := by
  intro depth
  refine .ofSucc ?_
  cases type with
  | generic occurrence application =>
      exact absurd rfl (plain occurrence application)
  | _ =>
      exact fixed depth

/-- A visit to a list whose items stay converges to the list. -/
theorem Converges.mapM_self
    {visit : ι → Nat → α → Normalizing α}
    {items : List α}
    (each :
      ∀ item ∈ items,
        Converges (fun index budget => visit index budget item) (· = item)) :
    Converges (fun index budget => items.mapM (visit index budget))
      (· = items) := by
  refine (Converges.mapM each).weaken fun results related => ?_
  have same : List.Forall₂ (· = ·) items results :=
    related.imp fun _ _ equal => equal.symm
  rw [List.forall₂_eq_eq_eq] at same
  exact same.symm

/-- Types that stay where they are stay so in a list. -/
theorem fixedInside_all
    {types : List Ty}
    (each : ∀ type ∈ types, type.FixedInside arena options)
    (depth : Nat) :
    Converges
      (fun (mode : ModeOver arena options) budget =>
        types.mapM ((mode.pass budget).inner depth))
      (· = types) :=
  .mapM_self fun type member => each type member depth

/-- A shape whose parts stay is normalized to itself. -/
theorem normalizeShape_fixed
    {shape : Shape Ty}
    (properties :
      ∀ property ∈ shape.properties, property.type.FixedInside arena options)
    (keys :
      ∀ index, shape.index = some index → index.key.FixedInside arena options)
    (values :
      ∀ index, shape.index = some index →
        index.value.FixedInside arena options)
    (depth : Nat) :
    Converges
      (fun (mode : ModeOver arena options) budget =>
        (mode.pass budget).normalizeShape depth shape)
      (· = shape) := by
  unfold NormalPass.normalizeShape
  have visits :
      Converges
        (fun (mode : ModeOver arena options) budget =>
          shape.properties.mapM fun property => do
            let type ← (mode.pass budget).inner depth property.type
            return { property with type })
        (· = shape.properties) :=
    .mapM_self fun property member =>
      (properties property member depth).bind fun type same =>
        .pure (by rw [same])
  refine visits.bind fun result same => ?_
  subst same
  cases written : shape.index with
  | none =>
      refine .pure ?_
      rw [← written]
  | some index =>
      simp only [Option.mapM_some, map_eq_pure_bind, bind_assoc, pure_bind]
      refine (keys index written depth).bind fun key sameKey => ?_
      refine (values index written depth).bind fun value sameValue => .pure ?_
      subst sameKey sameValue
      rw [← written]

/-- A signature whose parts stay is normalized to itself. -/
theorem normalizeSignature_fixed
    {signature : Signature Ty}
    (parameters :
      ∀ parameter ∈ signature.parameters,
        parameter.type.FixedInside arena options)
    (rest : signature.rest.FixedInside arena options)
    (result : signature.result.FixedInside arena options)
    (depth : Nat) :
    Converges
      (fun (mode : ModeOver arena options) budget =>
        (mode.pass budget).normalizeSignature depth signature)
      (· = signature) := by
  unfold NormalPass.normalizeSignature
  have visits :
      Converges
        (fun (mode : ModeOver arena options) budget =>
          signature.parameters.mapM fun parameter => do
            let type ← (mode.pass budget).inner depth parameter.type
            return { parameter with type })
        (· = signature.parameters) :=
    .mapM_self fun parameter member =>
      (parameters parameter member depth).bind fun type same =>
        .pure (by rw [same])
  refine visits.bind fun newParameters sameParameters => ?_
  refine (rest depth).bind fun newRest sameRest => ?_
  refine (result depth).bind fun newResult sameResult => .pure ?_
  rw [sameParameters, sameRest, sameResult]

/-- An application whose operands stay is kept as it is. -/
theorem rebuild_fixed
    {application : Application Ty}
    (base : application.base.FixedInside arena options)
    (arguments :
      ∀ argument ∈ application.arguments,
        argument.FixedInside arena options)
    (occurrence : Occurrence)
    (depth : Nat) :
    Converges
      (fun (mode : ModeOver arena options) budget =>
        (mode.pass budget).rebuild depth occurrence application)
      (· = .generic occurrence application) := by
  unfold NormalPass.rebuild
  refine (base depth).bind fun newBase sameBase => ?_
  refine (fixedInside_all arguments depth).bind fun others sameOthers => ?_
  simp only [sameBase, sameOthers, and_self, if_true]
  exact .pure rfl

/-- A list without unions is flat already. -/
theorem flattenUnion_of_flat
    {types : List Ty}
    (flat : ∀ type ∈ types, type.isUnion = false) :
    flattenUnion types = types := by
  have each : ∀ type ∈ types, type.members = [type] := by
    intro type member
    have := flat type member
    cases type <;> simp_all [Ty.isUnion, Ty.members]
  unfold flattenUnion
  rw [List.flatMap_congr each]
  simp

/-- A list without intersections is flat already. -/
theorem flattenIntersection_of_flat
    {types : List Ty}
    (flat : ∀ type ∈ types, RelationStep.isIntersection type = false) :
    flattenIntersection types = types := by
  unfold flattenIntersection
  induction types with
  | nil =>
      rfl
  | cons type rest inductionHypothesis =>
      have head := flat type (by simp)
      rw [List.flatMap_cons,
        inductionHypothesis fun other member => flat other (by simp [member])]
      cases type with
      | intersection occurrence members =>
          cases head
      | _ =>
          rfl

/-- The union of distinct members that stay is the union itself. -/
theorem union_fixed
    {parts : List Ty}
    (proper : UnionParts arena parts)
    (each : ∀ part ∈ parts, part.Fixed arena options)
    (depth : Nat) :
    Converges
      (fun (mode : ModeOver arena options) budget =>
        (mode.pass budget).union arena depth parts)
      (· = .union none parts) := by
  unfold NormalPass.union
  refine (Converges.mapM_self fun part member => each part member depth).bind
    fun types same => .pure ?_
  rw [same, flattenUnion_of_flat proper.flat, joinMembers_of_parts proper]

/-- Members of an intersection that do not reduce are met as they are. -/
theorem meetMembers_fixed
    {pass : NormalPass}
    {parts : List Ty}
    (proper : IntersectionParts parts)
    (distinct :
      parts.Pairwise fun first second =>
        arena.identical first second = false) :
    pass.meetMembers arena depth parts = pure (.intersection none parts) := by
  have nonempty :
      (parts.find? fun type => type.isNever || type.isPrimitive .any) =
        none :=
    List.find?_eq_none.mpr fun part member => by
      simp [proper.nonempty part member]
  have bounded :
      (parts.filter fun type => !type.isPrimitive .unknown) = parts :=
    List.filter_eq_self.mpr fun part member => by
      simp [proper.bounded part member]
  have unique : parts.foldl arena.appendUnique [] = parts :=
    foldl_appendUnique_of_pairwise (by simpa using distinct)
  have merged :
      pass.mergeObjects arena depth parts = (pure parts : Normalizing _) := by
    unfold NormalPass.mergeObjects
    have few := proper.merged
    split
    · next shapes =>
      simp [shapes] at few
    · rfl
  unfold NormalPass.meetMembers
  rw [nonempty]
  dsimp only
  rw [bounded, unique, proper.reduced]
  dsimp only
  rw [merged, pure_bind]
  have several := proper.several
  rcases parts with _ | ⟨first, _ | ⟨second, rest⟩⟩
  · simp at several
  · simp at several
  · rfl

/-- The intersection of members that stay apart is the intersection itself. -/
theorem intersection_fixed
    {parts : List Ty}
    (proper : IntersectionParts parts)
    (distinct :
      parts.Pairwise fun first second =>
        arena.identical first second = false)
    (joined : distribute? parts = none)
    (each : ∀ part ∈ parts, part.Fixed arena options)
    (depth : Nat) :
    Converges
      (fun (mode : ModeOver arena options) budget =>
        (mode.pass budget).intersection depth parts)
      (· = .intersection none parts) := by
  refine .ofSucc ?_
  have sameArena :
      ∀ mode : ModeOver arena options, mode.val.checker.arena = arena :=
    fun mode => mode.property.1
  change Converges
    (fun (mode : ModeOver arena options) budget =>
      (mode.pass budget).nextIntersection mode.val.checker.arena depth
        parts) _
  simp only [NormalPass.nextIntersection, sameArena]
  refine (Converges.mapM_self fun part member => each part member depth).bind
    fun types same => ?_
  rw [same, flattenIntersection_of_flat proper.flat, joined]
  simp only [meetMembers_fixed proper distinct]
  exact .pure rfl

/-- A node other than an application stays when normalizing it gives it back. -/
theorem fixed_of_node
    {type : Ty}
    (plain : ∀ occurrence application, type ≠ .generic occurrence application)
    (node :
      ∀ evaluated, type.Stable arena evaluated →
        ∀ depth,
          Converges
            (fun (mode : ModeOver arena options) budget =>
              (mode.pass budget).normalizeNode mode.val depth type)
            (· = type)) :
    (type.Stable arena true → type.Fixed arena options) ∧
      (type.Stable arena false → type.FixedInside arena options) := by
  have fixed :
      ∀ evaluated, type.Stable arena evaluated → type.Fixed arena options :=
    fun evaluated stable => normalize_converges rfl (node evaluated stable)
  exact ⟨fixed true, fun stable => (fixed false stable).inside plain⟩

/-- Canonical types stay where they are stable. -/
theorem Ty.Canonical.fixed
    {type : Ty}
    (canonical : type.Canonical arena) :
    (type.Stable arena true → type.Fixed arena options) ∧
      (type.Stable arena false → type.FixedInside arena options) := by
  have sameArena :
      ∀ mode : ModeOver arena options, mode.val.checker.arena = arena :=
    fun mode => mode.property.1
  induction canonical with
  | absent => exact fixed_of_node (by simp) fun _ _ _ => .pure rfl
  | primitive => exact fixed_of_node (by simp) fun _ _ _ => .pure rfl
  | literal => exact fixed_of_node (by simp) fun _ _ _ => .pure rfl
  | named => exact fixed_of_node (by simp) fun _ _ _ => .pure rfl
  | object _ _ _ _ properties keys values =>
      refine fixed_of_node (by simp) fun evaluated stable depth => ?_
      cases stable with
      | object stableProperties stableKeys stableValues =>
          refine (normalizeShape_fixed
            (fun property member =>
              (properties property member).2
                (stableProperties property member))
            (fun index written =>
              (keys index written).2 (stableKeys index written))
            (fun index written =>
              (values index written).2 (stableValues index written))
            depth).bind fun result same => .pure ?_
          rw [same, Ty.ofShape]
  | array _ element =>
      refine fixed_of_node (by simp) fun evaluated stable depth => ?_
      cases stable with
      | array stableElement =>
          exact (element.2 stableElement depth).bind fun result same =>
            .pure (by rw [same])
  | tuple _ elements =>
      refine fixed_of_node (by simp) fun evaluated stable depth => ?_
      cases stable with
      | tuple stableElements =>
          exact (fixedInside_all
            (fun element member =>
              (elements element member).2 (stableElements element member))
            depth).bind fun results same => .pure (by rw [same])
  | function _ _ _ parameters rest result =>
      refine fixed_of_node (by simp) fun evaluated stable depth => ?_
      cases stable with
      | function stableParameters stableRest stableResult =>
          exact (normalizeSignature_fixed
            (fun parameter member =>
              (parameters parameter member).2
                (stableParameters parameter member))
            (rest.2 stableRest) (result.2 stableResult) depth).bind
              fun normal same => .pure (by rw [same])
  | union proper _ each =>
      refine fixed_of_node (by simp) fun evaluated stable depth => ?_
      cases stable with
      | union stableParts =>
          simp only [NormalPass.normalizeNode, sameArena]
          exact union_fixed proper
            (fun part member => (each part member).1 (stableParts part member))
            depth
  | intersection proper _ each =>
      refine fixed_of_node (by simp) fun evaluated stable depth => ?_
      cases stable with
      | intersection distinct joined stableParts =>
          exact intersection_fixed proper distinct joined
            (fun part member => (each part member).1 (stableParts part member))
            depth
  | generic _ _ base arguments =>
      constructor
      · intro stable
        cases stable
      · intro stable depth
        refine .ofSucc ?_
        cases stable with
        | generic stableBase stableArguments =>
            exact rebuild_fixed (base.2 stableBase)
              (fun argument member =>
                (arguments argument member).2 (stableArguments argument member))
              _ depth

end Fixed

section Identity

/-- A type whose nodes, names and primitives apart, nest at most so deep. -/
inductive Ty.Shallow :
    Nat →
    Ty →
    Prop
  | absent :
      Shallow depth .absent
  | primitive :
      Shallow depth (.primitive kind)
  | literal :
      Shallow (depth + 1) (.literal occurrence value)
  | named :
      Shallow depth (.named reference)
  | object :
      (∀ property ∈ shape.properties, Shallow depth property.type) →
      (∀ index, shape.index = some index → Shallow depth index.key) →
      (∀ index, shape.index = some index → Shallow depth index.value) →
      Shallow (depth + 1) (.object occurrence shape)
  | array :
      Shallow depth element →
      Shallow (depth + 1) (.array occurrence element readonly)
  | tuple :
      (∀ element ∈ elements, Shallow depth element) →
      Shallow (depth + 1) (.tuple occurrence elements readonly)
  | function :
      (∀ parameter ∈ signature.parameters, Shallow depth parameter.type) →
      Shallow depth signature.rest →
      Shallow depth signature.result →
      Shallow (depth + 1) (.function occurrence signature)
  | union {parts : List Ty} :
      (∀ part ∈ parts, Shallow depth part) →
      Shallow (depth + 1) (.union occurrence parts)
  | intersection {parts : List Ty} :
      (∀ part ∈ parts, Shallow depth part) →
      Shallow (depth + 1) (.intersection occurrence parts)
  | generic :
      Shallow depth application.base →
      (∀ argument ∈ application.arguments, Shallow depth argument) →
      Shallow (depth + 1) (.generic occurrence application)

variable {arena : Arena}

/-- A type that is one node wherever it occurs is identical to itself. -/
theorem identicalWithin_shared
    {type : Ty}
    (shared : type.isShared = true)
    (depth : Nat)
    (pairs : OpenPairs) :
    arena.identicalWithin depth pairs type type = true := by
  have same : type.sameNode type = true := by simp [Ty.sameNode, shared]
  unfold Arena.identicalWithin Arena.unfoldPair
  simp [same]

/-- A node is identical to itself when its parts are. -/
theorem identicalWithin_node
    {type : Ty}
    (notNamed : type.isNamed = false)
    (notAbsent : type.isAbsent = false)
    (parts :
      ∀ pairs, equalNodes (arena.identicalWithin depth pairs) type type = true)
    (pairs : OpenPairs) :
    arena.identicalWithin (depth + 1) pairs type type = true := by
  unfold Arena.identicalWithin Arena.unfoldPair
  cases same : type.sameNode type with
  | true =>
      simp
  | false =>
      simpa [notNamed, notAbsent] using parts pairs

/-- Members that are identical to themselves make the same set twice. -/
theorem sameMembers_self
    {equal : Ty → Ty → Bool}
    {parts : List Ty}
    (each : ∀ part ∈ parts, equal part part = true) :
    sameMembers equal parts parts = true := by
  have contained : parts.all (containsMember equal parts) = true :=
    List.all_eq_true.mpr fun part member =>
      List.any_eq_true.mpr ⟨part, member, each part member⟩
  simp [sameMembers, contained]

/-- Types that are identical to themselves make the same list twice. -/
theorem equalLists_self
    {equal : Ty → Ty → Bool}
    {types : List Ty}
    (each : ∀ type ∈ types, equal type type = true) :
    equalLists equal types types = true := by
  induction types with
  | nil =>
      rfl
  | cons type rest inductionHypothesis =>
      simp [equalLists, each type (by simp),
        inductionHypothesis fun other member => each other (by simp [member])]

@[inherit_doc equalLists_self]
theorem equalParameters_self
    {equal : Ty → Ty → Bool}
    {parameters : List (Parameter Ty)}
    (each :
      ∀ parameter ∈ parameters, equal parameter.type parameter.type = true) :
    equalParameters equal parameters parameters = true := by
  induction parameters with
  | nil =>
      rfl
  | cons parameter rest inductionHypothesis =>
      simp [equalParameters, each parameter (by simp),
        inductionHypothesis fun other member => each other (by simp [member])]

/-- An object with distinct names is equal to itself when its parts are. -/
theorem equalNodes_object_self
    {equal : Ty → Ty → Bool}
    {shape : Shape Ty}
    (each : shape.Each fun type => equal type type = true) :
    equalNodes equal (.object occurrence shape) (.object occurrence shape) =
      true := by
  have properties :
      shape.properties.all (equalProperty equal shape) = true :=
    List.all_eq_true.mpr fun property member => by
      simp [equalProperty, Shape.property?_of_mem each.names member,
        each.properties property member]
  have index : equalIndex equal shape.index shape.index = true := by
    cases written : shape.index with
    | none =>
        rfl
    | some index =>
        simp [equalIndex, each.keys index written, each.values index written]
  simp [equalNodes, properties, index]

/-- A function is equal to itself when its parts are. -/
theorem equalNodes_function_self
    {equal : Ty → Ty → Bool}
    {signature : Signature Ty}
    (parameters :
      ∀ parameter ∈ signature.parameters,
        equal parameter.type parameter.type = true)
    (rest : equal signature.rest signature.rest = true)
    (result :
      equal (signature.result.orElse .void) (signature.result.orElse .void) =
        true) :
    equalNodes equal (.function occurrence signature)
        (.function occurrence signature) =
      true := by
  simp [equalNodes, equalParameters_self parameters, rest, result]

/-- A node that structural identity takes for equal when its parts are. -/
def Ty.Recognizable :
    Ty →
    Prop
  | .object _ shape => shape.names.Nodup
  | .literal occurrence value =>
      occurrence.isSome = true ∨ value.equal value = true
  | _ => True

/-- Every node of a tidy type is recognizable. -/
theorem Ty.Tidy.recognizable
    {type : Ty}
    (tidy : type.Tidy) :
    type.Every Ty.Recognizable := by
  induction tidy with
  | absent => exact .leaf trivial rfl
  | primitive => exact .leaf trivial rfl
  | literal equal => exact .leaf (.inr equal) rfl
  | named => exact .leaf trivial rfl
  | object names _ _ _ properties keys values =>
      exact .node names
        (Ty.forall_parts_object.mpr ⟨properties, keys, values⟩)
  | array _ element =>
      exact .node trivial (List.forall_mem_singleton.mpr element)
  | tuple _ elements => exact .node trivial elements
  | function _ _ _ parameters rest result =>
      exact .node trivial
        (Ty.forall_parts_function.mpr ⟨parameters, rest, result⟩)
  | union _ parts => exact .node trivial parts
  | intersection _ parts => exact .node trivial parts
  | generic _ _ base arguments =>
      exact .node trivial (Ty.forall_parts_generic.mpr ⟨base, arguments⟩)

/-- A type that is recognizable and nests not too deep is identical to itself. -/
theorem identicalWithin_self
    {type : Ty}
    (recognizable : type.Every Ty.Recognizable)
    (shallow : type.Shallow depth)
    (pairs : OpenPairs) :
    arena.identicalWithin depth pairs type type = true := by
  induction shallow generalizing pairs with
  | absent => exact identicalWithin_shared rfl _ pairs
  | primitive => exact identicalWithin_shared rfl _ pairs
  | named => exact identicalWithin_shared rfl _ pairs
  | literal =>
      rcases recognizable.here with written | equal
      · refine identicalWithin_shared ?_ _ pairs
        exact written
      · refine identicalWithin_node rfl rfl (fun _ => ?_) pairs
        exact equal
  | object _ _ _ properties keys values =>
      obtain ⟨names, inside⟩ := Ty.every_iff.mp recognizable
      have each := Ty.forall_parts_object.mp inside
      refine identicalWithin_node rfl rfl (fun pairs => ?_) pairs
      exact equalNodes_object_self
        { names
          properties := fun property member =>
            properties property member (each.properties property member) pairs
          keys := fun index written =>
            keys index written (each.keys index written) pairs
          values := fun index written =>
            values index written (each.values index written) pairs }
  | array _ element =>
      have inside := recognizable.inside (List.mem_singleton_self _)
      refine identicalWithin_node rfl rfl (fun pairs => ?_) pairs
      simp [equalNodes, element inside pairs]
  | tuple _ elements =>
      refine identicalWithin_node rfl rfl (fun pairs => ?_) pairs
      simp [equalNodes, equalLists_self fun element member =>
        elements element member (recognizable.inside member) pairs]
  | function _ _ _ parameters rest result =>
      obtain ⟨eachParameter, ofRest, ofResult⟩ :=
        Ty.forall_parts_function.mp (Ty.every_iff.mp recognizable).2
      refine identicalWithin_node rfl rfl (fun pairs => ?_) pairs
      refine equalNodes_function_self
        (fun parameter member => parameters parameter member
          (eachParameter parameter member) pairs)
        (rest ofRest pairs) ?_
      unfold Ty.orElse
      split
      · exact identicalWithin_shared rfl _ pairs
      · exact result ofResult pairs
  | union _ each =>
      refine identicalWithin_node rfl rfl (fun pairs => ?_) pairs
      exact sameMembers_self fun part member =>
        each part member (recognizable.inside member) pairs
  | intersection _ each =>
      refine identicalWithin_node rfl rfl (fun pairs => ?_) pairs
      exact sameMembers_self fun part member =>
        each part member (recognizable.inside member) pairs
  | generic _ _ base arguments =>
      obtain ⟨ofBase, eachArgument⟩ :=
        Ty.forall_parts_generic.mp (Ty.every_iff.mp recognizable).2
      refine identicalWithin_node rfl rfl (fun pairs => ?_) pairs
      simp [equalNodes, base ofBase pairs,
        equalLists_self fun argument member =>
          arguments argument member (eachArgument argument member) pairs]

end Identity

namespace Checker

/--
Normalization is idempotent. When normalizing a type over an arena reports no
exceeded depth and its answer is stable, normalizing the answer gives the answer
back, and structural identity sees the two as one if they do not nest deeper
than it looks.
-/
theorem normalize_idempotent
    {checker : Checker}
    {type result : Ty}
    (tidyArena : checker.arena.Tidy)
    (tidy : type.Tidy)
    (settles : Check.Settles (checker.normalize type) result)
    (stable : result.Stable checker.arena true)
    (shallow : result.Shallow identityDepth) :
    ∃ again added enough,
      (∀ budget, enough ≤ budget → ∀ log,
        Checker.normalize { checker with budget } result log =
          .ok (again, log ++ added)) ∧
      again = result ∧
      checker.arena.identical result again = true := by
  have canonical := canonical_normalize tidyArena tidy settles
  obtain ⟨again, added, enough, rfl, runs⟩ :=
    normalize_runs (canonical.fixed.1 stable 0)
  exact ⟨_, added, enough, runs, rfl,
    identicalWithin_self canonical.tidy.recognizable shallow []⟩

section Links

/-- Tagged links are their own normal form once they are told apart. -/
theorem normalize_idempotent_link :
    ∃ again added enough,
      (∀ budget, enough ≤ budget → ∀ log,
        Checker.normalize { arena := linkArena, budget } taggedLinks log =
          .ok (again, log ++ added)) ∧
      again = taggedLinks ∧
      linkArena.identical taggedLinks again = true := by
  have one {kind : Property Ty → Prop} {only : Property Ty} :
      kind only → ∀ property ∈ [only], kind property :=
    List.forall_mem_singleton.mpr
  have two {kind : Ty → Prop} {first second : Ty} :
      kind first → kind second → ∀ type ∈ [first, second], kind type := by
    simp +contextual
  refine @normalize_idempotent { arena := linkArena, budget := 20 }
    taggedLink taggedLinks ?_ ?_ ⟨[], by decide +kernel, Log.quiet_nil⟩ ?_ ?_
  · refine Arena.tidy_of_declarations fun declaration member => ?_
    cases List.mem_singleton.mp member
    refine .object (by decide) ?_ nofun nofun
    exact List.forall_mem_cons.mpr
      ⟨.primitive, one (.union (two .named .primitive))⟩
  · have constant (value : Nat) (equal : (Number.ofNat value).equal
        (Number.ofNat value) = true) :
        (Ty.ofLiteral (.number (.ofNat value))).Tidy :=
      .literal equal
    exact .intersection (two .named (.union (two
      (.object (by decide)
        (one (.union (two (constant 1 (by decide +kernel))
          (constant 2 (by decide +kernel)))))
        nofun nofun)
      .primitive)))
  · exact .union (two
      (.intersection (by decide +kernel) (by decide +kernel)
        (two .named (.object (one (.union (two .literal .literal))) nofun
          nofun)))
      (.intersection (by decide +kernel) (by decide +kernel)
        (two .named .primitive)))
  · change Ty.Shallow 256 taggedLinks
    exact .union (two
      (.intersection (two .named
        (.object (one (.union (two .literal .literal))) nofun nofun)))
      (.intersection (two .named .primitive)))

/-- An object with two constants. -/
def pairArena : Arena :=
  { declarations :=
      [{ name := "Pair"
         definition :=
          .ofShape
            { properties :=
                [{ name := "a", type := .ofLiteral (.number (.ofNat 1)) },
                  { name := "b", type := .ofLiteral (.number (.ofNat 2)) }] } }] }

/-- An object with one constant. -/
def constantField
    (name : String)
    (value : Nat) :
    Ty :=
  .ofShape { properties := [{ name, type := .ofLiteral (.number (.ofNat value)) }] }

/--
Normalization is not idempotent as such. Merging two objects may give an object
that another member is identical to; only normalizing again drops it.
-/
theorem normalize_leaves_identical_members :
    let checker : Checker := { arena := pairArena, budget := 20 }
    let pair : Ty := .named { arena := 0, id := 0, name := "Pair" }
    ∃ first second,
      Check.Settles
          (checker.normalize
            (.ofIntersection [pair, constantField "a" 1, constantField "b" 2]))
          first ∧
        Check.Settles (checker.normalize first) second ∧
        pairArena.identical first second = false := by
  refine ⟨.ofIntersection
      [.named { arena := 0, id := 0, name := "Pair" },
        .ofShape
          { properties :=
              [{ name := "a", type := .ofLiteral (.number (.ofNat 1)) },
                { name := "b", type := .ofLiteral (.number (.ofNat 2)) }] }],
    .named { arena := 0, id := 0, name := "Pair" },
    ⟨[], by decide +kernel, Log.quiet_nil⟩,
    ⟨[], by decide +kernel, Log.quiet_nil⟩, by decide +kernel⟩

end Links

end Checker

end StructuralTyping
