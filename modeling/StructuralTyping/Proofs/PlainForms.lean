import Mathlib.Tactic.Ring
import StructuralTyping.Proofs.Idempotence
import StructuralTyping.Proofs.Lowering

namespace StructuralTyping

/-!
# Normal forms of plain types

Without utility applications and intersections there is nothing to evaluate and
nothing to merge. Normalization then is a function of the type: it rebuilds the
nodes from their parts and joins the members of unions. Its answers stay as they
are, are no larger than the types and nest no deeper.
-/

/-- A node that is rebuilt from its parts. -/
structure Ty.Plain
    (type : Ty) :
    Prop where
  notApplication : type.isApplication = false
  notIntersection : RelationStep.isIntersection type = false

/-- A plain node that identity recognizes when it is met again. -/
structure Ty.Traceable
    (type : Ty) :
    Prop
    extends type.Plain where
  recognizable : type.Recognizable

/-- The nodes of a traceable type are plain. -/
theorem Ty.Every.plain
    {type : Ty}
    (traceable : type.Every Ty.Traceable) :
    type.Every Ty.Plain :=
  traceable.mono fun _ node => node.toPlain

namespace Arena

mutual

/-- The normal form of a plain type. -/
def plainForm
    (arena : Arena) :
    Ty →
    Ty
  | .object _ shape =>
      .object none
        { properties := plainProperties arena shape.properties
          index := plainIndex arena shape.index }
  | .array _ element readonly =>
      .array none (plainForm arena element) readonly
  | .tuple _ elements readonly =>
      .tuple none (plainForms arena elements) readonly
  | .function _ signature =>
      .function none
        { parameters := plainParameters arena signature.parameters
          rest := plainForm arena signature.rest
          result := plainForm arena signature.result
          method := signature.method }
  | .union _ members =>
      arena.joinMembers (flattenUnion (plainForms arena members))
  | .absent => .absent
  | .primitive kind => .primitive kind
  | .literal occurrence value => .literal occurrence value
  | .named reference => .named reference
  | .intersection occurrence members => .intersection occurrence members
  | .generic occurrence application => .generic occurrence application

/-- The normal forms of plain types. -/
def plainForms
    (arena : Arena) :
    List Ty →
    List Ty
  | [] => []
  | type :: rest => plainForm arena type :: plainForms arena rest

/-- Properties with the normal forms of their types. -/
def plainProperties
    (arena : Arena) :
    List (Property Ty) →
    List (Property Ty)
  | [] => []
  | property :: rest =>
      { property with type := plainForm arena property.type } ::
        plainProperties arena rest

/-- Parameters with the normal forms of their types. -/
def plainParameters
    (arena : Arena) :
    List (Parameter Ty) →
    List (Parameter Ty)
  | [] => []
  | parameter :: rest =>
      { parameter with type := plainForm arena parameter.type } ::
        plainParameters arena rest

/-- An index signature with the normal forms of its types. -/
def plainIndex
    (arena : Arena) :
    Option (IndexSignature Ty) →
    Option (IndexSignature Ty)
  | none => none
  | some index =>
      some
        { key := plainForm arena index.key
          value := plainForm arena index.value }

end

section Equations

variable {arena : Arena}

theorem plainForms_eq_map
    (types : List Ty) :
    arena.plainForms types = types.map arena.plainForm := by
  induction types with
  | nil =>
      rfl
  | cons type rest inductionHypothesis =>
      rw [plainForms, inductionHypothesis, List.map_cons]

theorem plainProperties_eq_map
    (properties : List (Property Ty)) :
    arena.plainProperties properties =
      properties.map fun property =>
        { property with type := arena.plainForm property.type } := by
  induction properties with
  | nil =>
      rfl
  | cons property rest inductionHypothesis =>
      rw [plainProperties, inductionHypothesis, List.map_cons]

theorem plainParameters_eq_map
    (parameters : List (Parameter Ty)) :
    arena.plainParameters parameters =
      parameters.map fun parameter =>
        { parameter with type := arena.plainForm parameter.type } := by
  induction parameters with
  | nil =>
      rfl
  | cons parameter rest inductionHypothesis =>
      rw [plainParameters, inductionHypothesis, List.map_cons]

theorem plainIndex_eq_map
    (index : Option (IndexSignature Ty)) :
    arena.plainIndex index =
      index.map fun index =>
        { key := arena.plainForm index.key
          value := arena.plainForm index.value } := by
  cases index <;> rfl

/-- A union has the joined normal forms of its members. -/
theorem plainForm_union
    (occurrence : Occurrence)
    (members : List Ty) :
    arena.plainForm (.union occurrence members) =
      arena.joinMembers (flattenUnion (members.map arena.plainForm)) := by
  rw [plainForm, plainForms_eq_map]

/-- The parts of a rebuilt node are the normal forms of its parts. -/
theorem parts_plainForm
    {type : Ty}
    (plain : type.Plain)
    (notUnion : type.isUnion = false) :
    (arena.plainForm type).parts = type.parts.map arena.plainForm := by
  cases type with
  | object occurrence shape =>
      rw [plainForm, plainProperties_eq_map, plainIndex_eq_map]
      cases written : shape.index <;>
        simp [Ty.parts, written, Function.comp_def]
  | tuple occurrence elements readonly =>
      rw [plainForm, plainForms_eq_map]
      rfl
  | function occurrence signature =>
      rw [plainForm, plainParameters_eq_map]
      simp [Ty.parts, Function.comp_def]
  | union occurrence members =>
      cases notUnion
  | intersection occurrence members =>
      cases plain.notIntersection
  | generic occurrence application =>
      cases plain.notApplication
  | _ =>
      rfl

end Equations

end Arena

/-- A node in the form that normalization gives to it. -/
def Ty.Rebuilt
    (arena : Arena) :
    Ty →
    Prop
  | .object occurrence _ => occurrence = none
  | .array occurrence _ _ => occurrence = none
  | .tuple occurrence _ _ => occurrence = none
  | .function occurrence _ => occurrence = none
  | .union occurrence parts => occurrence = none ∧ UnionParts arena parts
  | _ => True

section Nodes

variable {arena : Arena} {kind : Ty → Prop}

/-- The members of a rebuilt type are no unions. -/
theorem Ty.Rebuilt.flat
    {type : Ty}
    (rebuilt : type.Rebuilt arena)
    (inMembers : member ∈ type.members) :
    member.isUnion = false := by
  cases type with
  | union occurrence parts =>
      exact rebuilt.2.flat member inMembers
  | _ =>
      exact List.mem_singleton.mp inMembers ▸ rfl

/-- Joining types makes no nodes but primitives and a union of some of them. -/
theorem every_joinMembers
    {types : List Ty}
    (primitive : ∀ name, kind (.primitive name))
    (union : ∀ parts, UnionParts arena parts → kind (.union none parts))
    (each : ∀ type ∈ types, type.Every kind)
    (flat : ∀ type ∈ types, type.isUnion = false) :
    (arena.joinMembers types).Every kind := by
  rcases joinMembers_cases types with
    ⟨name, same⟩ | member | ⟨parts, same, origin, proper⟩
  · rw [same]
    exact .leaf (primitive name) rfl
  · exact each _ member
  · rw [same]
    exact .node (union parts (proper flat)) fun part member =>
      each part (origin part member)

/--
What holds of rebuilt nodes, of primitives and of unions of differing members
holds throughout the normal form of a plain type.
-/
theorem every_plainForm_of
    {built : Ty → Prop}
    {type : Ty}
    (plain : type.Every kind)
    (primitive : ∀ name, built (.primitive name))
    (union : ∀ parts, UnionParts arena parts → built (.union none parts))
    (isPlain : ∀ {node}, kind node → node.Plain)
    (rebuild :
      ∀ {node}, kind node → node.isUnion = false →
        built (arena.plainForm node)) :
    (arena.plainForm type).Every fun node =>
      built node ∧ node.Rebuilt arena := by
  induction type using Ty.partsInduction with
  | node type inductionHypothesis =>
  have each :
      ∀ part ∈ type.parts,
        (arena.plainForm part).Every fun node =>
          built node ∧ node.Rebuilt arena :=
    fun part inside => inductionHypothesis part inside (plain.inside inside)
  have here := isPlain plain.here
  have whole
      (notUnion : type.isUnion = false)
      (rebuilt : (arena.plainForm type).Rebuilt arena) :
      (arena.plainForm type).Every fun node =>
        built node ∧ node.Rebuilt arena := by
    refine .node ⟨rebuild plain.here notUnion, rebuilt⟩ ?_
    rw [Arena.parts_plainForm here notUnion, List.forall_mem_map]
    exact each
  cases type with
  | union occurrence members =>
      rw [Arena.plainForm_union]
      apply every_joinMembers
      · exact fun name => ⟨primitive name, trivial⟩
      · exact fun parts proper => ⟨union parts proper, rfl, proper⟩
      · intro type inFlat
        obtain ⟨form, inForms, inMembers⟩ := List.mem_flatMap.mp inFlat
        obtain ⟨member, inUnion, rfl⟩ := List.mem_map.mp inForms
        exact (each member inUnion).member inMembers
      · intro type inFlat
        obtain ⟨form, inForms, inMembers⟩ := List.mem_flatMap.mp inFlat
        obtain ⟨member, inUnion, rfl⟩ := List.mem_map.mp inForms
        exact (each member inUnion).here.2.flat inMembers
  | intersection occurrence members => cases here.notIntersection
  | generic occurrence application => cases here.notApplication
  | object | array | tuple | function => exact whole rfl rfl
  | _ => exact whole rfl trivial

/-- The normal form of a traceable type is traceable, with rebuilt nodes only. -/
theorem every_plainForm
    {type : Ty}
    (traceable : type.Every Ty.Traceable) :
    (arena.plainForm type).Every fun node =>
      node.Traceable ∧ node.Rebuilt arena := by
  refine every_plainForm_of traceable
    (fun name => ⟨⟨rfl, rfl⟩, trivial⟩) (fun parts proper => ⟨⟨rfl, rfl⟩, trivial⟩)
    (fun node => node.toPlain) fun {node} here notUnion => ?_
  cases node with
  | union => cases notUnion
  | object occurrence shape =>
      refine ⟨⟨rfl, rfl⟩, ?_⟩
      have names : shape.names.Nodup := here.recognizable
      simpa [Ty.Recognizable, Arena.plainForm, Arena.plainProperties_eq_map,
        Shape.names, Function.comp_def] using names
  | array | tuple | function => exact ⟨⟨rfl, rfl⟩, trivial⟩
  | _ => exact here

/-- The normal form of a plain type has plain and rebuilt nodes only. -/
theorem every_plainForm_plain
    {type : Ty}
    (plain : type.Every Ty.Plain) :
    (arena.plainForm type).Every fun node =>
      node.Plain ∧ node.Rebuilt arena := by
  refine every_plainForm_of plain (fun name => ⟨rfl, rfl⟩)
    (fun parts proper => ⟨rfl, rfl⟩) id fun {node} here notUnion => ?_
  cases node with
  | union => cases notUnion
  | object | array | tuple | function => exact ⟨rfl, rfl⟩
  | _ => exact here

/-- The normal form of a plain type is plain. -/
theorem plain_plainForm
    {type : Ty}
    (plain : type.Every Ty.Plain) :
    (arena.plainForm type).Every Ty.Plain :=
  (every_plainForm_plain plain).mono fun _ both => both.1

/-- The normal form of a plain type has rebuilt nodes only. -/
theorem rebuilt_plainForm
    {type : Ty}
    (plain : type.Every Ty.Plain) :
    (arena.plainForm type).Every (Ty.Rebuilt arena) :=
  (every_plainForm_plain plain).mono fun _ both => both.2

/-- What is rebuilt already stays as it is. -/
theorem plainForm_of_rebuilt
    {type : Ty}
    (rebuilt : type.Every (Ty.Rebuilt arena)) :
    arena.plainForm type = type := by
  induction type using Ty.partsInduction with
  | node type inductionHypothesis =>
  have each : ∀ part ∈ type.parts, arena.plainForm part = part :=
    fun part inside => inductionHypothesis part inside (rebuilt.inside inside)
  have all {types : List Ty}
      (same : ∀ type ∈ types, arena.plainForm type = type) :
      types.map arena.plainForm = types :=
    (List.map_congr_left same).trans (List.map_id types)
  cases type with
  | object occurrence shape =>
      have same := Ty.forall_parts_object.mp each
      have properties : arena.plainProperties shape.properties =
          shape.properties := by
        rw [Arena.plainProperties_eq_map]
        exact (List.map_congr_left fun property member => by
          rw [same.properties property member]
          rfl).trans (List.map_id _)
      have index : arena.plainIndex shape.index = shape.index := by
        rw [Arena.plainIndex_eq_map]
        cases written : shape.index with
        | none =>
            rfl
        | some index =>
            rw [Option.map_some, same.keys index written,
              same.values index written]
      rw [Arena.plainForm, properties, index, rebuilt.here]
  | array occurrence element readonly =>
      rw [Arena.plainForm, each element (List.mem_singleton_self _),
        rebuilt.here]
  | tuple occurrence elements readonly =>
      have same : elements.map arena.plainForm = elements := all each
      rw [Arena.plainForm, Arena.plainForms_eq_map, same, rebuilt.here]
  | function occurrence signature =>
      obtain ⟨ofParameters, ofRest, ofResult⟩ :=
        Ty.forall_parts_function.mp each
      have parameters : arena.plainParameters signature.parameters =
          signature.parameters := by
        rw [Arena.plainParameters_eq_map]
        exact (List.map_congr_left fun parameter member => by
          rw [ofParameters parameter member]
          rfl).trans (List.map_id _)
      rw [Arena.plainForm, parameters, ofRest, ofResult, rebuilt.here]
  | union occurrence parts =>
      obtain ⟨built, proper⟩ := rebuilt.here
      have same : parts.map arena.plainForm = parts := all each
      rw [Arena.plainForm_union, same, flattenUnion_of_flat proper.flat,
        joinMembers_of_parts proper, built]
  | _ =>
      rw [Arena.plainForm]

/-- The normal form of a plain type is its own normal form. -/
theorem plainForm_plainForm
    {type : Ty}
    (plain : type.Every Ty.Plain) :
    arena.plainForm (arena.plainForm type) = arena.plainForm type :=
  plainForm_of_rebuilt (rebuilt_plainForm plain)

end Nodes

section Sizes

variable {arena : Arena}

/-- The weight of a type in which no name counts more than another. -/
abbrev Ty.size
    (type : Ty) :
    Nat :=
  type.weight (fun _ => 0) false

/-- The size of a type depends on its node and the sizes of its parts. -/
theorem Ty.size_eq
    {type : Ty}
    (notApplication : type.isApplication = false) :
    type.size =
      type.nodeKind.weight (fun _ => 0) false (type.parts.map Ty.size) := by
  have closed : type.nodeKind.opens false = false := by
    cases type <;> first | rfl | cases notApplication
  have weighed := @Ty.weight_eq (fun _ => 0) false type
  rwa [closed] at weighed

/-- A part is smaller than the type. -/
theorem Ty.size_part_lt
    {type part : Ty}
    (notApplication : type.isApplication = false)
    (inside : part ∈ type.parts) :
    part.size < type.size := by
  have unnamed : ∀ reference, type.nodeKind ≠ .name reference := by
    intro reference name
    cases type <;> simp [Ty.nodeKind, Ty.parts] at name inside
  rw [Ty.size_eq notApplication]
  exact NodeKind.part_lt_weight unnamed
    (List.forall_mem_map.mpr fun part _ => part.weight_pos)
    (List.mem_map_of_mem inside)

/-- A property type extended by `undefined` is smaller than the object. -/
theorem Ty.size_optional_lt
    {shape : Shape Ty}
    (member : property ∈ shape.properties) :
    property.type.optional.size < (Ty.object occurrence shape).size := by
  have inside :
      property.type ∈ (Ty.object occurrence shape).parts :=
    List.mem_append_left _ (List.mem_map_of_mem member)
  have single :
      [property.type.size].Sublist
        ((Ty.object occurrence shape).parts.map Ty.size) :=
    List.singleton_sublist.mpr (List.mem_map_of_mem inside)
  have alone :
      NodeKind.guard.weight (fun _ => 0) false [property.type.size] ≤
        (Ty.object occurrence shape).size := by
    rw [@Ty.size_eq (.object occurrence shape) rfl]
    exact NodeKind.weight_sublist single
      (List.forall_mem_map.mpr fun part _ => part.weight_pos)
  simp only [NodeKind.weight, List.map_singleton, List.prod_singleton] at alone
  have wider : property.type.optional.size ≤ property.type.size + 4 :=
    weight_optional_le _
  have some : 2 ≤ property.type.size := property.type.two_le_weight
  omega

/-- One factor more in a product outweighs one term more in a sum. -/
theorem add_lt_mul_factor
    {size sum product : Nat}
    (rest : sum + 2 ≤ 2 * product) :
    size + sum + 2 < 2 * (2 * (size + 1) * product) := by
  have grown : size ≤ size * product :=
    Nat.le_mul_of_pos_right size (by omega)
  have expanded :
      2 * (2 * (size + 1) * product) = 4 * (size * product) + 4 * product := by
    ring
  omega

/-- The union of the elements of a tuple is smaller than the tuple. -/
theorem Ty.size_elements_lt
    {elements : List Ty}
    (nonempty : elements ≠ []) :
    (Ty.ofUnion elements).size <
      (Ty.tuple occurrence elements readonly).size := by
  have upTo (sizes : List Nat) :
      sizes.sum + 2 ≤ 2 * (sizes.map fun size => 2 * (size + 1)).prod := by
    induction sizes with
    | nil =>
        simp
    | cons size rest inductionHypothesis =>
        simp only [List.map_cons, List.sum_cons, List.prod_cons]
        exact (add_lt_mul_factor inductionHypothesis).le
  obtain ⟨first, rest, rfl⟩ := List.exists_cons_of_ne_nil nonempty
  have ofRest := upTo (rest.map Ty.size)
  rw [Ty.size_eq rfl, Ty.size_eq rfl]
  simp only [Ty.nodeKind, Ty.parts, Ty.ofUnion, NodeKind.weight, List.map_cons,
    List.sum_cons, List.prod_cons]
  have outweighed := @add_lt_mul_factor first.size _ _ ofRest
  simp only [List.map_map, Function.comp_def] at outweighed ⊢
  omega

/-- Joining types makes no more than a union of them. -/
theorem Ty.size_joinMembers_le
    (types : List Ty) :
    (arena.joinMembers types).size ≤ (Ty.ofUnion types).size := by
  have least : ∀ kind, (Ty.primitive kind).size ≤ (Ty.ofUnion types).size :=
    fun kind => (Ty.weight_leaf rfl).trans_le (Ty.two_le_weight _)
  have sublist :
      ((types.filter fun type => !type.isNever).foldl
        arena.appendUnique []).Sublist types :=
    (unique_sublist _).trans List.filter_sublist
  unfold Arena.joinMembers
  dsimp only
  split
  · exact least _
  split
  · exact least _
  split
  · exact least _
  · next type single =>
    rw [single] at sublist
    have inside : type ∈ (Ty.ofUnion types).parts :=
      sublist.subset (List.mem_singleton_self type)
    exact (Ty.size_part_lt rfl inside).le
  · rw [Ty.size, Ty.size, Ty.ofUnion, Ty.ofUnion, Ty.weight_union,
      Ty.weight_union]
    exact Nat.add_le_add_right
      ((sublist.map _).sum_le_sum fun _ _ => Nat.zero_le _) 2

/-- The normal form of a plain type is no larger than the type. -/
theorem Ty.size_plainForm_le
    {type : Ty}
    (plain : type.Every Ty.Plain) :
    (arena.plainForm type).size ≤ type.size := by
  induction type using Ty.partsInduction with
  | node type inductionHypothesis =>
  have each : ∀ part ∈ type.parts, (arena.plainForm part).size ≤ part.size :=
    fun part inside => inductionHypothesis part inside (plain.inside inside)
  have forms :
      List.Forall₂ (· ≤ ·)
        ((type.parts.map arena.plainForm).map Ty.size)
        (type.parts.map Ty.size) := by
    rw [List.map_map, List.forall₂_map_left_iff, List.forall₂_map_right_iff,
      List.forall₂_same]
    exact each
  cases union : type.isUnion with
  | true =>
      cases type with
      | union occurrence members =>
          rw [Arena.plainForm_union]
          refine (Ty.size_joinMembers_le _).trans ?_
          rw [Ty.size, Ty.size, Ty.ofUnion, Ty.weight_union, Ty.weight_union]
          refine Nat.add_le_add_right ((weights_flattenUnion _).trans ?_) 2
          exact forms.sum_le_sum
      | _ =>
          cases union
  | false =>
      have sameKind :
          (arena.plainForm type).nodeKind = type.nodeKind := by
        cases type <;> first | rfl | cases union
      have notApplication :
          (arena.plainForm type).isApplication = type.isApplication := by
        cases type <;> first | rfl | cases union
      rw [Ty.size_eq (notApplication.trans plain.here.notApplication),
        Ty.size_eq plain.here.notApplication, sameKind,
        Arena.parts_plainForm plain.here union]
      exact NodeKind.weight_mono forms

end Sizes

section Nesting

variable {arena : Arena}

/-- A type nests one level deeper than its parts. -/
theorem Ty.shallow_succ
    {type : Ty} :
    type.Shallow (depth + 1) ↔ ∀ part ∈ type.parts, part.Shallow depth := by
  constructor
  · intro shallow
    cases shallow with
    | object properties keys values =>
        exact Ty.forall_parts_object.mpr ⟨properties, keys, values⟩
    | array element => exact List.forall_mem_singleton.mpr element
    | tuple elements => exact elements
    | function parameters rest result =>
        exact Ty.forall_parts_function.mpr ⟨parameters, rest, result⟩
    | union each => exact each
    | intersection each => exact each
    | generic base arguments =>
        exact Ty.forall_parts_generic.mpr ⟨base, arguments⟩
    | _ => simp [Ty.parts]
  · intro inside
    cases type with
    | absent => exact .absent
    | primitive kind => exact .primitive
    | literal occurrence value => exact .literal
    | named reference => exact .named
    | object occurrence shape =>
        obtain ⟨properties, keys, values⟩ := Ty.forall_parts_object.mp inside
        exact .object properties keys values
    | array occurrence element readonly =>
        exact .array (inside element (List.mem_singleton_self _))
    | tuple occurrence elements readonly => exact .tuple inside
    | function occurrence signature =>
        obtain ⟨parameters, rest, result⟩ :=
          Ty.forall_parts_function.mp inside
        exact .function parameters rest result
    | union occurrence members => exact .union inside
    | intersection occurrence members => exact .intersection inside
    | generic occurrence application =>
        obtain ⟨base, arguments⟩ := Ty.forall_parts_generic.mp inside
        exact .generic base arguments

namespace Ty.Shallow

/-- The parts of a type nest less deep than the type. -/
theorem inside
    {type part : Ty}
    (shallow : type.Shallow depth)
    (inside : part ∈ type.parts) :
    ∃ less, depth = less + 1 ∧ part.Shallow less := by
  cases depth with
  | zero =>
      cases shallow <;> simp [Ty.parts] at inside
  | succ less =>
      exact ⟨less, rfl, Ty.shallow_succ.mp shallow part inside⟩

/-- A bound on the nesting may be raised. -/
theorem mono
    {type : Ty}
    (shallow : type.Shallow depth)
    (below : depth ≤ bound) :
    type.Shallow bound := by
  induction type using Ty.partsInduction generalizing depth bound with
  | node type inductionHypothesis =>
  cases depth with
  | zero =>
      cases shallow with
      | absent => exact .absent
      | primitive => exact .primitive
      | named => exact .named
  | succ depth =>
      obtain ⟨above, rfl⟩ : ∃ above, bound = above + 1 :=
        ⟨bound - 1, by omega⟩
      refine Ty.shallow_succ.mpr fun part inside => ?_
      exact inductionHypothesis part inside
        (Ty.shallow_succ.mp shallow part inside) (by omega)

/-- The parts of a type are within each bound for the type. -/
theorem part
    {type part : Ty}
    (shallow : type.Shallow depth)
    (inside : part ∈ type.parts) :
    part.Shallow depth := by
  obtain ⟨less, rfl, ofPart⟩ := shallow.inside inside
  exact ofPart.mono (Nat.le_succ less)

/-- The members of a type are within each bound for the type. -/
theorem member
    {type member : Ty}
    (shallow : type.Shallow depth)
    (inMembers : member ∈ type.members) :
    member.Shallow depth := by
  cases type with
  | union occurrence parts =>
      exact shallow.part inMembers
  | _ =>
      exact List.mem_singleton.mp inMembers ▸ shallow

/-- Joined types nest one level deeper at most. -/
theorem joinMembers
    {types : List Ty}
    (each : ∀ type ∈ types, type.Shallow depth) :
    (arena.joinMembers types).Shallow (depth + 1) := by
  rcases joinMembers_cases types with
    ⟨kind, same⟩ | inTypes | ⟨parts, same, origin, _⟩
  · rw [same]
    exact .primitive
  · exact (each _ inTypes).mono (Nat.le_succ depth)
  · rw [same]
    exact .union fun part inParts => each part (origin part inParts)

/-- The normal form of a plain type nests no deeper than the type. -/
theorem plainForm
    {type : Ty}
    (shallow : type.Shallow depth)
    (plain : type.Every Ty.Plain) :
    (arena.plainForm type).Shallow depth := by
  induction type using Ty.partsInduction generalizing depth with
  | node type inductionHypothesis =>
  cases depth with
  | zero =>
      cases shallow with
      | absent => exact .absent
      | primitive => exact .primitive
      | named => exact .named
  | succ depth =>
      have each :
          ∀ part ∈ type.parts, (arena.plainForm part).Shallow depth :=
        fun part inside =>
          inductionHypothesis part inside
            (Ty.shallow_succ.mp shallow part inside) (plain.inside inside)
      cases union : type.isUnion with
      | true =>
          cases type with
          | union occurrence members =>
              rw [Arena.plainForm_union]
              refine joinMembers fun type inFlat => ?_
              obtain ⟨form, inForms, inMembers⟩ := List.mem_flatMap.mp inFlat
              obtain ⟨member, inUnion, rfl⟩ := List.mem_map.mp inForms
              exact (each member inUnion).member inMembers
          | _ =>
              cases union
      | false =>
          refine Ty.shallow_succ.mpr ?_
          rw [Arena.parts_plainForm plain.here union, List.forall_mem_map]
          exact each

end Ty.Shallow

end Nesting

section Runs

/-- A visit whose items all have a value yields the list of the values. -/
theorem mapM_eq_map
    [Monad m]
    [LawfulMonad m]
    {visit : α → m β}
    {change : α → β}
    {items : List α}
    (each : ∀ item ∈ items, visit item = pure (change item)) :
    items.mapM visit = pure (items.map change) := by
  induction items with
  | nil =>
      rfl
  | cons item rest inductionHypothesis =>
      rw [List.forall_mem_cons] at each
      simp [List.mapM_cons, each.1, inductionHypothesis each.2]

namespace NormalPass

variable {arena : Arena} {pass : NormalPass} {depth : Nat}

/-- A shape whose parts have normal forms is normalized to them. -/
theorem normalizeShape_plain
    {shape : Shape Ty}
    (inner :
      ∀ part ∈ (Ty.object occurrence shape).parts,
        pass.inner depth part = pure (arena.plainForm part)) :
    pass.normalizeShape depth shape =
      pure
        { properties := arena.plainProperties shape.properties
          index := arena.plainIndex shape.index } := by
  obtain ⟨properties, keys, values⟩ := Ty.forall_parts_object.mp inner
  have visits :
      (shape.properties.mapM fun property => do
        let type ← pass.inner depth property.type
        return { property with type }) =
        pure (arena.plainProperties shape.properties) := by
    rw [Arena.plainProperties_eq_map]
    refine mapM_eq_map fun property member => ?_
    rw [properties property member, pure_bind]
  unfold normalizeShape
  rw [visits, pure_bind]
  cases written : shape.index with
  | none =>
      rfl
  | some index =>
      simp only [Option.mapM_some, keys index written, values index written,
        pure_bind, map_pure]
      rfl

/-- A signature whose parts have normal forms is normalized to them. -/
theorem normalizeSignature_plain
    {signature : Signature Ty}
    (inner :
      ∀ part ∈ (Ty.function occurrence signature).parts,
        pass.inner depth part = pure (arena.plainForm part)) :
    pass.normalizeSignature depth signature =
      pure
        { parameters := arena.plainParameters signature.parameters
          rest := arena.plainForm signature.rest
          result := arena.plainForm signature.result
          method := signature.method } := by
  obtain ⟨parameters, rest, result⟩ := Ty.forall_parts_function.mp inner
  have visits :
      (signature.parameters.mapM fun parameter => do
        let type ← pass.inner depth parameter.type
        return { parameter with type }) =
        pure (arena.plainParameters signature.parameters) := by
    rw [Arena.plainParameters_eq_map]
    refine mapM_eq_map fun parameter member => ?_
    rw [parameters parameter member, pure_bind]
  unfold normalizeSignature
  rw [visits, pure_bind, rest, pure_bind, result, pure_bind]

/-- A plain node whose parts have normal forms is normalized to its own. -/
theorem normalizeNode_plain
    {mode : NormalMode}
    {type : Ty}
    (plain : type.Plain)
    (normalize :
      ∀ part ∈ type.parts,
        pass.normalize depth part =
          pure (mode.checker.arena.plainForm part))
    (inner :
      ∀ part ∈ type.parts,
        pass.inner depth part = pure (mode.checker.arena.plainForm part)) :
    pass.normalizeNode mode depth type =
      pure (mode.checker.arena.plainForm type) := by
  cases type with
  | object occurrence shape =>
      rw [normalizeNode, normalizeShape_plain inner, pure_bind]
      rfl
  | array occurrence element readonly =>
      rw [normalizeNode, inner element (List.mem_singleton_self _), pure_bind]
      rfl
  | tuple occurrence elements readonly =>
      have visits :
          elements.mapM (pass.inner depth) =
            pure (elements.map mode.checker.arena.plainForm) :=
        mapM_eq_map inner
      rw [normalizeNode, visits, pure_bind, Arena.plainForm,
        Arena.plainForms_eq_map]
  | function occurrence signature =>
      rw [normalizeNode, normalizeSignature_plain inner, pure_bind]
      rfl
  | union occurrence members =>
      have visits :
          members.mapM (pass.normalize depth) =
            pure (members.map mode.checker.arena.plainForm) :=
        mapM_eq_map normalize
      rw [normalizeNode, union, visits, pure_bind, Arena.plainForm_union]
  | intersection occurrence members =>
      cases plain.notIntersection
  | generic occurrence application =>
      cases plain.notApplication
  | _ =>
      rfl

end NormalPass

/-- With room below the depth bound a plain type is normalized to its form. -/
theorem normalize_plain
    {mode : NormalMode}
    {type : Ty}
    (plain : type.Every Ty.Plain)
    (affordable : 2 * type.size ≤ budget)
    (room : depth + type.size ≤ mode.checker.options.maxDepth) :
    (normalPass mode budget).normalize depth type =
      pure (mode.checker.arena.plainForm type) := by
  induction type using Ty.partsInduction generalizing budget depth with
  | node type inductionHypothesis =>
  have some : 2 ≤ type.size := type.two_le_weight
  obtain ⟨budget, rfl⟩ : ∃ less, budget = less + 2 :=
    ⟨budget - 2, by omega⟩
  have smaller (part : Ty) (inside : part ∈ type.parts) :
      part.size < type.size :=
    Ty.size_part_lt plain.here.notApplication inside
  have normalize (part : Ty) (inside : part ∈ type.parts) :
      (normalPass mode (budget + 1)).normalize (depth + 1) part =
        pure (mode.checker.arena.plainForm part) := by
    have less := smaller part inside
    exact inductionHypothesis part inside (plain.inside inside) (by omega)
      (by omega)
  have inner (part : Ty) (inside : part ∈ type.parts) :
      (normalPass mode (budget + 1)).inner (depth + 1) part =
        pure (mode.checker.arena.plainForm part) := by
    have less := smaller part inside
    have here := (plain.inside inside).here.notApplication
    have same :
        (normalPass mode (budget + 1)).inner (depth + 1) part =
          (normalPass mode budget).normalize (depth + 1) part := by
      cases part <;> first | rfl | cases here
    rw [same]
    exact inductionHypothesis part inside (plain.inside inside) (by omega)
      (by omega)
  change (normalPass mode (budget + 1)).nextNormalize mode depth type = _
  unfold NormalPass.nextNormalize
  split
  · next missing =>
    rw [Ty.eq_absent missing]
    rfl
  · rw [if_neg (by omega)]
    exact NormalPass.normalizeNode_plain plain.here normalize inner

/-- Where there is room, plain types are normalized without a report. -/
theorem normalizeIn_plain
    {mode : NormalMode}
    {type : Ty}
    (plain : type.Every Ty.Plain)
    (affordable : 2 * type.size ≤ budget)
    (room : depth + type.size ≤ mode.checker.options.maxDepth) :
    normalizeIn mode budget depth type =
      pure (mode.checker.arena.plainForm type) := by
  rw [normalizeIn, normalize_plain plain affordable room]
  rfl

end Runs

end StructuralTyping
