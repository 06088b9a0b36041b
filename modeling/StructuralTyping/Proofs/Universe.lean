import Mathlib.Data.Set.Finite.Lattice
import Mathlib.Logic.Relation
import StructuralTyping.Proofs.PlainForms

namespace StructuralTyping

/-!
# Finite universes of types

A comparison of two types meets their parts, the definitions of names, normal
forms of all of these, and a few types made from them. Over an arena of plain
definitions these are finitely many types, each of which is recognized when it
is met again.
-/

/-- A finite set of plain types that no step of a comparison leaves. -/
structure Universe
    (arena : Arena) where
  types : Set Ty
  finite : types.Finite
  plain : ∀ type ∈ types, type.Every Ty.Plain
  recognized : ∀ type ∈ types, arena.identical type type = true
  primitive : ∀ kind, .primitive kind ∈ types
  part : ∀ {type part}, type ∈ types → part ∈ type.parts → part ∈ types
  definition :
    ∀ {reference},
      .named reference ∈ types →
      arena.definition reference ∈ types
  plainForm : ∀ {type}, type ∈ types → arena.plainForm type ∈ types
  optional :
    ∀ {occurrence shape property},
      .object occurrence shape ∈ types →
      property ∈ shape.properties →
      property.type.optional ∈ types
  element :
    ∀ {occurrence elements readonly},
      .tuple occurrence elements readonly ∈ types →
      arena.plainForm (.ofUnion elements) ∈ types
  length :
    ∀ {occurrence elements readonly},
      .tuple occurrence elements readonly ∈ types →
      .ofLiteral (.number (Number.ofNat elements.length)) ∈ types

section Nodes

/-- The types that stand in a type, the type itself among them. -/
def Ty.nodes
    (type : Ty) :
    Set Ty :=
  { node |
    Relation.ReflTransGen (fun whole part => part ∈ whole.parts) type node }

/-- A type has finitely many nodes. -/
theorem Ty.finite_nodes
    (type : Ty) :
    type.nodes.Finite := by
  induction type using partsInduction with
  | node type inductionHypothesis =>
  have below :
      (⋃ part ∈ type.parts, part.nodes).Finite :=
    Set.Finite.biUnion (List.finite_toSet type.parts) inductionHypothesis
  refine (below.insert type).subset fun node member => ?_
  rcases Relation.ReflTransGen.cases_head member with rfl | ⟨part, inside, rest⟩
  · exact Set.mem_insert _ _
  · exact Set.mem_insert_of_mem _ (Set.mem_biUnion inside rest)

/-- The nodes of all types of a set. -/
def nodesOf
    (types : Set Ty) :
    Set Ty :=
  ⋃ type ∈ types, type.nodes

variable {types : Set Ty} {kind : Ty → Prop} {node part : Ty}

theorem finite_nodesOf
    (finite : types.Finite) :
    (nodesOf types).Finite :=
  finite.biUnion fun type _ => type.finite_nodes

theorem subset_nodesOf :
    types ⊆ nodesOf types :=
  fun _ member => Set.mem_biUnion member .refl

/-- With a node its parts are nodes. -/
theorem part_mem_nodesOf
    (member : node ∈ nodesOf types)
    (inside : part ∈ node.parts) :
    part ∈ nodesOf types := by
  obtain ⟨type, inTypes, inNodes⟩ := Set.mem_iUnion₂.mp member
  exact Set.mem_biUnion inTypes (.tail inNodes inside)

/-- What parts inherit from types, all nodes have. -/
theorem forall_nodesOf
    (each : ∀ type ∈ types, kind type)
    (inherits : ∀ whole part, kind whole → part ∈ whole.parts → kind part) :
    ∀ node ∈ nodesOf types, kind node := by
  intro node member
  obtain ⟨type, inTypes, inNodes⟩ := Set.mem_iUnion₂.mp member
  induction inNodes with
  | refl =>
      exact each type inTypes
  | tail earlier inside inductionHypothesis =>
      exact inherits _ _
        (inductionHypothesis (Set.mem_biUnion inTypes earlier)) inside

end Nodes

/-- A type of traceable nodes that nest at most so deep. -/
structure Ty.TraceableWithin
    (depth : Nat)
    (type : Ty) :
    Prop where
  traceable : type.Every Ty.Traceable
  shallow : type.Shallow depth

namespace Ty.TraceableWithin

theorem primitive
    (kind : Primitive) :
    (Ty.primitive kind).TraceableWithin depth :=
  ⟨.leaf ⟨⟨rfl, rfl⟩, trivial⟩ rfl, .primitive⟩

theorem named
    (reference : Reference) :
    (Ty.named reference).TraceableWithin depth :=
  ⟨.leaf ⟨⟨rfl, rfl⟩, trivial⟩ rfl, .named⟩

theorem absent :
    Ty.absent.TraceableWithin depth :=
  ⟨.leaf ⟨⟨rfl, rfl⟩, trivial⟩ rfl, .absent⟩

/-- A traceable node nests one level deeper than its parts. -/
theorem node
    {type : Ty}
    (here : type.Traceable)
    (inside : ∀ part ∈ type.parts, part.TraceableWithin depth) :
    type.TraceableWithin (depth + 1) where
  traceable := .node here fun part member => (inside part member).traceable
  shallow := Ty.shallow_succ.mpr fun part member => (inside part member).shallow

theorem mono
    {type : Ty}
    (within : type.TraceableWithin depth)
    (below : depth ≤ bound) :
    type.TraceableWithin bound :=
  ⟨within.traceable, within.shallow.mono below⟩

theorem part
    {type part : Ty}
    (within : type.TraceableWithin depth)
    (inside : part ∈ type.parts) :
    part.TraceableWithin depth :=
  ⟨within.traceable.inside inside, within.shallow.part inside⟩

end Ty.TraceableWithin

/--
A finite set of traceable types that holds the parts, the normal forms and the
definitions of its types.
-/
structure Core
    (arena : Arena)
    (depth : Nat) where
  types : Set Ty
  finite : types.Finite
  within : ∀ type ∈ types, type.TraceableWithin depth
  primitive : ∀ kind, .primitive kind ∈ types
  definition : ∀ reference, arena.definition reference ∈ types
  part : ∀ {type part}, type ∈ types → part ∈ type.parts → part ∈ types
  plainForm : ∀ {type}, type ∈ types → arena.plainForm type ∈ types

section Cores

variable {arena : Arena}

theorem Primitive.mem_all
    (kind : Primitive) :
    kind ∈ Primitive.all := by
  cases kind <;> decide

/-- Types to start from: given ones, the definitions, and the primitives. -/
def seeds
    (arena : Arena)
    (roots : Set Ty) :
    Set Ty :=
  roots ∪
    { type |
      type ∈ arena.declarations.map Declaration.definition ++
        .absent :: Primitive.all.map Ty.primitive }

/-- What holds of the given types and the definitions holds of all seeds. -/
theorem forall_seeds
    {roots : Set Ty}
    {kind : Ty → Prop}
    (ofRoots : ∀ root ∈ roots, kind root)
    (ofDefinitions :
      ∀ declaration ∈ arena.declarations, kind declaration.definition)
    (ofAbsent : kind .absent)
    (ofPrimitives : ∀ name, kind (.primitive name)) :
    ∀ seed ∈ seeds arena roots, kind seed := by
  rintro seed (inRoots | inList)
  · exact ofRoots seed inRoots
  rcases List.mem_append.mp inList with isDefinition | others
  · obtain ⟨declaration, inArena, rfl⟩ := List.mem_map.mp isDefinition
    exact ofDefinitions declaration inArena
  rcases List.mem_cons.mp others with rfl | isPrimitive
  · exact ofAbsent
  · obtain ⟨name, _, rfl⟩ := List.mem_map.mp isPrimitive
    exact ofPrimitives name

theorem primitive_mem_seeds
    (roots : Set Ty)
    (kind : Primitive) :
    .primitive kind ∈ seeds arena roots :=
  .inr (List.mem_append_right _ (List.mem_cons_of_mem _
    (List.mem_map_of_mem (Primitive.mem_all kind))))

theorem definition_mem_seeds
    (roots : Set Ty)
    (reference : Reference) :
    arena.definition reference ∈ seeds arena roots := by
  by_cases missing : arena.definition reference = .absent
  · rw [missing]
    exact .inr (List.mem_append_right _ List.mem_cons_self)
  · obtain ⟨declaration, inArena, same⟩ := Arena.exists_declaration missing
    rw [← same]
    exact .inr (List.mem_append_left _ (List.mem_map_of_mem inArena))

/-- Traceable types over an arena of such lie in a core. -/
theorem exists_core
    {roots : Set Ty}
    (finite : roots.Finite)
    (within : ∀ root ∈ roots, root.TraceableWithin depth)
    (arenaWithin :
      ∀ declaration ∈ arena.declarations,
        declaration.definition.TraceableWithin depth) :
    ∃ core : Core arena depth, roots ⊆ core.types := by
  let written := nodesOf (seeds arena roots)
  let normal := nodesOf (arena.plainForm '' written)
  have ofWritten : ∀ type ∈ written, type.TraceableWithin depth :=
    forall_nodesOf
      (forall_seeds within arenaWithin .absent .primitive)
      fun _ _ whole inside => whole.part inside
  have ofNormal :
      ∀ type ∈ normal,
        (type.Every fun node => node.Traceable ∧ node.Rebuilt arena) ∧
          type.Shallow depth := by
    refine forall_nodesOf ?_ fun _ _ whole inside =>
      ⟨whole.1.inside inside, whole.2.part inside⟩
    rintro _ ⟨type, inWritten, rfl⟩
    obtain ⟨traceable, shallow⟩ := ofWritten type inWritten
    exact ⟨every_plainForm traceable, shallow.plainForm traceable.plain⟩
  refine ⟨
    { types := written ∪ normal
      finite := ?finite
      within := ?within
      primitive := fun kind =>
        .inl (subset_nodesOf (primitive_mem_seeds roots kind))
      definition := fun reference =>
        .inl (subset_nodesOf (definition_mem_seeds roots reference))
      part := ?part
      plainForm := ?plainForm },
    fun root member => .inl (subset_nodesOf (.inl member))⟩
  case finite =>
    have finiteWritten : written.Finite :=
      finite_nodesOf (finite.union (List.finite_toSet _))
    exact finiteWritten.union (finite_nodesOf (finiteWritten.image _))
  case within =>
    rintro type (member | member)
    · exact ofWritten type member
    · obtain ⟨every, shallow⟩ := ofNormal type member
      exact ⟨every.mono fun _ both => both.1, shallow⟩
  case part =>
    rintro type part (member | member) inside
    · exact .inl (part_mem_nodesOf member inside)
    · exact .inr (part_mem_nodesOf member inside)
  case plainForm =>
    rintro type (member | member)
    · exact .inr (subset_nodesOf (Set.mem_image_of_mem _ member))
    · rw [plainForm_of_rebuilt
        ((ofNormal type member).1.mono fun _ both => both.2)]
      exact .inr member

end Cores

namespace Core

variable {arena : Arena} {depth : Nat} (core : Core arena depth)

/-- The lists of types whose unions a comparison makes. -/
def lists :
    Set (List Ty) :=
  (fun type => type.members ++ [.undefined]) '' core.types ∪
    Ty.parts '' core.types

/-- The types of the core, the unions made from them, and the lengths. -/
def extended :
    Set Ty :=
  core.types ∪ Ty.ofUnion '' core.lists ∪
      (fun members => arena.plainForm (.ofUnion members)) '' core.lists ∪
    (fun type =>
      .ofLiteral (.number (Number.ofNat type.parts.length))) '' core.types

variable {core}

/-- The members of a type of the core are in the core. -/
theorem member
    {type member : Ty}
    (inCore : type ∈ core.types)
    (inMembers : member ∈ type.members) :
    member ∈ core.types := by
  cases type with
  | union occurrence parts =>
      exact core.part inCore inMembers
  | _ =>
      exact List.mem_singleton.mp inMembers ▸ inCore

/-- Unions are made from types of the core. -/
theorem mem_of_lists
    {members : List Ty}
    (listed : members ∈ core.lists) :
    ∀ member ∈ members, member ∈ core.types := by
  intro member inMembers
  rcases listed with ⟨type, inCore, rfl⟩ | ⟨type, inCore, rfl⟩
  · rcases List.mem_append.mp inMembers with inType | isUndefined
    · exact core.member inCore inType
    · exact List.mem_singleton.mp isUndefined ▸ core.primitive _
  · exact core.part inCore inMembers

/-- The normal form of such a union is in the core or a union of such types. -/
theorem plainForm_union
    {members : List Ty}
    (inCore : ∀ member ∈ members, member ∈ core.types) :
    arena.plainForm (.ofUnion members) ∈ core.types ∨
      ∃ parts,
        arena.plainForm (.ofUnion members) = .union none parts ∧
          ∀ part ∈ parts, part ∈ core.types := by
  have ofFlat :
      ∀ type ∈ flattenUnion (members.map arena.plainForm),
        type ∈ core.types := by
    intro type inFlat
    obtain ⟨form, inForms, inMembers⟩ := List.mem_flatMap.mp inFlat
    obtain ⟨member, inUnion, rfl⟩ := List.mem_map.mp inForms
    exact core.member (core.plainForm (inCore member inUnion)) inMembers
  rw [Ty.ofUnion, Arena.plainForm_union]
  rcases @joinMembers_cases arena
      (flattenUnion (members.map arena.plainForm)) with
    ⟨kind, same⟩ | inFlat | ⟨parts, same, origin, _⟩
  · rw [same]
    exact .inl (core.primitive kind)
  · exact .inl (ofFlat _ inFlat)
  · exact .inr ⟨parts, same, fun part inside => ofFlat part (origin part inside)⟩

/-- What is no union and no constant is in the core itself. -/
theorem mem_of_extended
    {type : Ty}
    (member : type ∈ core.extended)
    (notUnion : type.isUnion = false)
    (notLiteral : ∀ value, type ≠ .ofLiteral value) :
    type ∈ core.types := by
  rcases member with
    ((inCore | ⟨members, _, rfl⟩) | ⟨members, listed, rfl⟩) | ⟨_, _, rfl⟩
  · exact inCore
  · cases notUnion
  · rcases core.plainForm_union (mem_of_lists listed) with
      inCore | ⟨parts, same, _⟩
    · exact inCore
    · simp only [same] at notUnion
      cases notUnion
  · exact absurd rfl (notLiteral _)

/-- The unions of types of the core nest one level deeper. -/
theorem traceable_union
    {members : List Ty}
    (listed : members ∈ core.lists) :
    (Ty.ofUnion members).TraceableWithin (depth + 1) :=
  .node ⟨⟨rfl, rfl⟩, trivial⟩ fun member inMembers =>
    core.within member (mem_of_lists listed member inMembers)

/-- All types that a comparison meets are traceable. -/
theorem traceable_of_extended :
    ∀ type ∈ core.extended, type.TraceableWithin (depth + 1) := by
  rintro _
    (((inCore | ⟨members, listed, rfl⟩) | ⟨members, listed, rfl⟩) |
      ⟨type, _, rfl⟩)
  · exact (core.within _ inCore).mono (Nat.le_succ depth)
  · exact traceable_union listed
  · obtain ⟨traceable, shallow⟩ := traceable_union listed
    exact ⟨(every_plainForm traceable).mono fun _ both => both.1,
      shallow.plainForm traceable.plain⟩
  · exact ⟨.leaf
      ⟨⟨rfl, rfl⟩, .inr (Literal.equal_self (Number.isNaN_ofNat _))⟩ rfl,
      .literal⟩

/-- The parts of all types that a comparison meets are in the core. -/
theorem part_of_extended
    {type part : Ty}
    (member : type ∈ core.extended)
    (inside : part ∈ type.parts) :
    part ∈ core.types := by
  rcases member with
    ((inCore | ⟨members, listed, rfl⟩) | ⟨members, listed, rfl⟩) | ⟨_, _, rfl⟩
  · exact core.part inCore inside
  · exact mem_of_lists listed part inside
  · rcases core.plainForm_union (mem_of_lists listed) with
      inCore | ⟨parts, same, ofParts⟩
    · exact core.part inCore inside
    · simp only [same] at inside
      exact ofParts part inside
  · cases inside

/-- The normal form of a type that a comparison meets is met as well. -/
theorem plainForm_of_extended
    {type : Ty}
    (member : type ∈ core.extended) :
    arena.plainForm type ∈ core.extended := by
  rcases member with
    ((inCore | ⟨members, listed, rfl⟩) | ⟨members, listed, rfl⟩) |
      ⟨type, inCore, rfl⟩
  · exact .inl (.inl (.inl (core.plainForm inCore)))
  · exact .inl (.inr ⟨members, listed, rfl⟩)
  · have rebuilt :=
      (@every_plainForm arena _ (traceable_union listed).traceable).mono
        fun _ both => both.2
    rw [plainForm_of_rebuilt rebuilt]
    exact .inl (.inr ⟨members, listed, rfl⟩)
  · exact .inr ⟨type, inCore, rfl⟩

variable (core) in
/-- The types that a comparison meets form a universe. -/
def toUniverse
    (below : depth < identityDepth) :
    Universe arena where
  types := core.extended
  finite := by
    have lists : core.lists.Finite :=
      (core.finite.image _).union (core.finite.image _)
    exact ((core.finite.union (lists.image _)).union (lists.image _)).union
      (core.finite.image _)
  plain type member := (traceable_of_extended type member).traceable.plain
  recognized type member := by
    obtain ⟨traceable, shallow⟩ := traceable_of_extended type member
    exact identicalWithin_self (traceable.mono fun _ node => node.recognizable)
      (shallow.mono below) []
  primitive kind := .inl (.inl (.inl (core.primitive kind)))
  part member inside := .inl (.inl (.inl (part_of_extended member inside)))
  definition _ := .inl (.inl (.inl (core.definition _)))
  plainForm := plainForm_of_extended
  optional {occurrence shape property} member inShape := by
    have inCore : property.type ∈ core.types :=
      part_of_extended member
        (List.mem_append_left _ (List.mem_map_of_mem inShape))
    unfold Ty.optional
    split
    · exact .inl (.inl (.inl inCore))
    · exact .inl (.inl (.inr ⟨_, .inl ⟨_, inCore, rfl⟩, rfl⟩))
  element {occurrence elements readonly} member := by
    have inCore := mem_of_extended member rfl nofun
    exact .inl (.inr ⟨elements, .inr ⟨_, inCore, rfl⟩, rfl⟩)
  length {occurrence elements readonly} member := by
    have inCore := mem_of_extended member rfl nofun
    exact .inr ⟨_, inCore, rfl⟩

end Core

/-- Traceable types over an arena of such lie in a universe. -/
theorem exists_universe
    {arena : Arena}
    {roots : Set Ty}
    (finite : roots.Finite)
    (below : depth < identityDepth)
    (within : ∀ root ∈ roots, root.TraceableWithin depth)
    (arenaWithin :
      ∀ declaration ∈ arena.declarations,
        declaration.definition.TraceableWithin depth) :
    ∃ space : Universe arena, roots ⊆ space.types := by
  obtain ⟨core, inCore⟩ := exists_core finite within arenaWithin
  exact ⟨core.toUniverse below, fun root member =>
    .inl (.inl (.inl (inCore member)))⟩

end StructuralTyping
