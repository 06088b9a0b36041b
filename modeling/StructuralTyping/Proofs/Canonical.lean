import StructuralTyping.Proofs.NormalizeSize

namespace StructuralTyping

/-!
# Canonical types

A canonical type has the shape that normalization gives to its answers: unions
are flat and without repetitions, intersections are flat, hold at most one
constant or primitive and at most one object, and no built node keeps a number.
The members of a canonical intersection may be identical all the same: they are
compared before its objects are merged.
-/

/--
A type that structural identity can tell from others: its literals equal
themselves and the properties of each object have distinct names.
-/
inductive Ty.Tidy :
    Ty →
    Prop
  | absent :
      Tidy .absent
  | primitive :
      Tidy (.primitive kind)
  | literal :
      value.equal value = true →
      Tidy (.literal occurrence value)
  | named :
      Tidy (.named reference)
  | object :
      shape.names.Nodup →
      (∀ property ∈ shape.properties, Tidy property.type) →
      (∀ index, shape.index = some index → Tidy index.key) →
      (∀ index, shape.index = some index → Tidy index.value) →
      Tidy (.object occurrence shape)
  | array :
      Tidy element →
      Tidy (.array occurrence element readonly)
  | tuple :
      (∀ element ∈ elements, Tidy element) →
      Tidy (.tuple occurrence elements readonly)
  | function :
      (∀ parameter ∈ signature.parameters, Tidy parameter.type) →
      Tidy signature.rest →
      Tidy signature.result →
      Tidy (.function occurrence signature)
  | union {parts : List Ty} :
      (∀ part ∈ parts, Tidy part) →
      Tidy (.union occurrence parts)
  | intersection {parts : List Ty} :
      (∀ part ∈ parts, Tidy part) →
      Tidy (.intersection occurrence parts)
  | generic :
      Tidy application.base →
      (∀ argument ∈ application.arguments, Tidy argument) →
      Tidy (.generic occurrence application)

/-- The members of a canonical union: several, distinct, and none that merges. -/
structure UnionParts
    (arena : Arena)
    (parts : List Ty) :
    Prop where
  several : 2 ≤ parts.length
  distinct :
    parts.Pairwise fun first second => arena.identical first second = false
  flat : ∀ part ∈ parts, part.isUnion = false
  nonempty : ∀ part ∈ parts, part.isNever = false
  bounded :
    ∀ part ∈ parts,
      part.isPrimitive .any = false ∧ part.isPrimitive .unknown = false

/-- The members of a canonical intersection: several that do not reduce. -/
structure IntersectionParts
    (parts : List Ty) :
    Prop where
  several : 2 ≤ parts.length
  flat : ∀ part ∈ parts, RelationStep.isIntersection part = false
  nonempty :
    ∀ part ∈ parts, (part.isNever || part.isPrimitive .any) = false
  bounded : ∀ part ∈ parts, part.isPrimitive .unknown = false
  reduced : reduceAtoms parts = some parts
  merged : (NormalPass.shapesOf parts).length ≤ 1

/-- A tidy type in the form that normalization gives to its answers. -/
inductive Ty.Canonical
    (arena : Arena) :
    Ty →
    Prop
  | absent :
      Canonical arena .absent
  | primitive :
      Canonical arena (.primitive kind)
  | literal :
      value.equal value = true →
      Canonical arena (.literal occurrence value)
  | named :
      Canonical arena (.named reference)
  | object :
      shape.names.Nodup →
      (∀ property ∈ shape.properties, Canonical arena property.type) →
      (∀ index, shape.index = some index → Canonical arena index.key) →
      (∀ index, shape.index = some index → Canonical arena index.value) →
      Canonical arena (.object none shape)
  | array :
      Canonical arena element →
      Canonical arena (.array none element readonly)
  | tuple :
      (∀ element ∈ elements, Canonical arena element) →
      Canonical arena (.tuple none elements readonly)
  | function :
      (∀ parameter ∈ signature.parameters, Canonical arena parameter.type) →
      Canonical arena signature.rest →
      Canonical arena signature.result →
      Canonical arena (.function none signature)
  | union {parts : List Ty} :
      UnionParts arena parts →
      (∀ part ∈ parts, Canonical arena part) →
      Canonical arena (.union none parts)
  | intersection {parts : List Ty} :
      IntersectionParts parts →
      (∀ part ∈ parts, Canonical arena part) →
      Canonical arena (.intersection none parts)
  | generic :
      Canonical arena application.base →
      (∀ argument ∈ application.arguments, Canonical arena argument) →
      Canonical arena (.generic occurrence application)

/-- A shape with distinct names whose parts are all of some kind. -/
structure Shape.Each
    (kind : Ty → Prop)
    (shape : Shape Ty) :
    Prop where
  names : shape.names.Nodup
  properties : ∀ property ∈ shape.properties, kind property.type
  keys : ∀ index, shape.index = some index → kind index.key
  values : ∀ index, shape.index = some index → kind index.value

section Kinds

variable {arena : Arena}

namespace Ty

/-- An object is tidy when its shape is. -/
theorem tidy_object :
    (Ty.object occurrence shape).Tidy ↔ shape.Each Ty.Tidy := by
  constructor
  · intro tidy
    cases tidy with
    | object names properties keys values =>
        exact ⟨names, properties, keys, values⟩
  · intro each
    exact .object each.names each.properties each.keys each.values

/-- An object is canonical when it is built and its shape is canonical. -/
theorem canonical_object :
    (Ty.object occurrence shape).Canonical arena ↔
      occurrence = none ∧ shape.Each (Ty.Canonical arena) := by
  constructor
  · intro canonical
    cases canonical with
    | object names properties keys values =>
        exact ⟨rfl, names, properties, keys, values⟩
  · rintro ⟨rfl, each⟩
    exact .object each.names each.properties each.keys each.values

/-- Canonical types are tidy. -/
theorem Canonical.tidy
    {type : Ty}
    (canonical : type.Canonical arena) :
    type.Tidy := by
  induction canonical with
  | absent => exact .absent
  | primitive => exact .primitive
  | literal equal => exact .literal equal
  | named => exact .named
  | object names _ _ _ properties keys values =>
      exact .object names properties keys values
  | array _ element => exact .array element
  | tuple _ elements => exact .tuple elements
  | function _ _ _ parameters rest result =>
      exact .function parameters rest result
  | union _ _ parts => exact .union parts
  | intersection _ _ parts => exact .intersection parts
  | generic _ _ base arguments => exact .generic base arguments

/-- The members of a tidy type are tidy. -/
theorem Tidy.members
    {type : Ty}
    (tidy : type.Tidy)
    (inMembers : member ∈ type.members) :
    member.Tidy := by
  cases type with
  | union occurrence parts =>
      cases tidy with
      | union each =>
          exact each member inMembers
  | _ =>
      exact List.mem_singleton.mp inMembers ▸ tidy

/-- The members of a canonical type are canonical and no unions. -/
theorem Canonical.members
    {type : Ty}
    (canonical : type.Canonical arena)
    (inMembers : member ∈ type.members) :
    member.Canonical arena ∧ member.isUnion = false := by
  cases type with
  | union occurrence parts =>
      cases canonical with
      | union proper each =>
          exact ⟨each member inMembers, proper.flat member inMembers⟩
  | _ =>
      cases List.mem_singleton.mp inMembers
      exact ⟨canonical, rfl⟩

end Ty

namespace Shape

variable {kind : Ty → Prop} {shape : Shape Ty}

/-- Picked properties are of the kind of the shape. -/
theorem Each.pick
    (each : shape.Each kind)
    (keys : List String) :
    (shape.pick keys).Each kind where
  names := (List.filter_sublist.map _).nodup each.names
  properties property member :=
    each.properties property (List.mem_filter.mp member).1
  keys _ impossible := by cases impossible
  values _ impossible := by cases impossible

/-- The properties that are left are of the kind of the shape. -/
theorem Each.without
    (each : shape.Each kind)
    (keys : List String) :
    (shape.without keys).Each kind where
  names := (List.filter_sublist.map _).nodup each.names
  properties property member :=
    each.properties property (List.mem_filter.mp member).1
  keys := each.keys
  values := each.values

/-- A change that keeps the names and types of properties keeps their kind. -/
theorem Each.mapProperties
    (each : shape.Each kind)
    {change : Property Ty → Property Ty}
    (same :
      ∀ property,
        (change property).name = property.name ∧
          (change property).type = property.type) :
    (shape.mapProperties change).Each kind where
  names := by
    have names : (shape.mapProperties change).names = shape.names := by
      simp [Shape.names, Shape.mapProperties, same]
    rw [names]
    exact each.names
  properties property member := by
    obtain ⟨before, inShape, rfl⟩ := List.mem_map.mp member
    rw [(same before).2]
    exact each.properties before inShape
  keys := each.keys
  values := each.values

end Shape

namespace Ty.Tidy

/-- A tidy type, or a tidy one in its place, is tidy. -/
theorem orElse
    {type other : Ty}
    (tidy : type.Tidy)
    (otherTidy : other.Tidy) :
    (type.orElse other).Tidy := by
  unfold Ty.orElse
  split
  · exact otherTidy
  · exact tidy

/-- A tidy type extended by `undefined` is tidy. -/
theorem optional
    {type : Ty}
    (tidy : type.Tidy) :
    type.optional.Tidy := by
  unfold Ty.optional
  split
  · exact tidy
  · refine .union fun part member => ?_
    rcases List.mem_append.mp member with inMembers | isNew
    · exact tidy.members inMembers
    · exact List.mem_singleton.mp isNew ▸ .primitive

/-- A tidy type without its nullish members is tidy. -/
theorem nonNullable
    {type : Ty}
    (tidy : type.Tidy) :
    type.nonNullable.Tidy := by
  unfold Ty.nonNullable
  split
  · exact .primitive
  split
  · cases tidy with
    | union each =>
        exact .union fun part member =>
          each part (List.mem_filter.mp member).1
  · exact tidy

end Ty.Tidy

end Kinds

/-- What is no union is its own only member. -/
theorem Ty.members_eq
    {type : Ty}
    (notUnion : type.isUnion = false) :
    type.members = [type] := by
  cases type <;> first | rfl | cases notUnion

section Unions

variable {arena : Arena}

/-- Adding types one by one leaves no two that are identical. -/
theorem pairwise_foldl_appendUnique
    {types kept : List Ty}
    (distinct :
      kept.Pairwise fun first second =>
        arena.identical first second = false) :
    (types.foldl arena.appendUnique kept).Pairwise fun first second =>
      arena.identical first second = false := by
  induction types generalizing kept with
  | nil =>
      exact distinct
  | cons type rest inductionHypothesis =>
      rw [List.foldl_cons]
      apply inductionHypothesis
      unfold Arena.appendUnique
      split
      · exact distinct
      · next isNew =>
        refine List.pairwise_append.mpr ⟨distinct, by simp, ?_⟩
        intro first inKept second single
        cases List.mem_singleton.mp single
        by_contra same
        exact isNew (List.any_eq_true.mpr ⟨first, inKept, by simpa using same⟩)

/-- A list without identical types is kept as it is. -/
theorem foldl_appendUnique_of_pairwise
    {types kept : List Ty}
    (distinct :
      (kept ++ types).Pairwise fun first second =>
        arena.identical first second = false) :
    types.foldl arena.appendUnique kept = kept ++ types := by
  induction types generalizing kept with
  | nil =>
      simp
  | cons type rest inductionHypothesis =>
      have isNew : ¬ kept.any (arena.identical · type) = true := by
        intro found
        obtain ⟨first, inKept, same⟩ := List.any_eq_true.mp found
        have differs :=
          (List.pairwise_append.mp distinct).2.2 first inKept type (by simp)
        simp [differs] at same
      have step : arena.appendUnique kept type = kept ++ [type] := by
        unfold Arena.appendUnique
        rw [if_neg isNew]
      rw [List.foldl_cons, step, inductionHypothesis (by simpa using distinct)]
      simp

/-- What is kept already stays. -/
theorem mem_foldl_appendUnique
    {types kept : List Ty}
    {type : Ty}
    (inKept : type ∈ kept) :
    type ∈ types.foldl arena.appendUnique kept := by
  induction types generalizing kept with
  | nil => exact inKept
  | cons first rest inductionHypothesis =>
      refine inductionHypothesis ?_
      unfold Arena.appendUnique
      split
      · exact inKept
      · exact List.mem_append_left _ inKept

variable (arena) in
/-- Each type is kept or has an identical counterpart that is. -/
theorem exists_counterpart_of_mem
    {types : List Ty}
    {type : Ty}
    (kept : List Ty)
    (member : type ∈ types) :
    ∃ other ∈ types.foldl arena.appendUnique kept,
      other = type ∨ arena.identical other type = true := by
  induction types generalizing kept with
  | nil => cases member
  | cons first rest inductionHypothesis =>
      rcases List.mem_cons.mp member with rfl | inRest
      · rw [List.foldl_cons]
        by_cases repeats : kept.any (arena.identical · type) = true
        · obtain ⟨other, inKept, same⟩ := List.any_eq_true.mp repeats
          rw [Arena.appendUnique, if_pos repeats]
          exact ⟨other, mem_foldl_appendUnique inKept, .inr same⟩
        · rw [Arena.appendUnique, if_neg repeats]
          exact ⟨type, mem_foldl_appendUnique (by simp), .inl rfl⟩
      · exact inductionHypothesis _ inRest

variable (arena) in
/-- Something is kept of every list with members. -/
theorem unique_ne_nil
    {members : List Ty}
    (nonempty : members ≠ []) :
    members.foldl arena.appendUnique [] ≠ [] := by
  obtain ⟨member, inMembers⟩ := List.exists_mem_of_ne_nil members nonempty
  obtain ⟨other, inKept, -⟩ :=
    exists_counterpart_of_mem arena [] inMembers
  exact List.ne_nil_of_mem inKept

/-- Members that have values and are no top types join without repetitions. -/
theorem joinMembers_of_plain
    {members : List Ty}
    (plain :
      ∀ member ∈ members,
        member.isNever = false ∧ member.isPrimitive .any = false ∧
          member.isPrimitive .unknown = false) :
    arena.joinMembers members =
      match members.foldl arena.appendUnique [] with
      | [] => .never
      | [type] => type
      | types => .ofUnion types := by
  have kept : members.filter (fun member => !member.isNever) = members :=
    List.filter_eq_self.mpr fun member inMembers => by
      simp [(plain member inMembers).1]
  have noAny : members.any (Ty.isPrimitive · .any) = false :=
    List.any_eq_false.mpr fun member inMembers => by
      simp [(plain member inMembers).2.1]
  have noUnknown : members.any (Ty.isPrimitive · .unknown) = false :=
    List.any_eq_false.mpr fun member inMembers => by
      simp [(plain member inMembers).2.2]
  unfold Arena.joinMembers
  rw [kept]
  dsimp only
  rw [noAny, noUnknown]
  rfl

/-- The members of a union of such members are those without repetitions. -/
theorem members_joinMembers
    {members : List Ty}
    (plain :
      ∀ member ∈ members,
        member.isNever = false ∧ member.isPrimitive .any = false ∧
          member.isPrimitive .unknown = false)
    (flat : ∀ member ∈ members, member.isUnion = false)
    (nonempty : members ≠ []) :
    (arena.joinMembers members).members =
      members.foldl arena.appendUnique [] := by
  rw [joinMembers_of_plain plain]
  split
  · next none => exact absurd none (unique_ne_nil arena nonempty)
  · next type single =>
    have inMembers : type ∈ members :=
      (unique_sublist members).subset (single ▸ List.mem_singleton_self type)
    rw [single]
    exact Ty.members_eq (flat type inMembers)
  · rfl

/--
The union of some types is a primitive, one of them, or a union. If none of them
was a union, it does not reduce any further.
-/
theorem joinMembers_cases
    (types : List Ty) :
    (∃ kind, arena.joinMembers types = .primitive kind) ∨
      arena.joinMembers types ∈ types ∨
        ∃ parts,
          arena.joinMembers types = .union none parts ∧
            (∀ part ∈ parts, part ∈ types) ∧
            ((∀ type ∈ types, type.isUnion = false) →
              UnionParts arena parts) := by
  unfold Arena.joinMembers
  dsimp only
  split
  · exact .inl ⟨_, rfl⟩
  split
  · exact .inl ⟨_, rfl⟩
  next noAny noUnknown =>
  have sublist :
      ((types.filter fun type => !type.isNever).foldl
        arena.appendUnique []).Sublist
        (types.filter fun type => !type.isNever) :=
    unique_sublist _
  split
  · exact .inl ⟨_, rfl⟩
  · next type single =>
    rw [single] at sublist
    have member := sublist.subset (List.mem_singleton_self type)
    exact .inr (.inl (List.mem_filter.mp member).1)
  · next parts notNone notSingle =>
    refine .inr (.inr ⟨_, rfl, fun part member =>
      (List.mem_filter.mp (sublist.subset member)).1, fun flat =>
      ⟨?_, pairwise_foldl_appendUnique (by simp), ?_, ?_, ?_⟩⟩)
    · rcases lengths :
        (types.filter fun type => !type.isNever).foldl
          arena.appendUnique [] with _ | ⟨first, _ | ⟨second, rest⟩⟩
      · exact absurd lengths notNone
      · exact absurd lengths (notSingle first)
      · simp [lengths]
    · intro part member
      exact flat part (List.mem_filter.mp (sublist.subset member)).1
    · intro part member
      simpa using (List.mem_filter.mp (sublist.subset member)).2
    · intro part member
      have inFiltered := sublist.subset member
      simp only [List.any_eq_true, not_exists, not_and, Bool.not_eq_true]
        at noAny noUnknown
      exact ⟨noAny part inFiltered, noUnknown part inFiltered⟩

/-- A union is only empty when all of its members are. -/
theorem Arena.isNever_of_joinMembers
    {types : List Ty}
    (empty : (arena.joinMembers types).isNever = true) :
    ∀ type ∈ types, type.isNever = true := by
  intro type member
  by_contra inhabited
  have kept : type ∈ types.filter fun type => !type.isNever :=
    List.mem_filter.mpr ⟨member, by simpa using inhabited⟩
  unfold joinMembers at empty
  dsimp only at empty
  split at empty
  · cases empty
  · split at empty
    · cases empty
    · split at empty
      · next none =>
        exact unique_ne_nil arena (List.ne_nil_of_mem kept) none
      · next other single =>
        have inKept :=
          (@unique_sublist arena _).subset
            (single ▸ List.mem_singleton_self other)
        simpa [empty] using (List.mem_filter.mp inKept).2
      · next several _ =>
        exact absurd empty (by simpa [Ty.ofUnion, Ty.isNever] using several)

/-- The union of canonical types that are no unions is canonical. -/
theorem canonical_joinMembers
    {types : List Ty}
    (each : ∀ type ∈ types, type.Canonical arena ∧ type.isUnion = false) :
    (arena.joinMembers types).Canonical arena := by
  rcases joinMembers_cases types with
    ⟨kind, same⟩ | member | ⟨parts, same, origin, proper⟩
  · exact same ▸ .primitive
  · exact (each _ member).1
  · rw [same]
    exact .union (proper fun type member => (each type member).2)
      fun part member => (each part (origin part member)).1

/-- The members of a canonical union join to the union. -/
theorem joinMembers_of_parts
    {parts : List Ty}
    (proper : UnionParts arena parts) :
    arena.joinMembers parts = .union none parts := by
  have kept : parts.filter (fun type => !type.isNever) = parts :=
    List.filter_eq_self.mpr fun part member => by
      simp [proper.nonempty part member]
  have noAny : parts.any (Ty.isPrimitive · .any) = false :=
    List.any_eq_false.mpr fun part member => by
      simp [(proper.bounded part member).1]
  have noUnknown : parts.any (Ty.isPrimitive · .unknown) = false :=
    List.any_eq_false.mpr fun part member => by
      simp [(proper.bounded part member).2]
  have unique : parts.foldl arena.appendUnique [] = parts :=
    foldl_appendUnique_of_pairwise (by simpa using proper.distinct)
  unfold Arena.joinMembers
  rw [kept]
  dsimp only
  rw [unique, noAny, noUnknown]
  have several := proper.several
  rcases parts with _ | ⟨first, _ | ⟨second, rest⟩⟩
  · simp at several
  · simp at several
  · rfl

end Unions

section Atoms

/-- Constants and primitives come to nothing only if there are none. -/
theorem eq_nil_of_meetLiterals
    {types : List Ty}
    (literals : ∀ type ∈ types, type.isLiteral = true)
    (meets : meetLiterals none types = some none) :
    types = [] := by
  have all := (@meetLiterals_spec ⟨true, true⟩ {} types literals).1
  rw [meets] at all
  refine List.eq_nil_iff_forall_not_mem.mpr fun type member => ?_
  have holds := all .null type member
  have isLiteral := literals type member
  cases type <;> simp [Ty.isLiteral] at isLiteral
  obtain ⟨_, impossible, _⟩ := holds_literal.mp holds
  cases impossible

@[inherit_doc eq_nil_of_meetLiterals]
theorem eq_nil_of_meetPrimitives
    {kinds : List Primitive}
    (meets : meetPrimitives kinds = some none) :
    kinds = [] := by
  have kept :
      ∀ (kinds : List Primitive) (current : Primitive),
        kinds.foldlM meetPrimitive (some current) ≠ some none := by
    intro kinds
    induction kinds with
    | nil =>
        simp
    | cons kind rest inductionHypothesis =>
        intro current meets
        rw [List.foldlM_cons] at meets
        unfold meetPrimitive at meets
        dsimp only at meets
        split at meets
        · exact inductionHypothesis kind meets
        split at meets
        · exact inductionHypothesis current meets
        · cases meets
  cases kinds with
  | nil =>
      rfl
  | cons kind rest =>
      rw [meetPrimitives_eq, List.foldlM_cons] at meets
      exact absurd meets (kept rest kind)

/-- Literals are found among the atoms. -/
theorem literalMembers_filter
    (members : List Ty) :
    literalMembers (members.filter Ty.isAtom) = literalMembers members := by
  unfold literalMembers
  rw [List.filter_filter]
  refine List.filter_congr fun type _ => ?_
  cases type <;> rfl

/-- Primitives are found among the atoms. -/
theorem primitiveMembers_filter
    (members : List Ty) :
    primitiveMembers (members.filter Ty.isAtom) = primitiveMembers members := by
  unfold primitiveMembers
  rw [List.filterMap_filter]
  refine List.filterMap_congr fun type _ => ?_
  cases type <;> rfl

/-- Where no atom is a constant, the atoms are the primitives. -/
theorem filter_isAtom_of_noLiterals
    {members : List Ty}
    (noLiterals : literalMembers members = []) :
    members.filter Ty.isAtom =
      (primitiveMembers members).map Ty.primitive := by
  induction members with
  | nil =>
      rfl
  | cons member rest inductionHypothesis =>
      have restLiterals : literalMembers rest = [] :=
        List.sublist_nil.mp
          (noLiterals ▸ (List.sublist_cons_self member rest).filter _)
      have tail := inductionHypothesis restLiterals
      cases member with
      | literal occurrence value =>
          simp [literalMembers] at noLiterals
      | primitive kind =>
          rw [List.filter_cons_of_pos rfl, tail]
          rfl
      | _ =>
          rw [List.filter_cons_of_neg (by simp [Ty.isAtom]), tail]
          rfl

/-- Replacing the atoms of a list that has some leaves the new atom alone. -/
theorem filter_replaceAtoms
    {members : List Ty}
    (isAtom : atom.isAtom = true)
    (some : ∃ member ∈ members, member.isAtom = true) :
    (replaceAtoms atom members).filter Ty.isAtom = [atom] := by
  induction members with
  | nil =>
      simp at some
  | cons member rest inductionHypothesis =>
      rw [replaceAtoms]
      split
      · simp [isAtom, List.filter_filter]
      · next notAtom =>
        have inRest : ∃ member ∈ rest, member.isAtom = true := by
          obtain ⟨other, member, isAtom⟩ := some
          rcases List.mem_cons.mp member with rfl | member
          · exact absurd isAtom notAtom
          · exact ⟨other, member, isAtom⟩
        rw [List.filter_cons_of_neg (by simpa using notAtom),
          inductionHypothesis inRest]

/-- Replacing the only atom of a list by itself changes nothing. -/
theorem replaceAtoms_single
    {members : List Ty}
    (single : members.filter Ty.isAtom = [atom]) :
    replaceAtoms atom members = members := by
  induction members with
  | nil =>
      rfl
  | cons member rest inductionHypothesis =>
      rw [replaceAtoms]
      split
      · next isAtom =>
        rw [List.filter_cons_of_pos isAtom, List.cons.injEq] at single
        obtain ⟨rfl, noOthers⟩ := single
        rw [List.filter_eq_nil_iff] at noOthers
        rw [List.filter_eq_self.mpr fun other inRest => by
          simpa using noOthers other inRest]
      · next notAtom =>
        rw [List.filter_cons_of_neg (by simpa using notAtom)] at single
        rw [inductionHypothesis single]

/-- Replacing the atoms of a list leaves its objects alone. -/
theorem any_isObjectLike_replaceAtoms
    (isAtom : atom.isAtom = true)
    (members : List Ty) :
    (replaceAtoms atom members).any Ty.isObjectLike =
      members.any Ty.isObjectLike := by
  have apart :
      ∀ type : Ty, type.isAtom = true → type.isObjectLike = false := by
    intro type isAtom
    cases type <;> simp [Ty.isAtom] at isAtom <;> rfl
  induction members with
  | nil =>
      rfl
  | cons member rest inductionHypothesis =>
      rw [replaceAtoms]
      split
      · next memberIsAtom =>
        rw [List.any_cons, List.any_cons, apart atom isAtom,
          apart member memberIsAtom, List.any_filter]
        congr 1
        refine List.any_congr rfl fun other => ?_
        cases other <;> rfl
      · rw [List.any_cons, List.any_cons, inductionHypothesis]

/--
The atoms of a list that reduction leaves alone: at most one, and no nullish one
beside an object.
-/
inductive AtomsReduced
    (members : List Ty) :
    Prop
  | none :
      members.filter Ty.isAtom = [] →
      AtomsReduced members
  | literal :
      members.filter Ty.isAtom = [.literal occurrence value] →
      AtomsReduced members
  | primitive :
      members.filter Ty.isAtom = [.primitive kind] →
      (members.any Ty.isObjectLike = true →
        kind ≠ .null ∧ kind ≠ .undefined ∧ kind ≠ .void) →
      AtomsReduced members

/-- Reduction leaves reduced atoms alone. -/
theorem AtomsReduced.reduceAtoms
    {members : List Ty}
    (reduced : AtomsReduced members) :
    reduceAtoms members = some members := by
  cases reduced with
  | none noAtoms =>
      have literals := literalMembers_filter members
      have primitives := primitiveMembers_filter members
      rw [noAtoms] at literals primitives
      rw [StructuralTyping.reduceAtoms, ← literals, ← primitives]
      rfl
  | literal single =>
      have literals := literalMembers_filter members
      have primitives := primitiveMembers_filter members
      have replaced := replaceAtoms_single single
      rw [single] at literals primitives
      rw [StructuralTyping.reduceAtoms, ← literals, ← primitives]
      simpa [literalMembers, primitiveMembers, meetLiterals, meetPrimitives]
        using replaced
  | primitive single separate =>
      have literals := literalMembers_filter members
      have primitives := primitiveMembers_filter members
      rw [single] at literals primitives
      rw [StructuralTyping.reduceAtoms, ← literals, ← primitives]
      cases objects : members.any Ty.isObjectLike with
      | false =>
          simp [literalMembers, primitiveMembers, meetLiterals, meetPrimitives]
      | true =>
          simp [literalMembers, primitiveMembers, meetLiterals, meetPrimitives,
            separate objects]

/-- Reduction leads to reduced atoms. -/
theorem atomsReduced_of_reduceAtoms
    {members reduced : List Ty}
    (succeeded : reduceAtoms members = some reduced) :
    AtomsReduced reduced := by
  cases literalMeets : meetLiterals none (literalMembers members) with
  | none =>
      simp [reduceAtoms, literalMeets] at succeeded
  | some literal =>
  cases kindMeets : meetPrimitives (primitiveMembers members) with
  | none =>
      simp [reduceAtoms, literalMeets, kindMeets] at succeeded
  | some kind =>
  simp only [reduceAtoms, literalMeets, kindMeets, Option.bind_eq_bind,
    Option.bind_some] at succeeded
  have areLiterals :
      ∀ type ∈ literalMembers members, type.isLiteral = true :=
    fun type member => (mem_literalMembers.mp member).2
  cases literal with
  | some literal =>
      have origin :=
        (@meetLiterals_spec ⟨true, true⟩ {} _ areLiterals).2
          literal literalMeets
      have isLiteral := areLiterals literal origin
      have same : reduced = replaceAtoms literal members := by
        cases kind <;> simp_all
      cases literal <;> simp [Ty.isLiteral] at isLiteral
      exact .literal (same ▸ filter_replaceAtoms rfl
        ⟨_, (mem_literalMembers.mp origin).1, rfl⟩)
  | none =>
      have noLiterals := eq_nil_of_meetLiterals areLiterals literalMeets
      cases kind with
      | none =>
          have noPrimitives := eq_nil_of_meetPrimitives kindMeets
          simp only [Bool.false_or] at succeeded
          split at succeeded
          · cases succeeded
          cases succeeded
          refine .none (List.filter_eq_nil_iff.mpr fun member inMembers => ?_)
          intro isAtom
          rcases Ty.isAtom_iff.mp isAtom with isLiteral | ⟨kind, rfl⟩
          · exact List.not_mem_nil
              (noLiterals ▸ mem_literalMembers.mpr ⟨inMembers, isLiteral⟩)
          · exact List.not_mem_nil
              (noPrimitives ▸ mem_primitiveMembers.mpr inMembers)
      | some kind =>
          dsimp only at succeeded
          split at succeeded
          · cases succeeded
          next compatible =>
          have origin :=
            mem_primitiveMembers.mp (mem_of_meetPrimitives kindMeets)
          have separate :
              members.any Ty.isObjectLike = true →
                kind ≠ .null ∧ kind ≠ .undefined ∧ kind ≠ .void := by
            intro objects
            simpa [objects, and_assoc] using compatible
          split at succeeded
          · next few =>
            cases succeeded
            refine .primitive ?_ separate
            have member := mem_of_meetPrimitives kindMeets
            rw [filter_isAtom_of_noLiterals noLiterals]
            rcases kinds : primitiveMembers members with
              _ | ⟨only, _ | ⟨other, rest⟩⟩
            · simp [kinds] at member
            · simp [List.mem_singleton.mp (kinds ▸ member)]
            · simp [kinds] at few
          · cases succeeded
            refine .primitive (filter_replaceAtoms rfl ⟨_, origin, rfl⟩) ?_
            rw [any_isObjectLike_replaceAtoms rfl]
            exact separate

end Atoms

end StructuralTyping
