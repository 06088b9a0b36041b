import StructuralTyping.Proofs.Likeness

namespace StructuralTyping

/-!
# Normalization keeps to names of a kind

Normalization and evaluation put types together from parts of what they are given
and from definitions. So they lead from names of a kind to names of that kind, if
those in the definitions are of it. In particular, what can be told apart from
other types is normalized to something that can be told apart.
-/

open Stateful

/-- Every name in a type is of a kind. -/
def Ty.Naming
    (kind : Reference → Prop)
    (type : Ty) :
    Prop :=
  type.Every fun node => ∀ reference, node = .named reference → kind reference

namespace Ty.Naming

variable {kind : Reference → Prop} {type : Ty}

/-- A type that is no name has names of a kind when its parts do. -/
theorem of_parts
    (notNamed : type.isNamed = false)
    (parts : ∀ part ∈ type.parts, part.Naming kind) :
    type.Naming kind := by
  apply Ty.Every.node _ parts
  rintro reference rfl
  cases notNamed

/-- The names of a type are those of its parts. -/
theorem parts
    (naming : type.Naming kind) :
    ∀ part ∈ type.parts, part.Naming kind :=
  fun _ => naming.inside

theorem primitive :
    (Ty.primitive found).Naming kind :=
  of_parts rfl (by simp [Ty.parts])

theorem members
    (naming : type.Naming kind) :
    ∀ member ∈ type.members, member.Naming kind :=
  fun _ => Ty.Every.member naming

theorem object
    {shape : Shape Ty} :
    (Ty.object occurrence shape).Naming kind ↔
      shape.All (Ty.Naming kind) := by
  rw [← forall_parts_object]
  constructor
  · exact parts
  · exact of_parts rfl

theorem orElse
    (naming : type.Naming kind)
    {other : Ty}
    (otherNaming : other.Naming kind) :
    (type.orElse other).Naming kind := by
  cases type <;> assumption

theorem optional
    (naming : type.Naming kind) :
    type.optional.Naming kind := by
  unfold Ty.optional
  split
  · exact naming
  · apply of_parts rfl
    exact List.forall_mem_append.mpr
      ⟨naming.members, List.forall_mem_singleton.mpr primitive⟩

theorem nonNullable
    (naming : type.Naming kind) :
    type.nonNullable.Naming kind := by
  unfold Ty.nonNullable
  split
  · exact primitive
  · split
    · apply of_parts rfl
      intro member kept
      exact naming.parts member (List.mem_filter.mp kept).1
    · exact naming

end Ty.Naming

/-- A pass that keeps to names of a kind. -/
structure NormalPass.KeepsNames
    (kind : Reference → Prop)
    (pass : NormalPass) :
    Prop where
  normalize :
    ∀ {depth type result},
      type.Naming kind →
      Settles (pass.normalize depth type) result →
      result.Naming kind
  inner :
    ∀ {depth type result},
      type.Naming kind →
      Settles (pass.inner depth type) result →
      result.Naming kind
  intersection :
    ∀ {depth members result},
      (∀ member ∈ members, member.Naming kind) →
      Settles (pass.intersection depth members) result →
      result.Naming kind

namespace NormalPass.KeepsNames

variable
  {kind : Reference → Prop} {arena : Arena} {mode : NormalMode}
  {pass : NormalPass} [pass.Reports]
  (keeps : pass.KeepsNames kind)
include keeps

theorem normalizeAll
    {types results : List Ty}
    (naming : ∀ type ∈ types, type.Naming kind)
    (settles : Settles (types.mapM (pass.normalize depth)) results) :
    ∀ result ∈ results, result.Naming kind := by
  intro result member
  obtain ⟨type, inTypes, settles⟩ := exists_normalized settles member
  exact keeps.normalize (naming type inTypes) settles

theorem innerAll
    {types results : List Ty}
    (naming : ∀ type ∈ types, type.Naming kind)
    (settles : Settles (types.mapM (pass.inner depth)) results) :
    ∀ result ∈ results, result.Naming kind := by
  intro result member
  obtain ⟨type, inTypes, settles⟩ := exists_normalizedInside settles member
  exact keeps.inner (naming type inTypes) settles

/-- A union joins members of members, so its names are theirs. -/
theorem union
    (naming : ∀ member ∈ members, member.Naming kind)
    (settles : Settles (pass.union arena depth members) result) :
    result.Naming kind := by
  obtain ⟨types, visits, rfl⟩ := union_cases settles
  have each : ∀ type ∈ flattenUnion types, type.Naming kind := by
    intro type inFlat
    obtain ⟨normal, inTypes, inNormal⟩ := List.mem_flatMap.mp inFlat
    exact (keeps.normalizeAll naming visits normal inTypes).members type inNormal
  rcases joinMembers_cases (flattenUnion types) with
    ⟨found, same⟩ | member | ⟨parts, same, origin, _⟩
  · exact same ▸ .primitive
  · exact each _ member
  · rw [same]
    exact .of_parts rfl fun part member => each part (origin part member)

omit [pass.Reports] in
/-- A merged property has the type of one of the two, or the one they meet in. -/
theorem mergeProperty
    {shape merged : Shape Ty}
    (all : shape.All (Ty.Naming kind))
    (naming : property.type.Naming kind)
    (settles : Settles (pass.mergeProperty arena depth shape property) merged) :
    merged.All (Ty.Naming kind) := by
  rcases mergeProperty_cases settles with
    ⟨_, rfl⟩ | ⟨existing, type, found, origin, rfl⟩
  · refine ⟨?_, all.keys, all.values⟩
    exact List.forall_mem_append.mpr
      ⟨all.properties, List.forall_mem_singleton.mpr naming⟩
  · have existingNaming :=
      all.properties existing (Shape.mem_of_property? found).1
    refine ⟨fun other member => ?_, all.keys, all.values⟩
    rcases mem_of_mem_replace member with inShape | rfl
    · exact all.properties other inShape
    · rcases origin with ⟨_, rfl⟩ | ⟨_, meets⟩
      · exact existingNaming
      · exact keeps.intersection (by simp [existingNaming, naming]) meets

omit [pass.Reports] in
/-- Merged index signatures have the key of one and values of one or both. -/
theorem mergeIndex
    {first second merged : Option (IndexSignature Ty)}
    (firstNaming :
      ∀ index, first = some index →
        index.key.Naming kind ∧ index.value.Naming kind)
    (secondNaming :
      ∀ index, second = some index →
        index.key.Naming kind ∧ index.value.Naming kind)
    (settles : Settles (pass.mergeIndex arena depth first second) merged) :
    ∀ index, merged = some index →
      index.key.Naming kind ∧ index.value.Naming kind := by
  rcases mergeIndex_cases settles with
    rfl | rfl | ⟨one, other, value, rfl, rfl, meets, rfl⟩
  · exact firstNaming
  · exact secondNaming
  · obtain ⟨key, oneValue⟩ := firstNaming one rfl
    obtain ⟨_, otherValue⟩ := secondNaming other rfl
    rintro _ ⟨⟩
    exact ⟨key, keeps.intersection (by simp [oneValue, otherValue]) meets⟩

theorem mergeShape
    {first second merged : Shape Ty}
    (firstAll : first.All (Ty.Naming kind))
    (secondAll : second.All (Ty.Naming kind))
    (settles : Settles (pass.mergeShape arena depth first second) merged) :
    merged.All (Ty.Naming kind) := by
  obtain ⟨joined, index, joins, meets, rfl⟩ := mergeShape_cases settles
  have joinedAll : joined.All (Ty.Naming kind) :=
    Outcome.of_foldlM joins firstAll fun shape all property member _ settles =>
      keeps.mergeProperty all (secondAll.properties property member) settles
  have both :=
    keeps.mergeIndex
      (fun index written =>
        ⟨joinedAll.keys index written, joinedAll.values index written⟩)
      (fun index written =>
        ⟨secondAll.keys index written, secondAll.values index written⟩)
      meets
  exact ⟨joinedAll.properties, fun index written => (both index written).1,
    fun index written => (both index written).2⟩

theorem mergeObjects
    {members merged : List Ty}
    (naming : ∀ member ∈ members, member.Naming kind)
    (settles : Settles (pass.mergeObjects arena depth members) merged) :
    ∀ member ∈ merged, member.Naming kind := by
  rcases (mergeObjects_cases settles).2 with
    rfl | ⟨first, rest, shape, fromMembers, folds, origin⟩
  · exact naming
  have shapes :
      ∀ other ∈ first :: rest, other.All (Ty.Naming kind) := by
    intro other listed
    obtain ⟨occurrence, member⟩ := mem_shapesOf.mp (fromMembers other listed)
    exact Ty.Naming.object.mp (naming _ member)
  have mergedAll : shape.All (Ty.Naming kind) :=
    Outcome.of_foldlM folds (shapes first (by simp))
      fun shape all other member _ settles =>
        keeps.mergeShape all (shapes other (.tail _ member)) settles
  intro member inMerged
  rcases origin member inMerged with inMembers | rfl
  · exact naming member inMembers
  · exact Ty.Naming.object.mpr mergedAll

theorem meetMembers
    {types : List Ty}
    (naming : ∀ type ∈ types, type.Naming kind)
    (settles : Settles (pass.meetMembers arena depth types) result) :
    result.Naming kind := by
  rcases meetMembers_cases settles with
    ⟨found, rfl⟩ | ⟨reduced, merged, fromTypes, merges, outcome⟩
  · exact .primitive
  have mergedNaming :=
    keeps.mergeObjects
      (fun type member => naming type (fromTypes type member)) merges
  rcases outcome with inMerged | ⟨rfl, _⟩
  · exact mergedNaming result inMerged
  · exact .of_parts rfl mergedNaming

theorem nextIntersection
    (naming : ∀ member ∈ members, member.Naming kind)
    (settles : Settles (pass.nextIntersection arena depth members) result) :
    result.Naming kind := by
  obtain ⟨types, visits, outcome⟩ := nextIntersection_cases settles
  have normal := keeps.normalizeAll naming visits
  have flat : ∀ type ∈ flattenIntersection types, type.Naming kind := by
    intro type inFlat
    obtain ⟨whole, inTypes, found⟩ := List.mem_flatMap.mp inFlat
    have wholeNaming := normal whole inTypes
    cases whole with
    | intersection occurrence parts =>
        exact wholeNaming.parts type found
    | _ =>
        cases List.mem_singleton.mp found
        exact wholeNaming
  rcases outcome with ⟨_, settles⟩ | ⟨_, results, meets, settles⟩
  · exact keeps.meetMembers flat settles
  · refine keeps.union (fun result inResults => ?_) settles
    obtain ⟨choice, inChoices, settles⟩ :=
      exists_related_left meets.of_mapM inResults
    refine keeps.intersection (fun member inChoice => ?_) settles
    obtain ⟨type, inFlat, inType⟩ := mem_of_mem_choice inChoices inChoice
    exact (flat type inFlat).members member inType

theorem normalizeShape
    {shape result : Shape Ty}
    (all : shape.All (Ty.Naming kind))
    (settles : Settles (pass.normalizeShape depth shape) result) :
    result.All (Ty.Naming kind) := by
  obtain ⟨properties, index⟩ := normalizeShape_cases settles
  refine ⟨fun after member => ?_, fun after present => ?_,
    fun after present => ?_⟩
  · obtain ⟨before, inShape, _, settles⟩ :=
      exists_related_left properties member
    exact keeps.inner (all.properties before inShape) settles
  · obtain ⟨before, written, settles, _⟩ := exists_optional_left index present
    exact keeps.inner (all.keys before written) settles
  · obtain ⟨before, written, _, settles⟩ := exists_optional_left index present
    exact keeps.inner (all.values before written) settles

theorem rebuild
    {application : Application Ty}
    (naming : (Ty.generic given application).Naming kind)
    (settles :
      Settles (pass.rebuild depth occurrence application) result) :
    result.Naming kind := by
  obtain ⟨base, arguments⟩ := Ty.forall_parts_generic.mp naming.parts
  obtain ⟨kept, newBase, newArguments, baseSettles, argumentsSettle, rfl⟩ :=
    rebuild_cases settles
  exact .of_parts rfl (Ty.forall_parts_generic.mpr
    ⟨keeps.inner base baseSettles, keeps.innerAll arguments argumentsSettle⟩)

theorem normalizeNode
    [mode.evaluate.Reports]
    (evaluates : mode.evaluate.Keeps (Ty.Naming kind))
    {type : Ty}
    (naming : type.Naming kind)
    (settles : Settles (pass.normalizeNode mode depth type) result) :
    result.Naming kind := by
  cases type with
  | object occurrence shape =>
      obtain ⟨normal, parts, settles⟩ := Settles.of_bind settles
      cases settles.of_pure
      exact Ty.Naming.object.mpr
        (keeps.normalizeShape (Ty.Naming.object.mp naming) parts)
  | array occurrence element readonly =>
      obtain ⟨normal, inner, settles⟩ := Settles.of_bind settles
      cases settles.of_pure
      exact .of_parts rfl (List.forall_mem_singleton.mpr
        (keeps.inner (naming.parts element List.mem_cons_self) inner))
  | tuple occurrence elements readonly =>
      obtain ⟨normals, visits, settles⟩ := Settles.of_bind settles
      cases settles.of_pure
      exact .of_parts rfl (keeps.innerAll naming.parts visits)
  | function occurrence signature =>
      obtain ⟨parameters, rest, result⟩ :=
        Ty.forall_parts_function.mp naming.parts
      obtain ⟨normal, parts, settles⟩ := Settles.of_bind settles
      cases settles.of_pure
      obtain ⟨_, newParameters, restSettles, resultSettles⟩ :=
        normalizeSignature_cases parts
      refine .of_parts rfl (Ty.forall_parts_function.mpr
        ⟨fun after member => ?_, keeps.inner rest restSettles,
          keeps.inner result resultSettles⟩)
      obtain ⟨before, inParameters, _, settles⟩ :=
        exists_related_left newParameters member
      exact keeps.inner (parameters before inParameters) settles
  | union occurrence members =>
      exact keeps.union naming.parts settles
  | intersection occurrence members =>
      exact keeps.intersection naming.parts settles
  | generic occurrence application =>
      change Settles (if mode.keepReferences then _ else _) result at settles
      split at settles
      · exact keeps.rebuild naming settles
      · rcases normalizeApplication_cases settles with
          ⟨type, found, settles⟩ | settles
        · have base : application.base.Naming kind :=
            naming.parts _ List.mem_cons_self
          exact keeps.normalize (evaluates (fun _ => base) found) settles
        · exact keeps.rebuild naming settles
  | _ =>
      cases settles.of_pure
      exact naming

theorem next
    [mode.evaluate.Reports]
    (evaluates : mode.evaluate.Keeps (Ty.Naming kind)) :
    (pass.next mode).KeepsNames kind where
  normalize {depth type result} naming settles := by
    change Settles (pass.nextNormalize mode depth type) result at settles
    unfold NormalPass.nextNormalize at settles
    split at settles
    · cases settles.of_pure
      exact naming
    split at settles
    · obtain ⟨_, reported, _⟩ := settles.of_bind
      exact absurd reported not_settles_reportOnce
    · exact keeps.normalizeNode evaluates naming settles
  inner {depth type result} naming settles := by
    change Settles (pass.nextInner depth type) result at settles
    unfold NormalPass.nextInner at settles
    split at settles
    · exact keeps.rebuild naming settles
    · exact keeps.normalize naming settles
  intersection naming settles := keeps.nextIntersection naming settles

end NormalPass.KeepsNames

/-- Every pass keeps to names of a kind. -/
theorem normalPass_keepsNames
    {kind : Reference → Prop}
    (mode : NormalMode)
    [mode.evaluate.Reports]
    (evaluates : mode.evaluate.Keeps (Ty.Naming kind))
    (budget : Nat) :
    (normalPass mode budget).KeepsNames kind := by
  induction budget with
  | zero =>
      exact
        { normalize := fun _ settles => (not_settles_emptyPass settles).elim
          inner := fun _ settles => (not_settles_emptyPass settles).elim
          intersection := fun _ settles =>
            (not_settles_emptyPass settles).elim }
  | succ budget inductionHypothesis =>
      rw [normalPass_succ]
      exact inductionHypothesis.next evaluates

/-- Types with names of a kind go over to such types. -/
theorem Ty.naming_kept
    {kind : Reference → Prop} :
    Ty.Kept (Ty.Naming kind) where
  base naming _ := naming.parts _ List.mem_cons_self
  factor naming := naming.parts
  intersection _ each := .of_parts rfl each
  pick naming keys := by
    have all := Ty.Naming.object.mp naming
    refine Ty.Naming.object.mpr ⟨fun property kept => ?_, nofun, nofun⟩
    exact all.properties property (List.mem_filter.mp kept).1
  without naming keys := by
    have all := Ty.Naming.object.mp naming
    refine Ty.Naming.object.mpr ⟨fun property kept => ?_, all.keys, all.values⟩
    exact all.properties property (List.mem_filter.mp kept).1
  change naming same := by
    have all := Ty.Naming.object.mp naming
    refine Ty.Naming.object.mpr ⟨fun property member => ?_, all.keys, all.values⟩
    obtain ⟨original, inShape, rfl⟩ := List.mem_map.mp member
    exact (same original).2 ▸ all.properties original inShape
  array naming := .of_parts rfl naming.parts
  tuple naming := .of_parts rfl naming.parts
  result naming :=
    (Ty.forall_parts_function.mp naming.parts).2.2.orElse .primitive
  parameters naming := by
    have parameters := (Ty.forall_parts_function.mp naming.parts).1
    apply Ty.Naming.of_parts rfl
    intro element member
    obtain ⟨parameter, inParameters, rfl⟩ := List.mem_map.mp member
    split
    · exact (parameters parameter inParameters).optional
    · exact parameters parameter inParameters
  nonNullable naming := naming.nonNullable

/-- Over definitions with names of a kind, evaluation keeps to such names. -/
theorem Checker.keeps_naming
    {checker : Checker}
    {kind : Reference → Prop}
    (definitions :
      ∀ reference,
        checker.arena.definition reference ≠ .absent →
        (checker.arena.definition reference).Naming kind) :
    checker.KeepsKind (Ty.Naming kind) (Ty.Naming kind) where
  kept := Ty.naming_kept
  ofNormal := id
  definitions := definitions
  normalizes keeps naming settles :=
    (normalPass_keepsNames _ keeps _).normalize naming
      (settles_of_normalizeIn settles)

namespace Arena

variable {arena : Arena}

/-- A name leads to a type that is no name. -/
def Resolves
    (arena : Arena)
    (reference : Reference) :
    Prop :=
  ∃ limit found, arena.resolve (.named reference) limit = .resolved found

/-- What can be told apart is tidy and uses names that resolve. -/
theorem identifies_iff
    {type : Ty} :
    arena.Identifies type ↔ type.Tidy ∧ type.Naming arena.Resolves := by
  constructor
  · intro identifies
    refine ⟨identifies.tidy, identifies.resolves.mono ?_⟩
    rintro _ resolves reference rfl
    exact resolves rfl
  · rintro ⟨tidy, naming⟩
    refine ⟨tidy, naming.mono fun node resolves isNamed => ?_⟩
    cases node with
    | named reference => exact resolves reference rfl
    | _ => cases isNamed

theorem identifies_primitive :
    arena.Identifies (.primitive kind) :=
  identifies_iff.mpr ⟨.primitive, .primitive⟩

/-- The parts of a type that can be told apart can be told apart. -/
theorem Identifies.parts
    {type : Ty}
    (identifies : arena.Identifies type) :
    ∀ part ∈ type.parts, arena.Identifies part :=
  fun _ inside => ⟨identifies.tidy.part inside, identifies.resolves.inside inside⟩

/-- Definitions that can be told apart are tidy. -/
theorem Identifiable.tidy
    (identifiable : arena.Identifiable) :
    arena.Tidy := by
  intro reference
  by_cases defined : arena.definition reference = .absent
  · rw [defined]
    exact .absent
  · exact (identifiable reference defined).tidy

end Arena

/-- A canonical type that can be told apart from others. -/
structure Arena.Presents
    (arena : Arena)
    (type : Ty) :
    Prop where
  canonical : type.Canonical arena
  naming : type.Naming arena.Resolves

/-- What is canonical and uses names that resolve can be told apart. -/
theorem Arena.Presents.identifies
    {arena : Arena}
    {type : Ty}
    (presents : arena.Presents type) :
    arena.Identifies type :=
  identifies_iff.mpr ⟨presents.canonical.tidy, presents.naming⟩

/-- The members of a type that can be told apart can be told apart. -/
theorem Arena.Presents.members
    {arena : Arena}
    {type member : Ty}
    (presents : arena.Presents type)
    (inMembers : member ∈ type.members) :
    arena.Presents member :=
  ⟨(presents.canonical.members inMembers).1,
    presents.naming.members member inMembers⟩

/-- The factors of types that can be told apart can be told apart. -/
theorem Arena.Presents.factors
    {arena : Arena}
    {types : List Ty}
    (presents : ∀ type ∈ types, arena.Presents type) :
    ∀ factor ∈ flattenIntersection types, arena.Presents factor := by
  intro factor inFlat
  obtain ⟨whole, inTypes, found⟩ := List.mem_flatMap.mp inFlat
  have presented := presents whole inTypes
  cases whole with
  | intersection occurrence parts =>
      cases presented.canonical with
      | intersection _ each =>
          exact ⟨each factor found, presented.naming.parts factor found⟩
  | _ =>
      cases List.mem_singleton.mp found
      exact presented

/-- A shape is presentable when it is canonical and its names resolve. -/
theorem Arena.each_presents_iff
    {arena : Arena}
    {shape : Shape Ty} :
    shape.Each arena.Presents ↔
      shape.Each (Ty.Canonical arena) ∧
        shape.All (Ty.Naming arena.Resolves) := by
  constructor
  · intro each
    exact
      ⟨⟨each.names, fun property member => (each.properties property member).1,
          fun index written => (each.keys index written).1,
          fun index written => (each.values index written).1⟩,
        ⟨fun property member => (each.properties property member).2,
          fun index written => (each.keys index written).2,
          fun index written => (each.values index written).2⟩⟩
  · rintro ⟨each, all⟩
    exact
      ⟨each.names,
        fun property member =>
          ⟨each.properties property member, all.properties property member⟩,
        fun index written => ⟨each.keys index written, all.keys index written⟩,
        fun index written =>
          ⟨each.values index written, all.values index written⟩⟩

/-- What is in an object that can be told apart can be told apart. -/
theorem Arena.Presents.object
    {arena : Arena}
    {shape : Shape Ty}
    (presents : arena.Presents (.object occurrence shape)) :
    shape.Each arena.Presents :=
  each_presents_iff.mpr
    ⟨(Ty.canonical_object.mp presents.canonical).2,
      Ty.Naming.object.mp presents.naming⟩

/-- A pass that settles with types that can be told apart. -/
structure NormalPass.Presents
    (arena : Arena)
    (pass : NormalPass) :
    Prop where
  canonizes : pass.Canonizes arena
  keepsNames : pass.KeepsNames arena.Resolves

namespace NormalPass.Presents

variable
  {arena : Arena} {pass : NormalPass}
  (presents : pass.Presents arena)
include presents

theorem normalize
    (identifies : arena.Identifies type)
    (settles : Settles (pass.normalize depth type) result) :
    arena.Presents result := by
  obtain ⟨tidy, naming⟩ := Arena.identifies_iff.mp identifies
  exact ⟨presents.canonizes.normalize tidy settles,
    presents.keepsNames.normalize naming settles⟩

theorem normalizeAll
    [pass.Reports]
    {types results : List Ty}
    (identifies : ∀ type ∈ types, arena.Identifies type)
    (settles : Settles (types.mapM (pass.normalize depth)) results) :
    ∀ result ∈ results, arena.Presents result := by
  intro result member
  obtain ⟨type, inTypes, settles⟩ := exists_normalized settles member
  exact presents.normalize (identifies type inTypes) settles

theorem intersection
    {members : List Ty}
    (identifies : ∀ member ∈ members, arena.Identifies member)
    (settles : Settles (pass.intersection depth members) result) :
    arena.Presents result := by
  have parts :=
    fun member inMembers =>
      Arena.identifies_iff.mp (identifies member inMembers)
  exact
    ⟨presents.canonizes.intersection (fun member inMembers =>
        (parts member inMembers).1) settles,
      presents.keepsNames.intersection (fun member inMembers =>
        (parts member inMembers).2) settles⟩

theorem mergeProperty
    {shape merged : Shape Ty}
    (each : shape.Each arena.Presents)
    (presented : arena.Presents property.type)
    (settles : Settles (pass.mergeProperty arena depth shape property) merged) :
    merged.Each arena.Presents := by
  obtain ⟨canonical, naming⟩ := Arena.each_presents_iff.mp each
  exact Arena.each_presents_iff.mpr
    ⟨presents.canonizes.mergeProperty canonical presented.canonical settles,
      presents.keepsNames.mergeProperty naming presented.naming settles⟩

theorem mergeShape
    [pass.Reports]
    {first second merged : Shape Ty}
    (firstEach : first.Each arena.Presents)
    (secondEach : second.Each arena.Presents)
    (settles : Settles (pass.mergeShape arena depth first second) merged) :
    merged.Each arena.Presents := by
  obtain ⟨firstCanonical, firstNaming⟩ := Arena.each_presents_iff.mp firstEach
  obtain ⟨secondCanonical, secondNaming⟩ :=
    Arena.each_presents_iff.mp secondEach
  exact Arena.each_presents_iff.mpr
    ⟨presents.canonizes.mergeShape firstCanonical secondCanonical settles,
      presents.keepsNames.mergeShape firstNaming secondNaming settles⟩

end NormalPass.Presents

/-- Two kinds that go over to what utilities make of types go over together. -/
theorem Ty.Kept.both
    {first second : Ty → Prop}
    (keepsFirst : Ty.Kept first)
    (keepsSecond : Ty.Kept second) :
    Ty.Kept fun type => first type ∧ second type where
  base both present :=
    ⟨keepsFirst.base both.1 present, keepsSecond.base both.2 present⟩
  factor both member inMembers :=
    ⟨keepsFirst.factor both.1 member inMembers,
      keepsSecond.factor both.2 member inMembers⟩
  intersection both each :=
    ⟨keepsFirst.intersection both.1 fun member inOthers =>
        (each member inOthers).1,
      keepsSecond.intersection both.2 fun member inOthers =>
        (each member inOthers).2⟩
  pick both keys := ⟨keepsFirst.pick both.1 keys, keepsSecond.pick both.2 keys⟩
  without both keys :=
    ⟨keepsFirst.without both.1 keys, keepsSecond.without both.2 keys⟩
  change both same :=
    ⟨keepsFirst.change both.1 same, keepsSecond.change both.2 same⟩
  array both := ⟨keepsFirst.array both.1, keepsSecond.array both.2⟩
  tuple both := ⟨keepsFirst.tuple both.1, keepsSecond.tuple both.2⟩
  result both := ⟨keepsFirst.result both.1, keepsSecond.result both.2⟩
  parameters both :=
    ⟨keepsFirst.parameters both.1, keepsSecond.parameters both.2⟩
  nonNullable both :=
    ⟨keepsFirst.nonNullable both.1, keepsSecond.nonNullable both.2⟩

/-- Types that can be told apart go over to such types. -/
theorem Arena.identifies_kept
    {arena : Arena} :
    Ty.Kept arena.Identifies := by
  have same :
      arena.Identifies =
        fun type => type.Tidy ∧ type.Naming arena.Resolves := by
    funext type
    exact propext identifies_iff
  rw [same]
  exact Ty.tidy_kept.both Ty.naming_kept

namespace Checker

variable {checker : Checker}

/-- Over definitions with resolving names, evaluation keeps to such names. -/
theorem keeps_resolving
    (identifiable : checker.arena.Identifiable) :
    checker.KeepsKind (Ty.Naming checker.arena.Resolves)
      (Ty.Naming checker.arena.Resolves) :=
  keeps_naming fun reference defined =>
    (Arena.identifies_iff.mp (identifiable reference defined)).2

/-- Evaluating what can be told apart leads to what can be told apart. -/
theorem evaluateWithin_identifies
    (identifiable : checker.arena.Identifiable)
    (budget : Nat) :
    (checker.evaluateWithin budget).Keeps checker.arena.Identifies := by
  intro application depth type identifies settles
  have base (present : application.base.isAbsent = false) :=
    Arena.identifies_iff.mp (identifies present)
  exact Arena.identifies_iff.mpr
    ⟨(keeps_tidy identifiable.tidy).evaluateWithin budget
        (fun present => (base present).1) settles,
      (keeps_resolving identifiable).evaluateWithin budget
        (fun present => (base present).2) settles⟩

end Checker

end StructuralTyping
