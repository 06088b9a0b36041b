import StructuralTyping.Proofs.Freezing
import StructuralTyping.Proofs.Likeness

namespace StructuralTyping

/-!
# Widening is a closure

Widening a second time changes nothing, and no literal is reached from a
widened type. Whether widening keeps all values hangs on the members it drops
from a union because an identical one is there. Identity looks the properties
of one object up by name in another one of as many properties. Where a name is
repeated it so takes objects of different structure for identical, but its
mistake goes one way only: the values of the second object belong to the first,
which is the one that is kept. An intersection is compared the other way round,
so its objects have to have distinct names.
-/

/--
Membership in which index signatures count as well: each member of a value
that a signature applies to belongs to the type of the signature. Names and
utility applications hold nothing.
-/
inductive Conforms
    (reading : Reading) :
    Ty →
    Value →
    Prop where
  | absent :
      Conforms reading .absent value
  | primitive :
      kind.holds value = true →
      Conforms reading (.primitive kind) value
  | literal :
      expected.equal actual = true →
      Conforms reading (.literal occurrence expected) (.constant actual)
  | object :
      reading.isObject value = true →
      (∀ property ∈ shape.properties,
        value.member? property.name = none →
        property.optional = true) →
      (∀ property ∈ shape.properties,
        ∀ found,
          value.member? property.name = some found →
          ¬ reading.passes property found →
          Conforms reading property.type found) →
      (∀ index,
        shape.index = some index →
        ∀ name found,
          value.member? name = some found →
          indexApplies index.key name = true →
          Conforms reading index.value found) →
      Conforms reading (.object occurrence shape) value
  | array :
      (∀ value ∈ values, Conforms reading element value) →
      Conforms reading (.array occurrence element readonly) (.list values)
  | tuple :
      List.Forall₂ (Conforms reading) types values →
      Conforms reading (.tuple occurrence types readonly) (.list values)
  | function :
      Conforms reading (.function occurrence signature) (.function parameters)
  | union :
      member ∈ members →
      Conforms reading member value →
      Conforms reading (.union occurrence members) value
  | intersection :
      (∀ member ∈ members, Conforms reading member value) →
      Conforms reading (.intersection occurrence members) value

/-- Intersections hold what every member holds. -/
theorem conforms_intersection
    {reading : Reading}
    {members : List Ty}
    {value : Value} :
    Conforms reading (.intersection occurrence members) value ↔
      ∀ member ∈ members, Conforms reading member value := by
  constructor
  · intro conforms
    cases conforms with
    | intersection each =>
        exact each
  · exact .intersection

/-- Every value of one type is a value of another one. -/
def Includes
    (reading : Reading)
    (larger smaller : Ty) :
    Prop :=
  ∀ value, Conforms reading smaller value → Conforms reading larger value

/-- The members of one shape hold what those of another one hold. -/
structure Shape.Includes
    (reading : Reading)
    (larger smaller : Shape Ty) :
    Prop where
  properties :
    ∀ property ∈ larger.properties,
      ∃ other ∈ smaller.properties,
        other.name = property.name ∧ other.optional = property.optional ∧
          StructuralTyping.Includes reading property.type other.type
  index :
    ∀ index,
      larger.index = some index →
      ∃ other,
        smaller.index = some other ∧
          (∀ name,
            indexApplies index.key name = true →
            indexApplies other.key name = true) ∧
          StructuralTyping.Includes reading index.value other.value

namespace Includes

variable {reading : Reading}

/-- Every type includes itself. -/
theorem refl
    (type : Ty) :
    Includes reading type type :=
  fun _ conforms => conforms

/-- Inclusion is transitive. -/
theorem trans
    {largest larger smaller : Ty}
    (first : Includes reading largest larger)
    (second : Includes reading larger smaller) :
    Includes reading largest smaller :=
  fun value conforms => first value (second value conforms)

/-- A literal is included in the primitive of its kind. -/
theorem base
    (occurrence : Occurrence)
    (expected : Literal) :
    Includes reading (.primitive expected.base)
      (.literal occurrence expected) := by
  rintro _ (_ | _ | equal)
  rw [Literal.base_eq_of_equal equal]
  exact .primitive (Literal.base_holds _)

/-- Equal literals hold the same values. -/
theorem literal
    {first second : Literal}
    (same : first.equal second = true) :
    Includes reading (.literal i first) (.literal j second) := by
  rintro _ (_ | _ | equal)
  exact .literal (Literal.equal_trans same equal)

/-- Objects are included by their shapes. -/
theorem object
    {larger smaller : Shape Ty}
    (includes : larger.Includes reading smaller) :
    Includes reading (.object i larger) (.object j smaller) := by
  intro value conforms
  cases conforms with
  | object isObject missing present indexed =>
      refine .object isObject ?_ ?_ ?_
      · intro property member lacks
        obtain ⟨other, inSmaller, name, optional, -⟩ :=
          includes.properties property member
        exact optional ▸ missing other inSmaller (name ▸ lacks)
      · intro property member found has refused
        obtain ⟨other, inSmaller, name, optional, types⟩ :=
          includes.properties property member
        refine types found
          (present other inSmaller found (name ▸ has) fun passes => refused ?_)
        simpa only [Reading.passes, optional] using passes
      · intro index isIndex name found has applies
        obtain ⟨other, isOther, keys, types⟩ := includes.index index isIndex
        exact types found
          (indexed other isOther name found has (keys name applies))

/-- Arrays are included by their elements. -/
theorem array
    {larger smaller : Ty}
    (includes : Includes reading larger smaller) :
    Includes reading (.array i larger readonly)
      (.array j smaller otherReadonly) := by
  rintro _ (_ | _ | _ | _ | each)
  exact .array fun value member => includes value (each value member)

/-- Tuples are included by their elements, position by position. -/
theorem tuple
    {larger smaller : List Ty}
    (includes : List.Forall₂ (Includes reading) larger smaller) :
    Includes reading (.tuple i larger readonly)
      (.tuple j smaller otherReadonly) := by
  intro value conforms
  cases conforms with
  | tuple each =>
      exact .tuple (forall₂_trans_of_mem includes each
        fun _ _ _ _ value _ inclusion conforms => inclusion value conforms)

/-- A union includes another one by the members of that. -/
theorem union
    {larger smaller : List Ty}
    (includes :
      ∀ member ∈ smaller, ∃ other ∈ larger, Includes reading other member) :
    Includes reading (.union i larger) (.union j smaller) := by
  intro value conforms
  cases conforms with
  | union inSmaller holds =>
      obtain ⟨other, inLarger, inclusion⟩ := includes _ inSmaller
      exact .union inLarger (inclusion value holds)

/-- What includes the members of a union includes the union. -/
theorem of_union
    {larger : Ty}
    {members : List Ty}
    (includes : ∀ member ∈ members, Includes reading larger member) :
    Includes reading larger (.union i members) := by
  intro value conforms
  cases conforms with
  | union inMembers holds =>
      exact includes _ inMembers value holds

/-- An intersection includes another one by its own members. -/
theorem intersection
    {larger smaller : List Ty}
    (includes :
      ∀ member ∈ larger, ∃ other ∈ smaller, Includes reading member other) :
    Includes reading (.intersection i larger) (.intersection j smaller) := by
  intro value conforms
  refine .intersection fun member inLarger => ?_
  obtain ⟨other, inSmaller, inclusion⟩ := includes member inLarger
  exact inclusion value (conforms_intersection.mp conforms other inSmaller)

/-- All functions belong to each function type. -/
theorem function
    {first second : Signature Ty} :
    Includes reading (.function i first) (.function j second) := by
  rintro _ (_ | _)
  exact .function

end Includes

namespace Ty

/-- The types that decide which values a type holds. -/
def valueParts :
    Ty →
    List Ty
  | object occurrence shape => (object occurrence shape).parts
  | intersection _ members => members
  | type => type.constituents

/-- No name and no utility application decides which values a type holds. -/
def ReferenceFree :
    Ty →
    Prop :=
  AllReached valueParts fun node => node.isReference = false

/-- Whether the properties of an object have distinct names. -/
def hasDistinctNames :
    Ty →
    Prop
  | object _ shape => shape.names.Nodup
  | _ => True

/-- No object of a type repeats the name of a property. -/
def DistinctNames :
    Ty →
    Prop :=
  AllReached valueParts hasDistinctNames

/-- Whether the members of an intersection have objects of distinct names. -/
def meetsDistinctNames :
    Ty →
    Prop
  | intersection _ members => ∀ member ∈ members, member.DistinctNames
  | _ => True

/-- No object inside an intersection repeats the name of a property. -/
def DistinctMeets :
    Ty →
    Prop :=
  AllReached valueParts meetsDistinctNames

/-- A type without repeated names has none in its intersections. -/
theorem DistinctNames.meets
    {type : Ty}
    (distinct : type.DistinctNames) :
    type.DistinctMeets := by
  intro node reaches
  induction reaches with
  | here =>
      rename_i type
      cases type with
      | intersection occurrence members =>
          exact fun member inMembers => distinct.inside inMembers
      | _ =>
          exact trivial
  | inside member _ inductionHypothesis =>
      exact inductionHypothesis (distinct.inside member)

end Ty

section Identity

variable {reading : Reading} {arena : Arena} {related : Ty → Ty → Prop}

/--
What identity says of the values of two types: those of the second belong to
the first, and the converse where no object repeats a name.
-/
structure Subsumes
    (reading : Reading)
    (first second : Ty) :
    Prop where
  forward :
    first.DistinctMeets →
    second.DistinctMeets →
    Includes reading first second
  backward :
    first.DistinctNames →
    second.DistinctNames →
    Includes reading second first
  key : first.isPrimitive .number = second.isPrimitive .number

/-- Types that include each other subsume each other. -/
theorem Subsumes.of_includes
    {first second : Ty}
    (forward : Includes reading first second)
    (backward : Includes reading second first)
    (key : first.isPrimitive .number = second.isPrimitive .number) :
    Subsumes reading first second :=
  ⟨fun _ _ => forward, fun _ _ => backward, key⟩

/-- Keys of one kind apply to the same names. -/
theorem indexApplies_congr
    {first second : Ty}
    (key : first.isPrimitive .number = second.isPrimitive .number)
    (name : String) :
    indexApplies first name = indexApplies second name := by
  unfold indexApplies
  rw [key]

/-- The types of its shape decide on the values of an object. -/
theorem forall_valueParts_object
    {kind : Ty → Prop}
    {shape : Shape Ty} :
    (∀ part ∈ (Ty.object occurrence shape).valueParts, kind part) ↔
      shape.All kind := by
  rw [Ty.valueParts, Ty.forall_parts_object]

/-- Shapes whose parts are alike subsume each other. -/
theorem subsumes_object
    {first second : Shape Ty}
    (sameLength : first.properties.length = second.properties.length)
    (properties :
      ∀ property ∈ first.properties,
        ∃ other,
          second.property? property.name = some other ∧
            property.optional = other.optional ∧
            property.readonly = other.readonly ∧
            Subsumes reading property.type other.type)
    (index :
      Option.Rel
        (fun index other =>
          Subsumes reading index.key other.key ∧
            Subsumes reading index.value other.value)
        first.index second.index) :
    Subsumes reading (.object i first) (.object j second) := by
  refine ⟨fun firstDistinct secondDistinct => ?_,
    fun firstDistinct secondDistinct => ?_, rfl⟩
  · have firstParts := forall_valueParts_object.mp fun _ => firstDistinct.inside
    have secondParts :=
      forall_valueParts_object.mp fun _ => secondDistinct.inside
    refine .object ⟨fun property member => ?_, fun signature isFirst => ?_⟩
    · obtain ⟨other, found, optional, -, subsumes⟩ := properties property member
      obtain ⟨inSecond, name⟩ := Shape.mem_of_property? found
      exact ⟨other, inSecond, name, optional.symm,
        subsumes.forward (firstParts.properties property member)
          (secondParts.properties other inSecond)⟩
    · rw [isFirst] at index
      cases isSecond : second.index with
      | none => simp [isSecond] at index
      | some other =>
          simp only [isSecond, Option.rel_some_some] at index
          exact ⟨other, rfl,
            fun name => (indexApplies_congr index.1.key name ▸ ·),
            index.2.forward (firstParts.values signature isFirst)
              (secondParts.values other isSecond)⟩
  · have firstParts := forall_valueParts_object.mp fun _ => firstDistinct.inside
    have secondParts :=
      forall_valueParts_object.mp fun _ => secondDistinct.inside
    have matched :
        ∀ property ∈ first.properties,
          equalProperty (fun _ _ => true) second property = true := by
      intro property member
      obtain ⟨other, found, optional, readonly, -⟩ := properties property member
      exact equalProperty_iff.mpr ⟨other, found, optional, readonly, rfl⟩
    refine .object ⟨fun property member => ?_, fun signature isSecond => ?_⟩
    · obtain ⟨other, inFirst, found⟩ :=
        exists_counterpart (firstDistinct _ .here) (secondDistinct _ .here)
          sameLength matched member
      obtain ⟨same, foundSame, optional, -, subsumes⟩ :=
        properties other inFirst
      cases foundSame.symm.trans found
      exact ⟨other, inFirst, (Shape.mem_of_property? found).2.symm, optional,
        subsumes.backward (firstParts.properties other inFirst)
          (secondParts.properties property member)⟩
    · rw [isSecond] at index
      cases isFirst : first.index with
      | none => simp [isFirst] at index
      | some other =>
          simp only [isFirst, Option.rel_some_some] at index
          exact ⟨other, rfl,
            fun name => (indexApplies_congr index.1.key name ▸ ·),
            index.2.backward (firstParts.values other isFirst)
              (secondParts.values signature isSecond)⟩

/-- Nodes of one form subsume each other when their parts do. -/
theorem subsumes_of_alike
    {first second : Ty}
    (firstFree : first.ReferenceFree)
    (secondFree : second.ReferenceFree)
    (parts :
      ∀ x y,
        x.ReferenceFree →
        y.ReferenceFree →
        related x y →
        Subsumes reading x y)
    (alike : NodesAlike related first second) :
    Subsumes reading first second := by
  cases alike with
  | absent | primitive =>
      exact .of_includes (.refl _) (.refl _) rfl
  | literal same =>
      exact .of_includes (.literal same)
        (.literal (Literal.equal_comm .. ▸ same)) rfl
  | object sameLength properties index =>
      have firstParts := forall_valueParts_object.mp fun _ => firstFree.inside
      have secondParts := forall_valueParts_object.mp fun _ => secondFree.inside
      refine subsumes_object sameLength (fun property member => ?_) ?_
      · obtain ⟨other, found, optional, readonly, types⟩ :=
          properties property member
        exact ⟨other, found, optional, readonly,
          parts _ _ (firstParts.properties property member)
            (secondParts.properties other (Shape.mem_of_property? found).1)
            types⟩
      · exact optionRel_imp index fun signature isFirst other isSecond same =>
          ⟨parts _ _ (firstParts.keys _ isFirst) (secondParts.keys _ isSecond)
              same.1,
            parts _ _ (firstParts.values _ isFirst)
              (secondParts.values _ isSecond) same.2⟩
  | array elements =>
      have subsumes :=
        parts _ _ (firstFree.inside (List.mem_singleton_self _))
          (secondFree.inside (List.mem_singleton_self _)) elements
      exact ⟨
        fun firstDistinct secondDistinct =>
          .array (subsumes.forward
            (firstDistinct.inside (List.mem_singleton_self _))
            (secondDistinct.inside (List.mem_singleton_self _))),
        fun firstDistinct secondDistinct =>
          .array (subsumes.backward
            (firstDistinct.inside (List.mem_singleton_self _))
            (secondDistinct.inside (List.mem_singleton_self _))),
        rfl⟩
  | tuple elements =>
      exact ⟨
        fun firstDistinct secondDistinct =>
          .tuple (forall₂_imp_of_mem elements
            fun x inFirst y inSecond same =>
              (parts x y (firstFree.inside inFirst) (secondFree.inside inSecond)
                same).forward (firstDistinct.inside inFirst)
                  (secondDistinct.inside inSecond)),
        fun firstDistinct secondDistinct =>
          .tuple (forall₂_imp_of_mem elements.flip
            fun y inSecond x inFirst same =>
              (parts x y (firstFree.inside inFirst) (secondFree.inside inSecond)
                same).backward (firstDistinct.inside inFirst)
                  (secondDistinct.inside inSecond)),
        rfl⟩
  | function =>
      exact .of_includes .function .function rfl
  | union same =>
      refine ⟨fun firstDistinct secondDistinct => ?_,
        fun firstDistinct secondDistinct => ?_, rfl⟩
      · refine .union fun y inSecond => ?_
        obtain ⟨x, inFirst, equal⟩ := same.every y inSecond
        exact ⟨x, inFirst,
          (parts x y (firstFree.inside inFirst) (secondFree.inside inSecond)
            equal).forward (firstDistinct.inside inFirst)
              (secondDistinct.inside inSecond)⟩
      · refine .union fun x inFirst => ?_
        obtain ⟨y, inSecond, equal⟩ := same.each x inFirst
        exact ⟨y, inSecond,
          (parts y x (secondFree.inside inSecond) (firstFree.inside inFirst)
            equal).forward
              (Ty.DistinctNames.meets (secondDistinct.inside inSecond))
              (Ty.DistinctNames.meets (firstDistinct.inside inFirst))⟩
  | intersection same =>
      refine ⟨fun firstDistinct secondDistinct => ?_,
        fun firstDistinct secondDistinct => ?_, rfl⟩
      · refine .intersection fun x inFirst => ?_
        obtain ⟨y, inSecond, equal⟩ := same.each x inFirst
        exact ⟨y, inSecond,
          (parts y x (secondFree.inside inSecond) (firstFree.inside inFirst)
            equal).backward (secondDistinct _ .here y inSecond)
              (firstDistinct _ .here x inFirst)⟩
      · refine .intersection fun y inSecond => ?_
        obtain ⟨x, inFirst, equal⟩ := same.every y inSecond
        exact ⟨x, inFirst,
          (parts x y (firstFree.inside inFirst) (secondFree.inside inSecond)
            equal).backward (firstDistinct.inside inFirst)
              (secondDistinct.inside inSecond)⟩
  | generic =>
      exact absurd (firstFree _ .here) (by simp [Ty.isReference])

/-- Identical types without names are one type or of equal nodes. -/
theorem identicalWithin_cases
    {first second : Ty}
    (firstFree : first.ReferenceFree)
    (secondFree : second.ReferenceFree)
    (identical : arena.identicalWithin depth [] first second = true) :
    first = second ∨
      ∃ nearer,
        depth = nearer + 1 ∧
        NodesAlike
          (fun x y => arena.identicalWithin nearer [] x y = true)
          first second := by
  have notNamed {type : Ty} (free : type.ReferenceFree) :
      type.isNamed = false := by
    cases type <;> first | rfl | exact absurd (free _ .here) Bool.noConfusion
  rcases Arena.identicalWithin_unnamed (notNamed firstFree)
      (notNamed secondFree) identical with same | ⟨nearer, isDepth, equals⟩
  · exact .inl same
  · exact .inr ⟨nearer, isDepth, alike_of_equalNodes equals⟩

/-- Identical types subsume each other. -/
theorem subsumes_of_identical
    (depth : Nat)
    {first second : Ty}
    (firstFree : first.ReferenceFree)
    (secondFree : second.ReferenceFree)
    (identical : arena.identicalWithin depth [] first second = true) :
    Subsumes reading first second := by
  induction depth generalizing first second with
  | zero =>
      rcases identicalWithin_cases firstFree secondFree identical with
        rfl | ⟨_, impossible, _⟩
      · exact .of_includes (.refl _) (.refl _) rfl
      · cases impossible
  | succ depth inductionHypothesis =>
      rcases identicalWithin_cases firstFree secondFree identical with
        rfl | ⟨_, isDepth, alike⟩
      · exact .of_includes (.refl _) (.refl _) rfl
      · cases isDepth
        exact subsumes_of_alike firstFree secondFree
          (fun x y xFree yFree => inductionHypothesis xFree yFree) alike

end Identity

section Widening

variable {reading : Reading} {arena : Arena}

/-- Dropping repetitions a second time changes nothing. -/
theorem foldl_appendUnique_self
    (arena : Arena)
    (types : List Ty) :
    (types.foldl arena.appendUnique []).foldl arena.appendUnique [] =
      types.foldl arena.appendUnique [] := by
  have distinct :
      (types.foldl arena.appendUnique []).Pairwise fun first second =>
        arena.identical first second = false :=
    pairwise_foldl_appendUnique .nil
  simpa using @foldl_appendUnique_of_pairwise arena _ [] distinct

/-- Every type of a list without repetitions is reached from its union. -/
theorem allReached_unionOfDistinct
    {parts : Ty → List Ty}
    {kind : Ty → Prop}
    {types : List Ty}
    (unions : ∀ members, parts (.ofUnion members) = members)
    (union : ∀ members, kind (.ofUnion members))
    (each : ∀ type ∈ types, Ty.AllReached parts kind type) :
    Ty.AllReached parts kind (arena.unionOfDistinct types) := by
  have kept :
      ∀ type ∈ types.foldl arena.appendUnique [],
        Ty.AllReached parts kind type :=
    fun type member =>
      each type ((mem_of_mem_unique member).resolve_left (by simp))
  unfold Arena.unionOfDistinct
  split
  · next single same =>
    exact kept single (same ▸ List.mem_singleton_self single)
  · refine Ty.allReached_iff.mpr ⟨union _, ?_⟩
    rw [unions]
    exact kept

/-- A union of distinct types is rebuilt when all of them stay as they are. -/
theorem unionOfDistinct_map
    (arena : Arena)
    {change : Ty → Ty}
    {types : List Ty}
    (stays : ∀ type ∈ types, change type = type) :
    match types.foldl arena.appendUnique [] with
    | [type] => change type = type
    | kept => arena.unionOfDistinct (kept.map change) = .ofUnion kept := by
  have keptStays :
      ∀ type ∈ types.foldl arena.appendUnique [], change type = type :=
    fun type member =>
      stays type ((mem_of_mem_unique member).resolve_left (by simp))
  have distinct := foldl_appendUnique_self arena types
  generalize types.foldl arena.appendUnique [] = kept at keptStays distinct
  split
  · exact keptStays _ (List.mem_singleton_self _)
  · next notSingle =>
    rw [List.map_congr_left keptStays, List.map_id', Arena.unionOfDistinct,
      distinct]
    split
    · exact absurd rfl (notSingle _)
    · rfl

namespace Ty

/-- Widening a second time changes nothing. -/
theorem widen_widen
    (arena : Arena)
    (type : Ty) :
    (type.widen arena).widen arena = type.widen arena := by
  induction type using structuralInduction with
  | union occurrence members inductionHypothesis =>
      have rebuilt :=
        unionOfDistinct_map arena
          (List.forall_mem_map.mpr inductionHypothesis)
      rw [widen, widenAll_eq_map, Arena.unionOfDistinct]
      split
      · next single =>
        simpa only [single] using rebuilt
      · next notSingle =>
        rw [ofUnion, widen, widenAll_eq_map]
        split at rebuilt
        · next single => exact absurd single (notSingle _)
        · exact rebuilt
  | object occurrence shape inductionHypothesis =>
      simpa [widen, ofShape] using inductionHypothesis
  | array occurrence element readonly inductionHypothesis =>
      simp [widen, inductionHypothesis]
  | tuple occurrence elements readonly inductionHypothesis =>
      simpa [widen] using inductionHypothesis
  | _ =>
      rfl

/-- No literal is reached from a widened type. -/
theorem not_isLiteral_of_reaches_widen
    (arena : Arena)
    (type : Ty) :
    AllReached constituents (fun node => node.isLiteral = false)
      (type.widen arena) := by
  induction type using structuralInduction with
  | union occurrence members inductionHypothesis =>
      rw [widen, widenAll_eq_map]
      exact allReached_unionOfDistinct (fun _ => rfl) (fun _ => rfl)
        (List.forall_mem_map.mpr inductionHypothesis)
  | object occurrence shape inductionHypothesis =>
      refine allReached_iff.mpr ⟨rfl, ?_⟩
      simpa [widen, ofShape, constituents, components] using inductionHypothesis
  | array occurrence element readonly inductionHypothesis =>
      refine allReached_iff.mpr ⟨rfl, ?_⟩
      simpa [widen, constituents, components] using inductionHypothesis
  | tuple occurrence elements readonly inductionHypothesis =>
      refine allReached_iff.mpr ⟨rfl, ?_⟩
      simpa [widen, constituents, components] using inductionHypothesis
  | _ =>
      exact .leaf rfl rfl

/-- A kind that the nodes built by widening are of. -/
structure BuiltByWidening
    (kind : Ty → Prop) :
    Prop where
  primitive : ∀ primitive, kind (.primitive primitive)
  object : ∀ shape, kind (.ofShape shape)
  array : ∀ element readonly, kind (.array none element readonly)
  tuple : ∀ elements readonly, kind (.tuple none elements readonly)
  union : ∀ members, kind (.ofUnion members)

/-- Widening keeps the kind of what decides on the values of a type. -/
theorem AllReached.widen
    {kind : Ty → Prop}
    (built : BuiltByWidening kind)
    {type : Ty}
    (all : AllReached valueParts kind type) :
    AllReached valueParts kind (type.widen arena) := by
  induction type using structuralInduction with
  | literal occurrence value =>
      exact .leaf (built.primitive _) rfl
  | union occurrence members inductionHypothesis =>
      rw [Ty.widen, widenAll_eq_map]
      exact allReached_unionOfDistinct (fun _ => rfl) built.union
        (List.forall_mem_map.mpr fun member inMembers =>
          inductionHypothesis member inMembers (all.inside inMembers))
  | object occurrence shape inductionHypothesis =>
      have parts := forall_valueParts_object.mp fun _ => all.inside
      rw [Ty.widen, widenProperties_eq_map]
      refine allReached_iff.mpr ⟨built.object _, ?_⟩
      refine forall_valueParts_object.mpr ⟨?_, parts.keys, parts.values⟩
      exact List.forall_mem_map.mpr fun property member =>
        inductionHypothesis property member (parts.properties property member)
  | array occurrence element readonly inductionHypothesis =>
      refine allReached_iff.mpr ⟨built.array _ _, ?_⟩
      exact List.forall_mem_singleton.mpr
        (inductionHypothesis (all.inside (List.mem_singleton_self _)))
  | tuple occurrence elements readonly inductionHypothesis =>
      rw [Ty.widen, widenAll_eq_map]
      refine allReached_iff.mpr ⟨built.tuple _ _, ?_⟩
      exact List.forall_mem_map.mpr fun element member =>
        inductionHypothesis element member (all.inside member)
  | _ =>
      exact all

/-- Widening builds neither names nor utility applications. -/
theorem built_referenceFree :
    BuiltByWidening fun node => node.isReference = false :=
  ⟨fun _ => rfl, fun _ => rfl, fun _ _ => rfl, fun _ _ => rfl, fun _ => rfl⟩

/-- Widening builds no intersections. -/
theorem built_distinctMeets :
    BuiltByWidening meetsDistinctNames :=
  ⟨fun _ => trivial, fun _ => trivial, fun _ _ => trivial, fun _ _ => trivial,
    fun _ => trivial⟩

/-- The union of the distinct ones of some types includes each of them. -/
theorem includes_unionOfDistinct
    {types : List Ty}
    (free : ∀ type ∈ types, type.ReferenceFree)
    (distinct : ∀ type ∈ types, type.DistinctMeets)
    {type : Ty}
    (member : type ∈ types) :
    Includes reading (arena.unionOfDistinct types) type := by
  obtain ⟨other, inKept, same⟩ :
      ∃ other ∈ types.foldl arena.appendUnique [],
        other = type ∨ arena.identical other type = true :=
    exists_mem_unique member
  have inTypes : other ∈ types :=
    (mem_of_mem_unique inKept).resolve_left (by simp)
  have included : Includes reading other type := by
    rcases same with rfl | identical
    · exact .refl other
    · exact (subsumes_of_identical _ (free other inTypes) (free type member)
        identical).forward (distinct other inTypes) (distinct type member)
  unfold Arena.unionOfDistinct
  split
  · next single isSingle =>
    cases List.mem_singleton.mp (isSingle ▸ inKept)
    exact included
  · exact fun value conforms => .union inKept (included value conforms)

/-- Every value of a type is a value of the widened type. -/
theorem includes_widen
    {type : Ty}
    (free : type.ReferenceFree)
    (distinct : type.DistinctMeets) :
    Includes reading (type.widen arena) type := by
  induction type using structuralInduction with
  | literal occurrence value =>
      exact .base occurrence value
  | union occurrence members inductionHypothesis =>
      rw [widen, widenAll_eq_map]
      refine .of_union fun member inMembers => ?_
      have inside := List.mem_map_of_mem (f := widen arena) inMembers
      refine (includes_unionOfDistinct ?_ ?_ inside).trans
        (inductionHypothesis member inMembers (free.inside inMembers)
          (distinct.inside inMembers))
      · exact List.forall_mem_map.mpr fun other inMembers =>
          AllReached.widen built_referenceFree (free.inside inMembers)
      · exact List.forall_mem_map.mpr fun other inMembers =>
          AllReached.widen built_distinctMeets (distinct.inside inMembers)
  | object occurrence shape inductionHypothesis =>
      rw [widen, widenProperties_eq_map]
      have freeParts := forall_valueParts_object.mp fun _ => free.inside
      have distinctParts := forall_valueParts_object.mp fun _ => distinct.inside
      refine .object ⟨List.forall_mem_map.mpr fun property member => ?_,
        fun index isIndex => ⟨index, isIndex, fun _ => id, .refl _⟩⟩
      exact ⟨property, member, rfl, rfl,
        inductionHypothesis property member
          (freeParts.properties property member)
          (distinctParts.properties property member)⟩
  | array occurrence element readonly inductionHypothesis =>
      exact .array (inductionHypothesis
        (free.inside (List.mem_singleton_self _))
        (distinct.inside (List.mem_singleton_self _)))
  | tuple occurrence elements readonly inductionHypothesis =>
      rw [widen, widenAll_eq_map]
      refine .tuple (List.forall₂_map_left_iff.mpr ?_)
      exact List.forall₂_same.mpr fun element member =>
        inductionHypothesis element member (free.inside member)
          (distinct.inside member)
  | _ =>
      exact .refl _

/--
Widening is a closure: a second time it changes nothing, it leaves no literal
to reach, and it keeps all values of a type in which no object inside an
intersection repeats the name of a property.
-/
theorem widen_closure
    (arena : Arena)
    (type : Ty) :
    (type.widen arena).widen arena = type.widen arena ∧
    AllReached constituents (fun node => node.isLiteral = false)
      (type.widen arena) ∧
    (type.ReferenceFree →
      type.DistinctMeets →
      ∀ reading value,
        Conforms reading type value →
        Conforms reading (type.widen arena) value) :=
  ⟨widen_widen arena type, not_isLiteral_of_reaches_widen arena type,
    fun free distinct _ => includes_widen free distinct⟩

/-- The object type with a text under each of the given names. -/
def record
    (names : List String) :
    Ty :=
  .ofShape
    { properties := names.map fun name => { name, type := .string } }

/-- The intersection of records. -/
def meet
    (records : List (List String)) :
    Ty :=
  .ofIntersection (records.map record)

/-- Texts decide on the values of a record. -/
theorem allReached_record
    {kind : Ty → Prop}
    (here : kind (record names))
    (text : kind .string) :
    AllReached valueParts kind (record names) := by
  have parts : (record names).valueParts = names.map fun _ => .string := by
    simp [record, ofShape, valueParts, Ty.parts, Function.comp_def]
  refine allReached_iff.mpr ⟨here, ?_⟩
  rw [parts]
  exact List.forall_mem_map.mpr fun _ _ => .leaf text rfl

/-- Records decide on the values of their intersection. -/
theorem allReached_meet
    {kind : Ty → Prop}
    (here : kind (meet records))
    (each : ∀ names ∈ records, kind (record names))
    (text : kind .string) :
    AllReached valueParts kind (meet records) := by
  refine allReached_iff.mpr ⟨here, ?_⟩
  exact List.forall_mem_map.mpr fun names member =>
    allReached_record (each names member) text

/-- The properties of a record have the names it is made of. -/
theorem hasDistinctNames_record :
    (record names).hasDistinctNames ↔ names.Nodup := by
  simp [record, ofShape, hasDistinctNames, Shape.names, Function.comp_def]

/-- A record holds the plain objects with a text under each of its names. -/
theorem conforms_record
    {entries : List (String × Value)} :
    Conforms ⟨true, false⟩ (record names) (.object entries) ↔
      ∀ name ∈ names,
        ∃ text, (Value.object entries).member? name =
          some (.constant (.string text)) := by
  constructor
  · intro conforms name member
    cases conforms with
    | object _ missing present =>
        have inRecord := List.mem_map_of_mem
          (f := fun name => ({ name, type := .string } : Property Ty)) member
        cases has : (Value.object entries).member? name with
        | none =>
            cases missing _ inRecord has
        | some found =>
            cases present _ inRecord found has (by simp [Reading.passes]) with
            | primitive holds =>
                cases found with
                | constant value =>
                    cases value <;> first | exact ⟨_, rfl⟩ | cases holds
                | _ => cases holds
  · intro texts
    refine .object rfl ?_ ?_ fun _ impossible => by cases impossible
    · refine List.forall_mem_map.mpr fun name member lacks => ?_
      obtain ⟨text, has⟩ := texts name member
      cases has.symm.trans lacks
    · refine List.forall_mem_map.mpr fun name member found exposed _ => ?_
      obtain ⟨text, has⟩ := texts name member
      cases has.symm.trans exposed
      exact .primitive rfl

/-- An intersection beside literals keeps its values. -/
theorem widen_closure_meets :
    let names := meet [["name"], ["size"]]
    let type : Ty :=
      .ofUnion [.ofLiteral (.boolean true), .ofLiteral (.boolean false), names]
    type.ReferenceFree ∧ type.DistinctMeets ∧
      type.widen {} = .ofUnion [.boolean, names] ∧
      ∀ value,
        Conforms ⟨true, false⟩ type value →
        Conforms ⟨true, false⟩ (type.widen {}) value := by
  intro names type
  have free : type.ReferenceFree := by
    refine allReached_iff.mpr ⟨rfl, ?_⟩
    refine List.forall_mem_cons.mpr ⟨.leaf rfl rfl, ?_⟩
    refine List.forall_mem_cons.mpr ⟨.leaf rfl rfl, ?_⟩
    exact List.forall_mem_singleton.mpr
      (allReached_meet rfl (fun _ _ => rfl) rfl)
  have distinct : type.DistinctMeets := by
    refine DistinctNames.meets (allReached_iff.mpr ⟨trivial, ?_⟩)
    refine List.forall_mem_cons.mpr ⟨.leaf trivial rfl, ?_⟩
    refine List.forall_mem_cons.mpr ⟨.leaf trivial rfl, ?_⟩
    refine List.forall_mem_singleton.mpr
      (allReached_meet trivial (fun names member => ?_) trivial)
    exact hasDistinctNames_record.mpr (by revert names; decide)
  exact ⟨free, distinct, by decide +kernel,
    (widen_closure {} type).2.2 free distinct ⟨true, false⟩⟩

/-- An intersection is dropped for one with fewer values. -/
theorem widen_drops_values :
    ¬ ∀ (arena : Arena) (type : Ty) (reading : Reading) (value : Value),
      type.ReferenceFree →
      Conforms reading type value →
      Conforms reading (type.widen arena) value := by
  intro keeps
  let type : Ty :=
    .ofUnion [meet [["a", "b"], ["a", "a"]], meet [["a", "a"], ["a", "a"]]]
  let value : Value := .object [("a", .ofString "text")]
  have free : type.ReferenceFree := by
    refine allReached_iff.mpr ⟨rfl, List.forall_mem_cons.mpr
      ⟨?_, List.forall_mem_singleton.mpr ?_⟩⟩
    · exact allReached_meet rfl (fun _ _ => rfl) rfl
    · exact allReached_meet rfl (fun _ _ => rfl) rfl
  have held : Conforms ⟨true, false⟩ type value := by
    have each : Conforms ⟨true, false⟩ (record ["a", "a"]) value :=
      conforms_record.mpr
        (by simp [Value.ofString, Value.member?, Value.members])
    exact .union (List.mem_cons_of_mem _ (List.mem_singleton_self _))
      (conforms_intersection.mpr (by simpa using each))
  have widened : type.widen {} = meet [["a", "b"], ["a", "a"]] := by
    decide +kernel
  have lost := widened ▸ keeps {} type ⟨true, false⟩ value free held
  obtain ⟨text, has⟩ :=
    conforms_record.mp
      (conforms_intersection.mp lost _ (List.mem_cons_self ..)) "b" (by simp)
  cases has

end Ty

end Widening

end StructuralTyping
