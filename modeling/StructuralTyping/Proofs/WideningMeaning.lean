import StructuralTyping.Proofs.NarrowingPredicates
import StructuralTyping.Widening

namespace StructuralTyping

/-!
# Inference keeps values

The declared type that is inferred for a binding holds every value of the type
it is inferred from, under each policy: widening only adds values, and freezing
changes no membership at all.
-/

namespace Ty

/-- Widening a list widens its types. -/
@[simp] theorem widenAll_eq_map
    (arena : Arena)
    (types : List Ty) :
    widenAll arena types = types.map (widen arena) := by
  induction types with
  | nil =>
      rfl
  | cons type rest inductionHypothesis =>
      simp [widenAll, inductionHypothesis]

/-- Widening properties widens their types. -/
@[simp] theorem widenProperties_eq_map
    (arena : Arena)
    (properties : List (Property Ty)) :
    widenProperties arena properties =
      properties.map fun property =>
        { property with type := widen arena property.type } := by
  induction properties with
  | nil =>
      rfl
  | cons property rest inductionHypothesis =>
      simp [widenProperties, inductionHypothesis]

/-- Freezing a list freezes its types. -/
@[simp] theorem freezeAll_eq_map
    (types : List Ty) :
    freezeAll types = types.map freeze := by
  induction types with
  | nil =>
      rfl
  | cons type rest inductionHypothesis =>
      simp [freezeAll, inductionHypothesis]

/-- Freezing properties freezes their types. -/
@[simp] theorem freezeProperties_eq_map
    (properties : List (Property Ty)) :
    freezeProperties properties =
      properties.map fun property =>
        { property with type := freeze property.type, readonly := true } := by
  induction properties with
  | nil =>
      rfl
  | cons property rest inductionHypothesis =>
      simp [freezeProperties, inductionHypothesis]

end Ty

section Shapes

variable {reading : Reading} {arena : Arena} {fragment : Fragment}

/-- A change of properties that keeps their names and whether they may lack. -/
structure KeepsProperties
    (change : Property Ty → Property Ty) :
    Prop where
  name : ∀ property, (change property).name = property.name
  optional : ∀ property, (change property).optional = property.optional

/-- Properties whose types gain values stay within an object type. -/
theorem holds_mapProperties
    {change : Property Ty → Property Ty}
    (keeps : KeepsProperties change)
    {shape : Shape Ty}
    {value : Value}
    (isObject : reading.isObject value = true)
    (missing :
      ∀ property ∈ shape.properties,
        value.member? property.name = none → property.optional = true)
    (present :
      ∀ property ∈ shape.properties,
        ∀ found,
          value.member? property.name = some found →
          ¬ reading.passes property found →
          Holds reading arena (change property).type found) :
    Holds reading arena
      (.ofShape { shape with properties := shape.properties.map change })
      value := by
  refine .object isObject ?_ ?_
  · intro property member lacks
    obtain ⟨old, inShape, rfl⟩ := List.mem_map.mp member
    rw [keeps.name] at lacks
    rw [keeps.optional]
    exact missing old inShape lacks
  · intro property member found exposed refused
    obtain ⟨old, inShape, rfl⟩ := List.mem_map.mp member
    rw [keeps.name] at exposed
    refine present old inShape found exposed fun passes => refused ?_
    simpa [Reading.passes, keeps.optional] using passes

/-- Properties whose types stay within a fragment keep an object type there. -/
theorem admits_mapProperties
    {change : Property Ty → Property Ty}
    (keeps : KeepsProperties change)
    {shape : Shape Ty}
    (admitted : fragment.admits (.object occurrence shape) = true)
    (each :
      ∀ property ∈ shape.properties,
        fragment.admits property.type = true →
        fragment.admits (change property).type = true) :
    fragment.admits
      (.ofShape { shape with properties := shape.properties.map change }) =
        true := by
  obtain ⟨noIndex, distinct, old⟩ := Fragment.admits_object.mp admitted
  refine Fragment.admits_object.mpr ⟨noIndex, ?_, ?_⟩
  · have sameNames :
        (shape.properties.map change).map Property.name =
          shape.properties.map Property.name := by
      simp [Function.comp_def, keeps.name]
    unfold Shape.names at distinct ⊢
    rw [sameNames]
    exact distinct
  · intro property member
    obtain ⟨source, inShape, rfl⟩ := List.mem_map.mp member
    obtain ⟨sourceAdmitted, mayLack⟩ := old source inShape
    rw [keeps.optional]
    exact ⟨each source inShape sourceAdmitted, mayLack⟩

/-- Elements whose types gain values stay within a tuple type. -/
theorem holds_mapElements
    {change : Ty → Ty}
    {types : List Ty}
    {values : List Value}
    (sameLength : types.length = values.length)
    (each :
      ∀ (position : Nat) type value,
        types[position]? = some type →
        values[position]? = some value →
        Holds reading arena (change type) value) :
    Holds reading arena (.tuple occurrence (types.map change) readonly)
      (.list values) := by
  refine .tuple (by simpa using sameLength) ?_
  intro position type value declared valued
  rw [List.getElem?_map, Option.map_eq_some_iff] at declared
  obtain ⟨source, inTypes, rfl⟩ := declared
  exact each position source value inTypes valued

/-- Elements whose types stay within a fragment keep a tuple type there. -/
theorem admits_mapElements
    {change : Ty → Ty}
    {types : List Ty}
    (admitted : fragment.admits (.tuple occurrence types readonly) = true)
    (each :
      ∀ type ∈ types,
        fragment.admits type = true →
        fragment.admits (change type) = true) :
    fragment.admits (.tuple newOccurrence (types.map change) newReadonly) =
      true := by
  refine Fragment.admits_tuple.mpr fun type member => ?_
  obtain ⟨source, inTypes, rfl⟩ := List.mem_map.mp member
  exact each source inTypes (Fragment.admits_tuple.mp admitted source inTypes)

end Shapes

/-- Widening the type of a property keeps the property. -/
theorem keepsProperties_widen
    (arena : Arena) :
    KeepsProperties fun property =>
      { property with type := property.type.widen arena } :=
  ⟨fun _ => rfl, fun _ => rfl⟩

/-- Freezing a property keeps the property. -/
theorem keepsProperties_freeze :
    KeepsProperties fun property =>
      { property with type := property.type.freeze, readonly := true } :=
  ⟨fun _ => rfl, fun _ => rfl⟩

/-- The distinct ones of some types hold the same values and stay within. -/
theorem unionOfDistinct_spec
    {arena : Arena}
    {types : List Ty}
    (admitted : ∀ type ∈ types, Fragment.narrowing.admits type = true) :
    Fragment.narrowing.admits (arena.unionOfDistinct types) = true ∧
      ∀ type ∈ types, ∀ value,
        Belongs arena type value →
        Belongs arena (arena.unionOfDistinct types) value := by
  have kept :
      ∀ type ∈ types.foldl arena.appendUnique [],
        Fragment.narrowing.admits type = true :=
    fun type member =>
      admitted type ((mem_of_mem_unique member).resolve_left (by simp))
  have found :
      ∀ type ∈ types, ∀ value,
        Belongs arena type value →
        ∃ type ∈ types.foldl arena.appendUnique [],
          Belongs arena type value :=
    fun type member value belongs =>
      (exists_unique_iff (Fragment.narrowing_sound arena).covers admitted
        value).mpr ⟨type, member, belongs⟩
  unfold Arena.unionOfDistinct
  split
  · next single same =>
    rw [same] at kept found
    refine ⟨kept single (by simp), fun type member value belongs => ?_⟩
    obtain ⟨other, isSingle, belongs⟩ := found type member value belongs
    cases List.mem_singleton.mp isSingle
    exact belongs
  · refine ⟨Fragment.admits_union.mpr kept,
      fun type member value belongs => ?_⟩
    obtain ⟨other, inUnique, belongs⟩ := found type member value belongs
    exact .union inUnique belongs

/-- Widening stays within the narrowing fragment. -/
theorem admits_widen
    (arena : Arena)
    {type : Ty}
    (admitted : Fragment.narrowing.admits type = true) :
    Fragment.narrowing.admits (type.widen arena) = true := by
  induction type using Ty.structuralInduction with
  | literal occurrence value =>
      cases value <;> rfl
  | union occurrence members inductionHypothesis =>
      rw [Ty.widen, Ty.widenAll_eq_map]
      refine (unionOfDistinct_spec fun type member => ?_).1
      obtain ⟨source, inMembers, rfl⟩ := List.mem_map.mp member
      exact inductionHypothesis source inMembers
        (Fragment.admits_union.mp admitted source inMembers)
  | object occurrence shape inductionHypothesis =>
      rw [Ty.widen, Ty.widenProperties_eq_map]
      exact admits_mapProperties (keepsProperties_widen arena) admitted
        inductionHypothesis
  | array occurrence element readonly inductionHypothesis =>
      exact inductionHypothesis admitted
  | tuple occurrence elements readonly inductionHypothesis =>
      rw [Ty.widen, Ty.widenAll_eq_map]
      exact admits_mapElements admitted inductionHypothesis
  | _ =>
      exact admitted

/-- Widening keeps all values of a type. -/
theorem belongs_widen
    {arena : Arena}
    {type : Ty}
    (admitted : Fragment.narrowing.admits type = true)
    (belongs : Belongs arena type value) :
    Belongs arena (type.widen arena) value := by
  induction belongs with
  | literal equal =>
      rw [Ty.widen, Literal.base_eq_of_equal equal]
      exact .primitive (Literal.base_holds _)
  | object isObject missing present inductionHypothesis =>
      rw [Ty.widen, Ty.widenProperties_eq_map]
      refine holds_mapProperties (keepsProperties_widen arena) isObject missing
        fun property member found exposed refused => ?_
      exact inductionHypothesis property member found exposed refused
        ((Fragment.admits_object.mp admitted).2.2 property member).1
  | array each inductionHypothesis =>
      exact .array fun value member =>
        inductionHypothesis value member admitted
  | tuple sameLength each inductionHypothesis =>
      rw [Ty.widen, Ty.widenAll_eq_map]
      refine holds_mapElements sameLength
        fun position type value declared valued => ?_
      exact inductionHypothesis position type value declared valued
        (Fragment.admits_tuple.mp admitted type
          (List.mem_of_getElem? declared))
  | union inMembers _ inductionHypothesis =>
      rw [Ty.widen, Ty.widenAll_eq_map]
      have memberAdmitted :=
        Fragment.admits_union.mp admitted _ inMembers
      refine (unionOfDistinct_spec fun type member => ?_).2 _
        (List.mem_map_of_mem inMembers) _ (inductionHypothesis memberAdmitted)
      obtain ⟨source, inMembers, rfl⟩ := List.mem_map.mp member
      exact admits_widen arena
        (Fragment.admits_union.mp admitted source inMembers)
  | absent =>
      exact .absent
  | primitive holds =>
      exact .primitive holds
  | named defined holds _ =>
      exact .named defined holds
  | function =>
      exact .function
  | intersection each _ =>
      exact .intersection each

/-- Freezing stays within a fragment. -/
theorem admits_freeze
    {fragment : Fragment}
    {type : Ty}
    (admitted : fragment.admits type = true) :
    fragment.admits type.freeze = true := by
  induction type using Ty.structuralInduction with
  | object occurrence shape inductionHypothesis =>
      rw [Ty.freeze, Ty.freezeProperties_eq_map]
      exact admits_mapProperties keepsProperties_freeze admitted
        inductionHypothesis
  | array occurrence element readonly inductionHypothesis =>
      exact inductionHypothesis admitted
  | tuple occurrence elements readonly inductionHypothesis =>
      rw [Ty.freeze, Ty.freezeAll_eq_map]
      exact admits_mapElements admitted inductionHypothesis
  | _ =>
      exact admitted

/-- Freezing keeps all values of a type. -/
theorem holds_freeze
    {reading : Reading}
    {arena : Arena}
    {type : Ty}
    (holds : Holds reading arena type value) :
    Holds reading arena type.freeze value := by
  induction holds with
  | object isObject missing present inductionHypothesis =>
      rw [Ty.freeze, Ty.freezeProperties_eq_map]
      exact holds_mapProperties keepsProperties_freeze isObject missing
        inductionHypothesis
  | array each inductionHypothesis =>
      exact .array inductionHypothesis
  | tuple sameLength each inductionHypothesis =>
      rw [Ty.freeze, Ty.freezeAll_eq_map]
      exact holds_mapElements sameLength inductionHypothesis
  | absent =>
      exact .absent
  | primitive holds =>
      exact .primitive holds
  | literal equal =>
      exact .literal equal
  | named defined holds _ =>
      exact .named defined holds
  | function =>
      exact .function
  | union inMembers holds _ =>
      exact .union inMembers holds
  | intersection each _ =>
      exact .intersection each

namespace WideningPolicy

/-- Inferred types stay within the narrowing fragment. -/
theorem admits_infer
    (arena : Arena)
    (policy : WideningPolicy)
    {type : Ty}
    (admitted : Fragment.narrowing.admits type = true) :
    Fragment.narrowing.admits (policy.infer arena type) = true := by
  unfold infer
  split
  · exact admits_freeze admitted
  · exact admitted
  · exact admits_widen arena admitted

/-- Inferred types keep all values of the type they are inferred from. -/
theorem belongs_infer
    {arena : Arena}
    (policy : WideningPolicy)
    {type : Ty}
    (admitted : Fragment.narrowing.admits type = true)
    (belongs : Belongs arena type value) :
    Belongs arena (policy.infer arena type) value := by
  unfold infer
  split
  · exact holds_freeze belongs
  · exact belongs
  · exact belongs_widen admitted belongs

end WideningPolicy

end StructuralTyping
