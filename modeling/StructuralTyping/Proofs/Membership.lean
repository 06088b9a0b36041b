import Mathlib.Data.List.Forall2
import StructuralTyping.Identity
import StructuralTyping.Proofs.Value

namespace StructuralTyping

/-!
# Which values belong to a type

Membership of values in types, as the least relation closed under one rule per
kind of type. Names hold what their definitions hold; since values are finite
and rules are finite trees, a name that only leads back to itself holds
nothing. Two readings of object types are left open: whether they hold plain
objects only, and whether an optional property may hold `undefined`.

The types of a fragment are described by which constructions they may use.
-/

/-- Induction over types, through their members, properties and elements. -/
@[elab_as_elim] theorem Ty.structuralInduction
    {motive : Ty → Prop}
    (absent : motive .absent)
    (primitive : ∀ kind, motive (.primitive kind))
    (literal : ∀ occurrence value, motive (.literal occurrence value))
    (named : ∀ reference, motive (.named reference))
    (object :
      ∀ occurrence (shape : Shape Ty),
        (∀ property ∈ shape.properties, motive property.type) →
        motive (.object occurrence shape))
    (array :
      ∀ occurrence element readonly,
        motive element → motive (.array occurrence element readonly))
    (tuple :
      ∀ occurrence elements readonly,
        (∀ element ∈ elements, motive element) →
        motive (.tuple occurrence elements readonly))
    (function :
      ∀ occurrence (signature : Signature Ty),
        (∀ parameter ∈ signature.parameters, motive parameter.type) →
        motive signature.rest →
        motive signature.result →
        motive (.function occurrence signature))
    (union :
      ∀ occurrence members,
        (∀ member ∈ members, motive member) →
        motive (.union occurrence members))
    (intersection :
      ∀ occurrence members,
        (∀ member ∈ members, motive member) →
        motive (.intersection occurrence members))
    (generic :
      ∀ occurrence application, motive (.generic occurrence application))
    (type : Ty) :
    motive type := by
  have recursive :
      ∀ other : Ty, sizeOf other < sizeOf type → motive other :=
    fun other _ =>
      structuralInduction absent primitive literal named object array tuple
        function union intersection generic other
  cases type with
  | absent =>
      exact absent
  | primitive kind =>
      exact primitive kind
  | literal occurrence value =>
      exact literal occurrence value
  | named reference =>
      exact named reference
  | object occurrence shape =>
      refine object occurrence shape fun property member => recursive _ ?_
      have := List.sizeOf_lt_of_mem member
      cases property
      cases shape
      simp at *
      omega
  | array occurrence element readonly =>
      refine array occurrence element readonly (recursive _ ?_)
      simp only [Ty.array.sizeOf_spec]
      omega
  | tuple occurrence elements readonly =>
      refine tuple occurrence elements readonly fun element member =>
        recursive _ ?_
      have := List.sizeOf_lt_of_mem member
      simp
      omega
  | function occurrence signature =>
      refine function occurrence signature
        (fun parameter member => recursive _ ?_) (recursive _ ?_)
        (recursive _ ?_)
      · have := List.sizeOf_lt_of_mem member
        cases parameter
        cases signature
        simp at *
        omega
      · cases signature
        simp
        omega
      · cases signature
        simp
        omega
  | union occurrence members =>
      refine union occurrence members fun member inMembers => recursive _ ?_
      have := List.sizeOf_lt_of_mem inMembers
      simp
      omega
  | intersection occurrence members =>
      refine intersection occurrence members fun member inMembers =>
        recursive _ ?_
      have := List.sizeOf_lt_of_mem inMembers
      simp
      omega
  | generic occurrence application =>
      exact generic occurrence application
termination_by sizeOf type

/-- How object types are read. -/
structure Reading where
  /-- Only plain objects belong to object types. -/
  plainObjects : Bool
  /-- An optional property may hold `undefined`. -/
  undefinedOptional : Bool
  deriving Repr, DecidableEq

namespace Reading

/-- Whether a value may belong to an object type, its members aside. -/
def isObject
    (reading : Reading)
    (value : Value) :
    Bool :=
  if reading.plainObjects then value.isPlainObject else !value.isNullish

/-- Whether a value of an optional property passes without a look at its type. -/
def passes
    (reading : Reading)
    (property : Property Ty)
    (value : Value) :
    Prop :=
  reading.undefinedOptional = true ∧ property.optional = true ∧
    value = .undefined

end Reading

/-- Whether a value belongs to a primitive type. -/
def Primitive.holds :
    Primitive →
    Value →
    Bool
  | .string, .constant (.string _) => true
  | .number, .constant (.number _) => true
  | .boolean, .constant (.boolean _) => true
  | .void, .undefined => true
  | .null, .null => true
  | .undefined, .undefined => true
  | .unknown, _ => true
  | .any, _ => true
  | _, _ => false

/-- A constant belongs to its primitive kind. -/
theorem Literal.base_holds
    (literal : Literal) :
    literal.base.holds (.constant literal) = true := by
  cases literal <;> rfl

/--
A value belongs to a type. Functions are opaque: every function value belongs
to every function type. Index signatures are not part of the reading.
-/
inductive Holds
    (reading : Reading)
    (arena : Arena) :
    Ty →
    Value →
    Prop
  | absent :
      Holds reading arena .absent value
  | primitive :
      kind.holds value = true →
      Holds reading arena (.primitive kind) value
  | literal :
      expected.equal actual = true →
      Holds reading arena (.literal occurrence expected) (.constant actual)
  | named :
      arena.definition reference ≠ .absent →
      Holds reading arena (arena.definition reference) value →
      Holds reading arena (.named reference) value
  | object :
      reading.isObject value = true →
      (∀ property ∈ shape.properties,
        value.member? property.name = none →
        property.optional = true) →
      (∀ property ∈ shape.properties,
        ∀ found,
          value.member? property.name = some found →
          ¬ reading.passes property found →
          Holds reading arena property.type found) →
      Holds reading arena (.object occurrence shape) value
  | array :
      (∀ value ∈ values, Holds reading arena element value) →
      Holds reading arena (.array occurrence element readonly) (.list values)
  | tuple :
      types.length = values.length →
      (∀ (position : Nat) type value,
        types[position]? = some type →
        values[position]? = some value →
        Holds reading arena type value) →
      Holds reading arena (.tuple occurrence types readonly) (.list values)
  | function :
      Holds reading arena (.function occurrence signature)
        (.function parameters)
  | union :
      member ∈ members →
      Holds reading arena member value →
      Holds reading arena (.union occurrence members) value
  | intersection :
      (∀ member ∈ members, Holds reading arena member value) →
      Holds reading arena (.intersection occurrence members) value

/-- A property of an object type accepts what a value has in its place. -/
def PropertyHolds
    (reading : Reading)
    (arena : Arena)
    (property : Property Ty)
    (value : Value) :
    Prop :=
  match value.member? property.name with
  | none => property.optional = true
  | some found =>
      reading.passes property found ∨
        Holds reading arena property.type found

section Rules

variable {reading : Reading} {arena : Arena}

@[simp] theorem holds_absent
    {value : Value} :
    Holds reading arena .absent value :=
  .absent

@[simp] theorem holds_primitive
    {value : Value} :
    Holds reading arena (.primitive kind) value ↔
      kind.holds value = true := by
  constructor
  · rintro (_ | holds)
    exact holds
  · exact .primitive

/-- Literal types hold the constants that equal theirs. -/
theorem holds_literal
    {value : Value} :
    Holds reading arena (.literal occurrence expected) value ↔
      ∃ actual, value = .constant actual ∧ expected.equal actual = true := by
  constructor
  · rintro (_ | _ | equal)
    exact ⟨_, rfl, equal⟩
  · rintro ⟨actual, rfl, equal⟩
    exact .literal equal

/-- Names hold what their definitions hold. -/
theorem holds_named
    {value : Value} :
    Holds reading arena (.named reference) value ↔
      arena.definition reference ≠ .absent ∧
        Holds reading arena (arena.definition reference) value := by
  constructor
  · intro holds
    cases holds with
    | named defined holds =>
        exact ⟨defined, holds⟩
  · rintro ⟨defined, holds⟩
    exact .named defined holds

/-- Object types are read property by property. -/
theorem holds_object
    {value : Value} :
    Holds reading arena (.object occurrence shape) value ↔
      reading.isObject value = true ∧
        ∀ property ∈ shape.properties,
          PropertyHolds reading arena property value := by
  constructor
  · intro holds
    cases holds with
    | object isObject missing present =>
        refine ⟨isObject, fun property member => ?_⟩
        unfold PropertyHolds
        split
        · next lacks =>
          exact missing property member lacks
        · next found has =>
          by_cases passes : reading.passes property found
          · exact .inl passes
          · exact .inr (present property member found has passes)
  · rintro ⟨isObject, each⟩
    refine .object isObject ?_ ?_
    · intro property member lacks
      have holds := each property member
      simpa [PropertyHolds, lacks] using holds
    · intro property member found has refused
      have holds := each property member
      simp only [PropertyHolds, has] at holds
      exact holds.resolve_left refused

/-- Array types hold the lists of their elements. -/
theorem holds_array
    {value : Value} :
    Holds reading arena (.array occurrence element readonly) value ↔
      ∃ values,
        value = .list values ∧
          ∀ value ∈ values, Holds reading arena element value := by
  constructor
  · intro holds
    cases holds with
    | array each =>
        exact ⟨_, rfl, each⟩
  · rintro ⟨values, rfl, each⟩
    exact .array each

/-- Tuple types hold the lists of their length, position by position. -/
theorem holds_tuple
    {value : Value} :
    Holds reading arena (.tuple occurrence types readonly) value ↔
      ∃ values,
        value = .list values ∧
          List.Forall₂ (Holds reading arena) types values := by
  constructor
  · intro holds
    cases holds with
    | tuple sameLength each =>
        refine ⟨_, rfl, List.forall₂_iff_get.mpr ⟨sameLength, ?_⟩⟩
        intro position inTypes inValues
        exact each position _ _ (List.getElem?_eq_getElem inTypes)
          (List.getElem?_eq_getElem inValues)
  · rintro ⟨values, rfl, each⟩
    refine .tuple each.length_eq ?_
    intro position type value hasType hasValue
    obtain ⟨inTypes, rfl⟩ := List.getElem?_eq_some_iff.mp hasType
    obtain ⟨inValues, rfl⟩ := List.getElem?_eq_some_iff.mp hasValue
    exact each.get inTypes inValues

/-- Function types hold the functions. -/
theorem holds_function
    {value : Value} :
    Holds reading arena (.function occurrence signature) value ↔
      ∃ parameters, value = .function parameters := by
  constructor
  · intro holds
    cases holds
    exact ⟨_, rfl⟩
  · rintro ⟨parameters, rfl⟩
    exact .function

/-- Unions hold what some member holds. -/
theorem holds_union
    {value : Value} :
    Holds reading arena (.union occurrence members) value ↔
      ∃ member ∈ members, Holds reading arena member value := by
  constructor
  · intro holds
    cases holds with
    | union member holds =>
        exact ⟨_, member, holds⟩
  · rintro ⟨member, inMembers, holds⟩
    exact .union inMembers holds

/-- Intersections hold what every member holds. -/
theorem holds_intersection
    {value : Value} :
    Holds reading arena (.intersection occurrence members) value ↔
      ∀ member ∈ members, Holds reading arena member value := by
  constructor
  · intro holds
    cases holds with
    | intersection each =>
        exact each
  · exact .intersection

/-- A utility application holds nothing by itself. -/
theorem not_holds_generic
    {value : Value} :
    ¬ Holds reading arena (.generic occurrence application) value := by
  rintro (_ | _)

/-- A type holds what one of its union members holds. -/
theorem holds_members
    {type : Ty}
    {value : Value} :
    Holds reading arena type value ↔
      ∃ member ∈ type.members, Holds reading arena member value := by
  cases type <;> simp only [Ty.members, List.mem_singleton, exists_eq_left]
  exact holds_union

/-- Nothing belongs to `never` or to a union without members. -/
theorem not_holds_of_isNever
    {type : Ty}
    {value : Value}
    (never : type.isNever = true) :
    ¬ Holds reading arena type value := by
  intro holds
  cases type <;> simp [Ty.isNever, Ty.isPrimitive] at never
  · subst never
    simp [Primitive.holds] at holds
  · subst never
    simp [holds_union] at holds

/-- Only `null` belongs to its type. -/
theorem holds_null
    {value : Value} :
    Holds reading arena .null value ↔ value = .null := by
  rw [holds_primitive]
  cases value <;> simp [Primitive.holds]

/-- Only `undefined` belongs to its type. -/
theorem holds_undefined
    {value : Value} :
    Holds reading arena .undefined value ↔ value = .undefined := by
  rw [holds_primitive]
  cases value <;> simp [Primitive.holds]

/-- Extending a type by `undefined` adds that value and nothing else. -/
theorem holds_optional
    {type : Ty}
    {value : Value} :
    Holds reading arena type.optional value ↔
      Holds reading arena type value ∨ value = .undefined := by
  unfold Ty.optional
  split
  · next has =>
    constructor
    · exact .inl
    · rintro (holds | rfl)
      · exact holds
      · obtain ⟨member, inMembers, isUndefined⟩ := List.any_eq_true.mp has
        refine holds_members.mpr ⟨member, inMembers, ?_⟩
        cases member <;> simp [Ty.isPrimitive] at isUndefined
        subst isUndefined
        exact .primitive rfl
  · simp only [Ty.ofUnion, holds_union, List.mem_append, List.mem_singleton]
    constructor
    · rintro ⟨member, inMembers | rfl, holds⟩
      · exact .inl (holds_members.mpr ⟨member, inMembers, holds⟩)
      · exact .inr (holds_undefined.mp holds)
    · rintro (holds | isUndefined)
      · obtain ⟨member, inMembers, holds⟩ := holds_members.mp holds
        exact ⟨member, .inl inMembers, holds⟩
      · exact ⟨.undefined, .inr rfl, holds_undefined.mpr isUndefined⟩

end Rules

/-- The constructions that the types of a fragment may use. -/
structure Fragment where
  /-- The type `any`. -/
  any : Bool
  /-- Numeric literals that are not a number. -/
  nan : Bool
  /-- Names of an arena. -/
  names : Bool
  /-- Intersections. -/
  intersections : Bool
  /-- Optional properties. -/
  optional : Bool
  deriving Repr, DecidableEq

namespace Fragment

variable (fragment : Fragment)

mutual

/--
Whether a type belongs to a fragment. No fragment has utility applications,
index signatures or objects that repeat a property name. Only the rest
parameter and the result of a function may be left out.
-/
def admits :
    Ty →
    Bool
  | .absent => false
  | .primitive kind => kind != .any || fragment.any
  | .literal _ value => !value.isNaN || fragment.nan
  | .named _ => fragment.names
  | .object _ shape =>
      shape.index.isNone && decide shape.names.Nodup &&
        admitsProperties shape.properties
  | .array _ element _ => admits element
  | .tuple _ elements _ => admitsAll elements
  | .function _ signature =>
      admitsParameters signature.parameters &&
        (signature.rest.isAbsent || admits signature.rest) &&
        (signature.result.isAbsent || admits signature.result)
  | .union _ members => admitsAll members
  | .intersection _ members =>
      fragment.intersections && admitsAll members
  | .generic _ _ => false

/-- Whether every type of a list belongs to a fragment. -/
def admitsAll :
    List Ty →
    Bool
  | [] => true
  | type :: rest => admits type && admitsAll rest

/-- Whether every property of a list belongs to a fragment. -/
def admitsProperties :
    List (Property Ty) →
    Bool
  | [] => true
  | property :: rest =>
      admits property.type && (!property.optional || fragment.optional) &&
        admitsProperties rest

/-- Whether every parameter of a list belongs to a fragment. -/
def admitsParameters :
    List (Parameter Ty) →
    Bool
  | [] => true
  | parameter :: rest =>
      admits parameter.type && admitsParameters rest

end

/-- A list belongs to a fragment when each of its types does. -/
@[simp] theorem admitsAll_iff
    {types : List Ty} :
    fragment.admitsAll types = true ↔
      ∀ type ∈ types, fragment.admits type = true := by
  induction types with
  | nil =>
      simp [admitsAll]
  | cons type rest inductionHypothesis =>
      simp [admitsAll, inductionHypothesis]

/-- Properties belong to a fragment when each of them does. -/
@[simp] theorem admitsProperties_iff
    {properties : List (Property Ty)} :
    fragment.admitsProperties properties = true ↔
      ∀ property ∈ properties,
        fragment.admits property.type = true ∧
          (property.optional = true → fragment.optional = true) := by
  induction properties with
  | nil =>
      simp [admitsProperties]
  | cons property rest inductionHypothesis =>
      simp only [admitsProperties, Bool.and_eq_true, inductionHypothesis,
        List.forall_mem_cons]
      cases property.optional <;> simp

/-- Parameters belong to a fragment when each of them does. -/
@[simp] theorem admitsParameters_iff
    {parameters : List (Parameter Ty)} :
    fragment.admitsParameters parameters = true ↔
      ∀ parameter ∈ parameters, fragment.admits parameter.type = true := by
  induction parameters with
  | nil =>
      simp [admitsParameters]
  | cons parameter rest inductionHypothesis =>
      simp [admitsParameters, inductionHypothesis]

variable {fragment : Fragment}

@[simp] theorem admits_object :
    fragment.admits (.object occurrence shape) = true ↔
      shape.index = none ∧ shape.names.Nodup ∧
        ∀ property ∈ shape.properties,
          fragment.admits property.type = true ∧
            (property.optional = true → fragment.optional = true) := by
  simp [admits, and_assoc]

@[simp] theorem admits_array :
    fragment.admits (.array occurrence element readonly) = true ↔
      fragment.admits element = true :=
  Iff.rfl

@[simp] theorem admits_tuple :
    fragment.admits (.tuple occurrence elements readonly) = true ↔
      ∀ element ∈ elements, fragment.admits element = true :=
  fragment.admitsAll_iff

@[simp] theorem admits_union :
    fragment.admits (.union occurrence members) = true ↔
      ∀ member ∈ members, fragment.admits member = true :=
  fragment.admitsAll_iff

@[simp] theorem admits_intersection :
    fragment.admits (.intersection occurrence members) = true ↔
      fragment.intersections = true ∧
        ∀ member ∈ members, fragment.admits member = true := by
  simp [admits]

@[simp] theorem admits_function :
    fragment.admits (.function occurrence signature) = true ↔
      (∀ parameter ∈ signature.parameters,
        fragment.admits parameter.type = true) ∧
      (signature.rest ≠ .absent →
        fragment.admits signature.rest = true) ∧
      (signature.result ≠ .absent →
        fragment.admits signature.result = true) := by
  have absent :
      ∀ type : Ty, type.isAbsent = true ↔ type = .absent := by
    intro type
    cases type <;> simp [Ty.isAbsent]
  simp [admits, and_assoc, absent, imp_iff_not_or]

@[simp] theorem admits_absent :
    fragment.admits .absent = false :=
  rfl

@[simp] theorem admits_generic :
    fragment.admits (.generic occurrence application) = false :=
  rfl

/-- The members of a type of a fragment belong to the fragment. -/
theorem admits_members
    {type : Ty} :
    fragment.admits type = true ↔
      ∀ member ∈ type.members, fragment.admits member = true := by
  cases type <;> simp [Ty.members]

/-- Extending a type by `undefined` stays within a fragment. -/
theorem admits_optional
    {type : Ty}
    (admitted : fragment.admits type = true) :
    fragment.admits type.optional = true := by
  unfold Ty.optional
  split
  · exact admitted
  · refine admits_union.mpr fun member inMembers => ?_
    rcases List.mem_append.mp inMembers with inType | isUndefined
    · exact admits_members.mp admitted member inType
    · cases List.mem_singleton.mp isUndefined
      rfl

/-- A type of a fragment is not left out. -/
theorem ne_absent
    {type : Ty}
    (admitted : fragment.admits type = true) :
    type ≠ .absent := by
  rintro rfl
  simp at admitted

end Fragment

end StructuralTyping
