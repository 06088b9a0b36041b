import StructuralTyping.Proofs.WideningMeaning

namespace StructuralTyping

/-!
# What inference reaches

A binding can be read through the properties and elements of its type, and a
value of a union through whichever member it belongs to. The policy for
constants marks what is reached through properties and elements as readonly
and changes nothing else. It stops at unions: their members are readonly
afterwards only if they were before.
-/

namespace Ty

/-- The types of a type's own properties and elements. -/
def components :
    Ty →
    List Ty
  | object _ shape => shape.properties.map Property.type
  | array _ element _ => [element]
  | tuple _ elements _ => elements
  | _ => []

/-- The components of a type, or the members of a union. -/
def constituents :
    Ty →
    List Ty
  | union _ members => members
  | type => type.components

/-- A type is reached from another one, itself included, through some parts. -/
inductive Reaches
    (parts : Ty → List Ty) :
    Ty →
    Ty →
    Prop where
  | here :
      Reaches parts type type
  | inside :
      part ∈ parts type →
      Reaches parts part node →
      Reaches parts type node

/-- Whether the type's own properties or elements are readonly. -/
def isReadonly :
    Ty →
    Bool
  | object _ shape => shape.properties.all Property.readonly
  | array _ _ readonly => readonly
  | tuple _ _ readonly => readonly
  | _ => true

/-- All that is reached from a type is of a kind. -/
def AllReached
    (parts : Ty → List Ty)
    (kind : Ty → Prop)
    (type : Ty) :
    Prop :=
  ∀ node, Reaches parts type node → kind node

/-- All that is reached through properties, elements and members is readonly. -/
def Frozen
    (type : Ty) :
    Prop :=
  AllReached constituents (fun node => node.isReadonly = true) type

mutual

/--
The type with nothing readonly that is reached through properties and elements.
The nodes on the way count as built anew, all others stay as they are.
-/
def thaw :
    Ty →
    Ty
  | object _ shape =>
      ofShape { shape with properties := thawProperties shape.properties }
  | array _ element _ => array none (thaw element) false
  | tuple _ elements _ => tuple none (thawAll elements) false
  | type => type

/-- Thaw every type of a list. -/
def thawAll :
    List Ty →
    List Ty
  | [] => []
  | type :: rest => thaw type :: thawAll rest

/-- Thaw every property and mark it mutable. -/
def thawProperties :
    List (Property Ty) →
    List (Property Ty)
  | [] => []
  | property :: rest =>
      { property with type := thaw property.type, readonly := false } ::
        thawProperties rest

end

/-- Thawing a list thaws its types. -/
@[simp] theorem thawAll_eq_map
    (types : List Ty) :
    thawAll types = types.map thaw := by
  induction types with
  | nil =>
      rfl
  | cons type rest inductionHypothesis =>
      simp [thawAll, inductionHypothesis]

/-- Thawing properties thaws their types. -/
@[simp] theorem thawProperties_eq_map
    (properties : List (Property Ty)) :
    thawProperties properties =
      properties.map fun property =>
        { property with type := thaw property.type, readonly := false } := by
  induction properties with
  | nil =>
      rfl
  | cons property rest inductionHypothesis =>
      simp [thawProperties, inductionHypothesis]

variable {parts : Ty → List Ty} {type part node : Ty}

/-- What is reached from a type that is reached is reached. -/
theorem Reaches.trans
    (first : Reaches parts type part)
    (second : Reaches parts part node) :
    Reaches parts type node := by
  induction first with
  | here =>
      exact second
  | inside member _ inductionHypothesis =>
      exact .inside member (inductionHypothesis second)

/-- More parts reach more types. -/
theorem Reaches.mono
    {more : Ty → List Ty}
    (reaches : Reaches parts type node)
    (includes : ∀ type, parts type ⊆ more type) :
    Reaches more type node := by
  induction reaches with
  | here =>
      exact .here
  | inside member _ inductionHypothesis =>
      exact .inside (includes _ member) inductionHypothesis

/-- What is reached is of a kind when the type is and what its parts reach. -/
theorem allReached_iff
    {kind : Ty → Prop} :
    AllReached parts kind type ↔
      kind type ∧ ∀ part ∈ parts type, AllReached parts kind part := by
  constructor
  · intro all
    exact ⟨all type .here,
      fun part member node reaches => all node (.inside member reaches)⟩
  · rintro ⟨here, inside⟩ node reaches
    cases reaches with
    | here =>
        exact here
    | inside member reaches =>
        exact inside _ member node reaches

/-- What a part reaches is of the kind of all that is reached. -/
theorem AllReached.inside
    {kind : Ty → Prop}
    (all : AllReached parts kind type)
    (member : part ∈ parts type) :
    AllReached parts kind part :=
  (allReached_iff.mp all).2 part member

/-- A type without parts reaches only itself. -/
theorem AllReached.leaf
    {kind : Ty → Prop}
    (here : kind type)
    (empty : parts type = []) :
    AllReached parts kind type :=
  allReached_iff.mpr ⟨here, fun part member => by simp [empty] at member⟩

/-- A type is frozen when it is readonly and its constituents are frozen. -/
theorem frozen_iff :
    type.Frozen ↔
      type.isReadonly = true ∧ ∀ part ∈ type.constituents, part.Frozen :=
  allReached_iff

/-- Components are constituents. -/
theorem components_subset_constituents
    (type : Ty) :
    type.components ⊆ type.constituents := by
  cases type with
  | union occurrence members =>
      exact List.nil_subset members
  | _ =>
      exact List.Subset.refl _

/-- Induction over what is reached through properties and elements. -/
@[elab_as_elim] theorem componentsInduction
    {motive : Ty → Prop}
    (step : ∀ type, (∀ part ∈ type.components, motive part) → motive type)
    (type : Ty) :
    motive type := by
  induction type using structuralInduction with
  | object occurrence shape inductionHypothesis =>
      exact step _ (List.forall_mem_map.mpr inductionHypothesis)
  | array occurrence element readonly inductionHypothesis =>
      exact step _ (List.forall_mem_singleton.mpr inductionHypothesis)
  | tuple occurrence elements readonly inductionHypothesis =>
      exact step _ inductionHypothesis
  | _ =>
      exact step _ fun part member => by cases member

section Freezing

/-- Frozen components are the components of the frozen type. -/
@[simp] theorem components_freeze
    (type : Ty) :
    type.freeze.components = type.components.map freeze := by
  cases type <;> simp [freeze, components, ofShape, Function.comp_def]

/-- The own properties and elements of a frozen type are readonly. -/
@[simp] theorem isReadonly_freeze
    (type : Ty) :
    type.freeze.isReadonly = true := by
  cases type <;> simp [freeze, isReadonly, ofShape]

/-- Freezing sets marks only. -/
theorem thaw_freeze
    (type : Ty) :
    type.freeze.thaw = type.thaw := by
  induction type using structuralInduction with
  | object occurrence shape inductionHypothesis =>
      simpa [freeze, thaw, ofShape] using inductionHypothesis
  | array occurrence element readonly inductionHypothesis =>
      simp [freeze, thaw, inductionHypothesis]
  | tuple occurrence elements readonly inductionHypothesis =>
      simpa [freeze, thaw] using inductionHypothesis
  | _ =>
      rfl

/-- A frozen type reaches the frozen ones of the types that the type reaches. -/
theorem reaches_freeze_iff :
    Reaches components type.freeze node ↔
      ∃ source, Reaches components type source ∧ source.freeze = node := by
  constructor
  · intro reaches
    generalize same : type.freeze = frozen at reaches
    induction reaches generalizing type with
    | here =>
        exact ⟨type, .here, same⟩
    | inside member _ inductionHypothesis =>
        subst same
        rw [components_freeze] at member
        obtain ⟨part, inType, isPart⟩ := List.mem_map.mp member
        obtain ⟨source, reaches, isNode⟩ := inductionHypothesis isPart
        exact ⟨source, .inside inType reaches, isNode⟩
  · rintro ⟨source, reaches, rfl⟩
    induction reaches with
    | here =>
        exact .here
    | inside member _ inductionHypothesis =>
        refine .inside ?_ inductionHypothesis
        rw [components_freeze]
        exact List.mem_map_of_mem member

/-- A type freezes as a whole when its components and its members do. -/
theorem frozen_freeze
    (components : ∀ part ∈ type.components, part.freeze.Frozen)
    (members :
      ∀ occurrence members,
        type = .union occurrence members → ∀ member ∈ members, member.Frozen) :
    type.freeze.Frozen := by
  refine frozen_iff.mpr ⟨isReadonly_freeze type, ?_⟩
  cases type with
  | union occurrence parts =>
      exact members occurrence parts rfl
  | object occurrence shape =>
      simpa [freeze, ofShape, constituents, Ty.components] using components
  | array occurrence element readonly =>
      simpa [freeze, constituents, Ty.components] using components
  | tuple occurrence elements readonly =>
      simpa [freeze, constituents, Ty.components] using components
  | _ =>
      exact fun part member => by cases member

/--
Freezing reaches everything when the unions on the way through properties and
elements have members in which everything is readonly already.
-/
theorem frozen_freeze_iff :
    type.freeze.Frozen ↔
      ∀ occurrence members,
        Reaches components type (.union occurrence members) →
        ∀ member ∈ members, member.Frozen := by
  constructor
  · intro frozen occurrence members reaches member inMembers node inMember
    have unionReached :
        Reaches components type.freeze (.union occurrence members) :=
      reaches_freeze_iff.mpr ⟨_, reaches, rfl⟩
    refine frozen node
      ((unionReached.mono components_subset_constituents).trans ?_)
    exact .inside inMembers inMember
  · intro unions
    induction type using componentsInduction with
    | step type inductionHypothesis =>
        refine frozen_freeze
          (fun part member => inductionHypothesis part member
            fun occurrence members reaches =>
              unions occurrence members (.inside member reaches)) ?_
        rintro occurrence members rfl
        exact unions occurrence members .here

end Freezing

end Ty

namespace WideningPolicy

/--
The policy for constants marks all that is reached through properties and
elements and changes nothing else. What is behind the unions on the way is
readonly exactly when it was before.
-/
theorem infer_asConst
    (arena : Arena)
    (type : Ty) :
    (∀ node,
      Ty.Reaches Ty.components (asConst.infer arena type) node →
      node.isReadonly = true) ∧
    ((asConst.infer arena type).Frozen ↔
      ∀ occurrence members,
        Ty.Reaches Ty.components type (.union occurrence members) →
        ∀ member ∈ members, member.Frozen) ∧
    (asConst.infer arena type).thaw = type.thaw := by
  refine ⟨fun node reaches => ?_, Ty.frozen_freeze_iff, Ty.thaw_freeze type⟩
  obtain ⟨source, -, rfl⟩ := Ty.reaches_freeze_iff.mp reaches
  exact Ty.isReadonly_freeze source

/-- A tuple and an array in the members of a union stay mutable. -/
theorem infer_asConst_leaves_members :
    ¬ ∀ (arena : Arena) (type : Ty), (asConst.infer arena type).Frozen := by
  intro always
  let pair : Ty := .tuple none [.literal none (.number (.ofNat 1))] false
  let record : Ty :=
    .ofShape
      { properties := [{ name := "a", type := .array none .string false }] }
  have frozen := always {} (.ofUnion [pair, record])
  have pairReached :
      Ty.Reaches Ty.constituents (.ofUnion [pair, record]) pair :=
    .inside (List.mem_cons_self ..) .here
  exact Bool.false_ne_true (frozen pair pairReached)

end WideningPolicy

end StructuralTyping
