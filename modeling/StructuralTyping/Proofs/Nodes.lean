import StructuralTyping.Checker.Assign

namespace StructuralTyping

/-!
# The nodes of a type

A type is a tree whose nodes are types. What is said of every node reaches
through properties, elements, members and the operands of utility applications;
it stops at names, whose definitions are no part of the tree.
-/

namespace Ty

/-- The types that stand directly inside a type. -/
def parts :
    Ty →
    List Ty
  | object _ shape =>
      shape.properties.map Property.type ++
        shape.index.toList.flatMap fun index => [index.key, index.value]
  | array _ element _ => [element]
  | tuple _ elements _ => elements
  | function _ signature =>
      signature.parameters.map Parameter.type ++
        [signature.rest, signature.result]
  | union _ members => members
  | intersection _ members => members
  | generic _ application => application.base :: application.arguments
  | _ => []

/-- Every node of a type is of a kind. -/
inductive Every
    (kind : Ty → Prop) :
    Ty →
    Prop
  | node :
      kind type →
      (∀ part ∈ type.parts, Every kind part) →
      Every kind type

/-- Whether a type is a utility application. -/
def isApplication :
    Ty →
    Bool
  | generic _ _ => true
  | _ => false

end Ty

/-- Only the missing type counts as missing. -/
theorem Ty.eq_absent
    {type : Ty}
    (missing : type.isAbsent = true) :
    type = .absent := by
  cases type <;> first | rfl | cases missing

/-- The types of a shape are all of some kind. -/
structure Shape.All
    (kind : Ty → Prop)
    (shape : Shape Ty) :
    Prop where
  properties : ∀ property ∈ shape.properties, kind property.type
  keys : ∀ index, shape.index = some index → kind index.key
  values : ∀ index, shape.index = some index → kind index.value

namespace Ty

variable {kind : Ty → Prop} {type : Ty}

/-- Every node is of a kind when the type is and so are the nodes of its parts. -/
theorem every_iff :
    type.Every kind ↔ kind type ∧ ∀ part ∈ type.parts, part.Every kind := by
  constructor
  · rintro ⟨here, inside⟩
    exact ⟨here, inside⟩
  · rintro ⟨here, inside⟩
    exact .node here inside

/-- A type is of the kind that all of its nodes are of. -/
theorem Every.here
    (every : type.Every kind) :
    kind type :=
  (every_iff.mp every).1

/-- What holds of all nodes of a type holds of those of a part. -/
theorem Every.inside
    {part : Ty}
    (every : type.Every kind)
    (inside : part ∈ type.parts) :
    part.Every kind :=
  (every_iff.mp every).2 part inside

/-- The nodes of a member are nodes of the type. -/
theorem Every.member
    {member : Ty}
    (every : type.Every kind)
    (inMembers : member ∈ type.members) :
    member.Every kind := by
  cases type with
  | union occurrence parts =>
      exact every.inside inMembers
  | _ =>
      exact List.mem_singleton.mp inMembers ▸ every

/-- A type without parts is its only node. -/
theorem Every.leaf
    (here : kind type)
    (empty : type.parts = []) :
    type.Every kind :=
  .node here (by simp [empty])

/-- Nodes of a kind are of every more general kind. -/
theorem Every.mono
    (every : type.Every kind)
    (implies : ∀ node, kind node → wanted node) :
    type.Every wanted := by
  induction every with
  | node here _ inside =>
      exact .node (implies _ here) inside

/-- The parts of an object are the types of its shape. -/
theorem forall_parts_object
    {shape : Shape Ty} :
    (∀ part ∈ (Ty.object occurrence shape).parts, kind part) ↔
      shape.All kind := by
  have index :
      (∀ part ∈ shape.index.toList.flatMap
          fun index => [index.key, index.value], kind part) ↔
        ∀ index, shape.index = some index →
          kind index.key ∧ kind index.value := by
    cases shape.index <;> simp
  constructor
  · intro each
    simp only [parts, List.forall_mem_append, List.forall_mem_map] at each
    exact ⟨each.1, fun found written => (index.mp each.2 found written).1,
      fun found written => (index.mp each.2 found written).2⟩
  · intro all
    simp only [parts, List.forall_mem_append, List.forall_mem_map]
    exact ⟨all.properties, index.mpr fun found written =>
      ⟨all.keys found written, all.values found written⟩⟩

/-- The parts of a function are its parameters, its rest and its result. -/
theorem forall_parts_function
    {signature : Signature Ty} :
    (∀ part ∈ (Ty.function occurrence signature).parts, kind part) ↔
      (∀ parameter ∈ signature.parameters, kind parameter.type) ∧
        kind signature.rest ∧ kind signature.result := by
  simp [parts, or_imp, forall_and]

/-- The parts of an application are its operands. -/
theorem forall_parts_generic
    {application : Application Ty} :
    (∀ part ∈ (Ty.generic occurrence application).parts, kind part) ↔
      kind application.base ∧
        ∀ argument ∈ application.arguments, kind argument := by
  simp [parts]

end Ty

end StructuralTyping
