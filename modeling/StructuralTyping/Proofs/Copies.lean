import StructuralTyping.Checker.Utility
import StructuralTyping.Proofs.Likeness

namespace StructuralTyping

/-!
# Copies of types

Two types are copies of each other when they have the same form. Nothing that
normalization and evaluation look at tells a type from its form, apart from the
comparison of types, and what they put together has the form of what it is put
together from. One equation per function says so.
-/

/-- The property without the occurrence numbers of its type. -/
def Property.form
    (property : Property Ty) :
    Property Ty :=
  { property with type := property.type.form }

@[inherit_doc Property.form]
def Parameter.form
    (parameter : Parameter Ty) :
    Parameter Ty :=
  { parameter with type := parameter.type.form }

@[inherit_doc Property.form]
def IndexSignature.form
    (index : IndexSignature Ty) :
    IndexSignature Ty :=
  { key := index.key.form, value := index.value.form }

/-- The shape without the occurrence numbers of its types. -/
def Shape.form
    (shape : Shape Ty) :
    Shape Ty :=
  { properties := shape.properties.map Property.form
    index := shape.index.map IndexSignature.form }

@[inherit_doc Shape.form]
def Signature.form
    (signature : Signature Ty) :
    Signature Ty :=
  { parameters := signature.parameters.map Parameter.form
    rest := signature.rest.form
    result := signature.result.form
    method := signature.method }

@[inherit_doc Shape.form]
def Application.form
    (application : Application Ty) :
    Application Ty :=
  { utility := application.utility
    base := application.base.form
    arguments := application.arguments.map Ty.form }

/-- Copies of a property agree in all but the occurrences in their types. -/
theorem Property.form_eq_iff
    {property other : Property Ty} :
    property.form = other.form ↔
      property.name = other.name ∧
        property.type.form = other.type.form ∧
        property.optional = other.optional ∧
        property.readonly = other.readonly := by
  simp [form]

@[inherit_doc Property.form_eq_iff]
theorem Parameter.form_eq_iff
    {parameter other : Parameter Ty} :
    parameter.form = other.form ↔
      parameter.name = other.name ∧
        parameter.type.form = other.type.form ∧
        parameter.optional = other.optional := by
  simp [form]

@[inherit_doc Property.form_eq_iff]
theorem IndexSignature.form_eq_iff
    {index other : IndexSignature Ty} :
    index.form = other.form ↔
      index.key.form = other.key.form ∧
        index.value.form = other.value.form := by
  simp [form]

/-- Copies of a shape have copies of its properties and of its index. -/
theorem Shape.form_eq_iff
    {shape other : Shape Ty} :
    shape.form = other.form ↔
      shape.properties.map Property.form =
          other.properties.map Property.form ∧
        shape.index.map IndexSignature.form =
          other.index.map IndexSignature.form := by
  simp [form]

/-- Copies of a signature have copies of its parts. -/
theorem Signature.form_eq_iff
    {signature other : Signature Ty} :
    signature.form = other.form ↔
      signature.parameters.map Parameter.form =
          other.parameters.map Parameter.form ∧
        signature.rest.form = other.rest.form ∧
        signature.result.form = other.result.form ∧
        signature.method = other.method := by
  simp [form]

/-- Copies of an application apply the same utility to copies. -/
theorem Application.form_eq_iff
    {application other : Application Ty} :
    application.form = other.form ↔
      application.utility = other.utility ∧
        application.base.form = other.base.form ∧
        application.arguments.map Ty.form = other.arguments.map Ty.form := by
  simp [form]

namespace Ty

variable {type : Ty}

@[simp] theorem form_absent :
    absent.form = absent := by
  rfl

@[simp] theorem form_primitive :
    (primitive kind).form = primitive kind := by
  rfl

@[simp] theorem form_named :
    (named reference).form = named reference := by
  rfl

@[simp] theorem form_literal :
    (literal occurrence value).form = literal none value := by
  rfl

@[simp] theorem form_object :
    (object occurrence shape).form = object none shape.form := by
  have index : formIndex shape.index = shape.index.map IndexSignature.form := by
    cases shape.index <;> rfl
  simp only [form, formProperties_eq_map, index]
  rfl

@[simp] theorem form_array :
    (array occurrence element readonly).form =
      array none element.form readonly := by
  rfl

@[simp] theorem form_tuple :
    (tuple occurrence elements readonly).form =
      tuple none (elements.map form) readonly := by
  simp only [form, formAll_eq_map]

@[simp] theorem form_function :
    (function occurrence signature).form = function none signature.form := by
  simp only [form, formParameters_eq_map]
  rfl

@[simp] theorem form_union
    {members : List Ty} :
    (union occurrence members).form = union none (members.map form) := by
  simp only [form, formAll_eq_map]

@[simp] theorem form_intersection
    {members : List Ty} :
    (intersection occurrence members).form =
      intersection none (members.map form) := by
  simp only [form, formAll_eq_map]

@[simp] theorem form_generic :
    (generic occurrence application).form =
      generic none application.form := by
  simp only [form, formAll_eq_map]
  rfl

@[simp] theorem isPrimitive_form :
    type.form.isPrimitive kind = type.isPrimitive kind := by
  cases type <;> simp [isPrimitive]

@[simp] theorem isNullish_form :
    type.form.isNullish = type.isNullish := by
  simp [isNullish]

@[simp] theorem isNever_form :
    type.form.isNever = type.isNever := by
  cases type <;> simp [isNever, isPrimitive]

@[simp] theorem isReference_form :
    type.form.isReference = type.isReference := by
  cases type <;> simp [isReference]

@[simp] theorem isUnion_form :
    type.form.isUnion = type.isUnion := by
  cases type <;> simp [isUnion]

@[simp] theorem isAtom_form :
    type.form.isAtom = type.isAtom := by
  cases type <;> simp [isAtom]

@[simp] theorem isObjectLike_form :
    type.form.isObjectLike = type.isObjectLike := by
  cases type <;> simp [isObjectLike]

@[simp] theorem hasBase_form :
    type.form.hasBase kind = type.hasBase kind := by
  cases type <;> simp [hasBase]

theorem members_form :
    type.form.members = type.members.map form := by
  cases type <;> simp [members]

theorem parts_form :
    type.form.parts = type.parts.map form := by
  cases type with
  | object occurrence shape =>
      cases index : shape.index <;>
        simp [parts, Shape.form, Property.form, IndexSignature.form, index,
          Function.comp_def]
  | function occurrence signature =>
      simp [parts, Signature.form, Parameter.form, Function.comp_def]
  | generic occurrence application =>
      simp [parts, Application.form]
  | _ => simp [parts]

theorem optional_form :
    type.form.optional = type.optional.form := by
  have undefineds :
      type.form.members.any (isPrimitive · .undefined) =
        type.members.any (isPrimitive · .undefined) := by
    simp [members_form, List.any_map, Function.comp_def]
  unfold optional
  rw [undefineds]
  split
  · rfl
  · simp [ofUnion, members_form]

theorem orElse_form
    {other : Ty} :
    type.form.orElse other.form = (type.orElse other).form := by
  cases type <;> simp [orElse]

theorem nonNullable_form :
    type.form.nonNullable = type.nonNullable.form := by
  unfold nonNullable
  rw [isNullish_form]
  split
  · rfl
  · cases type <;> simp [ofUnion, List.filter_map, Function.comp_def]

end Ty

section Lists

variable {types : List Ty}

/-- What is asked of the forms of some types is asked of the types. -/
theorem any_map_form
    {holds : Ty → Bool}
    (same : ∀ type, holds type.form = holds type) :
    (types.map Ty.form).any holds = types.any holds := by
  rw [List.any_map]
  congr 1
  funext type
  exact same type

/-- The forms of the types that are kept are the forms that are kept. -/
theorem filter_map_form
    {holds : Ty → Bool}
    (same : ∀ type, holds type.form = holds type) :
    (types.map Ty.form).filter holds = (types.filter holds).map Ty.form := by
  rw [List.filter_map]
  congr 2
  funext type
  exact same type

theorem find?_map_form
    {holds : Ty → Bool}
    (same : ∀ type, holds type.form = holds type) :
    (types.map Ty.form).find? holds = (types.find? holds).map Ty.form := by
  rw [List.find?_map]
  congr 2
  funext type
  exact same type

theorem flattenUnion_form :
    flattenUnion (types.map Ty.form) = (flattenUnion types).map Ty.form := by
  simp [flattenUnion, List.flatMap_map, List.map_flatMap, Ty.members_form]

theorem flattenIntersection_form :
    flattenIntersection (types.map Ty.form) =
      (flattenIntersection types).map Ty.form := by
  unfold flattenIntersection
  rw [List.flatMap_map, List.map_flatMap]
  congr 1
  funext type
  cases type <;> simp

theorem choices_form :
    choices (types.map Ty.form) = (choices types).map (List.map Ty.form) := by
  induction types with
  | nil =>
      rfl
  | cons type rest inductionHypothesis =>
      simp [choices, inductionHypothesis, Ty.members_form, List.flatMap_map,
        List.map_flatMap, Function.comp_def]

theorem productTooLarge_form :
    productTooLarge size (types.map Ty.form) = productTooLarge size types := by
  induction types generalizing size with
  | nil =>
      rfl
  | cons type rest inductionHypothesis =>
      simp [productTooLarge, inductionHypothesis, Ty.members_form]

theorem distribute?_form :
    distribute? (types.map Ty.form) =
      (distribute? types).map (List.map (List.map Ty.form)) := by
  unfold distribute?
  rw [any_map_form fun _ => Ty.isUnion_form, productTooLarge_form, choices_form]
  split <;> rfl

theorem literalMembers_form :
    literalMembers (types.map Ty.form) =
      (literalMembers types).map Ty.form := by
  apply filter_map_form
  intro type
  cases type <;> simp

theorem primitiveMembers_form :
    primitiveMembers (types.map Ty.form) = primitiveMembers types := by
  unfold primitiveMembers
  rw [List.filterMap_map]
  congr 1
  funext type
  cases type <;> simp

theorem meetLiterals_form
    {current : Option Ty} :
    meetLiterals (current.map Ty.form) (types.map Ty.form) =
      (meetLiterals current types).map (Option.map Ty.form) := by
  induction types generalizing current with
  | nil =>
      rfl
  | cons type rest inductionHypothesis =>
      have further := @inductionHypothesis (some type)
      cases current with
      | none =>
          exact further
      | some current =>
          cases current <;> cases type <;> simp only [meetLiterals,
            List.map_cons, Option.map_some, Ty.form_literal, Option.map_none,
            Ty.form_absent, Ty.form_primitive, Ty.form_named, Ty.form_object,
            Ty.form_array, Ty.form_tuple, Ty.form_function, Ty.form_union,
            Ty.form_intersection, Ty.form_generic]
          split
          · exact further
          · rfl

theorem replaceAtoms_form
    {atom : Ty} :
    replaceAtoms atom.form (types.map Ty.form) =
      (replaceAtoms atom types).map Ty.form := by
  induction types with
  | nil =>
      rfl
  | cons type rest inductionHypothesis =>
      simp only [List.map_cons, replaceAtoms, Ty.isAtom_form]
      split
      · rw [List.map_cons, filter_map_form]
        simp
      · rw [inductionHypothesis, List.map_cons]

theorem reduceAtoms_form :
    reduceAtoms (types.map Ty.form) =
      (reduceAtoms types).map (List.map Ty.form) := by
  have literals := @meetLiterals_form (literalMembers types) none
  rw [← literalMembers_form, Option.map_none] at literals
  unfold reduceAtoms
  rw [literals, primitiveMembers_form, any_map_form fun _ => Ty.isObjectLike_form]
  generalize meetLiterals none (literalMembers types) = literal,
    primitiveMembers types = kinds, types.any Ty.isObjectLike = objects
  cases literal with
  | none =>
      rfl
  | some literal =>
      dsimp only [Option.map_some, Option.bind_eq_bind, Option.bind_some]
      cases meetPrimitives kinds with
      | none =>
          rfl
      | some kind =>
          dsimp only [Option.bind_some]
          cases literal with
          | none =>
              cases kind with
              | none =>
                  simp
              | some kind =>
                  dsimp only [Option.map_none]
                  split
                  · rfl
                  · split
                    · rfl
                    · exact congrArg some
                        (@replaceAtoms_form types (.primitive kind))
          | some literal =>
              cases kind with
              | none =>
                  dsimp only [Option.map_some]
                  split
                  · rfl
                  · exact congrArg some replaceAtoms_form
              | some kind =>
                  simp only [Option.map_some, Ty.hasBase_form]
                  split
                  · rfl
                  · exact congrArg some replaceAtoms_form

theorem shapesOf_form :
    NormalPass.shapesOf (types.map Ty.form) =
      (NormalPass.shapesOf types).map Shape.form := by
  unfold NormalPass.shapesOf
  rw [List.filterMap_map, List.map_filterMap]
  congr 1
  funext type
  cases type <;> simp

theorem replaceObjects_form
    {merged : Ty} :
    NormalPass.replaceObjects merged.form (types.map Ty.form) =
      (NormalPass.replaceObjects merged types).map Ty.form := by
  induction types with
  | nil =>
      rfl
  | cons type rest inductionHypothesis =>
      cases type with
      | object occurrence shape =>
          simp only [List.map_cons, Ty.form_object, NormalPass.replaceObjects]
          rw [filter_map_form]
          intro other
          cases other <;> simp
      | _ =>
          simpa [NormalPass.replaceObjects] using inductionHypothesis

end Lists

namespace Shape

variable {shape : Shape Ty}

theorem property?_form :
    shape.form.property? name = (shape.property? name).map Property.form := by
  unfold property? form
  rw [List.find?_map]
  rfl

/-- Replacing the first property of a name replaces it in the form. -/
theorem replace_form
    {properties : List (Property Ty)}
    (first :
      properties.find? (fun property => property.name == existing.name) =
        some existing) :
    (properties.map Property.form).replace existing.form merged.form =
      (properties.replace existing merged).map Property.form := by
  induction properties with
  | nil =>
      rfl
  | cons property rest inductionHypothesis =>
      rw [List.find?_cons] at first
      split at first
      · cases first
        simp
      · next differs =>
        have other : (existing == property) = false := by
          by_contra same
          rw [Bool.not_eq_false, beq_iff_eq] at same
          simp [same] at differs
        have otherForm : (existing.form == property.form) = false := by
          by_contra same
          rw [Bool.not_eq_false, beq_iff_eq] at same
          have sameName := congrArg Property.name same
          change existing.name = property.name at sameName
          simp [sameName] at differs
        simp [List.replace_cons, other, otherForm, inductionHypothesis first]

theorem pick_form :
    shape.form.pick keys = (shape.pick keys).form := by
  unfold pick form
  rw [List.filter_map]
  rfl

theorem without_form :
    shape.form.without keys = (shape.without keys).form := by
  unfold without form
  rw [List.filter_map]
  rfl

/-- A change that leaves types alone changes the form. -/
theorem mapProperties_form
    {change : Property Ty → Property Ty}
    (same : ∀ property, change property.form = (change property).form) :
    shape.form.mapProperties change = (shape.mapProperties change).form := by
  simp [mapProperties, form, Function.comp_def, same]

/-- Changing copies in a way that leaves types alone gives copies. -/
theorem mapProperties_of_form
    {shape other : Shape Ty}
    {change : Property Ty → Property Ty}
    (sameShape : shape.form = other.form)
    (same : ∀ property, change property.form = (change property).form) :
    (shape.mapProperties change).form = (other.mapProperties change).form := by
  rw [← mapProperties_form same, sameShape, mapProperties_form same]

end Shape

theorem Signature.parameterTypes_form
    {signature : Signature Ty} :
    signature.form.parameterTypes =
      signature.parameterTypes.map Ty.form := by
  unfold parameterTypes form
  rw [List.map_map, List.map_map]
  congr 1
  funext parameter
  simp only [Function.comp_apply, Parameter.form, Ty.optional_form]
  split <;> rfl

/-- Two nodes of the same kind whose parts have the same forms. -/
inductive Ty.Copied :
    Ty →
    Ty →
    Prop
  | absent :
      Copied .absent .absent
  | primitive :
      Copied (.primitive kind) (.primitive kind)
  | literal :
      Copied (.literal i value) (.literal j value)
  | named :
      Copied (.named reference) (.named reference)
  | object {shape other : Shape Ty} :
      shape.form = other.form →
      Copied (.object i shape) (.object j other)
  | array :
      element.form = other.form →
      Copied (.array i element readonly) (.array j other readonly)
  | tuple :
      elements.map Ty.form = others.map Ty.form →
      Copied (.tuple i elements readonly) (.tuple j others readonly)
  | function {signature other : Signature Ty} :
      signature.form = other.form →
      Copied (.function i signature) (.function j other)
  | union {members others : List Ty} :
      members.map Ty.form = others.map Ty.form →
      Copied (.union i members) (.union j others)
  | intersection {members others : List Ty} :
      members.map Ty.form = others.map Ty.form →
      Copied (.intersection i members) (.intersection j others)
  | generic {application other : Application Ty} :
      application.form = other.form →
      Copied (.generic i application) (.generic j other)

/-- Types of the same form are nodes of the same kind. -/
theorem Ty.copied_of_form
    {type copy : Ty}
    (same : type.form = copy.form) :
    Copied type copy := by
  cases type <;> cases copy <;>
    simp only [form_absent, form_primitive, form_named, form_literal,
      form_object, form_array, form_tuple, form_function, form_union,
      form_intersection, form_generic, reduceCtorEq, Ty.primitive.injEq,
      Ty.named.injEq, Ty.literal.injEq, Ty.object.injEq, Ty.array.injEq,
      Ty.tuple.injEq, Ty.function.injEq, Ty.union.injEq, Ty.intersection.injEq,
      Ty.generic.injEq, true_and] at same
  case absent.absent => exact .absent
  case primitive.primitive => exact same ▸ .primitive
  case literal.literal => exact same ▸ .literal
  case named.named => exact same ▸ .named
  case object.object => exact .object same
  case array.array => exact same.2 ▸ .array same.1
  case tuple.tuple => exact same.2 ▸ .tuple same.1
  case function.function => exact .function same
  case union.union => exact .union same
  case intersection.intersection => exact .intersection same
  case generic.generic => exact .generic same

/-- Each part of a copy has the form of a part of the type. -/
theorem Ty.exists_part_of_form
    {type copy part : Ty}
    (same : type.form = copy.form)
    (inside : part ∈ copy.parts) :
    ∃ original ∈ type.parts, original.form = part.form := by
  have parts : type.parts.map Ty.form = copy.parts.map Ty.form := by
    rw [← Ty.parts_form, same, Ty.parts_form]
  obtain ⟨original, inType, samePart⟩ :=
    exists_related_left (forall₂_of_map_eq parts) inside
  exact ⟨original, inType, samePart⟩

/-- What holds of every node of a type holds of every node of its copies. -/
theorem Ty.Every.copy
    {kind : Ty → Prop}
    {type copy : Ty}
    (invariant :
      ∀ {first second : Ty}, first.form = second.form → kind first → kind second)
    (every : type.Every kind)
    (same : type.form = copy.form) :
    copy.Every kind := by
  induction every generalizing copy with
  | node here _ inductionHypothesis =>
      apply Ty.Every.node (invariant same here)
      intro part inside
      obtain ⟨original, inType, samePart⟩ := Ty.exists_part_of_form same inside
      exact inductionHypothesis original inType samePart

/-- The property names of copies are the same. -/
theorem Shape.names_of_form
    {shape other : Shape Ty}
    (same : shape.form = other.form) :
    shape.names = other.names := by
  have names (shape : Shape Ty) : shape.form.names = shape.names := by
    simp [names, form, Property.form, Function.comp_def]
  rw [← names shape, same, names other]

/-- Copies of tidy types are tidy. -/
theorem Ty.Tidy.copy
    {type copy : Ty}
    (tidy : type.Tidy)
    (same : type.form = copy.form) :
    copy.Tidy := by
  induction type using Ty.partsInduction generalizing copy with
  | node type inductionHypothesis =>
  have each : ∀ part ∈ copy.parts, part.Tidy := by
    intro part inside
    obtain ⟨original, inType, samePart⟩ := Ty.exists_part_of_form same inside
    exact inductionHypothesis original inType (tidy.part inType) samePart
  cases Ty.copied_of_form same with
  | absent => exact .absent
  | primitive => exact .primitive
  | literal =>
      cases tidy with
      | literal equals => exact .literal equals
  | named => exact .named
  | object sameShape =>
      cases tidy with
      | object names _ _ _ =>
          have all := forall_parts_object.mp each
          rw [Shape.names_of_form sameShape] at names
          exact .object names all.properties all.keys all.values
  | array =>
      exact .array (each _ List.mem_cons_self)
  | tuple =>
      exact .tuple each
  | function =>
      obtain ⟨parameters, rest, result⟩ := forall_parts_function.mp each
      exact .function parameters rest result
  | union =>
      exact .union each
  | intersection =>
      exact .intersection each
  | generic =>
      obtain ⟨base, arguments⟩ := forall_parts_generic.mp each
      exact .generic base arguments

/-- Copies of a type that can be told apart can be told apart. -/
theorem Arena.Identifies.copy
    {arena : Arena}
    {type copy : Ty}
    (identifies : arena.Identifies type)
    (same : type.form = copy.form) :
    arena.Identifies copy := by
  refine ⟨identifies.tidy.copy same, identifies.resolves.copy ?_ same⟩
  intro first second same resolves isNamed
  cases Ty.copied_of_form same with
  | named => exact resolves isNamed
  | _ => cases isNamed

end StructuralTyping
