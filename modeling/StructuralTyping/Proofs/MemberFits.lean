import StructuralTyping.Proofs.WidenedTargets

namespace StructuralTyping

/-!
# How the members of a source fit an object

An object accepts a source whose members fit its own: each property is there or
may be left out, what is there is accepted, and an index signature accepts the
properties that it governs. What a comparison of members answers is decided by
its forms: it is positive only if they admit each other, and whenever they
accept each other in every comparison.
-/

open Stateful Relating

/-- An answer that is positive only under one condition, and under another. -/
structure Decided
    (answer : Bool)
    (necessary sufficient : Prop) :
    Prop where
  only : answer = true → necessary
  whenever : sufficient → answer = true

namespace Decided

/-- What fails needs no reason where nothing was sufficient. -/
theorem refused
    (never : ¬ sufficient) :
    Decided false necessary sufficient :=
  ⟨Bool.noConfusion, fun holds => absurd holds never⟩

/-- What succeeds was sufficient where something was necessary. -/
theorem accepted
    (holds : necessary) :
    Decided true necessary sufficient :=
  ⟨fun _ => holds, fun _ => rfl⟩

/-- Conditions may be replaced by weaker and by stronger ones. -/
theorem imp
    (decided : Decided answer necessary sufficient)
    (weaker : necessary → needed)
    (stronger : enough → sufficient) :
    Decided answer needed enough :=
  ⟨fun positive => weaker (decided.only positive),
    fun holds => decided.whenever (stronger holds)⟩

end Decided

namespace Relating

/-- Items that are compared one by one all hold if each of them is decided so. -/
theorem decided_allOf_map
    {items : List α}
    {forms : List β}
    {visit : α → Relating Bool}
    {related : α → β → Prop}
    {necessary sufficient : β → Prop}
    [∀ item, Accountable (visit item)]
    (all : List.Forall₂ related items forms)
    (each :
      ∀ item ∈ items, ∀ form, related item form →
        ∀ answer, Settles (visit item) answer →
          Decided answer (necessary form) (sufficient form))
    (settles : Settles (allOf (items.map visit)) answer) :
    Decided answer (∀ form ∈ forms, necessary form)
      (∀ form ∈ forms, sufficient form) := by
  refine ⟨?_, fun enough => ?_⟩
  · rintro rfl form inForms
    obtain ⟨item, inItems, beside⟩ := exists_related_left all inForms
    exact (each item inItems form beside true
      (settles_of_allOf_map settles item inItems)).only rfl
  · refine Succeeds.allOf_map (fun item inItems other visits => ?_) answer
      settles
    obtain ⟨form, inForms, beside⟩ := exists_related_right all inItems
    exact (each item inItems form beside other visits).whenever
      (enough form inForms)

end Relating

namespace Checker

variable {checker : Checker}

/-- A comparison is decided by the forms that the types reach. -/
theorem compareWithin_decided
    (reachesSource : Reaches checker source form)
    (reachesTarget : Reaches checker target other)
    (apart : Apart checker assumptions source target)
    (settles :
      Settles (checker.compareWithin remaining assumptions source target)
        answer) :
    Decided answer (checker.Admits form other) (checker.Accepts form other) :=
  ⟨fun positive =>
      .holds reachesSource reachesTarget apart (positive ▸ settles),
    fun accepts => accepts reachesSource reachesTarget apart answer settles⟩

end Checker

/-- A form, with `undefined` taken up where a property may be left out. -/
def Arena.orUndefined
    (arena : Arena)
    (optional : Bool)
    (form : Ty) :
    Ty :=
  if optional then
    arena.joinMembers (form.members ++ [.undefined])
  else
    form

/-- What a property that may be left out is compared with reaches its form. -/
theorem Reaches.orUndefined
    {checker : Checker}
    (reaches : Reaches checker type form)
    (optional : Bool) :
    Reaches checker (if optional = true then type.optional else type)
      (checker.arena.orUndefined optional form) := by
  cases optional with
  | false => exact reaches
  | true => exact reaches.optional

/-- Shapes whose parts are related, with the same keys. -/
structure RelatedShape
    (related : Ty → Ty → Prop)
    (first second : Shape Ty) :
    Prop where
  properties :
    List.Forall₂ (RelatedProperty related) first.properties second.properties
  index :
    Option.Rel
      (fun one other => one.key = other.key ∧ related one.value other.value)
      first.index second.index

/-- The types that the members of a shape have. -/
def Shape.types
    (shape : Shape Ty) :
    List Ty :=
  shape.properties.map Property.type ++
    shape.index.toList.map IndexSignature.value

namespace Shape

variable {shape : Shape Ty}

/-- The type of a property is one of the types of the members. -/
theorem type_mem_types
    (member : property ∈ shape.properties) :
    property.type ∈ shape.types :=
  List.mem_append_left _ (List.mem_map_of_mem member)

/-- The value of an index signature is one of the types of the members. -/
theorem value_mem_types
    {index : IndexSignature Ty}
    (written : shape.index = some index) :
    index.value ∈ shape.types :=
  List.mem_append_right _ (by simp [written])

end Shape

section Fits

variable
  (arena : Arena)
  (related : Ty → Ty → Prop)

/-- A property of an object fits what a source exposes under its name. -/
inductive FitsProperty :
    Option (Property Ty) →
    Property Ty →
    Prop
  | missing
      (optional : property.optional = true) :
      FitsProperty none property
  | found
      (kept : actual.optional = true → property.optional = true)
      (type :
        related actual.type
          (arena.orUndefined property.optional property.type)) :
      FitsProperty (some actual) property

/-- The members that a source exposes fit a shape. -/
structure FitsMembers
    (members shape : Shape Ty) :
    Prop where
  properties :
    ∀ property ∈ shape.properties,
      FitsProperty arena related (members.property? property.name) property
  governed :
    ∀ index, shape.index = some index →
      ∀ property ∈ members.properties,
        indexApplies index.key property.name = true →
        related property.type index.value
  indexed :
    ∀ index, shape.index = some index →
      ∀ actual, members.index = some actual →
        related actual.value index.value

end Fits

namespace RelationStep

variable
  {checker : Checker}
  {step : RelationStep}
  {admits accepts : Ty → Ty → Prop}
  {members membersForm shape shapeForm : Shape Ty}
  (exposed : RelatedShape (Reaches checker) members membersForm)
  (parts :
    ∀ {part form other otherForm answer},
      part ∈ members.types →
      other ∈ shape.types ∨ other.isCompound = true →
      Reaches checker part form →
      Reaches checker other otherForm →
      Settles (step.compare assumptions part other) answer →
      Decided answer (admits form otherForm) (accepts form otherForm))

include exposed parts

/-- A property is decided by what the source exposes under its name. -/
theorem toProperty_decided
    (inside : property ∈ shape.properties)
    (reaches : RelatedProperty (Reaches checker) property form)
    (settles :
      Settles (step.toProperty assumptions source target members property)
        answer) :
    Decided answer
      (FitsProperty checker.arena admits (membersForm.property? form.name) form)
      (FitsProperty checker.arena accepts (membersForm.property? form.name)
        form) := by
  have found := Parallel.property? exposed.properties property.name
  have known :
      ∀ actual, members.property? property.name = some actual →
        actual.type ∈ members.types := fun actual found =>
    List.mem_append_left _
      (List.mem_map_of_mem (Shape.mem_of_property? found).1)
  unfold toProperty at settles
  rw [← reaches.name]
  generalize members.property? property.name = actual at found settles known
  generalize membersForm.property? property.name = actualForm at found ⊢
  cases found with
  | none =>
      dsimp only at settles
      split at settles
      · next optional =>
        cases settles.of_pure
        exact .accepted (.missing (reaches.optional ▸ optional))
      · next required =>
        cases settles_fail settles
        refine .refused ?_
        rintro ⟨optional⟩
        exact required (reaches.optional ▸ optional)
  | @some actual actualForm shared =>
      dsimp only at settles
      split at settles
      · next lost =>
        cases settles_fail settles
        refine .refused ?_
        rintro (_ | ⟨kept, -⟩)
        rw [← shared.optional, ← reaches.optional] at kept
        rw [Bool.and_eq_true] at lost
        exact absurd lost.2 (by simp [kept lost.1])
      · next kept =>
        have kept : actualForm.optional = true → form.optional = true := by
          rw [← shared.optional, ← reaches.optional]
          simpa using kept
        have wanted :
            (if property.optional = true then property.type.optional
              else property.type) ∈ shape.types ∨
              (if property.optional = true then property.type.optional
                else property.type).isCompound = true := by
          have written : property.type ∈ shape.types :=
            List.mem_append_left _ (List.mem_map_of_mem inside)
          split
          · unfold Ty.optional
            split
            · exact .inl written
            · exact .inr rfl
          · exact .inl written
        have decided :=
          parts (known actual rfl) wanted shared.type
            (reaches.type.orUndefined property.optional)
            (settles_orFail settles)
        rw [reaches.optional] at decided
        refine decided.imp (.found kept) ?_
        rintro (_ | ⟨-, type⟩)
        exact type

/-- An index signature is decided by the members that it governs. -/
theorem toIndex_decided
    [step.compare.Reports]
    {index form : IndexSignature Ty}
    (key : index.key = form.key)
    (inside : index.value ∈ shape.types)
    (reaches : Reaches checker index.value form.value)
    (settles :
      Settles (step.toIndex assumptions members index) answer) :
    Decided answer
      ((∀ property ∈ membersForm.properties,
          indexApplies form.key property.name = true →
          admits property.type form.value) ∧
        ∀ actual, membersForm.index = some actual →
          admits actual.value form.value)
      ((∀ property ∈ membersForm.properties,
          indexApplies form.key property.name = true →
          accepts property.type form.value) ∧
        ∀ actual, membersForm.index = some actual →
          accepts actual.value form.value) := by
  unfold toIndex at settles
  dsimp only at settles
  obtain ⟨fits, governs, settles⟩ :=
    @Settles.of_bind _ _ _ _ _ _ (fun fits => by
      split
      · split <;> infer_instance
      · infer_instance) _ settles
  have governed :
      List.Forall₂ (RelatedProperty (Reaches checker))
        (members.properties.filter fun property =>
          indexApplies index.key property.name)
        (membersForm.properties.filter fun property =>
          indexApplies form.key property.name) :=
    List.rel_filter (fun property other shared => by
      dsimp only
      rw [key, shared.name]) exposed.properties
  have decided :=
    decided_allOf_map governed
      (fun property inFilter other shared answer visits =>
        parts
          (List.mem_append_left _
            (List.mem_map_of_mem (List.mem_filter.mp inFilter).1))
          (.inl inside) shared.type reaches (settles_orFail visits)) governs
  have spread {wanted : Ty → Ty → Prop} :
      (∀ property ∈ membersForm.properties.filter fun property =>
          indexApplies form.key property.name,
        wanted property.type form.value) ↔
      ∀ property ∈ membersForm.properties,
        indexApplies form.key property.name = true →
        wanted property.type form.value := by
    simp only [List.mem_filter, and_imp]
  rw [spread, spread] at decided
  have indexed := exposed.index
  cases fits with
  | false =>
      cases settles.of_pure
      exact .refused fun enough =>
        Bool.noConfusion (decided.whenever enough.1)
  | true =>
  rw [if_pos rfl] at settles
  have known :
      ∀ actual, members.index = some actual → actual.value ∈ members.types :=
    fun actual written => List.mem_append_right _ (by simp [written])
  generalize members.index = actual at indexed settles known
  generalize membersForm.index = actualForm at indexed ⊢
  cases indexed with
  | none =>
      cases settles.of_pure
      exact .accepted ⟨decided.only rfl, fun _ missing => by cases missing⟩
  | some shared =>
      have valued :=
        parts (known _ rfl) (.inl inside) shared.2 reaches
          (settles_orFail settles)
      refine valued.imp (fun admits => ⟨decided.only rfl, ?_⟩)
        fun enough => enough.2 _ rfl
      rintro _ ⟨⟩
      exact admits

/-- Members are decided by the properties and the index signature they face. -/
theorem toMembers_decided
    [step.compare.Reports]
    (shaped : RelatedShape (Reaches checker) shape shapeForm)
    (settles :
      Settles (step.toMembers assumptions source target members shape)
        answer) :
    Decided answer (FitsMembers checker.arena admits membersForm shapeForm)
      (FitsMembers checker.arena accepts membersForm shapeForm) := by
  unfold toMembers at settles
  obtain ⟨fits, visits, settles⟩ :=
    @Settles.of_bind _ _ _ _ _ _ (fun fits => by
      split
      · split <;> infer_instance
      · infer_instance) _ settles
  have decided :=
    decided_allOf_map shaped.properties
      (fun property inside form shared answer visits =>
        toProperty_decided exposed parts inside shared visits) visits
  cases fits with
  | false =>
      cases settles.of_pure
      exact .refused fun enough =>
        Bool.noConfusion (decided.whenever enough.properties)
  | true =>
  rw [if_pos rfl] at settles
  have indexed := shaped.index
  have known :
      ∀ index, shape.index = some index → index.value ∈ shape.types :=
    fun index written => List.mem_append_right _ (by simp [written])
  generalize written : shape.index = index at indexed settles known
  generalize formed : shapeForm.index = indexForm at indexed
  cases indexed with
  | none =>
      cases settles.of_pure
      refine .accepted ⟨decided.only rfl, fun _ some => ?_, fun _ some => ?_⟩
      · cases formed.symm.trans some
      · cases formed.symm.trans some
  | @some index indexForm shared =>
      have valued :=
        toIndex_decided exposed parts shared.1 (known _ rfl) shared.2 settles
      refine valued.imp
        (fun admits => ⟨decided.only rfl, fun _ some => ?_, fun _ some => ?_⟩)
        fun enough => ⟨enough.governed _ formed, enough.indexed _ formed⟩
      · cases formed.symm.trans some
        exact admits.1
      · cases formed.symm.trans some
        exact admits.2

end RelationStep

/-- The members that a form exposes, if it has any. -/
def Arena.exposed
    (arena : Arena) :
    Ty →
    Option (Shape Ty)
  | .object _ shape => some shape
  | .array _ element _ =>
      some
        { properties := [{ name := "length", type := .number }]
          index := some { key := .number, value := element } }
  | .tuple _ elements readonly =>
      some
        { properties :=
            { name := "length"
              type := .ofLiteral (.number (Number.ofNat elements.length))
              readonly := true } ::
              positionProperties readonly 0 elements
          index :=
            some
              { key := .number
                value := arena.joinMembers (flattenUnion elements) } }
  | .primitive .string => some lengthShape
  | .primitive .number => some {}
  | .primitive .boolean => some {}
  | .literal _ (.string _) => some lengthShape
  | .literal _ _ => some {}
  | .function _ _ => some lengthShape
  | _ => none

/--
The shape that the parts of a shape reach. Its index signature has a primitive
as its key.
-/
structure ReachesShape
    (checker : Checker)
    (shape form : Shape Ty) :
    Prop where
  properties :
    List.Forall₂
      (fun before after : Property Ty =>
        after = { before with type := after.type } ∧
          Reaches checker before.type after.type)
      shape.properties form.properties
  index :
    Option.Rel
      (fun before after : IndexSignature Ty =>
        after.key = before.key ∧ (∃ kind, before.key = .primitive kind) ∧
          Reaches checker before.value after.value)
      shape.index form.index

/-- A type and its form, which may be an object with an index signature. -/
inductive ReachesOpen
    (checker : Checker) :
    Ty →
    Ty →
    Prop
  | closed
      (reaches : Reaches checker type form) :
      ReachesOpen checker type form
  | object
      {shape form : Shape Ty}
      (reaches : ReachesShape checker shape form) :
      ReachesOpen checker (.object node shape) (.ofShape form)

/-- The parts of a shape are related to those that they reach. -/
theorem ReachesShape.related
    {checker : Checker}
    {shape form : Shape Ty}
    (reaches : ReachesShape checker shape form) :
    RelatedShape (Reaches checker) shape form where
  properties :=
    reaches.properties.imp fun _ _ ⟨same, type⟩ =>
      ⟨(congrArg Property.name same).symm,
        (congrArg Property.optional same).symm, type⟩
  index :=
    optionRel_imp reaches.index fun _ _ _ _ ⟨key, _, value⟩ =>
      ⟨key.symm, value⟩

/-- An object whose parts reach forms has the shape of those forms. -/
theorem Reaches.shape
    {checker : Checker}
    {shape form : Shape Ty}
    (reaches : Reaches checker (.object node shape) (.object other form)) :
    ReachesShape checker shape form := by
  cases reaches with
  | object names properties distinct closed formClosed =>
      refine ⟨forall₂_and_zip names properties, ?_⟩
      rw [closed, formClosed]
      exact .none

/-- The types of members are parts of the object. -/
theorem Shape.mem_parts
    {shape : Shape Ty}
    (member : type ∈ shape.types) :
    type ∈ (Ty.object node shape).parts := by
  rcases List.mem_append.mp member with inProperties | inIndex
  · exact List.mem_append_left _ inProperties
  · refine List.mem_append_right _ ?_
    obtain ⟨index, written, rfl⟩ := List.mem_map.mp inIndex
    exact List.mem_flatMap.mpr ⟨index, written, by simp⟩

/-- The positions of a tuple have the types of its elements. -/
theorem map_type_positionProperties
    (readonly : Bool)
    (position : Nat)
    (elements : List Ty) :
    (positionProperties readonly position elements).map Property.type =
      elements := by
  induction elements generalizing position with
  | nil => rfl
  | cons element rest inductionHypothesis =>
      rw [positionProperties, List.map_cons, inductionHypothesis]

section Exposing

variable {checker : Checker}

/-- What forms join to is a form. -/
theorem joinMembers_again
    {forms : List Ty}
    (each : ∀ form ∈ forms, Reaches checker form form) :
    Reaches checker (checker.arena.joinMembers (flattenUnion forms))
      (checker.arena.joinMembers (flattenUnion forms)) := by
  generalize joined : checker.arena.joinMembers (flattenUnion forms) = result
  cases isNever : result.isPrimitive .never with
  | true =>
      rw [eq_of_isPrimitive isNever]
      exact .primitive (by simp) (by simp)
  | false =>
      refine (Reaches.again_of_joined (fun piece member => ?_) joined
        isNever).1
      obtain ⟨form, inForms, inForm⟩ := List.mem_flatMap.mp member
      exact (each form inForms).again_members.2 piece inForm

/-- The union of the elements of a tuple is the type of its positions. -/
theorem tupleElement_reaches
    {elements forms : List Ty}
    (length : forms.length = elements.length)
    (each :
      ∀ before after,
        (before, after) ∈ elements.zip forms →
        Reaches checker before after)
    (settles : Check.Settles (checker.tupleElement elements) result) :
    result = checker.arena.joinMembers (flattenUnion forms) ∧
      Reaches checker result result := by
  have same : result = checker.arena.joinMembers (flattenUnion forms) := by
    unfold Checker.tupleElement at settles
    split at settles
    · next empty =>
      rw [List.isEmpty_iff] at empty
      rw [empty, List.length_nil, List.length_eq_zero_iff] at length
      rw [length, Check.settles_pure.mp settles]
      rfl
    · exact Reaches.normalizesTo_union length
        (fun before after beside => (each before after beside).normalizesTo)
        false _ _ _
        (@settles_of_normalizeIn _ _ _ _ (checker.modeKeeping false) _ settles)
  refine ⟨same, same ▸ joinMembers_again fun form inForms => ?_⟩
  obtain ⟨element, -, reaches⟩ :=
    exists_related_left
      (List.forall₂_iff_zip.mpr ⟨length.symm, each _ _⟩) inForms
  exact reaches.again_members.1

/-- What a type exposes is related to what its form does, and met inside it. -/
theorem exposed_of_apparent
    (reaches : ReachesOpen checker source form)
    (simple : source.isCompound = false)
    (settles : Check.Settles (checker.apparent source) result) :
    Option.Rel
      (fun members forms =>
        RelatedShape (Reaches checker) members forms ∧
          ∀ part ∈ members.types, MetIn checker source part)
      result (checker.arena.exposed form) := by
  have numeric : Reaches checker .number .number :=
    .primitive (by simp) (by simp)
  have counted :
      RelatedShape (Reaches checker) lengthShape lengthShape ∧
        ∀ part ∈ lengthShape.types, MetIn checker source part :=
    ⟨⟨.cons ⟨rfl, rfl, numeric⟩ .nil, .none⟩,
      List.forall_mem_singleton.mpr (.inr (.inr numeric))⟩
  have nothing :
      RelatedShape (Reaches checker) {} {} ∧
        ∀ part ∈ ({} : Shape Ty).types, MetIn checker source part :=
    ⟨⟨.nil, .none⟩, fun part inside => by cases inside⟩
  have ofObject {node : Occurrence} {shape form : Shape Ty}
      (written : source = .object node shape)
      (shaped : ReachesShape checker shape form) :
      RelatedShape (Reaches checker) shape form ∧
        ∀ part ∈ shape.types, MetIn checker source part :=
    ⟨shaped.related, fun part inside =>
      .inl (written ▸ Shape.mem_parts inside)⟩
  unfold Checker.apparent at settles
  generalize checker.budget = budget at settles
  cases budget with
  | zero =>
      obtain ⟨_, run, _⟩ := settles
      cases run
  | succ budget =>
  unfold Checker.apparentWithin at settles
  cases reaches with
  | object shaped =>
      cases Check.settles_pure.mp settles
      exact .some (ofObject rfl shaped)
  | closed reaches =>
  cases reaches with
  | @primitive kind =>
      cases kind <;> cases Check.settles_pure.mp settles <;>
        first
          | exact .none
          | exact .some nothing
          | exact .some counted
  | @literal _ value =>
      cases value <;> cases Check.settles_pure.mp settles <;>
        first
          | exact .some nothing
          | exact .some counted
  | @object occurrence _ _ names properties distinct closed formClosed =>
      cases Check.settles_pure.mp settles
      exact .some (ofObject rfl
        (@Reaches.object _ occurrence _ _ names properties distinct closed
          formClosed).shape)
  | array element =>
      cases Check.settles_pure.mp settles
      refine .some ⟨⟨.cons ⟨rfl, rfl, numeric⟩ .nil, .some ⟨rfl, element⟩⟩, ?_⟩
      refine List.forall_mem_cons.mpr ⟨.inr (.inr numeric), ?_⟩
      exact List.forall_mem_singleton.mpr (.inl (List.mem_singleton_self _))
  | @tuple _ _ elements forms length each =>
      obtain ⟨element, joins, settles⟩ := Check.settles_bind.mp settles
      cases Check.settles_pure.mp settles
      obtain ⟨same, again⟩ := tupleElement_reaches length each joins
      have constant {count : Nat} :
          Reaches checker (.ofLiteral (.number (Number.ofNat count)))
            (.ofLiteral (.number (Number.ofNat count))) :=
        .literal (Literal.equal_self (Number.isNaN_ofNat count))
      refine .some ⟨⟨.cons ⟨rfl, rfl, ?_⟩ ?_, .some ⟨rfl, ?_⟩⟩, ?_⟩
      · dsimp only
        rw [length]
        exact constant
      · exact Parallel.positionProperties
          (List.forall₂_iff_zip.mpr ⟨length.symm, each _ _⟩) _ _
      · exact same ▸ again
      · rw [Shape.types, List.map_cons, map_type_positionProperties]
        refine List.forall_mem_append.mpr
          ⟨List.forall_mem_cons.mpr ⟨.inr (.inr constant), fun part inside =>
            .inl inside⟩, ?_⟩
        exact List.forall_mem_singleton.mpr (.inr (.inr again))
  | function =>
      cases Check.settles_pure.mp settles
      exact .some counted
  | union => cases simple
  | intersection => cases simple

end Exposing

/--
A form is accepted by an object: it is neither nullish nor `void`, and what it
exposes fits the shape unless that has no members.
-/
structure TakesObject
    (arena : Arena)
    (related : Ty → Ty → Prop)
    (form : Ty)
    (shape : Shape Ty) :
    Prop where
  valued : form.isNullish = false ∧ form.isPrimitive .void = false
  fits :
    shape.isEmpty = true ∨
      ∃ members,
        arena.exposed form = some members ∧
          FitsMembers arena related members shape

/-- A simple type is a primitive if its form is the same. -/
theorem ReachesOpen.isPrimitive
    {checker : Checker}
    (reaches : ReachesOpen checker source form)
    (simple : source.isCompound = false) :
    source.isPrimitive kind = form.isPrimitive kind := by
  cases reaches with
  | object => rfl
  | closed reaches =>
      cases reaches with
      | union => cases simple
      | intersection => cases simple
      | _ => rfl

namespace RelationStep

variable
  {checker : Checker}
  {step : RelationStep}
  [step.compare.Reports]

/-- Comparison with an object is decided by what the form of the source exposes. -/
theorem toObject_decided
    {shape shapeForm : Shape Ty}
    (sameChecker : step.checker = checker)
    (parts :
      ∀ {assumptions source target form other answer},
        Reaches checker source form →
        Reaches checker target other →
        Apart checker assumptions source target →
        Settles (step.compare assumptions source target) answer →
        Decided answer (checker.Admits form other)
          (checker.Accepts form other))
    (reaches : ReachesOpen checker source form)
    (simple : source.isCompound = false)
    (shaped : RelatedShape (Reaches checker) shape shapeForm)
    (apart : Apart checker assumptions source (.object node shape))
    (settles :
      Settles (step.toObject assumptions source (.object node shape) shape)
        answer) :
    Decided answer
      (TakesObject checker.arena checker.Admits form shapeForm)
      (TakesObject checker.arena checker.Accepts form shapeForm) := by
  have empty : shape.isEmpty = shapeForm.isEmpty := by
    obtain ⟨properties, index⟩ := shaped
    unfold Shape.isEmpty
    generalize shape.properties = written at properties
    generalize shapeForm.properties = formed at properties
    generalize shape.index = written at index
    generalize shapeForm.index = formed at index
    cases properties <;> cases index <;> rfl
  unfold toObject Ty.isNullish at settles
  simp only [reaches.isPrimitive simple] at settles
  split at settles
  · next refused =>
    cases settles_fail settles
    refine .refused ?_
    rintro ⟨valued, -⟩
    rw [Ty.isNullish] at valued
    simp [valued] at refused
  next valued =>
  have valued : form.isNullish = false ∧ form.isPrimitive .void = false := by
    rw [Ty.isNullish]
    simpa using valued
  split at settles
  · next nothing =>
    cases settles.of_pure
    exact .accepted ⟨valued, .inl (empty ▸ nothing)⟩
  next something =>
  rw [empty] at something
  obtain ⟨found, exposes, settles⟩ :=
    @Settles.of_bind _ _ _ _ _ _ (fun members => by
      cases members <;> (dsimp only; infer_instance)) _ settles
  have exposed :=
    exposed_of_apparent reaches simple (sameChecker ▸ exposes.of_lift)
  generalize formed : checker.arena.exposed form = members at exposed
  cases exposed with
  | none =>
      cases settles_fail settles
      refine .refused ?_
      rintro ⟨-, nothing | ⟨members, exposed, -⟩⟩
      · exact something nothing
      · cases formed.symm.trans exposed
  | @some found members exposed =>
  obtain ⟨related, met⟩ := exposed
  have decided {grown : Assumptions}
      (grows : grown.Extends assumptions source (.object node shape))
      (settles :
        Settles (step.toMembers grown source (.object node shape) found shape)
          answer) :
      Decided answer
        (TakesObject checker.arena checker.Admits form shapeForm)
        (TakesObject checker.arena checker.Accepts form shapeForm) := by
    have fit :
        Decided answer
          (FitsMembers checker.arena checker.Admits members shapeForm)
          (FitsMembers checker.arena checker.Accepts members shapeForm) := by
      refine toMembers_decided related ?_ shaped settles
      intro part form other otherForm answer inMembers wanted reaches
        otherReaches settles
      refine parts reaches otherReaches ?_ settles
      refine apart.inside simple rfl grows (met part inMembers) ?_
        reaches.isAbsent otherReaches.isAbsent
      exact wanted.imp Shape.mem_parts .inl
    refine fit.imp (fun fits => ⟨valued, .inr ⟨members, formed, fits⟩⟩) ?_
    rintro ⟨-, nothing | ⟨others, exposed, fits⟩⟩
    · exact absurd nothing something
    · cases formed.symm.trans exposed
      exact fits
  cases source with
  | object occurrence written =>
      have isObject : isObject (.object occurrence written) = true := rfl
      dsimp only at settles
      rw [if_pos isObject, apart.underComparison, if_neg (by simp)] at settles
      exact decided (fun pair member => (List.mem_cons.mp member).symm) settles
  | _ => exact decided (fun pair => .inl) settles

end RelationStep

end StructuralTyping
