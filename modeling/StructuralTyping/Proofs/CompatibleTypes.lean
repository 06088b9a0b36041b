import StructuralTyping.Proofs.MergedObjects
import StructuralTyping.Proofs.PlainForms

namespace StructuralTyping

/-!
# Types that have a meet

A form is the meet of itself with itself. Objects have a meet if the types of the
properties that they share do: the object that they are merged into.
-/

open Stateful Relating

section Exposed

variable
  {checker : Checker}
  {form : Ty}
  {members : Shape Ty}

/-- The types of the members of a form reach themselves. -/
theorem ReachesShape.again
    {shape form : Shape Ty}
    (reaches : ReachesShape checker shape form) :
    ∀ type ∈ form.types, Reaches checker type type := by
  intro type inside
  rcases List.mem_append.mp inside with inProperties | inIndex
  · obtain ⟨after, inForm, rfl⟩ := List.mem_map.mp inProperties
    obtain ⟨before, -, -, reaches⟩ :=
      exists_related_left reaches.properties inForm
    exact reaches.again_members.1
  · obtain ⟨after, written, rfl⟩ := List.mem_map.mp inIndex
    obtain ⟨before, -, -, -, reaches⟩ :=
      exists_optional_left reaches.index (by simpa using written)
    exact reaches.again_members.1

/-- An object that reaches a form has no repeated names and no index. -/
theorem Reaches.shape_closed
    {shape : Shape Ty}
    (reaches : Reaches checker (.object node shape) form) :
    shape.names.Nodup ∧ shape.index = none := by
  cases reaches with
  | object _ _ distinct closed => exact ⟨distinct, closed⟩

/-- What a form exposes reaches itself and has no intersections. -/
theorem exposed_known
    (reaches : ReachesOpen checker source form)
    (unmixed : form.Every Ty.Unmixed)
    (exposed : checker.arena.exposed form = some members) :
    ∀ type ∈ members.types,
      Reaches checker type type ∧ type.Every Ty.Unmixed := by
  have numeric :
      Reaches checker .number .number ∧ Ty.number.Every Ty.Unmixed :=
    ⟨.primitive (by simp) (by simp), .leaf rfl rfl⟩
  have counted :
      ∀ type ∈ lengthShape.types,
        Reaches checker type type ∧ type.Every Ty.Unmixed :=
    List.forall_mem_singleton.mpr numeric
  have nothing :
      ∀ type ∈ ({} : Shape Ty).types,
        Reaches checker type type ∧ type.Every Ty.Unmixed := nofun
  have ofShape {node : Occurrence} {shape form : Shape Ty}
      (shaped : ReachesShape checker shape form)
      (unmixed : (Ty.object node form).Every Ty.Unmixed) :
      ∀ type ∈ form.types,
        Reaches checker type type ∧ type.Every Ty.Unmixed :=
    fun type inside =>
      ⟨shaped.again type inside, unmixed.inside (Shape.mem_parts inside)⟩
  cases reaches with
  | object shaped =>
      cases exposed
      exact ofShape shaped unmixed
  | closed reaches =>
  have again := reaches.again_members.1
  cases form with
  | primitive kind =>
      cases kind <;> cases exposed <;> first | exact nothing | exact counted
  | literal _ value =>
      cases value <;> cases exposed <;> first | exact nothing | exact counted
  | object =>
      cases exposed
      exact ofShape again.shape unmixed
  | array =>
      cases exposed
      cases again with
      | array element =>
      refine List.forall_mem_cons.mpr ⟨numeric, ?_⟩
      exact List.forall_mem_singleton.mpr
        ⟨element, unmixed.inside (List.mem_singleton_self _)⟩
  | tuple _ elements =>
      cases exposed
      cases again with
      | tuple length each =>
      have known :
          ∀ element ∈ elements,
            Reaches checker element element ∧ element.Every Ty.Unmixed := by
        intro element inside
        exact ⟨each _ _ (mem_zip_self inside), unmixed.inside inside⟩
      have joined :
          Reaches checker (checker.arena.joinMembers (flattenUnion elements))
              (checker.arena.joinMembers (flattenUnion elements)) ∧
            (checker.arena.joinMembers (flattenUnion elements)).Every
              Ty.Unmixed := by
        refine ⟨joinMembers_again fun element inside => (known element inside).1,
          every_joinMembers (fun _ => rfl) (fun _ _ => rfl)
            (fun piece member => ?_) fun piece member => ?_⟩
        · obtain ⟨element, inside, inElement⟩ := List.mem_flatMap.mp member
          exact (known element inside).2.member inElement
        · obtain ⟨element, inside, inElement⟩ := List.mem_flatMap.mp member
          exact ((known element inside).1.again_members.2 piece inElement).2
      rw [Shape.types, List.map_cons, map_type_positionProperties]
      refine List.forall_mem_append.mpr ⟨List.forall_mem_cons.mpr
        ⟨⟨.literal (Literal.equal_self (Number.isNaN_ofNat _)), .leaf rfl rfl⟩,
          known⟩, ?_⟩
      exact List.forall_mem_singleton.mpr joined
  | function =>
      cases exposed
      exact counted
  | _ => cases exposed

end Exposed

namespace Shape

/-- A shape has no members if it has no property of any name and no index. -/
theorem isEmpty_iff
    {shape : Shape Ty} :
    shape.isEmpty = true ↔
      (∀ name, shape.property? name = none) ∧ shape.index = none := by
  rw [isEmpty, Bool.and_eq_true, List.isEmpty_iff, Option.isNone_iff_eq_none]
  refine and_congr_left fun _ => ⟨fun nothing name => ?_, fun missing => ?_⟩
  · rw [property?, nothing]
    rfl
  · refine List.eq_nil_iff_forall_not_mem.mpr fun property member => ?_
    exact List.find?_eq_none.mp (missing property.name) property member
      (beq_self_eq_true _)

end Shape

/-- A merged object has no members if neither of the two objects has some. -/
theorem MeetsShape.isEmpty_iff
    {checker : Checker}
    {first second met : Shape Ty}
    (meets : MeetsShape checker first second met) :
    met.isEmpty = true ↔ first.isEmpty = true ∧ second.isEmpty = true := by
  obtain ⟨-, properties, index⟩ := meets
  simp only [Shape.isEmpty_iff]
  have named :
      ∀ name, met.property? name = none ↔
        first.property? name = none ∧ second.property? name = none := by
    intro name
    have meets := properties name
    generalize first.property? name = one at meets ⊢
    generalize second.property? name = other at meets ⊢
    generalize met.property? name = merged at meets ⊢
    cases meets <;> simp
  have indexed :
      met.index = none ↔ first.index = none ∧ second.index = none := by
    generalize first.index = one at index ⊢
    generalize second.index = other at index ⊢
    generalize met.index = merged at index ⊢
    cases index <;> simp
  simp only [named, indexed, forall_and]
  tauto

/-- What an object exposes to fit another fits a shape without members. -/
theorem TakesObject.fitsMembers
    {arena : Arena}
    {form : Ty}
    {shape members : Shape Ty}
    {related : Ty → Ty → Prop}
    (takes : TakesObject arena related form shape)
    (exposed : arena.exposed form = some members) :
    FitsMembers arena related members shape := by
  rcases takes.fits with nothing | ⟨found, exposes, fits⟩
  · obtain ⟨missing, closed⟩ := Shape.isEmpty_iff.mp nothing
    have noProperty : shape.properties = [] := by
      rw [Shape.isEmpty, Bool.and_eq_true, List.isEmpty_iff] at nothing
      exact nothing.1
    refine ⟨fun property member => ?_, fun index written => ?_,
      fun index written => ?_⟩
    · rw [noProperty] at member
      cases member
    · cases closed.symm.trans written
    · cases closed.symm.trans written
  · cases exposed.symm.trans exposes
    exact fits

namespace MeetsShape

variable
  {checker : Checker}
  {source form : Ty}
  {first second met : Shape Ty}
  (strict : checker.options.strictNullChecks = true)
  (reaches : ReachesOpen checker source form)
  (unmixed : form.Every Ty.Unmixed)
  (meets : MeetsShape checker first second met)
  (again : ∀ type ∈ first.types, Reaches checker type type)

include strict reaches unmixed meets again

/-- What a merged object admits the first of the two accepts. -/
theorem takes_left
    (distinct : first.names.Nodup)
    (takes : TakesObject checker.arena checker.Admits form met) :
    TakesObject checker.arena checker.Accepts form first := by
  refine ⟨takes.valued, ?_⟩
  rcases takes.fits with nothing | ⟨members, exposed, fits⟩
  · exact .inl (meets.isEmpty_iff.mp nothing).1
  · exact .inr ⟨members, exposed, meets.fits_left strict again
      (exposed_known reaches unmixed exposed) distinct fits⟩

/-- What both objects admit the merged one accepts. -/
theorem takes_both
    (otherAgain : ∀ type ∈ second.types, Reaches checker type type)
    (takes : TakesObject checker.arena checker.Admits form first)
    (otherTakes : TakesObject checker.arena checker.Admits form second) :
    TakesObject checker.arena checker.Accepts form met := by
  refine ⟨takes.valued, ?_⟩
  cases exposed : checker.arena.exposed form with
  | none =>
      refine .inl (meets.isEmpty_iff.mpr
        ⟨takes.fits.resolve_right ?_, otherTakes.fits.resolve_right ?_⟩) <;>
      · rintro ⟨members, exposes, -⟩
        cases exposed.symm.trans exposes
  | some members =>
      exact .inr ⟨members, rfl, meets.fits_both strict again
        (exposed_known reaches unmixed exposed) otherAgain
        (takes.fitsMembers exposed) (otherTakes.fitsMembers exposed)⟩

end MeetsShape

/-- What two objects without index signature are merged into is a form. -/
theorem MeetsShape.again
    {checker : Checker}
    {first second met : Shape Ty}
    (meets : MeetsShape checker first second met)
    (again : Reaches checker (.ofShape first) (.ofShape first))
    (otherAgain : Reaches checker (.ofShape second) (.ofShape second)) :
    Reaches checker (.ofShape met) (.ofShape met) := by
  have known {shape : Shape Ty}
      (again : Reaches checker (.ofShape shape) (.ofShape shape))
      {name : String} {property : Property Ty}
      (found : shape.property? name = some property) :
      Reaches checker property.type property.type :=
    again.shape.again _
      (Shape.type_mem_types (Shape.mem_of_property? found).1)
  have closed : met.index = none := by
    have index := meets.index
    rw [again.shape_closed.2, otherAgain.shape_closed.2] at index
    generalize met.index = merged at index ⊢
    cases index
    rfl
  refine .object (List.forall₂_same.mpr fun _ _ => rfl) ?_ meets.names closed
    closed
  refine Reaches.forall_zip_self rfl fun _ property beside => ?_
  have found :=
    Shape.property?_of_mem meets.names (List.of_mem_zip beside).2
  have properties := meets.properties property.name
  rw [found] at properties
  generalize one : first.property? property.name = before at properties
  generalize another : second.property? property.name = after at properties
  cases properties with
  | left => exact known again one
  | right => exact known otherAgain another
  | both _ meets => exact meets.again

namespace Checker

variable
  {checker : Checker}
  {form : Ty}
  {shape : Shape Ty}

/-- What finds an object that admits it fits the object. -/
theorem Single.takes_of_finds
    (single : checker.Single form)
    (strict : checker.options.strictNullChecks = true)
    (again : Reaches checker (.ofShape shape) (.ofShape shape))
    (finds : form.Finds checker.Admits (.ofShape shape)) :
    TakesObject checker.arena checker.Admits form shape :=
  single.takesObject strict again ((Ty.finds_whole rfl).mp finds).2

/-- What fits an object finds the object, which accepts it. -/
theorem Single.finds_of_takes
    (single : checker.Single form)
    (takes : TakesObject checker.arena checker.Accepts form shape) :
    form.Finds checker.Accepts (.ofShape shape) :=
  (Ty.finds_whole rfl).mpr ⟨rfl, single.accepts_object takes⟩

/-- The type `undefined` is a single form. -/
theorem single_undefined :
    checker.Single .undefined where
  again := .primitive (by simp) (by simp)
  simple := rfl
  inhabited := rfl
  unmixed := .leaf rfl rfl

/-- No object admits `undefined`. -/
theorem not_finds_undefined
    (strict : checker.options.strictNullChecks = true)
    (again : Reaches checker (.ofShape shape) (.ofShape shape)) :
    ¬ Ty.undefined.Finds checker.Admits (.ofShape shape) := fun finds =>
  Bool.noConfusion (single_undefined.takes_of_finds strict again finds).valued.1

/-- Constants and primitives are no unions. -/
theorem isUnion_of_isAtom
    {type : Ty}
    (atom : type.isAtom = true) :
    type.isUnion = false :=
  (Bool.or_eq_false_iff.mp (simple_of_isAtom atom)).1

namespace IsMeet

/-- A form is the meet of itself with itself. -/
theorem self
    (again : Reaches checker form form) :
    checker.IsMeet form form form where
  again := again
  left := fun _ finds => finds.imp fun _ admits => admits.accepts
  right := fun _ finds => finds.imp fun _ admits => admits.accepts
  both := fun _ finds _ => finds.imp fun _ admits => admits.accepts
  leftMissing := fun finds => finds.imp fun _ admits => admits.accepts
  rightMissing := fun finds => finds.imp fun _ admits => admits.accepts

/-- The object that two objects are merged into is their meet. -/
theorem objects
    {first second met : Shape Ty}
    (strict : checker.options.strictNullChecks = true)
    (again : Reaches checker (.ofShape first) (.ofShape first))
    (otherAgain : Reaches checker (.ofShape second) (.ofShape second))
    (meets : MeetsShape checker first second met) :
    checker.IsMeet (.ofShape first) (.ofShape second) (.ofShape met) := by
  have metAgain := meets.again again otherAgain
  have left {first second : Shape Ty}
      (again : Reaches checker (.ofShape first) (.ofShape first))
      (meets : MeetsShape checker first second met)
      {form : Ty}
      (single : checker.Single form)
      (finds : form.Finds checker.Admits (.ofShape met)) :
      form.Finds checker.Accepts (.ofShape first) :=
    single.finds_of_takes (meets.takes_left strict (.closed single.again)
      single.unmixed again.shape.again again.shape_closed.1
      (single.takes_of_finds strict metAgain finds))
  exact
    { again := metAgain
      left := left again meets
      right := left otherAgain meets.symm
      both := fun single finds otherFinds =>
        single.finds_of_takes (meets.takes_both strict (.closed single.again)
          single.unmixed again.shape.again otherAgain.shape.again
          (single.takes_of_finds strict again finds)
          (single.takes_of_finds strict otherAgain otherFinds))
      leftMissing := fun finds =>
        absurd finds (not_finds_undefined strict again)
      rightMissing := fun finds =>
        absurd finds (not_finds_undefined strict otherAgain) }

end IsMeet

end Checker

end StructuralTyping
