import StructuralTyping.Checker.Coverage
import StructuralTyping.Proofs.PropertyReads

namespace StructuralTyping

/-!
# Exhausted coverage leaves no value

Coverage takes a union apart by literals. Whatever the subject of a coverage
evaluates to is a constant that equals the literal of some variant, and a
variant that has values is only exhausted once a label equals its literal. So a
subject whose coverage is exhausted equals one of the labels.
-/

open Check

namespace Coverage

/-- Handling literals keeps the variants. -/
theorem variants_handleAll
    (coverage : Coverage)
    (values : List Literal) :
    (coverage.handleAll values).variants = coverage.variants := by
  induction values generalizing coverage with
  | nil =>
      rfl
  | cons value rest inductionHypothesis =>
      rw [handleAll, List.foldl_cons]
      refine (inductionHypothesis _).trans ?_
      unfold handle
      split <;> rfl

/-- Only the given literals are handled, besides those handled before. -/
theorem mem_handled_handleAll
    {coverage : Coverage}
    {values : List Literal}
    (member : literal ∈ (coverage.handleAll values).handled) :
    literal ∈ coverage.handled ∨ literal ∈ values := by
  induction values generalizing coverage with
  | nil =>
      exact .inl member
  | cons value rest inductionHypothesis =>
      rcases inductionHypothesis member with handled | inRest
      · simp only [handle] at handled
        split at handled
        · rcases List.mem_append.mp handled with before | isValue
          · exact .inl before
          · cases List.mem_singleton.mp isValue
            exact .inr (by simp)
        · exact .inl handled
      · exact .inr (.tail _ inRest)

/-- What is handled stays handled. -/
theorem isHandled_handleAll_of_isHandled
    {coverage : Coverage}
    (handled : coverage.isHandled value = true)
    (values : List Literal) :
    (coverage.handleAll values).isHandled value = true := by
  induction values generalizing coverage with
  | nil => exact handled
  | cons first rest inductionHypothesis =>
      refine @inductionHypothesis (coverage.handle first).2 ?_
      unfold handle
      split
      · unfold isHandled at handled ⊢
        rw [List.any_append, handled, Bool.true_or]
      · exact handled

/-- Handling a literal that equals that of a variant handles the variant. -/
theorem isHandled_handle
    {coverage : Coverage}
    (inVariants : variant ∈ coverage.variants)
    (same : label.equal variant.value = true) :
    (coverage.handle label).2.isHandled variant.value = true := by
  have selected : (coverage.variant? label).isSome = true := by
    rw [variant?, Option.isSome_map, List.find?_isSome]
    exact ⟨variant, inVariants, by rwa [Literal.equal_comm]⟩
  unfold handle
  split
  · simp [isHandled, same]
  · next before =>
    rw [selected, Bool.true_and, Bool.not_eq_true, Bool.not_eq_false'] at before
    obtain ⟨earlier, inHandled, equal⟩ := List.any_eq_true.mp before
    exact List.any_eq_true.mpr
      ⟨earlier, inHandled, Literal.equal_trans equal same⟩

/-- A variant is handled exactly when one of the labels equals its literal. -/
theorem isHandled_handleAll
    {coverage : Coverage}
    (fresh : coverage.handled = [])
    (inVariants : variant ∈ coverage.variants)
    (labels : List Literal) :
    (coverage.handleAll labels).isHandled variant.value =
      labels.any (Literal.equal · variant.value) := by
  rw [Bool.eq_iff_iff]
  constructor
  · intro handled
    obtain ⟨label, inHandled, same⟩ := List.any_eq_true.mp handled
    rcases mem_handled_handleAll inHandled with before | inLabels
    · rw [fresh] at before
      cases before
    · exact List.any_eq_true.mpr ⟨label, inLabels, same⟩
  · clear fresh
    intro equals
    obtain ⟨label, inLabels, same⟩ := List.any_eq_true.mp equals
    induction labels generalizing coverage with
    | nil => cases inLabels
    | cons first rest inductionHypothesis =>
        rcases List.mem_cons.mp inLabels with rfl | inRest
        · exact isHandled_handleAll_of_isHandled
            (isHandled_handle inVariants same) rest
        · have sameVariants := (coverage.variants_handleAll [first]).symm
          exact inductionHypothesis (sameVariants ▸ inVariants)
            (List.any_eq_true.mpr ⟨label, inRest, same⟩) inRest

/-- What remains is what no label selects. -/
theorem unhandled_handleAll
    {coverage : Coverage}
    (fresh : coverage.handled = [])
    (labels : List Literal) :
    (coverage.handleAll labels).unhandled =
      (coverage.variants.filter fun variant =>
        !labels.any (Literal.equal · variant.value)).map Variant.type := by
  unfold unhandled
  rw [variants_handleAll]
  congr 1
  refine List.filter_congr fun variant inVariants => ?_
  rw [isHandled_handleAll fresh inVariants]

/--
A coverage describes the values that a subject may have: each is a constant
that equals the literal of a variant with values.
-/
structure Describes
    (arena : Arena)
    (coverage : Coverage)
    (outcome : Value → Prop) :
    Prop where
  admits :
    ∀ variant ∈ coverage.variants,
      Fragment.narrowing.admits variant.type = true
  selects :
    ∀ value,
      outcome value →
      ∃ variant ∈ coverage.variants,
        (∃ selected, Belongs arena variant.type selected) ∧
          ∃ actual,
            value = .constant actual ∧ variant.value.equal actual = true

/-- A variant with values is handled when nothing remains. -/
theorem handled_of_exhaustive
    {checker : Checker}
    {coverage : Coverage}
    {variant : Variant}
    (admitted :
      ∀ variant ∈ coverage.variants,
        Fragment.narrowing.admits variant.type = true)
    (settles : Settles (coverage.exhaustive checker) true)
    (inVariants : variant ∈ coverage.variants)
    (belongs : Belongs checker.arena variant.type selected) :
    coverage.isHandled variant.value = true := by
  unfold exhaustive at settles
  obtain ⟨residual, normalizes, settles⟩ := settles_bind.mp settles
  have isNever : residual.isNever = true := (settles_pure.mp settles).symm
  have normal :=
    Checker.normalize_settles
      (Fragment.admits_union.mpr fun type member => by
        obtain ⟨other, kept, rfl⟩ := List.mem_map.mp member
        exact admitted other (List.mem_filter.mp kept).1) normalizes
  by_contra unhandled
  refine not_holds_of_isNever isNever ((normal.holds selected).mpr ?_)
  refine .union (List.mem_map_of_mem (List.mem_filter.mpr
    ⟨inVariants, ?_⟩)) belongs
  simpa using unhandled

/-- A subject whose coverage is exhausted by labels equals one of them. -/
theorem Describes.equals_label
    {checker : Checker}
    {coverage : Coverage}
    {labels : List Literal}
    (describes : coverage.Describes checker.arena outcome)
    (fresh : coverage.handled = [])
    (settles :
      Settles ((coverage.handleAll labels).exhaustive checker) true)
    (occurs : outcome value) :
    ∃ label ∈ labels, value.StrictEqual (.constant label) true := by
  obtain ⟨variant, inVariants, ⟨selected, belongs⟩, actual, rfl, same⟩ :=
    describes.selects value occurs
  have sameVariants := coverage.variants_handleAll labels
  have handled :=
    handled_of_exhaustive (sameVariants ▸ describes.admits) settles
      (sameVariants ▸ inVariants) belongs
  obtain ⟨label, inHandled, equal⟩ := List.any_eq_true.mp handled
  rcases mem_handled_handleAll inHandled with before | inLabels
  · rw [fresh] at before
    cases before
  · refine ⟨label, inLabels, ?_⟩
    rw [← Literal.equal_trans equal same, Literal.equal_comm]
    exact .constant

/-- Variants describe what their parts describe. -/
theorem Describes.append
    {arena : Arena}
    {first second : List Variant}
    (describesFirst : Describes arena { variants := first } early)
    (describesSecond : Describes arena { variants := second } late) :
    Describes arena { variants := first ++ second } fun value =>
      early value ∨ late value := by
  constructor
  · intro variant member
    rcases List.mem_append.mp member with inFirst | inSecond
    · exact describesFirst.admits variant inFirst
    · exact describesSecond.admits variant inSecond
  · rintro value (occurs | occurs)
    · obtain ⟨variant, inFirst, selected⟩ :=
        describesFirst.selects value occurs
      exact ⟨variant, List.mem_append_left _ inFirst, selected⟩
    · obtain ⟨variant, inSecond, selected⟩ :=
        describesSecond.selects value occurs
      exact ⟨variant, List.mem_append_right _ inSecond, selected⟩

/-- A literal is its own variant. -/
theorem describes_literal
    {arena : Arena}
    (admitted :
      Fragment.narrowing.admits (.literal occurrence literal) = true) :
    Describes arena
      { variants :=
          [{ value := literal, type := .literal occurrence literal }] }
      (Belongs arena (.literal occurrence literal)) := by
  constructor
  · intro variant member
    cases List.mem_singleton.mp member
    exact admitted
  · intro value belongs
    obtain ⟨actual, rfl, equal⟩ := holds_literal.mp belongs
    exact ⟨_, List.mem_singleton.mpr rfl, ⟨_, belongs⟩, actual, rfl, equal⟩

/-- The truth values are the variants of their type. -/
theorem describes_boolean
    {arena : Arena} :
    Describes arena
      { variants :=
          [true, false].map fun value =>
            { value := .boolean value, type := .ofLiteral (.boolean value) } }
      (Belongs arena .boolean) := by
  constructor
  · intro variant member
    obtain ⟨constant, _, rfl⟩ := List.mem_map.mp member
    rfl
  · intro value belongs
    obtain ⟨constant, rfl, belongs⟩ :=
      Checker.belongs_boolean belongs
    refine ⟨_, List.mem_map_of_mem (by cases constant <;> simp),
      ⟨_, belongs⟩, .boolean constant, rfl, ?_⟩
    simp [Literal.equal]

/-- The variants of a union of literals describe its values. -/
theorem describes_of_literalVariants?
    {arena : Arena}
    {members : List Ty}
    {variants : List Variant}
    (admitted :
      ∀ member ∈ members, Fragment.narrowing.admits member = true)
    (taken : literalVariants? members = some variants) :
    Describes arena { variants } fun value =>
      ∃ member ∈ members, Belongs arena member value := by
  fun_induction literalVariants? members generalizing variants with
  | case1 =>
      cases taken
      exact ⟨by simp, by simp⟩
  | case2 occurrence literal rest inductionHypothesis =>
      obtain ⟨others, takenRest, rfl⟩ := Option.map_eq_some_iff.mp taken
      simp only [List.forall_mem_cons] at admitted
      simpa using (describes_literal admitted.1).append
        (inductionHypothesis admitted.2 takenRest)
  | case3 rest constant =>
      rename_i inductionHypothesis
      obtain ⟨others, takenRest, rfl⟩ := Option.map_eq_some_iff.mp taken
      simp only [List.forall_mem_cons] at admitted
      simpa using describes_boolean.append
        (inductionHypothesis admitted.2 takenRest)
  | case4 =>
      cases taken

end Coverage

/-- The literal of a property that discriminates is required in the shape. -/
theorem Arena.discriminantOf?_spec
    {arena : Arena}
    {shape : Shape Ty}
    (admitted : Fragment.narrowing.admits (.object occurrence shape) = true)
    (found : arena.discriminantOf? name shape = some literal) :
    ∀ value,
      Belongs arena (.object occurrence shape) value →
      ∃ actual,
        value.member? name = some (.constant actual) ∧
          literal.equal actual = true := by
  unfold discriminantOf? at found
  split at found
  · next property declared =>
    obtain ⟨inShape, rfl⟩ := Shape.mem_of_property? declared
    have propertyAdmitted :=
      ((Fragment.admits_object.mp admitted).2.2 property inShape).1
    split at found
    · cases found
    · next required =>
      have isLiteral :
          ∃ occurrence, property.type = .literal occurrence literal := by
        unfold literalOf? resolve at found
        cases propertyType : property.type <;>
          simp_all [followReferences, Fragment.admits, Fragment.narrowing,
            defaultHops]
      obtain ⟨occurrence, isLiteral⟩ := isLiteral
      intro value belongs
      have holds := (holds_object.mp belongs).2 property inShape
      unfold PropertyHolds at holds
      split at holds
      · exact (required holds).elim
      · next present exposed =>
        rcases holds with ⟨_, isOptional, _⟩ | holds
        · exact (required isOptional).elim
        · rw [isLiteral] at holds
          obtain ⟨actual, rfl, equal⟩ := holds_literal.mp holds
          exact ⟨actual, exposed, equal⟩
  · cases found

/-- The distinct literals of a property are found shape by shape. -/
theorem Arena.distinctLiterals?_spec
    {arena : Arena}
    {shapes : List (Shape Ty)}
    {values : List Literal}
    (found : arena.distinctLiterals? name seen shapes = some values) :
    List.Forall₂
      (fun shape value => arena.discriminantOf? name shape = some value)
      shapes values := by
  induction shapes generalizing seen values with
  | nil =>
      cases found
      exact .nil
  | cons shape rest inductionHypothesis =>
      unfold distinctLiterals? at found
      split at found
      · cases found
      · next value has =>
        split at found
        · cases found
        · obtain ⟨others, foundRest, rfl⟩ := Option.map_eq_some_iff.mp found
          exact .cons has (inductionHypothesis foundRest)

/-- Lists that are related to one between them are related through its items. -/
theorem forall₂_comp
    {first : α → β → Prop}
    {second : β → γ → Prop}
    (early : List.Forall₂ first items others)
    (late : List.Forall₂ second others values) :
    List.Forall₂
      (fun item value => ∃ other, first item other ∧ second other value)
      items values := by
  induction early generalizing values with
  | nil =>
      cases late
      exact .nil
  | cons head _ inductionHypothesis =>
      cases late with
      | cons next rest =>
          exact .cons ⟨_, head, next⟩ (inductionHypothesis rest)

/-- Variants pair the literals with the members, position by position. -/
theorem exists_variant
    {related : Ty → Literal → Prop}
    {members : List Ty}
    {values : List Literal}
    (each : List.Forall₂ related members values)
    (member : type ∈ members) :
    ∃ variant ∈ List.zipWith Variant.mk values members,
      variant.type = type ∧ related type variant.value := by
  induction each with
  | nil =>
      cases member
  | cons head _ inductionHypothesis =>
      rcases List.mem_cons.mp member with rfl | inRest
      · exact ⟨_, List.mem_cons_self, rfl, head⟩
      · obtain ⟨variant, inVariants, found⟩ := inductionHypothesis inRest
        exact ⟨variant, .tail _ inVariants, found⟩

/-- The type of a variant is a member. -/
theorem mem_of_mem_variants
    {members : List Ty}
    {values : List Literal}
    (member : variant ∈ List.zipWith Variant.mk values members) :
    variant.type ∈ members := by
  induction values generalizing members with
  | nil =>
      simp at member
  | cons value rest inductionHypothesis =>
      cases members with
      | nil =>
          simp at member
      | cons first others =>
          rcases List.mem_cons.mp member with rfl | inRest
          · simp
          · exact .tail _ (inductionHypothesis inRest)

namespace Checker

variable {checker : Checker} {type : Ty}

/-- A union of objects is what stands behind a type, with a shape per member. -/
theorem objectUnion?_shapes
    (settles : Settles (checker.objectUnion? type) (some union)) :
    (∃ occurrence,
      Settles (checker.structural 0 type)
        (.ok (.union occurrence union.members))) ∧
      List.Forall₂
        (fun member shape =>
          Settles (checker.memberShape member).run (some shape))
        union.members union.shapes := by
  unfold objectUnion? at settles
  obtain ⟨answer, resolves, settles⟩ := settles.of_bind fun answer => by
    split <;> infer_instance
  split at settles
  · next occurrence members =>
    obtain ⟨shapes, visits, settles⟩ := settles_bind.mp settles
    obtain ⟨found, rfl, rfl⟩ :=
      Option.map_eq_some_iff.mp (settles_pure.mp settles).symm
    exact ⟨⟨occurrence, resolves⟩, visits.of_optionMapM⟩
  · cases settles_pure.mp settles

/-- The shape of a member is that of the object behind it. -/
theorem memberShape_settles
    (settles : Settles (checker.memberShape member).run (some shape)) :
    ∃ occurrence,
      Settles (checker.structural 1 member)
        (.ok (.object occurrence shape)) := by
  unfold memberShape at settles
  obtain ⟨answer, resolves, settles⟩ :=
    settles.of_optionBind fun answer => by
      split <;> infer_instance
  obtain ⟨_, ⟨⟩, resolves⟩ := resolves.of_optionLift
  split at settles
  · cases settles_pure.mp settles
    exact ⟨_, resolves⟩
  · cases settles_pure.mp settles

/-- The members of a union of objects, with the shapes behind them. -/
theorem objectUnion?_settles
    (admitted : Fragment.narrowing.admits type = true)
    (settles : Settles (checker.objectUnion? type) (some union)) :
    MembersOf checker.arena type union.members ∧
      List.Forall₂
        (fun member shape =>
          ∃ occurrence,
            IsNormalOf .narrowing .narrowing checker.arena member
              (.object occurrence shape))
        union.members union.shapes := by
  obtain ⟨⟨_, resolves⟩, shapes⟩ := objectUnion?_shapes settles
  obtain ⟨_, same, normal⟩ := structural_settles admitted resolves
  cases same
  have parts := normal.membersOf
  refine ⟨parts, ?_⟩
  have inMembers :=
    (List.forall₂_and_left union.members union.shapes).mpr
      ⟨fun _ => id, shapes⟩
  refine inMembers.imp ?_
  rintro member shape ⟨inMembers, settles⟩
  obtain ⟨occurrence, resolves⟩ := memberShape_settles settles
  obtain ⟨_, same, normal⟩ :=
    structural_settles (parts.admits member inMembers) resolves
  cases same
  exact ⟨occurrence, normal⟩

/-- What a union taken apart by a property says about its values. -/
theorem discriminate?_describes
    {union : ObjectUnion}
    {discriminated : DiscriminatedUnion}
    (parts : MembersOf checker.arena type union.members)
    (shapes :
      List.Forall₂
        (fun member shape =>
          ∃ occurrence,
            IsNormalOf .narrowing .narrowing checker.arena member
              (.object occurrence shape))
        union.members union.shapes)
    (taken :
      checker.arena.discriminate? union name = some discriminated) :
    (Coverage.ofUnion discriminated).Describes checker.arena fun found =>
      ∃ value,
        Belongs checker.arena type value ∧
          value.Accesses name chained found := by
  obtain ⟨values, literals, rfl⟩ := Option.map_eq_some_iff.mp taken
  constructor
  · intro variant member
    exact parts.admits variant.type (mem_of_mem_variants member)
  · rintro found ⟨value, belongs, accesses⟩
    obtain ⟨member, inMembers, belongs⟩ := (parts.holds value).mp belongs
    obtain ⟨variant, inVariants, rfl, shape, ⟨occurrence, normal⟩, has⟩ :=
      exists_variant (forall₂_comp shapes 
        (Arena.distinctLiterals?_spec literals)) inMembers
    obtain ⟨actual, exposed, equal⟩ :=
      Arena.discriminantOf?_spec normal.admits has value
        ((normal.holds value).mpr belongs)
    refine ⟨variant, inVariants, ⟨value, belongs⟩, actual, ?_, equal⟩
    cases accesses with
    | reads reads =>
        exact reads.eq_of_member exposed
    | shortCircuit _ isNullish =>
        have present := (Value.Reads.exposed exposed).not_isNullish
        rw [isNullish] at present
        cases present

/-- Coverage on a property describes what the property has. -/
theorem coverageOn?_settles
    (admitted : Fragment.narrowing.admits type = true)
    (settles : Settles (checker.coverageOn? type name) (some coverage)) :
    coverage.handled = [] ∧
      coverage.Describes checker.arena fun found =>
        ∃ value,
          Belongs checker.arena type value ∧
            value.Accesses name chained found := by
  unfold coverageOn? discriminantBy? at settles
  obtain ⟨discriminated, taken, settles⟩ := settles_bind.mp settles
  obtain ⟨found, rfl, rfl⟩ :=
    Option.map_eq_some_iff.mp (settles_pure.mp settles).symm
  obtain ⟨union, resolves, taken⟩ := settles_bind.mp taken
  obtain ⟨union, rfl, discriminates⟩ :=
    Option.bind_eq_some_iff.mp (settles_pure.mp taken).symm
  obtain ⟨parts, shapes⟩ := objectUnion?_settles admitted resolves
  exact ⟨rfl, discriminate?_describes parts shapes discriminates⟩

/-- Coverage by literals is that of what the type leads to, taken apart. -/
theorem literalCoverage?_cases
    (settles : Settles (checker.literalCoverage? type) found) :
    found = none ∨
      ∃ form variants,
        Settles (checker.structural 0 type) (.ok form) ∧
          Coverage.literalVariants? form.members = some variants ∧
          found = some { variants := variants } := by
  unfold literalCoverage? at settles
  obtain ⟨outcome, resolves, settles⟩ := settles.of_bind fun outcome => by
    split
    · infer_instance
    · split <;> infer_instance
  cases outcome with
  | error => exact .inl (settles_pure.mp settles)
  | ok form =>
      dsimp only at settles
      split at settles
      · next variant rest taken =>
        exact .inr
          ⟨form, variant :: rest, resolves, taken, settles_pure.mp settles⟩
      · exact .inl (settles_pure.mp settles)

/-- Coverage of a union of literals describes its values. -/
theorem literalCoverage?_settles
    (admitted : Fragment.narrowing.admits type = true)
    (settles : Settles (checker.literalCoverage? type) (some coverage)) :
    coverage.handled = [] ∧
      coverage.Describes checker.arena (Belongs checker.arena type) := by
  rcases literalCoverage?_cases settles with
    none | ⟨form, variants, resolves, taken, covers⟩
  · cases none
  · cases covers
    obtain ⟨_, same, normal⟩ := structural_settles admitted resolves
    cases same
    have parts := normal.membersOf
    have describes :=
      @Coverage.describes_of_literalVariants? checker.arena _ _ parts.admits
        taken
    exact ⟨rfl, describes.admits, fun value belongs =>
      describes.selects value ((parts.holds value).mp belongs)⟩

end Checker

end StructuralTyping
