import StructuralTyping.Proofs.Idempotence
import StructuralTyping.Proofs.Likeness
import StructuralTyping.Proofs.UtilityAlgebra

namespace StructuralTyping

/-!
# Objects that are split and joined again

`Pick` and `Omit` with the same keys split the properties of an object. Their
intersection merges two shapes that share no name, so every property is kept as
it is and only the order changes. The normal form of the halves is reached
deeper than that of the whole, and what is reached there without exceeding the
depth bound is the same. Structural identity sees that wherever it recognizes
copies: it misses those of objects that have a property twice.
-/

open Check

namespace Shape

variable {shape : Shape Ty} {keys : List String}

/-- What is picked and what is left make up the properties. -/
theorem pick_append_without_perm :
    ((shape.pick keys).properties ++ (shape.without keys).properties).Perm
      shape.properties :=
  List.filter_append_perm _ _

/-- A property that is picked is none of those that are left. -/
theorem not_mem_pick_of_mem_without
    (left : property ∈ (shape.without keys).properties) :
    property.name ∉ (shape.pick keys).names := by
  intro picked
  obtain ⟨other, inPicked, same⟩ := List.mem_map.mp picked
  have known := (List.mem_filter.mp inPicked).2
  have unknown := (List.mem_filter.mp left).2
  rw [same] at known
  rw [known] at unknown
  cases unknown

/-- Leaving out properties keeps the names distinct. -/
theorem names_without_nodup
    (distinct : shape.names.Nodup) :
    (shape.without keys).names.Nodup :=
  distinct.sublist (List.filter_sublist.map Property.name)

/-- Picking names that were not left out picks them from the whole. -/
theorem pick_without
    {rest : List String}
    (others : ∀ name ∈ rest, name ∉ keys) :
    (shape.without keys).pick rest = shape.pick rest := by
  unfold pick without
  congr 1
  rw [List.filter_filter]
  refine List.filter_congr fun property _ => ?_
  by_cases inRest : property.name ∈ rest
  · simp [inRest, others _ inRest]
  · simp [inRest]

/-- A name is that of a property when one is found. -/
theorem property?_isSome
    {name : String} :
    (shape.property? name).isSome = true ↔ name ∈ shape.names := by
  simp [property?, names, List.find?_isSome]

end Shape

/-- Objects built anew are compared by their shapes. -/
theorem identical_ofShape
    (arena : Arena)
    (first second : Shape Ty) :
    arena.identical (.ofShape first) (.ofShape second) =
      equalNodes (arena.identicalWithin (identityDepth - 1) [])
        (.ofShape first) (.ofShape second) := by
  have fresh : (Ty.ofShape first).sameNode (.ofShape second) = false := rfl
  unfold Arena.identical identityDepth Arena.identicalWithin Arena.unfoldPair
  rw [fresh]
  rfl

/-- Objects that share no name are identical only if they have no properties. -/
theorem properties_eq_nil_of_identical
    {arena : Arena}
    {first second : Shape Ty}
    (disjoint : ∀ property ∈ second.properties, property.name ∉ first.names)
    (alike : arena.identical (.ofShape first) (.ofShape second) = true) :
    first.properties = [] ∧ second.properties = [] ∧
      (first.index = none → second.index = none) := by
  rw [identical_ofShape] at alike
  simp only [equalNodes, Ty.ofShape, Bool.and_eq_true, beq_iff_eq] at alike
  obtain ⟨⟨length, each⟩, index⟩ := alike
  have none : first.properties = [] := by
    refine List.eq_nil_iff_forall_not_mem.mpr fun property member => ?_
    have counterpart := List.all_eq_true.mp each property member
    unfold equalProperty at counterpart
    cases found : second.property? property.name with
    | none =>
        rw [found] at counterpart
        cases counterpart
    | some other =>
        have same : other.name = property.name := by
          simpa using List.find?_some found
        exact disjoint other (List.mem_of_find?_eq_some found)
          (same ▸ List.mem_map_of_mem member)
  refine ⟨none, ?_, fun noIndex => ?_⟩
  · rw [none] at length
    exact List.eq_nil_of_length_eq_zero length.symm
  · rw [noIndex] at index
    cases written : second.index with
    | none => rfl
    | some =>
        rw [written] at index
        cases index

namespace NormalPass

variable {arena : Arena} {pass : NormalPass} {first second : Shape Ty}

/-- Properties of new names are appended as they are. -/
theorem mergeProperties_disjoint
    {properties : List (Property Ty)}
    (distinct : (properties.map Property.name).Nodup)
    (disjoint : ∀ property ∈ properties, property.name ∉ first.names) :
    properties.foldlM (pass.mergeProperty arena depth) first =
      pure { first with properties := first.properties ++ properties } := by
  induction properties generalizing first with
  | nil => simp
  | cons property rest inductionHypothesis =>
      rw [List.map_cons, List.nodup_cons] at distinct
      rw [List.forall_mem_cons] at disjoint
      have missing : first.property? property.name = none := by
        rw [← Option.not_isSome_iff_eq_none]
        exact fun found => disjoint.1 (Shape.property?_isSome.mp found)
      have appended :
          pass.mergeProperty arena depth first property =
            pure { first with properties := first.properties ++ [property] } := by
        unfold mergeProperty
        rw [missing]
      rw [List.foldlM_cons, appended, pure_bind,
        inductionHypothesis distinct.2 ?_]
      · simp
      · intro other inRest inNames
        simp only [Shape.names, List.map_append, List.map_cons, List.map_nil,
          List.mem_append, List.mem_singleton] at inNames
        rcases inNames with known | same
        · exact disjoint.2 other inRest known
        · exact distinct.1 (same ▸ List.mem_map_of_mem inRest)

/-- Merging objects without common names puts their properties together. -/
theorem mergeObjects_disjoint
    (noIndex : first.index = none)
    (distinct : second.names.Nodup)
    (disjoint : ∀ property ∈ second.properties, property.name ∉ first.names) :
    pass.mergeObjects arena depth [.ofShape first, .ofShape second] =
      pure
        [.ofShape
          { properties := first.properties ++ second.properties
            index := second.index }] := by
  have merged :
      pass.mergeShape arena depth first second =
        pure
          { properties := first.properties ++ second.properties
            index := second.index } := by
    unfold mergeShape
    rw [mergeProperties_disjoint distinct disjoint, pure_bind]
    dsimp only
    rw [noIndex]
    rfl
  change
    ([second].foldlM (pass.mergeShape arena depth) first >>= fun merged =>
      pure [Ty.ofShape merged]) = _
  rw [List.foldlM_cons, merged, pure_bind, List.foldlM_nil, pure_bind]

/-- Two objects that share no name meet in one that has the properties of both. -/
theorem meetMembers_disjoint
    (noIndex : first.index = none)
    (distinct : second.names.Nodup)
    (disjoint : ∀ property ∈ second.properties, property.name ∉ first.names) :
    pass.meetMembers arena depth [.ofShape first, .ofShape second] =
      pure
        (.ofShape
          { properties := first.properties ++ second.properties
            index := second.index }) := by
  have noTop :
      ([Ty.ofShape first, .ofShape second].find? fun type =>
        type.isNever || type.isPrimitive .any) = none :=
    rfl
  have kept :
      ([Ty.ofShape first, .ofShape second].filter fun type =>
        !type.isPrimitive .unknown) = [.ofShape first, .ofShape second] :=
    rfl
  unfold meetMembers
  simp only [noTop, kept]
  cases alike : arena.identical (.ofShape first) (.ofShape second) with
  | true =>
      obtain ⟨firstNone, secondNone, index⟩ :=
        properties_eq_nil_of_identical disjoint alike
      have once :
          [Ty.ofShape first, .ofShape second].foldl arena.appendUnique [] =
            [.ofShape first] := by
        simp [Arena.appendUnique, alike]
      have alone : reduceAtoms [Ty.ofShape first] = some [.ofShape first] := rfl
      have shape :
          ({ properties := first.properties ++ second.properties
             index := second.index } : Shape Ty) =
            first := by
        rw [firstNone, secondNone, index noIndex, ← noIndex, List.append_nil,
          ← firstNone]
      rw [once, alone, shape]
      rfl
  | false =>
      have twice :
          [Ty.ofShape first, .ofShape second].foldl arena.appendUnique [] =
            [.ofShape first, .ofShape second] := by
        simp [Arena.appendUnique, alike]
      have apart :
          reduceAtoms [Ty.ofShape first, .ofShape second] =
            some [.ofShape first, .ofShape second] :=
        rfl
      rw [twice, apart]
      dsimp only
      rw [mergeObjects_disjoint noIndex distinct disjoint, pure_bind]

end NormalPass

section Normal

open Stateful

/-- Options related to the same one are equal when what they hold is. -/
theorem optional_unique
    {relation : α → β → Prop}
    {before : Option α}
    {one other : Option β}
    (unique :
      ∀ item first second,
        relation item first → relation item second → first = second)
    (first : Option.Rel relation before one)
    (second : Option.Rel relation before other) :
    one = other := by
  cases first with
  | none =>
      cases second
      rfl
  | some holds =>
      cases second with
      | some too => exact congrArg some (unique _ _ _ holds too)

/-- The properties and the index signature of a shape settle one by one. -/
structure Shape.NormalizesTo
    (pass : NormalPass)
    (depth : Nat)
    (shape normal : Shape Ty) :
    Prop where
  properties :
    List.Forall₂
      (fun before after : Property Ty =>
        after = { before with type := after.type } ∧
          Settles (pass.inner depth before.type) after.type)
      shape.properties normal.properties
  index :
    Option.Rel
      (fun before after : IndexSignature Ty =>
        Settles (pass.inner depth before.key) after.key ∧
          Settles (pass.inner depth before.value) after.value)
      shape.index normal.index

namespace Shape.NormalizesTo

variable {pass : NormalPass} {shape normal : Shape Ty}

/-- A shape has one normal form. -/
theorem unique
    (one : shape.NormalizesTo pass depth normal)
    (second : shape.NormalizesTo pass depth other) :
    normal = other := by
  have properties : normal.properties = other.properties := by
    refine List.right_unique_forall₂' ?_ one.properties second.properties
    rintro before after same ⟨kept, settles⟩ ⟨keptToo, settlesToo⟩
    rw [kept, keptToo, settles.unique settlesToo]
  have index : normal.index = other.index := by
    refine optional_unique ?_ one.index second.index
    rintro before ⟨key, value⟩ ⟨otherKey, otherValue⟩ parts others
    cases parts.1.unique others.1
    cases parts.2.unique others.2
    rfl
  cases normal
  cases other
  cases properties
  cases index
  rfl

/-- Normalization keeps the names of properties. -/
theorem names
    (normalizes : shape.NormalizesTo pass depth normal) :
    normal.names = shape.names := by
  have pointwise : List.Forall₂ Eq shape.names normal.names := by
    refine List.forall₂_map_left_iff.mpr (List.forall₂_map_right_iff.mpr ?_)
    refine normalizes.properties.imp fun before after told => ?_
    rw [told.1]
  rw [List.forall₂_eq_eq_eq] at pointwise
  exact pointwise.symm

/-- The properties of a normal form that are kept are those of the kept ones. -/
theorem filter
    (keep : String → Bool)
    (normalizes : shape.NormalizesTo pass depth normal) :
    List.Forall₂
      (fun before after : Property Ty =>
        after = { before with type := after.type } ∧
          Settles (pass.inner depth before.type) after.type)
      (shape.properties.filter fun property => keep property.name)
      (normal.properties.filter fun property => keep property.name) := by
  refine List.rel_filter ?_ normalizes.properties
  rintro before after ⟨kept, _⟩
  rw [kept]

/-- The normal form of what is picked is picked from the normal form. -/
theorem pick
    (keys : List String)
    (normalizes : shape.NormalizesTo pass depth normal) :
    (shape.pick keys).NormalizesTo pass depth (normal.pick keys) where
  properties := normalizes.filter keys.contains
  index := .none

/-- The normal form of what is left is left of the normal form. -/
theorem without
    (keys : List String)
    (normalizes : shape.NormalizesTo pass depth normal) :
    (shape.without keys).NormalizesTo pass depth (normal.without keys) where
  properties := normalizes.filter fun name => !keys.contains name
  index := normalizes.index

end Shape.NormalizesTo

variable {checker : Checker} {fewer more deep flat : Nat}

/-- The normal form of a shape is reached at lower depths too. -/
theorem Shape.NormalizesTo.flatter
    {shape normal : Shape Ty}
    (within : fewer ≤ more)
    (below : flat ≤ deep)
    (normalizes :
      shape.NormalizesTo (normalPass checker.normalMode fewer) deep normal) :
    shape.NormalizesTo (normalPass checker.normalMode more) flat normal where
  properties :=
    normalizes.properties.imp fun _ _ told =>
      ⟨told.1, Checker.settles_inner_flatter within below told.2⟩
  index :=
    optionRel_imp normalizes.index fun _ _ _ _ told =>
      ⟨Checker.settles_inner_flatter within below told.1,
        Checker.settles_inner_flatter within below told.2⟩

/-- An object normalizes to one of the normal form of its shape. -/
theorem settles_shape
    {shape : Shape Ty}
    (settles :
      Settles
        ((normalPass checker.normalMode more).normalize depth
          (.object occurrence shape))
        result) :
    ∃ less normal,
      more = less + 1 ∧ result = .ofShape normal ∧
        shape.NormalizesTo (normalPass checker.normalMode less) (depth + 1)
          normal := by
  obtain ⟨less, same, settles⟩ := settles_node rfl settles
  obtain ⟨normal, normalizes, settles⟩ := settles.of_bind
  obtain ⟨properties, index⟩ := NormalPass.normalizeShape_cases normalizes
  exact ⟨less, normal, same, settles.of_pure, properties, index⟩

end Normal

/-- A string literal that names a property. -/
def Ty.IsKey
    (type : Ty)
    (name : String) :
    Prop :=
  ∃ occurrence text,
    type = .literal occurrence (.string text) ∧ text.string? = some name

/-- A key set that is written out: `never`, a literal, or a union of literals. -/
inductive Ty.Lists :
    Ty →
    List String →
    Prop
  | never :
      Lists .never []
  | single :
      type.IsKey name →
      Lists type [name]
  | union {members : List Ty} :
      List.Forall₂ Ty.IsKey members names →
      Lists (.union occurrence members) names

/-- Literals are read one by one. -/
theorem mapM_keyOf
    {members : List Ty}
    (keys : List.Forall₂ Ty.IsKey members names) :
    ∃ texts : List Text.RawText,
      texts.map Text.RawText.string? = names.map some ∧
        ∀ utility,
          (members.mapM (Evaluation.keyOf utility)).run = pure (.ok texts) := by
  induction keys with
  | nil => exact ⟨[], rfl, fun _ => rfl⟩
  | @cons _ name _ rest key _ inductionHypothesis =>
      obtain ⟨occurrence, text, rfl, read⟩ := key
      obtain ⟨texts, same, reads⟩ := inductionHypothesis
      refine ⟨text :: texts, by simp [read, same], fun utility => ?_⟩
      rw [List.mapM_cons, ExceptT.run_bind]
      change (((_ : List Ty).mapM (Evaluation.keyOf utility)) >>= _).run = _
      rw [ExceptT.run_bind, reads, pure_bind]
      rfl

/-- A key set that is written out is read as what it lists. -/
theorem keySet_lists
    {keys : Ty}
    (lists : keys.Lists names) :
    ∃ texts : List Text.RawText,
      texts.map Text.RawText.string? = names.map some ∧
        ∀ (evaluation : Evaluation) utility,
          (evaluation.keySet utility keys).run = pure (.ok texts) := by
  cases lists with
  | never => exact ⟨[], rfl, fun _ _ => rfl⟩
  | single key =>
      obtain ⟨texts, same, reads⟩ := mapM_keyOf (.cons key .nil)
      obtain ⟨occurrence, text, rfl, _⟩ := key
      exact ⟨texts, same, fun _ utility => reads utility⟩
  | @union _ _ members each =>
      obtain ⟨texts, same, reads⟩ := mapM_keyOf each
      refine ⟨texts, same, fun evaluation utility => ?_⟩
      unfold Evaluation.keySet
      cases members with
      | nil =>
          cases each
          cases List.map_eq_nil_iff.mp same
          rfl
      | cons => exact reads utility

/-- `Pick` and `Omit` read the same from a key set that is written out. -/
theorem readKeys_lists
    {keys : Ty}
    (lists : keys.Lists names) :
    ∃ texts : List Text.RawText,
      texts.map Text.RawText.string? = names.map some ∧
        (∀ evaluation,
          ((PropertyWise.pickKeys keys).readKeys evaluation).run =
            pure (.ok texts)) ∧
        ∀ evaluation,
          ((PropertyWise.omitKeys keys).readKeys evaluation).run =
            pure (.ok texts) := by
  obtain ⟨texts, spelled, reads⟩ := keySet_lists lists
  exact ⟨texts, spelled, fun evaluation => reads evaluation _,
    fun evaluation => reads evaluation _⟩

namespace PropertyWise

variable {keys base : Ty} {shape : Shape Ty} {names : List String}

variable
  {texts : List Text.RawText}
  (same : texts.map Text.RawText.string? = names.map some)
include same

/-- The names that some texts spell. -/
theorem filterMap_string? :
    texts.filterMap Text.RawText.string? = names := by
  calc
    texts.filterMap Text.RawText.string? =
        (texts.map Text.RawText.string?).filterMap id := by
      rw [List.filterMap_map]
      rfl
    _ = (names.map some).filterMap id := by rw [same]
    _ = names := by
      rw [List.filterMap_map]
      exact List.filterMap_some

/-- Picking names of properties succeeds. -/
theorem ofShape_pickKeys
    (known : ∀ name ∈ names, name ∈ shape.names) :
    (pickKeys keys).ofShape (.ok texts) shape =
      .ok (.ofShape (shape.pick names)) := by
  have allKnown :
      (texts.find? fun key => (key.string?.bind shape.property?).isNone) =
        none := by
    refine List.find?_eq_none.mpr fun text member => ?_
    have spelled : text.string? ∈ names.map some :=
      same ▸ List.mem_map_of_mem member
    obtain ⟨name, inNames, spells⟩ := List.mem_map.mp spelled
    have found := Shape.property?_isSome.mpr (known name inNames)
    rw [← spells]
    simpa [Option.isSome_iff_ne_none] using found
  simp only [ofShape, Except.bind, allKnown, filterMap_string? same]

/-- Leaving out names succeeds. -/
theorem ofShape_omitKeys :
    (omitKeys keys).ofShape (.ok texts) shape =
      .ok (.ofShape (shape.without names)) := by
  simp only [ofShape, Except.bind, filterMap_string? same]

end PropertyWise

namespace Checker

/-- An application as it is written, or what it comes to when it is applied. -/
inductive Given
    (checker : Checker)
    (application : Application Ty) :
    Ty →
    Prop
  | written :
      Given checker application (.generic occurrence application)
  | applied :
      Settles (checker.applyUtility application) (.ok type) →
      Given checker application type

/-- Whatever is found behind a type is an object of a shape. -/
structure StandsFor
    (checker : Checker)
    (base : Ty)
    (shape : Shape Ty) :
    Prop where
  written : base.isAbsent = false
  finds :
    ∀ {fewer depth outcome},
      fewer ≤ checker.budget →
      Settles ((checker.evaluationWithin fewer).structural depth base).run
        outcome →
      ∃ occurrence, outcome = .ok (.object occurrence shape)

variable
  {checker : Checker} {base : Ty} {shape half : Shape Ty} {step : PropertyWise}
  {texts : List Text.RawText}

/-- A type stands for the object that is found behind it from the top. -/
theorem standsFor_of_structural
    (settles :
      Settles (checker.structural 0 base) (.ok (.object occurrence shape))) :
    checker.StandsFor base shape where
  written := by
    cases base with
    | absent =>
        have nothing : checker.structural 0 .absent = pure (.ok .absent) := by
          unfold structural Evaluation.structural Evaluation.structuralWithin
            Evaluation.resolve
          have some : checker.evaluation.remainingFrom 0 =
              checker.options.maxDepth + 1 :=
            rfl
          rw [some]
          rfl
        rw [nothing] at settles
        cases settles_pure.mp settles
    | _ => rfl
  finds within found :=
    ⟨occurrence,
      (settles_structural_flatter within (Nat.zero_le _) found).unique settles⟩

section Known

variable
  (reads :
    ∀ evaluation, (step.readKeys evaluation).run = pure (.ok texts))
  (stands : checker.StandsFor base shape)
  (makes : step.ofShape (.ok texts) shape = .ok (.ofShape half))
include reads stands makes

/-- A utility gives what it makes of the object that its base stands for. -/
theorem evaluateWithin_known
    (within : more ≤ checker.budget)
    (settles :
      Settles
        (checker.evaluateWithin more (step.application base) depth).run
        outcome) :
    outcome = .ok (.ofShape half) := by
  obtain ⟨keys, allRead⟩ := checker.exists_readKeys
  have sameKeys : keys step = .ok texts := by
    have pureKeys :
        Settles (pure (keys step) : Check (Except UtilityError _)) (.ok texts) := by
      rw [← allRead 0 step, reads]
      exact settles_pure.mpr rfl
    exact (settles_pure.mp pureKeys).symm
  obtain ⟨fewer, rfl, ⟨missing, _⟩ | ⟨_, behind, found, rfl⟩⟩ :=
    settles_evaluateWithin allRead settles
  · rw [stands.written] at missing
    cases missing
  · obtain ⟨_, rfl⟩ := stands.finds (Nat.le_of_succ_le within) found
    rw [sameKeys]
    exact makes

/-- Applied from outside, a utility gives the same. -/
theorem applyUtility_known
    (settles : Settles (checker.applyUtility (step.application base)) outcome) :
    outcome = .ok (.ofShape half) := by
  cases budget : checker.budget with
  | zero => exact absurd settles (not_settles_applyUtility budget)
  | succ less =>
      have evaluates := (settles_applyUtility_iff budget).mp settles
      exact evaluateWithin_known reads stands makes (Nat.le_of_eq budget.symm)
        evaluates

/-- An application stands for the object it comes to. -/
theorem standsFor_given
    (given : checker.Given (step.application base) member) :
    checker.StandsFor member half := by
  cases given with
  | applied applies =>
      cases applyUtility_known reads stands makes applies
      have container : (Ty.ofShape half).Container := .object
      refine ⟨rfl, fun within found => ⟨none, ?_⟩⟩
      rw [Evaluation.structural_container container
        (Evaluation.depth_le_of_structural found)] at found
      exact settles_pure.mp found
  | written =>
      refine ⟨rfl, fun within found => ⟨none, ?_⟩⟩
      obtain ⟨keys, allRead⟩ := checker.exists_readKeys
      have evaluates :=
        settles_structural_generic
          (fun type applies => evaluateWithin_container allRead applies) found
      exact evaluateWithin_known reads stands makes within evaluates

/-- The normal form of an application is that of the object it comes to. -/
theorem settles_given
    (given : checker.Given (step.application base) member)
    (settles :
      Stateful.Settles
        ((normalPass checker.normalMode more).normalize depth member) result) :
    ∃ fewer deeper normal,
      fewer ≤ more ∧ depth < deeper ∧ result = .ofShape normal ∧
        half.NormalizesTo (normalPass checker.normalMode fewer) deeper normal := by
  cases given with
  | applied applies =>
      cases applyUtility_known reads stands makes applies
      obtain ⟨less, normal, rfl, rfl, normalizes⟩ := settles_shape settles
      exact ⟨less, depth + 1, normal, by omega, by omega, rfl, normalizes⟩
  | written =>
      obtain ⟨less, budget, settles⟩ := settles_node rfl settles
      change
        Stateful.Settles
          ((normalPass checker.normalMode less).normalizeApplication
            checker.normalMode (depth + 1) _ (step.application base))
          result at settles
      unfold NormalPass.normalizeApplication at settles
      obtain ⟨answer, evaluates, settles⟩ :=
        @Stateful.Settles.of_bind _ _ _ _ _ _
          (fun _ => by split <;> infer_instance) _ settles
      cases evaluateWithin_known reads stands makes (Nat.le_refl _)
        evaluates.of_lift
      obtain ⟨fewer, normal, rfl, rfl, normalizes⟩ := settles_shape settles
      exact ⟨fewer, depth + 2, normal, by omega, by omega, rfl, normalizes⟩

end Known

/-- The halves of an object normalize to one with the properties of the whole. -/
theorem settles_rejoined
    {keys : Ty}
    (behind :
      Settles (checker.structural 0 base) (.ok (.object occurrence shape)))
    (distinct : shape.names.Nodup)
    (lists : keys.Lists names)
    (known : ∀ name ∈ names, name ∈ shape.names)
    (picked :
      checker.Given ((PropertyWise.pickKeys keys).application base) first)
    (left :
      checker.Given ((PropertyWise.omitKeys keys).application base) second)
    (joins :
      Settles (checker.normalize (.intersection outer [first, second])) joined)
    (normalizes :
      Settles (checker.normalize (.object occurrence shape)) whole) :
    ∃ merged normal : Shape Ty,
      joined = .ofShape merged ∧ whole = .ofShape normal ∧
        merged.properties.Perm normal.properties ∧
        merged.index = normal.index := by
  obtain ⟨texts, spelled, readsPicked, readsLeft⟩ := readKeys_lists lists
  have stands := standsFor_of_structural behind
  have wholeRun :
      Stateful.Settles
        ((normalPass checker.normalMode checker.budget).normalize 0
          (.object occurrence shape))
        whole :=
    settles_of_normalizeIn normalizes
  have joinedRun :
      Stateful.Settles
        ((normalPass checker.normalMode checker.budget).normalize 0
          (.intersection outer [first, second]))
        joined :=
    settles_of_normalizeIn joins
  obtain ⟨enough, normal, budget, rfl, wholeForm⟩ := settles_shape wholeRun
  obtain ⟨less, types, within, visits, meets⟩ := settles_intersection joinedRun
  obtain _ | ⟨firstRun, _ | ⟨secondRun, ⟨⟩⟩⟩ := visits
  obtain ⟨fewer, deeper, pickedNormal, fewerLess, below, rfl, pickedForm⟩ :=
    settles_given readsPicked stands
      (PropertyWise.ofShape_pickKeys spelled known) picked firstRun
  obtain ⟨others, deep, leftNormal, othersLess, under, rfl, leftForm⟩ :=
    settles_given readsLeft stands
      (PropertyWise.ofShape_omitKeys spelled) left secondRun
  -- The halves of the normal form of the whole, reached deeper down.
  cases (pickedForm.flatter (by omega) (by omega)).unique (wholeForm.pick names)
  cases (leftForm.flatter (by omega) (by omega)).unique (wholeForm.without names)
  have distinctNormal : normal.names.Nodup := wholeForm.names ▸ distinct
  have joinedForm :=
    meets fun type inFlat => by
      rcases List.mem_pair.mp inFlat with rfl | rfl <;> rfl
  rw [show flattenIntersection
        [Ty.ofShape (normal.pick names), .ofShape (normal.without names)] =
      [.ofShape (normal.pick names), .ofShape (normal.without names)] from rfl,
    NormalPass.meetMembers_disjoint rfl (Shape.names_without_nodup distinctNormal)
      fun _ => Shape.not_mem_pick_of_mem_without] at joinedForm
  exact ⟨_, normal, joinedForm.of_pure, rfl, Shape.pick_append_without_perm, rfl⟩

/-- Picking names that were not left out picks the same from the whole. -/
theorem applyUtility_pickRest
    {keys remaining : Ty}
    (stands : checker.StandsFor base shape)
    (lists : keys.Lists names)
    (restLists : remaining.Lists rest)
    (others : ∀ name ∈ rest, name ∈ shape.names ∧ name ∉ names)
    (left :
      checker.Given ((PropertyWise.omitKeys keys).application base) second)
    (settles :
      Settles
        (checker.applyUtility
          ((PropertyWise.pickKeys remaining).application second))
        outcome) :
    outcome = .ok (.ofShape (shape.pick rest)) := by
  obtain ⟨texts, spelled, _, readsLeft⟩ := readKeys_lists lists
  obtain ⟨restTexts, restSpelled, readsRest, _⟩ := readKeys_lists restLists
  have leftStands : checker.StandsFor second (shape.without names) :=
    standsFor_given readsLeft stands (PropertyWise.ofShape_omitKeys spelled) left
  have known : ∀ name ∈ rest, name ∈ (shape.without names).names := by
    intro name inRest
    obtain ⟨property, member, same⟩ := List.mem_map.mp (others name inRest).1
    refine List.mem_map.mpr ⟨property, List.mem_filter.mpr ⟨member, ?_⟩, same⟩
    simpa [same] using (others name inRest).2
  rw [← Shape.pick_without fun name inRest => (others name inRest).2]
  exact applyUtility_known readsRest leftStands
    (PropertyWise.ofShape_pickKeys restSpelled known) settles

end Checker

/-- Objects of the same properties in some order are identical to the same ones. -/
theorem identical_ofShape_perm
    (arena : Arena)
    {first second : Shape Ty}
    (properties : first.properties.Perm second.properties)
    (index : first.index = second.index)
    (other : Shape Ty) :
    arena.identical (.ofShape first) (.ofShape other) =
      arena.identical (.ofShape second) (.ofShape other) := by
  rw [identical_ofShape, identical_ofShape]
  simp only [equalNodes, Ty.ofShape, index, properties.length_eq,
    properties.all_eq]

/-- What holds of all nodes of an object holds of those that are picked. -/
theorem every_pick
    {shape : Shape Ty}
    (every : (Ty.object occurrence shape).Every Ty.Recognizable)
    (keys : List String) :
    (Ty.ofShape (shape.pick keys)).Every Ty.Recognizable := by
  obtain ⟨names, inside⟩ := Ty.every_iff.mp every
  refine Ty.every_iff.mpr ⟨?_, Ty.forall_parts_object.mpr ?_⟩
  · exact List.Nodup.sublist (List.filter_sublist.map Property.name) names
  · exact
      { properties := fun property member =>
          (Ty.forall_parts_object.mp inside).properties property
            (List.mem_filter.mp member).1
        keys := nofun
        values := nofun }

/-- What is picked from an object nests no deeper. -/
theorem shallow_pick
    {shape : Shape Ty}
    (shallow : (Ty.object occurrence shape).Shallow depth)
    (keys : List String) :
    (Ty.ofShape (shape.pick keys)).Shallow depth := by
  cases shallow with
  | object properties _ _ =>
      exact .object
        (fun property member => properties property (List.mem_filter.mp member).1)
        nofun nofun

namespace Checker

/--
`Pick` and `Omit` split the object that stands behind a type. With the same keys
both succeed, and whether the two are applied or written, their intersection
normalizes to the properties and the index signature of the whole, so that
structural identity sees no difference if it recognizes the normal form at all.
What is picked of the names that were left is what is picked of them at once.
-/
theorem pick_omit_split
    {checker : Checker}
    {base keys : Ty}
    {shape : Shape Ty}
    (behind :
      Settles (checker.structural 0 base) (.ok (.object occurrence shape)))
    (distinct : shape.names.Nodup)
    (lists : keys.Lists names)
    (known : ∀ name ∈ names, name ∈ shape.names)
    (picked :
      checker.Given ((PropertyWise.pickKeys keys).application base) first)
    (left :
      checker.Given ((PropertyWise.omitKeys keys).application base) second) :
    (∀ outcome,
        Settles
          (checker.applyUtility ((PropertyWise.pickKeys keys).application base))
          outcome →
        outcome = .ok (.ofShape (shape.pick names))) ∧
      (∀ outcome,
        Settles
          (checker.applyUtility ((PropertyWise.omitKeys keys).application base))
          outcome →
        outcome = .ok (.ofShape (shape.without names))) ∧
      (∀ outer joined whole,
        Settles (checker.normalize (.intersection outer [first, second])) joined →
        Settles (checker.normalize (.object occurrence shape)) whole →
        (∃ merged normal : Shape Ty,
          joined = .ofShape merged ∧ whole = .ofShape normal ∧
            merged.properties.Perm normal.properties ∧
            merged.index = normal.index) ∧
          (whole.Every Ty.Recognizable →
            whole.Shallow identityDepth →
            checker.arena.identical joined whole = true)) ∧
      ∀ remaining rest,
        remaining.Lists rest →
        (∀ name, name ∈ rest ↔ name ∈ shape.names ∧ name ∉ names) →
        ∀ ofLeft atOnce,
          Settles
            (checker.applyUtility
              ((PropertyWise.pickKeys remaining).application second))
            ofLeft →
          Settles
            (checker.applyUtility
              ((PropertyWise.pickKeys remaining).application base))
            atOnce →
          ∃ type,
            ofLeft = .ok type ∧ atOnce = .ok type ∧
              ((Ty.object occurrence shape).Every Ty.Recognizable →
                (Ty.object occurrence shape).Shallow identityDepth →
                checker.arena.identical type type = true) := by
  have stands := standsFor_of_structural behind
  obtain ⟨texts, spelled, readsPicked, readsLeft⟩ := readKeys_lists lists
  refine ⟨fun outcome => ?_, fun outcome => ?_,
    fun outer joined whole joins normalizes => ?_,
    fun remaining rest restLists remains ofLeft atOnce settles settlesToo => ?_⟩
  · exact applyUtility_known readsPicked stands
      (PropertyWise.ofShape_pickKeys spelled known)
  · exact applyUtility_known readsLeft stands
      (PropertyWise.ofShape_omitKeys spelled)
  · obtain ⟨merged, normal, rfl, rfl, properties, index⟩ :=
      settles_rejoined behind distinct lists known picked left joins normalizes
    refine ⟨⟨merged, normal, rfl, rfl, properties, index⟩,
      fun recognizable shallow => ?_⟩
    rw [identical_ofShape_perm _ properties index]
    exact identicalWithin_self recognizable shallow []
  · obtain ⟨_, restSpelled, readsRest, _⟩ := readKeys_lists restLists
    refine ⟨.ofShape (shape.pick rest), ?_, ?_, fun recognizable shallow => ?_⟩
    · exact applyUtility_pickRest stands lists restLists
        (fun name => (remains name).mp) left settles
    · exact applyUtility_known readsRest stands
        (PropertyWise.ofShape_pickKeys restSpelled fun name inRest =>
          ((remains name).mp inRest).1)
        settlesToo
    · exact identicalWithin_self (every_pick recognizable rest)
        (shallow_pick shallow rest) []

/-- Of users, the halves with and without the name make up the whole. -/
theorem pick_omit_split_user :
    let checker : Checker := { arena := accountArena, budget := 20 }
    let name : Ty := .ofLiteral (.string (.ofString "name"))
    let shape : Shape Ty :=
      { properties :=
          [{ name := "id", type := .string }, { name := "name", type := .string }] }
    let halves : Ty :=
      .ofIntersection
        [.generic none ((PropertyWise.pickKeys name).application user),
          .generic none ((PropertyWise.omitKeys name).application user)]
    Settles (checker.structural 0 user) (.ok (.ofShape shape)) ∧
      shape.names.Nodup ∧ name.Lists ["name"] ∧
        ∃ joined whole,
          Settles (checker.normalize halves) joined ∧
            Settles (checker.normalize (.ofShape shape)) whole ∧
            joined ≠ whole ∧
            checker.arena.identical joined whole = true := by
  intro checker name shape halves
  have behind : Settles (checker.structural 0 user) (.ok (.ofShape shape)) :=
    ⟨[], by decide +kernel, Log.quiet_nil⟩
  have distinct : shape.names.Nodup := by decide
  have lists : name.Lists ["name"] := .single ⟨none, _, rfl, by decide +kernel⟩
  have joins :
      Settles (checker.normalize halves)
        (.ofShape { properties := shape.properties.reverse }) :=
    ⟨[], by decide +kernel, Log.quiet_nil⟩
  have normalizes : Settles (checker.normalize (.ofShape shape)) (.ofShape shape) :=
    ⟨[], by decide +kernel, Log.quiet_nil⟩
  have rejoins :=
    (pick_omit_split behind distinct lists (by decide) .written .written).2.2.1
      none _ _ joins normalizes
  refine ⟨behind, distinct, lists, _, _, joins, normalizes, by decide +kernel,
    rejoins.2 ?_ ?_⟩
  · refine .node distinct (List.forall_mem_cons.mpr ⟨.leaf trivial rfl, ?_⟩)
    exact List.forall_mem_singleton.mpr (.leaf trivial rfl)
  · refine .object (List.forall_mem_cons.mpr ⟨.primitive, ?_⟩) nofun nofun
    exact List.forall_mem_singleton.mpr .primitive

/-- The halves of an object normalize to something that is not identical to it. -/
def ComesApart
    (checker : Checker)
    (shape : Shape Ty)
    (keys : Ty) :
    Prop :=
  ∃ picked left joined whole,
    Settles (checker.structural 0 (.ofShape shape)) (.ok (.ofShape shape)) ∧
      Settles
        (checker.applyUtility
          ((PropertyWise.pickKeys keys).application (.ofShape shape)))
        (.ok picked) ∧
      Settles
        (checker.applyUtility
          ((PropertyWise.omitKeys keys).application (.ofShape shape)))
        (.ok left) ∧
      Settles (checker.normalize (.ofIntersection [picked, left])) joined ∧
      Settles (checker.normalize (.ofShape shape)) whole ∧
      checker.arena.identical joined whole = false

/-- An object with one property. -/
def entryOf
    (type : Ty) :
    Shape Ty :=
  { properties := [{ name := "entry", type }] }

/-- The key of the property of such an object. -/
def entryKey : Ty :=
  .ofLiteral (.string (.ofString "entry"))

/-- Objects around a type, each in a property of the one around it. -/
def nestedIn
    (innermost : Ty) :
    (levels : Nat) →
    Ty
  | 0 => innermost
  | levels + 1 =>
      .ofShape
        { properties := [{ name := "next", type := nestedIn innermost levels }] }

/-- What a name stands for with its properties made readonly, or a text. -/
def readonlyOrText
    (reference : Reference) :
    Ty :=
  .ofUnion
    [.generic none (PropertyWise.allReadonly.application (.named reference)),
      .string]

/-- Two names whose definitions nest less deep than structural identity looks. -/
def deepArena : Arena :=
  { declarations :=
      [{ name := "Inner", definition := nestedIn .string 150 },
        { name := "Outer"
          definition := nestedIn (readonlyOrText ⟨0, 0, "Inner"⟩) 150 }] }

/-- The normal form of such an alternative. -/
def readonlyForm
    (innermost : Ty) :
    Ty :=
  .ofUnion
    [.ofShape
        { properties :=
            [{ name := "next", type := nestedIn innermost 149, readonly := true }] },
      .string]

/-- A property that is there twice. -/
def repeatedProperty : Ty :=
  .ofShape
    { properties :=
        [{ name := "d", type := .string, optional := true },
          { name := "d", type := .string, optional := true, readonly := true }] }

/-- Nesting adds one level for every object. -/
theorem shallow_nestedIn
    {innermost : Ty}
    (shallow : innermost.Shallow depth)
    (levels : Nat) :
    (nestedIn innermost levels).Shallow (depth + levels) := by
  induction levels with
  | zero => exact shallow
  | succ levels inductionHypothesis =>
      exact .object (List.forall_mem_singleton.mpr inductionHypothesis) nofun nofun

/-- Nesting keeps the nodes recognizable. -/
theorem recognizable_nestedIn
    {innermost : Ty}
    (every : innermost.Every Ty.Recognizable)
    (levels : Nat) :
    (nestedIn innermost levels).Every Ty.Recognizable := by
  induction levels with
  | zero => exact every
  | succ levels inductionHypothesis =>
      exact .node (List.nodup_singleton _)
        (List.forall_mem_singleton.mpr inductionHypothesis)

/-- An alternative is recognizable and nests no deeper than its two members. -/
theorem recognizable_readonlyOrText
    (reference : Reference) :
    (readonlyOrText reference).Every Ty.Recognizable ∧
      (readonlyOrText reference).Shallow (depth + 2) := by
  constructor
  · refine .node trivial (List.forall_mem_cons.mpr ⟨?_, ?_⟩)
    · exact .node trivial (List.forall_mem_singleton.mpr (.leaf trivial rfl))
    · exact List.forall_mem_singleton.mpr (.leaf trivial rfl)
  · refine .union (List.forall_mem_cons.mpr ⟨?_, ?_⟩)
    · exact .generic .named nofun
    · exact List.forall_mem_singleton.mpr .primitive

/-- Runs on an object with one property that show it come apart. -/
theorem comesApart_of_runs
    {checker : Checker}
    {type : Ty}
    (normal : Ty)
    (found :
      checker.structural 0 (.ofShape (entryOf type)) [] =
        .ok (.ok (.ofShape (entryOf type)), []))
    (picks :
      checker.applyUtility
          ((PropertyWise.pickKeys entryKey).application (.ofShape (entryOf type)))
          [] =
        .ok (.ok (.ofShape (entryOf type)), []))
    (leaves :
      checker.applyUtility
          ((PropertyWise.omitKeys entryKey).application (.ofShape (entryOf type)))
          [] =
        .ok (.ok (.ofShape { properties := [] }), []))
    (joins :
      checker.normalize
          (.ofIntersection
            [.ofShape (entryOf type), .ofShape { properties := [] }])
          [] =
        .ok (.ofShape (entryOf normal), []))
    (normalizes :
      checker.normalize (.ofShape (entryOf type)) [] =
        .ok (.ofShape (entryOf normal), []))
    (differs :
      checker.arena.identical
          (.ofShape (entryOf normal)) (.ofShape (entryOf normal)) =
        false) :
    checker.ComesApart (entryOf type) entryKey :=
  ⟨_, _, _, _, ⟨[], found, Log.quiet_nil⟩, ⟨[], picks, Log.quiet_nil⟩,
    ⟨[], leaves, Log.quiet_nil⟩, ⟨[], joins, Log.quiet_nil⟩,
    ⟨[], normalizes, Log.quiet_nil⟩, differs⟩

set_option maxRecDepth 10000 in
/--
Two objects whose own names are distinct come apart, by slips of evaluation and of
structural identity. An application that is a member of a union inside the first
one is evaluated and not kept, so that the normal form collects the definitions of
several names and nests deeper than identity looks. In the second one an object has
a property twice, which identity looks up by its name, so that it takes no copy of
the object for the same.
-/
theorem pick_omit_split_apart :
    ((∀ declaration ∈ deepArena.declarations,
        declaration.definition.Every Ty.Recognizable ∧
          declaration.definition.Shallow identityDepth) ∧
      (Ty.ofShape (entryOf (readonlyOrText ⟨0, 1, "Outer"⟩))).Every
        Ty.Recognizable ∧
      (Ty.ofShape (entryOf (readonlyOrText ⟨0, 1, "Outer"⟩))).Shallow
        identityDepth ∧
      (entryOf (readonlyOrText ⟨0, 1, "Outer"⟩)).names = ["entry"] ∧
      ComesApart
        { arena := deepArena, options := { maxDepth := 1000 }, budget := 1000 }
        (entryOf (readonlyOrText ⟨0, 1, "Outer"⟩)) entryKey) ∧
      (Ty.ofShape (entryOf repeatedProperty)).Shallow identityDepth ∧
      (entryOf repeatedProperty).names = ["entry"] ∧
      ComesApart { budget := 20 } (entryOf repeatedProperty) entryKey := by
  refine ⟨⟨?definitions, ?recognizable, ?shallow, rfl, ?deep⟩, ?shallowToo, rfl,
    ?repeated⟩
  case definitions =>
    have text : Ty.string.Every Ty.Recognizable ∧ Ty.string.Shallow 106 :=
      ⟨.leaf trivial rfl, .primitive⟩
    have alternative :
        (readonlyOrText ⟨0, 0, "Inner"⟩).Every Ty.Recognizable ∧
          (readonlyOrText ⟨0, 0, "Inner"⟩).Shallow 106 :=
      recognizable_readonlyOrText _
    intro declaration member
    rcases List.mem_pair.mp member with rfl | rfl
    · exact ⟨recognizable_nestedIn text.1 150, shallow_nestedIn text.2 150⟩
    · exact ⟨recognizable_nestedIn alternative.1 150,
        shallow_nestedIn alternative.2 150⟩
  case recognizable =>
    exact .node (List.nodup_singleton _)
      (List.forall_mem_singleton.mpr
        (@recognizable_readonlyOrText 0 ⟨0, 1, "Outer"⟩).1)
  case shallow =>
    exact .object
      (List.forall_mem_singleton.mpr (recognizable_readonlyOrText _).2) nofun nofun
  case deep =>
    refine comesApart_of_runs (readonlyForm (readonlyForm .string))
      ?_ ?_ ?_ ?_ ?_ ?_ <;>
    decide +kernel
  case shallowToo =>
    refine .object (List.forall_mem_singleton.mpr ?_) nofun nofun
    exact .object
      (List.forall_mem_cons.mpr
        ⟨.primitive, List.forall_mem_singleton.mpr .primitive⟩) nofun nofun
  case repeated =>
    refine comesApart_of_runs repeatedProperty ?_ ?_ ?_ ?_ ?_ ?_ <;>
    decide +kernel

end Checker

end StructuralTyping
