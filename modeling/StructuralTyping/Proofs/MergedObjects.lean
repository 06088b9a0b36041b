import StructuralTyping.Proofs.MeetForms

namespace StructuralTyping

/-!
# What two objects are merged into

A merged object has the properties of both. A property that both have is
optional if it is in both of them, and its type is a meet of the two types. A
form fits the merged object if it fits each of the two.
-/

open Stateful Relating

/-- The property of a merged object under a name that two objects have or not. -/
inductive MeetsProperty
    (checker : Checker) :
    (first second met : Option (Property Ty)) →
    Prop
  | none :
      MeetsProperty checker none none none
  | left :
      MeetsProperty checker (some property) none (some property)
  | right :
      MeetsProperty checker none (some property) (some property)
  | both
      (optional : met.optional = (first.optional && second.optional))
      (meets : checker.IsMeet first.type second.type met.type) :
      MeetsProperty checker (some first) (some second) (some met)

/-- The index signature of a merged object. -/
inductive MeetsIndex
    (checker : Checker) :
    (first second met : Option (IndexSignature Ty)) →
    Prop
  | none :
      MeetsIndex checker none none none
  | left :
      MeetsIndex checker (some index) none (some index)
  | right :
      MeetsIndex checker none (some index) (some index)
  | both
      (governs :
        ∀ name, indexApplies first.key name = indexApplies met.key name)
      (otherGoverns :
        ∀ name, indexApplies second.key name = indexApplies met.key name)
      (meets : checker.IsMeet first.value second.value met.value) :
      MeetsIndex checker (some first) (some second) (some met)

/-- Which of two properties comes first does not matter. -/
theorem MeetsProperty.symm
    {checker : Checker}
    {first second met : Option (Property Ty)}
    (meets : MeetsProperty checker first second met) :
    MeetsProperty checker second first met := by
  cases meets with
  | none => exact .none
  | left => exact .right
  | right => exact .left
  | both optional meets =>
      exact .both (optional.trans (Bool.and_comm ..)) meets.symm

/-- Which of two index signatures comes first does not matter. -/
theorem MeetsIndex.symm
    {checker : Checker}
    {first second met : Option (IndexSignature Ty)}
    (meets : MeetsIndex checker first second met) :
    MeetsIndex checker second first met := by
  cases meets with
  | none => exact .none
  | left => exact .right
  | right => exact .left
  | both governs otherGoverns meets =>
      exact .both otherGoverns governs meets.symm

/-- The shape of a merged object, name by name. -/
structure MeetsShape
    (checker : Checker)
    (first second met : Shape Ty) :
    Prop where
  names : met.names.Nodup
  properties :
    ∀ name,
      MeetsProperty checker (first.property? name) (second.property? name)
        (met.property? name)
  index : MeetsIndex checker first.index second.index met.index

/-- Two shapes without repeated names whose shared members are related. -/
structure Shape.Shares
    (related : Ty → Ty → Prop)
    (first second : Shape Ty) :
    Prop where
  names : first.names.Nodup
  otherNames : second.names.Nodup
  properties :
    ∀ property ∈ first.properties, ∀ other ∈ second.properties,
      property.name = other.name → related property.type other.type
  index :
    ∀ index, first.index = some index →
      ∀ other, second.index = some other →
        (∀ name, indexApplies other.key name = indexApplies index.key name) ∧
          related index.value other.value

/-- Shared members that are related are so in every way that follows. -/
theorem Shape.Shares.imp
    {first second : Shape Ty}
    {related wanted : Ty → Ty → Prop}
    (shares : first.Shares related second)
    (weaker : ∀ {one other}, related one other → wanted one other) :
    first.Shares wanted second where
  names := shares.names
  otherNames := shares.otherNames
  properties := fun property inFirst other inSecond same =>
    weaker (shares.properties property inFirst other inSecond same)
  index := fun index written other otherWritten =>
    (shares.index index written other otherWritten).imp id weaker

/-- A property that fits does so in every way that follows. -/
theorem FitsProperty.imp
    {arena : Arena}
    {related wanted : Ty → Ty → Prop}
    (fits : FitsProperty arena related actual property)
    (kept : property.optional = true → other.optional = true)
    (type :
      ∀ found, actual = some found →
        related found.type (arena.orUndefined property.optional property.type) →
        wanted found.type (arena.orUndefined other.optional other.type)) :
    FitsProperty arena wanted actual other := by
  cases fits with
  | missing optional => exact .missing (kept optional)
  | found left relates => exact .found (kept ∘ left) (type _ rfl relates)

section Options

variable
  {checker : Checker}
  {exposed : Option (Property Ty)}
  (strict : checker.options.strictNullChecks = true)
  (known :
    ∀ actual, exposed = some actual →
      Reaches checker actual.type actual.type ∧
        actual.type.Every Ty.Unmixed)

include strict known

/-- What fits the merged property fits the first of the two. -/
theorem MeetsProperty.fits_left
    (meets : MeetsProperty checker (some property) second met)
    (again : Reaches checker property.type property.type)
    (fits :
      ∀ found, met = some found →
        FitsProperty checker.arena checker.Admits exposed found) :
    FitsProperty checker.arena checker.Accepts exposed property := by
  cases meets with
  | left => exact (fits _ rfl).imp id fun _ _ admits => admits.accepts
  | @both _ _ found optional meets =>
      have kept : found.optional = true → property.optional = true := by
        rw [optional, Bool.and_eq_true]
        exact And.left
      refine (fits _ rfl).imp kept fun actual found => ?_
      obtain ⟨reaches, unmixed⟩ := known actual found
      exact meets.accepts_left strict reaches unmixed again kept

/-- What fits both properties fits the one that they are merged into. -/
theorem MeetsProperty.fits_both
    (meets : MeetsProperty checker first second (some met))
    (fits :
      ∀ property, first = some property →
        Reaches checker property.type property.type ∧
          FitsProperty checker.arena checker.Admits exposed property)
    (otherFits :
      ∀ property, second = some property →
        Reaches checker property.type property.type ∧
          FitsProperty checker.arena checker.Admits exposed property) :
    FitsProperty checker.arena checker.Accepts exposed met := by
  cases meets with
  | left => exact (fits _ rfl).2.imp id fun _ _ admits => admits.accepts
  | right => exact (otherFits _ rfl).2.imp id fun _ _ admits => admits.accepts
  | both optional meets =>
      obtain ⟨again, fits⟩ := fits _ rfl
      obtain ⟨otherAgain, otherFits⟩ := otherFits _ rfl
      cases fits with
      | missing left =>
          cases otherFits with
          | missing otherLeft =>
              exact .missing (by rw [optional, left, otherLeft]; rfl)
      | found kept admits =>
          cases otherFits with
          | found otherKept otherAdmits =>
              obtain ⟨reaches, unmixed⟩ := known _ rfl
              refine .found (fun left => ?_) ?_
              · rw [optional, kept left, otherKept left]
                rfl
              · rw [optional]
                exact meets.accepts_both strict reaches unmixed again otherAgain
                  admits otherAdmits

end Options

section Values

variable
  {checker : Checker}
  {form : Ty}
  (strict : checker.options.strictNullChecks = true)
  (again : Reaches checker form form)
  (unmixed : form.Every Ty.Unmixed)

include strict again unmixed

/-- What a merged index signature admits the first of the two accepts. -/
theorem MeetsIndex.accepts_left
    (meets : MeetsIndex checker (some index) second met)
    (valued : Reaches checker index.value index.value) :
    ∃ found, met = some found ∧
      (∀ name, indexApplies index.key name = indexApplies found.key name) ∧
      (checker.Admits form found.value → checker.Accepts form index.value) := by
  cases meets with
  | left => exact ⟨index, rfl, fun _ => rfl, fun admits => admits.accepts⟩
  | both governs _ meets =>
      exact ⟨_, rfl, governs, fun admits =>
        @Checker.IsMeet.accepts_left _ _ _ _ _ false false strict meets again
          unmixed valued id admits⟩

/-- What both index signatures admit the one that they come to accepts. -/
theorem MeetsIndex.accepts_both
    (meets : MeetsIndex checker first second (some met))
    (admits :
      ∀ index, first = some index →
        Reaches checker index.value index.value ∧
          ((∀ name, indexApplies index.key name = indexApplies met.key name) →
            checker.Admits form index.value))
    (otherAdmits :
      ∀ index, second = some index →
        Reaches checker index.value index.value ∧
          ((∀ name, indexApplies index.key name = indexApplies met.key name) →
            checker.Admits form index.value)) :
    checker.Accepts form met.value := by
  cases meets with
  | left => exact ((admits _ rfl).2 fun _ => rfl).accepts
  | right => exact ((otherAdmits _ rfl).2 fun _ => rfl).accepts
  | both governs otherGoverns meets =>
      obtain ⟨valued, admits⟩ := admits _ rfl
      obtain ⟨otherValued, otherAdmits⟩ := otherAdmits _ rfl
      exact @Checker.IsMeet.accepts_both _ _ _ _ _ false false strict meets
        again unmixed valued otherValued (admits governs)
        (otherAdmits otherGoverns)

end Values

namespace MeetsShape

variable
  {checker : Checker}
  {first second met members : Shape Ty}

/-- Which of two objects comes first does not matter. -/
theorem symm
    (meets : MeetsShape checker first second met) :
    MeetsShape checker second first met where
  names := meets.names
  properties := fun name => (meets.properties name).symm
  index := meets.index.symm

variable
  (strict : checker.options.strictNullChecks = true)
  (meets : MeetsShape checker first second met)
  (again : ∀ type ∈ first.types, Reaches checker type type)
  (known :
    ∀ type ∈ members.types,
      Reaches checker type type ∧ type.Every Ty.Unmixed)

include strict meets again known

/-- Members that fit a merged object fit the first of the two. -/
theorem fits_left
    (distinct : first.names.Nodup)
    (fits : FitsMembers checker.arena checker.Admits members met) :
    FitsMembers checker.arena checker.Accepts members first := by
  have ofIndex {index : IndexSignature Ty} {type : Ty}
      (written : first.index = some index)
      (inside : type ∈ members.types) :
      ∃ found, met.index = some found ∧
        (∀ name, indexApplies index.key name = indexApplies found.key name) ∧
        (checker.Admits type found.value → checker.Accepts type index.value) :=
    (written ▸ meets.index).accepts_left strict (known type inside).1
      (known type inside).2 (again _ (Shape.value_mem_types written))
  refine ⟨fun property member => ?_, fun index written property member governed =>
    ?_, fun index written actual found => ?_⟩
  · refine MeetsProperty.fits_left strict
      (fun actual found => known _ (Shape.type_mem_types
        (Shape.mem_of_property? found).1))
      (Shape.property?_of_mem distinct member ▸ meets.properties property.name)
      (again _ (Shape.type_mem_types member)) fun found formed => ?_
    obtain ⟨inMet, same⟩ := Shape.mem_of_property? formed
    exact same ▸ fits.properties found inMet
  · obtain ⟨found, formed, same, accepts⟩ :=
      ofIndex written (Shape.type_mem_types member)
    exact accepts
      (fits.governed found formed property member (same _ ▸ governed))
  · obtain ⟨other, formed, -, accepts⟩ :=
      ofIndex written (Shape.value_mem_types found)
    exact accepts (fits.indexed other formed actual found)

/-- Members that fit two objects fit what the two are merged into. -/
theorem fits_both
    (otherAgain : ∀ type ∈ second.types, Reaches checker type type)
    (fits : FitsMembers checker.arena checker.Admits members first)
    (otherFits : FitsMembers checker.arena checker.Admits members second) :
    FitsMembers checker.arena checker.Accepts members met := by
  have inside {shape : Shape Ty}
      (again : ∀ type ∈ shape.types, Reaches checker type type)
      (fits : FitsMembers checker.arena checker.Admits members shape)
      (name : String) :
      ∀ property, shape.property? name = some property →
        Reaches checker property.type property.type ∧
          FitsProperty checker.arena checker.Admits (members.property? name)
            property := fun property found => by
    obtain ⟨inShape, same⟩ := Shape.mem_of_property? found
    exact ⟨again _ (Shape.type_mem_types inShape),
      same ▸ fits.properties property inShape⟩
  refine ⟨fun property member => ?_, fun index formed property member governed =>
    ?_, fun index formed actual found => ?_⟩
  · exact MeetsProperty.fits_both strict
      (fun actual found => known _ (Shape.type_mem_types
        (Shape.mem_of_property? found).1))
      (Shape.property?_of_mem meets.names member ▸
        meets.properties property.name)
      (inside again fits property.name) (inside otherAgain otherFits property.name)
  · obtain ⟨reaches, unmixed⟩ := known _ (Shape.type_mem_types member)
    exact (formed ▸ meets.index).accepts_both strict reaches unmixed
      (fun one written => ⟨again _ (Shape.value_mem_types written),
        fun same => fits.governed one written property member
          (same _ ▸ governed)⟩)
      fun other written => ⟨otherAgain _ (Shape.value_mem_types written),
        fun same => otherFits.governed other written property member
          (same _ ▸ governed)⟩
  · obtain ⟨reaches, unmixed⟩ := known _ (Shape.value_mem_types found)
    exact (formed ▸ meets.index).accepts_both strict reaches unmixed
      (fun one written => ⟨again _ (Shape.value_mem_types written),
        fun _ => fits.indexed one written actual found⟩)
      fun other written => ⟨otherAgain _ (Shape.value_mem_types written),
        fun _ => otherFits.indexed other written actual found⟩

end MeetsShape

namespace Shape

variable {shape : Shape Ty} {existing property : Property Ty}

/-- A property that is added last is found under its name if it is new. -/
theorem property?_append
    (name : String) :
    Shape.property? { shape with properties := shape.properties ++ [property] }
        name =
      (shape.property? name).or
        (if property.name == name then some property else none) := by
  rw [Shape.property?, List.find?_append, List.find?_singleton]
  rfl

/-- A property of a new name keeps the names apart. -/
theorem names_append
    (missing : shape.property? property.name = none)
    (distinct : shape.names.Nodup) :
    (Shape.names
      { shape with properties := shape.properties ++ [property] }).Nodup := by
  have fresh : property.name ∉ shape.names := by
    intro known
    obtain ⟨other, inShape, same⟩ := List.mem_map.mp known
    exact List.find?_eq_none.mp missing other inShape (by simp [same])
  rw [names, List.map_append]
  refine List.nodup_append.mpr ⟨distinct, List.nodup_singleton _, ?_⟩
  rintro name known other isNew rfl
  exact fresh (List.mem_singleton.mp isNew ▸ known)

/-- A property that is replaced leaves the other names alone. -/
theorem property?_replace
    (found : shape.property? existing.name = some existing)
    (sameName : property.name = existing.name)
    (name : String) :
    Shape.property?
        { shape with
          properties := shape.properties.replace existing property }
        name =
      if existing.name == name then some property else shape.property? name := by
  unfold Shape.property? at *
  dsimp only
  generalize shape.properties = properties at found ⊢
  induction properties with
  | nil => cases found
  | cons first rest inductionHypothesis =>
      rw [List.replace_cons]
      cases same : existing == first with
      | true =>
          rw [← beq_iff_eq.mp same, List.find?_cons, List.find?_cons, sameName]
          cases existing.name == name <;> rfl
      | false =>
          rw [List.find?_cons] at found
          cases named : first.name == existing.name with
          | true =>
              rw [named] at found
              cases found
              simp at same
          | false =>
              rw [named] at found
              rw [List.find?_cons, List.find?_cons, inductionHypothesis found]
              cases wanted : first.name == name with
              | true =>
                  rw [← beq_iff_eq.mp wanted, Bool.beq_comm, named]
                  rfl
              | false => rfl

end Shape

namespace NormalPass

variable
  {checker : Checker}
  {pass : NormalPass}

/-- What the types of two members of one name come to in a merged object. -/
def MergesTo
    (checker : Checker)
    (pass : NormalPass)
    (depth : Nat)
    (first second type : Ty) :
    Prop :=
  checker.arena.identical first second = true ∧ type = first ∨
    checker.arena.identical first second = false ∧
      Settles (pass.intersection depth [first, second]) type

/-- Whatever two types come to in a merged object is their meet. -/
def Meets
    (checker : Checker)
    (pass : NormalPass)
    (depth : Nat)
    (first second : Ty) :
    Prop :=
  ∀ type, pass.MergesTo checker depth first second type →
    checker.IsMeet first second type

/-- The properties that some properties are merged into, name by name. -/
structure MergedProperties
    (checker : Checker)
    (first : Shape Ty)
    (done : List (Property Ty))
    (current : Shape Ty) :
    Prop where
  names : current.names.Nodup
  properties :
    ∀ name,
      MeetsProperty checker (first.property? name)
        (Shape.property? { properties := done } name) (current.property? name)
  index : current.index = first.index

variable
  {first current : Shape Ty}
  {done : List (Property Ty)}

/-- One more property is new, or meets the one of its name. -/
theorem mergeProperty_meets
    {next : Shape Ty}
    (merged : MergedProperties checker first done current)
    (fresh : ∀ other ∈ done, other.name ≠ property.name)
    (meets :
      ∀ existing ∈ first.properties, existing.name = property.name →
        pass.Meets checker depth existing.type property.type)
    (settles :
      Settles (pass.mergeProperty checker.arena depth current property) next) :
    MergedProperties checker first (done ++ [property]) next := by
  have unseen : Shape.property? { properties := done } property.name = none :=
    List.find?_eq_none.mpr fun other inDone => by simp [fresh other inDone]
  have added :
      ∀ name,
        Shape.property? { properties := done ++ [property] } name =
          (Shape.property? { properties := done } name).or
            (if property.name == name then some property else none) :=
    @Shape.property?_append { properties := done } property
  have here := merged.properties property.name
  rw [unseen] at here
  rcases mergeProperty_cases settles with
    ⟨missing, rfl⟩ | ⟨existing, type, found, merges, rfl⟩
  · refine ⟨Shape.names_append missing merged.names, fun name => ?_,
      merged.index⟩
    rw [Shape.property?_append, added]
    by_cases same : property.name = name
    · subst same
      rw [missing] at here ⊢
      generalize first.property? property.name = before at here ⊢
      cases here
      rw [unseen, beq_self_eq_true, if_pos rfl]
      exact .right
    · rw [if_neg (by simpa using same), Option.or_none, Option.or_none]
      exact merged.properties name
  · have sameName := (Shape.mem_of_property? found).2
    have present : first.property? property.name = some existing := by
      rw [found] at here
      generalize first.property? property.name = before at here ⊢
      cases here
      rfl
    refine ⟨?_, fun name => ?_, merged.index⟩
    · rw [Shape.names, map_replace (show existing.name =
        (mergedProperty existing property type).name from rfl)]
      exact merged.names
    · rw [@Shape.property?_replace current existing
        (mergedProperty existing property type) (sameName.symm ▸ found) rfl,
        added]
      by_cases same : property.name = name
      · subst same
        rw [unseen, present, sameName, beq_self_eq_true, if_pos rfl, if_pos rfl]
        exact .both rfl
          (meets existing (Shape.mem_of_property? present).1 sameName type
            merges)
      · rw [if_neg (by simpa using same),
          if_neg (by simpa [sameName] using same), Option.or_none]
        exact merged.properties name

/-- Properties that are merged one after the other meet name by name. -/
theorem mergeProperties_meets
    [pass.Reports]
    {rest : List (Property Ty)}
    {joined : Shape Ty}
    (merged : MergedProperties checker first done current)
    (distinct : ((done ++ rest).map Property.name).Nodup)
    (meets :
      ∀ existing ∈ first.properties, ∀ property ∈ rest,
        existing.name = property.name →
        pass.Meets checker depth existing.type property.type)
    (settles :
      Settles (rest.foldlM (pass.mergeProperty checker.arena depth) current)
        joined) :
    MergedProperties checker first (done ++ rest) joined := by
  induction rest generalizing done current with
  | nil =>
      cases settles.of_pure
      rw [List.append_nil]
      exact merged
  | cons property rest inductionHypothesis =>
      rw [List.foldlM_cons] at settles
      obtain ⟨next, adds, settles⟩ := settles.of_bind
      have split : done ++ property :: rest = done ++ [property] ++ rest := by
        simp
      rw [split] at distinct ⊢
      have fresh : ∀ other ∈ done, other.name ≠ property.name := by
        intro other inDone
        rw [List.map_append, List.map_append] at distinct
        exact (List.nodup_append.mp (List.nodup_append.mp distinct).1).2.2 _
          (List.mem_map_of_mem inDone) _ (by simp)
      refine inductionHypothesis ?_ distinct
        (fun existing inFirst other inRest =>
          meets existing inFirst other (List.mem_cons_of_mem _ inRest)) settles
      exact mergeProperty_meets merged fresh
        (fun existing inFirst =>
          meets existing inFirst property List.mem_cons_self) adds

/-- Two shapes whose shared parts meet are merged into what meets them. -/
theorem mergeShape_meets
    [pass.Reports]
    {second met : Shape Ty}
    (shares : first.Shares (pass.Meets checker depth) second)
    (settles :
      Settles (pass.mergeShape checker.arena depth first second) met) :
    MeetsShape checker first second met := by
  obtain ⟨joined, index, joins, merges, rfl⟩ := mergeShape_cases settles
  have start : MergedProperties checker first [] first := by
    refine ⟨shares.names, fun name => ?_, rfl⟩
    change MeetsProperty checker _ none _
    cases first.property? name with
    | none => exact .none
    | some => exact .left
  obtain ⟨names, properties, same⟩ :=
    mergeProperties_meets start shares.otherNames shares.properties joins
  refine ⟨names, properties, ?_⟩
  have indexMeets := shares.index
  rw [same] at merges
  dsimp only
  generalize first.index = one at indexMeets merges ⊢
  generalize second.index = other at indexMeets merges ⊢
  cases one with
  | none =>
      cases other with
      | none =>
          cases merges.of_pure
          exact .none
      | some =>
          cases merges.of_pure
          exact .right
  | some one =>
  cases other with
  | none =>
      cases merges.of_pure
      exact .left
  | some other =>
      obtain ⟨governs, meets⟩ := indexMeets one rfl other rfl
      simp only [mergeIndex] at merges
      split at merges
      · next identical =>
        cases merges.of_pure
        exact .both (fun _ => rfl) governs (meets _ (.inl ⟨identical, rfl⟩))
      · next differ =>
        obtain ⟨value, normal, merges⟩ := merges.of_bind
        cases merges.of_pure
        exact .both (fun _ => rfl) governs
          (meets _ (.inr ⟨by simpa using differ, normal⟩))

end NormalPass

end StructuralTyping
