import StructuralTyping.Proofs.Canonical
import StructuralTyping.Proofs.Convergence
import StructuralTyping.Proofs.NormalForm

namespace StructuralTyping

/-!
# What the parts of normalization lead to

A part of normalization has an outcome when some run ends with it, be it any run
or one that reports no exceeded depth. Either way the outcome of a sequence goes
through an outcome of its first part. What the parts can lead to is said once
for both, part by part, in terms of the parts below.
-/

open Stateful

namespace Stateful

/-- A way to say what a part of normalization leads to. -/
class Outcome
    (leads : {α : Type} → Normalizing α → α → Prop) :
    Prop where
  of_pure :
    ∀ {α : Type} {value answer : α},
      leads (pure value) answer → answer = value
  of_bind :
    ∀ {α β : Type} {first : Normalizing α} {next : α → Normalizing β}
      {answer : β} [∀ value, Accountable (next value)],
      leads (first >>= next) answer →
      ∃ value, leads first value ∧ leads (next value) answer

instance :
    Outcome (@Settles Bool _) where
  of_pure := Settles.of_pure
  of_bind settles := settles.of_bind

instance :
    Outcome (@Answers Bool) where
  of_pure := answers_pure.mp
  of_bind answers := answers.of_bind

namespace Outcome

variable
  {leads : {α : Type} → Normalizing α → α → Prop}
  [outcome : Outcome leads]

/-- A visit to a list leads to values item by item. -/
theorem of_mapM
    {visit : α → Normalizing β}
    [each : ∀ item, Accountable (visit item)]
    {items : List α}
    {values : List β}
    (result : leads (items.mapM visit) values) :
    List.Forall₂ (fun item value => leads (visit item) value) items values := by
  induction items generalizing values with
  | nil =>
      cases outcome.of_pure result
      exact .nil
  | cons item rest inductionHypothesis =>
      rw [List.mapM_cons] at result
      obtain ⟨value, head, result⟩ := outcome.of_bind result
      obtain ⟨others, tail, result⟩ := outcome.of_bind result
      cases outcome.of_pure result
      exact .cons head (inductionHypothesis tail)

/-- A fold over a list leads to what every step keeps. -/
theorem of_foldlM
    {visit : β → α → Normalizing β}
    [each : ∀ state item, Accountable (visit state item)]
    {invariant : β → Prop}
    {items : List α}
    (result : leads (items.foldlM visit start) last)
    (initial : invariant start)
    (step :
      ∀ state, invariant state → ∀ item ∈ items, ∀ next,
        leads (visit state item) next → invariant next) :
    invariant last := by
  induction items generalizing start with
  | nil =>
      cases outcome.of_pure result
      exact initial
  | cons item rest inductionHypothesis =>
      rw [List.foldlM_cons] at result
      obtain ⟨state, first, result⟩ := outcome.of_bind result
      exact inductionHypothesis result
        (step start initial item (by simp) state first)
        fun state kept other inRest => step state kept other (by simp [inRest])

end Outcome

end Stateful

/-- What the second of two related options holds is related to the first. -/
theorem exists_optional_left
    {relation : α → β → Prop}
    {before : Option α}
    {after : Option β}
    (related : Option.Rel relation before after)
    (present : after = some value) :
    ∃ item, before = some item ∧ relation item value := by
  cases related with
  | none =>
      cases present
  | some holds =>
      cases present
      exact ⟨_, rfl, holds⟩

namespace NormalPass

section Outcomes

variable
  {arena : Arena} {pass : NormalPass}
  {leads : {α : Type} → Normalizing α → α → Prop}
  [outcome : Outcome leads]

/-- A merged property is new, or takes the place of the one of its name. -/
theorem mergeProperty_cases
    {shape merged : Shape Ty}
    (told : leads (pass.mergeProperty arena depth shape property) merged) :
    (shape.property? property.name = none ∧
      merged = { shape with properties := shape.properties ++ [property] }) ∨
      ∃ existing type,
        shape.property? property.name = some existing ∧
          (arena.identical existing.type property.type = true ∧
              type = existing.type ∨
            arena.identical existing.type property.type = false ∧
              leads
                (pass.intersection depth [existing.type, property.type])
                type) ∧
          merged =
            { shape with
              properties :=
                shape.properties.replace existing
                  (mergedProperty existing property type) } := by
  unfold mergeProperty at told
  split at told
  · next missing =>
    exact .inl ⟨missing, outcome.of_pure told⟩
  · next existing found =>
    dsimp only at told
    split at told
    · next identical =>
      obtain ⟨type, same, told⟩ := outcome.of_bind told
      exact .inr ⟨existing, type, found, .inl ⟨identical, outcome.of_pure same⟩,
        outcome.of_pure told⟩
    · next differ =>
      obtain ⟨type, meets, told⟩ := outcome.of_bind told
      exact .inr ⟨existing, type, found, .inr ⟨by simpa using differ, meets⟩,
        outcome.of_pure told⟩

/-- A merged index signature is one of the two, or has the values of both. -/
theorem mergeIndex_cases
    {first second merged : Option (IndexSignature Ty)}
    (told : leads (pass.mergeIndex arena depth first second) merged) :
    merged = first ∨ merged = second ∨
      ∃ one other value,
        first = some one ∧ second = some other ∧
          leads (pass.intersection depth [one.value, other.value]) value ∧
          merged = some { one with value } := by
  cases first with
  | none =>
      exact .inr (.inl (outcome.of_pure told))
  | some one =>
  cases second with
  | none =>
      exact .inl (outcome.of_pure told)
  | some other =>
      simp only [mergeIndex] at told
      split at told
      · exact .inl (outcome.of_pure told)
      · obtain ⟨value, meets, told⟩ := outcome.of_bind told
        exact .inr (.inr
          ⟨one, other, value, rfl, rfl, meets, outcome.of_pure told⟩)

/-- The parts of merged members: members or objects, the same atoms, one object. -/
structure MergedFrom
    (members merged : List Ty) :
    Prop where
  origin :
    ∀ member ∈ merged, member ∈ members ∨ ∃ shape, member = .ofShape shape
  atoms : merged.filter Ty.isAtom = members.filter Ty.isAtom
  objects : merged.any Ty.isObjectLike = members.any Ty.isObjectLike
  single : (shapesOf merged).length ≤ 1

/-- Putting one object in the place of all objects of a list that has some. -/
theorem mergedFrom_replaceObjects
    {members : List Ty}
    {shape merged : Shape Ty}
    (some : shape ∈ shapesOf members) :
    MergedFrom members (replaceObjects (.ofShape merged) members) := by
  have origin :=
    (forall_replaceObjects some fun member =>
      member ∈ members ∨ ∃ shape, member = .ofShape shape).mpr
      ⟨.inr ⟨merged, rfl⟩, fun member inMembers _ => .inl inMembers⟩
  have rest :
      (replaceObjects (.ofShape merged) members).filter Ty.isAtom =
          members.filter Ty.isAtom ∧
        (replaceObjects (.ofShape merged) members).any Ty.isObjectLike =
          members.any Ty.isObjectLike ∧
        shapesOf (replaceObjects (.ofShape merged) members) = [merged] := by
    clear origin
    induction members with
    | nil =>
        simp [shapesOf] at some
    | cons member others inductionHypothesis =>
        cases member with
        | object occurrence own =>
            refine ⟨?_, ?_, ?_⟩
            · simp only [replaceObjects]
              rw [List.filter_cons_of_neg (by simp [Ty.ofShape, Ty.isAtom]),
                List.filter_cons_of_neg (by simp [Ty.isAtom]),
                List.filter_filter]
              refine List.filter_congr fun other _ => ?_
              cases other <;> rfl
            · simp [replaceObjects, Ty.ofShape, Ty.isObjectLike]
            · refine congrArg (merged :: ·)
                (List.filterMap_eq_nil_iff.mpr fun other member => ?_)
              have notObject := (List.mem_filter.mp member).2
              cases other <;> simp at notObject <;> rfl
        | _ =>
            have inOthers : shape ∈ shapesOf others := by
              simpa [shapesOf] using some
            obtain ⟨atoms, objects, single⟩ := inductionHypothesis inOthers
            refine ⟨?_, ?_, ?_⟩
            · simp only [replaceObjects, List.filter_cons, atoms]
            · simp only [replaceObjects, List.any_cons, objects]
            · simpa [replaceObjects, shapesOf] using single
  exact ⟨origin, rest.1, rest.2.1, by simp [rest.2.2]⟩

/-- Merging the objects of a list leaves one that comes from folding their shapes. -/
theorem mergeObjects_cases
    {members merged : List Ty}
    (told : leads (pass.mergeObjects arena depth members) merged) :
    MergedFrom members merged ∧
      (merged = members ∨
        ∃ first rest shape,
          (∀ other ∈ first :: rest, other ∈ shapesOf members) ∧
            leads (rest.foldlM (pass.mergeShape arena depth) first) shape ∧
            ∀ member ∈ merged, member ∈ members ∨ member = .ofShape shape) := by
  unfold mergeObjects at told
  split at told
  · next first second rest shapes =>
    obtain ⟨shape, folds, told⟩ := outcome.of_bind told
    cases outcome.of_pure told
    have someShape : first ∈ shapesOf members := by simp [shapes]
    refine ⟨mergedFrom_replaceObjects someShape,
      .inr ⟨first, second :: rest, shape, ?_, folds, ?_⟩⟩
    · simp [shapes]
    · rw [forall_replaceObjects someShape fun member =>
        member ∈ members ∨ member = .ofShape shape]
      exact ⟨.inr rfl, fun member inMembers _ => .inl inMembers⟩
  · next few =>
    cases outcome.of_pure told
    refine ⟨⟨fun member inMembers => .inl inMembers, rfl, rfl, ?_⟩, .inl rfl⟩
    by_contra several
    rcases shapes : shapesOf members with _ | ⟨first, _ | ⟨second, rest⟩⟩
    · simp [shapes] at several
    · simp [shapes] at several
    · exact few first second rest shapes

/--
Meeting some types leads to a primitive, to one of the merged members, or to an
intersection. If none of them was one, it does not reduce any further.
-/
theorem meetMembers_cases
    {types : List Ty}
    (told : leads (pass.meetMembers arena depth types) result) :
    (∃ kind, result = .primitive kind) ∨
      ∃ reduced merged,
        (∀ type ∈ reduced, type ∈ types) ∧
          leads (pass.mergeObjects arena depth reduced) merged ∧
          (result ∈ merged ∨
            result = .intersection none merged ∧
              ((∀ type ∈ types, RelationStep.isIntersection type = false) →
                IntersectionParts merged)) := by
  unfold meetMembers at told
  split at told
  · cases outcome.of_pure told
    split
    · exact .inl ⟨_, rfl⟩
    · exact .inl ⟨_, rfl⟩
  next nonempty =>
  dsimp only at told
  split at told
  · cases outcome.of_pure told
    exact .inl ⟨_, rfl⟩
  next reduced succeeded =>
  obtain ⟨merged, merges, told⟩ :=
    @outcome.of_bind _ _ _ _ _ (fun _ => by split <;> infer_instance) told
  have keptFrom :
      ∀ type ∈ reduced,
        type ∈ types ∧ type.isPrimitive .unknown = false := by
    intro type member
    have inFiltered :=
      (unique_sublist _).subset (mem_of_mem_reduceAtoms succeeded member)
    simpa using List.mem_filter.mp inFiltered
  obtain ⟨origin, atoms, objects, single⟩ := (mergeObjects_cases merges).1
  split at told
  · cases outcome.of_pure told
    exact .inl ⟨_, rfl⟩
  · cases outcome.of_pure told
    exact .inr ⟨reduced, _, fun type member => (keptFrom type member).1, merges,
      .inl (by simp)⟩
  · next notNone notSingle =>
    cases outcome.of_pure told
    refine .inr ⟨reduced, merged, fun type member => (keptFrom type member).1,
      merges, .inr ⟨rfl, fun flat => ?_⟩⟩
    have proper :
        ∀ part ∈ merged,
          RelationStep.isIntersection part = false ∧
            (part.isNever || part.isPrimitive .any) = false ∧
              part.isPrimitive .unknown = false := by
      intro part inMerged
      rcases origin part inMerged with inReduced | ⟨shape, rfl⟩
      · obtain ⟨inTypes, notUnknown⟩ := keptFrom part inReduced
        exact ⟨flat part inTypes,
          by simpa using List.find?_eq_none.mp nonempty part inTypes,
          notUnknown⟩
      · exact ⟨rfl, rfl, rfl⟩
    refine ⟨?_, fun part member => (proper part member).1,
      fun part member => (proper part member).2.1,
      fun part member => (proper part member).2.2, ?_, single⟩
    · rcases merged with _ | ⟨first, _ | ⟨second, rest⟩⟩
      · exact absurd rfl notNone
      · exact absurd rfl (notSingle first)
      · simp
    · refine AtomsReduced.reduceAtoms ?_
      cases atomsReduced_of_reduceAtoms succeeded with
      | none noAtoms =>
          exact .none (atoms.trans noAtoms)
      | literal one =>
          exact .literal (atoms.trans one)
      | primitive one separate =>
          exact .primitive (atoms.trans one) (objects ▸ separate)

/-- The union of some members joins their normal forms. -/
theorem union_cases
    {members : List Ty}
    (told : leads (pass.union arena depth members) result) :
    ∃ types,
      leads (members.mapM (pass.normalize depth)) types ∧
        result = arena.joinMembers (flattenUnion types) := by
  unfold NormalPass.union at told
  obtain ⟨types, visits, told⟩ := outcome.of_bind told
  exact ⟨types, visits, outcome.of_pure told⟩

variable [pass.Reports]

/-- What is normalized in a list was normalized item by item. -/
theorem exists_normalized
    {types results : List Ty}
    (told : leads (types.mapM (pass.normalize depth)) results)
    (member : result ∈ results) :
    ∃ type ∈ types, leads (pass.normalize depth type) result :=
  exists_related_left (outcome.of_mapM told) member

@[inherit_doc exists_normalized]
theorem exists_normalizedInside
    {types results : List Ty}
    (told : leads (types.mapM (pass.inner depth)) results)
    (member : result ∈ results) :
    ∃ type ∈ types, leads (pass.inner depth type) result :=
  exists_related_left (outcome.of_mapM told) member

/-- Merging shapes merges the properties and then the index signatures. -/
theorem mergeShape_cases
    {first second merged : Shape Ty}
    (told : leads (pass.mergeShape arena depth first second) merged) :
    ∃ joined index,
      leads
        (second.properties.foldlM (pass.mergeProperty arena depth) first)
        joined ∧
        leads (pass.mergeIndex arena depth joined.index second.index)
          index ∧
        merged = { joined with index } := by
  unfold mergeShape at told
  obtain ⟨joined, joins, told⟩ := outcome.of_bind told
  obtain ⟨index, meets, told⟩ := outcome.of_bind told
  exact ⟨joined, index, joins, meets, outcome.of_pure told⟩

/-- The properties and the index signature of a shape are normalized in place. -/
theorem normalizeShape_cases
    {shape result : Shape Ty}
    (told : leads (pass.normalizeShape depth shape) result) :
    List.Forall₂
        (fun before after : Property Ty =>
          after = { before with type := after.type } ∧
            leads (pass.inner depth before.type) after.type)
        shape.properties result.properties ∧
      Option.Rel
        (fun before after : IndexSignature Ty =>
          leads (pass.inner depth before.key) after.key ∧
            leads (pass.inner depth before.value) after.value)
        shape.index result.index := by
  unfold normalizeShape at told
  obtain ⟨properties, visits, told⟩ :=
    @outcome.of_bind _ _ _ _ _
      (fun _ => by
        cases shape.index <;>
          (simp only [Option.mapM_none, Option.mapM_some]; infer_instance))
      told
  obtain ⟨index, indexTold, told⟩ := outcome.of_bind told
  cases outcome.of_pure told
  constructor
  · refine (outcome.of_mapM visits).imp fun before after told => ?_
    obtain ⟨type, normal, told⟩ := outcome.of_bind told
    cases outcome.of_pure told
    exact ⟨rfl, normal⟩
  · dsimp only
    cases written : shape.index with
    | none =>
        rw [written, Option.mapM_none] at indexTold
        cases outcome.of_pure indexTold
        exact .none
    | some before =>
        rw [written, Option.mapM_some, map_eq_pure_bind] at indexTold
        obtain ⟨normal, parts, indexTold⟩ := outcome.of_bind indexTold
        cases outcome.of_pure indexTold
        obtain ⟨key, keyTold, parts⟩ := outcome.of_bind parts
        obtain ⟨value, valueTold, parts⟩ := outcome.of_bind parts
        cases outcome.of_pure parts
        exact .some ⟨keyTold, valueTold⟩

/-- The parts of a call signature are normalized in place. -/
theorem normalizeSignature_cases
    {signature result : Signature Ty}
    (told : leads (pass.normalizeSignature depth signature) result) :
    result.method = signature.method ∧
      List.Forall₂
        (fun before after : Parameter Ty =>
          after = { before with type := after.type } ∧
            leads (pass.inner depth before.type) after.type)
        signature.parameters result.parameters ∧
      leads (pass.inner depth signature.rest) result.rest ∧
      leads (pass.inner depth signature.result) result.result := by
  unfold normalizeSignature at told
  obtain ⟨parameters, visits, told⟩ := outcome.of_bind told
  obtain ⟨rest, restTold, told⟩ := outcome.of_bind told
  obtain ⟨result, resultTold, told⟩ := outcome.of_bind told
  cases outcome.of_pure told
  refine ⟨rfl, ?_, restTold, resultTold⟩
  refine (outcome.of_mapM visits).imp fun before after told => ?_
  obtain ⟨type, normal, told⟩ := outcome.of_bind told
  cases outcome.of_pure told
  exact ⟨rfl, normal⟩

/-- An application that stays is one of the same utility to normal operands. -/
theorem rebuild_cases
    {application : Application Ty}
    (told :
      leads (pass.rebuild depth occurrence application) result) :
    ∃ kept base arguments,
      leads (pass.inner depth application.base) base ∧
        leads (application.arguments.mapM (pass.inner depth)) arguments ∧
        result = .generic kept { application with base, arguments } := by
  unfold rebuild at told
  obtain ⟨base, baseTold, told⟩ := outcome.of_bind told
  obtain ⟨arguments, argumentsTold, told⟩ := outcome.of_bind told
  split at told
  · next unchanged =>
    cases outcome.of_pure told
    obtain ⟨sameBase, sameArguments⟩ := unchanged
    exact ⟨occurrence, base, arguments, baseTold, argumentsTold,
      by rw [sameBase, sameArguments]⟩
  · exact ⟨none, base, arguments, baseTold, argumentsTold,
      outcome.of_pure told⟩

/--
An intersection is distributed over its unions, or its members meet. `flat`
holds the normalized members.
-/
theorem nextIntersection_cases
    {members : List Ty}
    (told : leads (pass.nextIntersection arena depth members) result) :
    ∃ types,
      leads (members.mapM (pass.normalize depth)) types ∧
        (distribute? (flattenIntersection types) = none ∧
            leads
              (pass.meetMembers arena depth (flattenIntersection types))
              result ∨
          (flattenIntersection types).any Ty.isUnion = true ∧
            ∃ results,
              leads
                ((choices (flattenIntersection types)).mapM
                  (pass.intersection depth))
                results ∧
                leads (pass.union arena depth results) result) := by
  unfold nextIntersection at told
  obtain ⟨types, visits, told⟩ :=
    @outcome.of_bind _ _ _ _ _ (fun _ => by dsimp only; split <;> infer_instance) told
  refine ⟨types, visits, ?_⟩
  dsimp only at told
  split at told
  · next combinations distributes =>
    obtain ⟨anyUnion, rfl⟩ := expanded_cases distributes
    obtain ⟨results, meets, told⟩ := outcome.of_bind told
    exact .inr ⟨anyUnion, results, meets, told⟩
  · next kept =>
    exact .inl ⟨kept, told⟩

end Outcomes

/-- An application is evaluated and normalized, or it stays. -/
theorem normalizeApplication_cases
    {mode : NormalMode}
    {pass : NormalPass}
    [pass.Reports]
    [mode.evaluate.Reports]
    {application : Application Ty}
    (settles :
      Settles
        (pass.normalizeApplication mode depth occurrence application)
        result) :
    (∃ type,
      Check.Settles (mode.evaluate application depth).run (.ok type) ∧
        Settles (pass.normalize depth type) result) ∨
      Settles (pass.rebuild depth occurrence application) result := by
  unfold normalizeApplication at settles
  obtain ⟨answer, evaluates, settles⟩ :=
    @Settles.of_bind _ _ _ _ _ _ (fun _ => by split <;> infer_instance) _
      settles
  cases answer with
  | ok type =>
      exact .inl ⟨type, evaluates.of_lift, settles⟩
  | error error =>
      obtain ⟨_, _, settles⟩ := settles.of_bind
      exact .inr settles

end NormalPass

namespace Checker

/-- The mode in which a checker normalizes types. -/
def normalMode
    (checker : Checker) :
    NormalMode :=
  { checker
    evaluate := checker.evaluation.evaluate
    keepReferences := false }

instance
    (checker : Checker) :
    checker.normalMode.evaluate.Reports := by
  unfold normalMode
  infer_instance

end Checker

end StructuralTyping
