import StructuralTyping.Proofs.Canonizing
import StructuralTyping.Proofs.Termination

namespace StructuralTyping

/-!
# What stands behind intersections of objects and names

An intersection of objects and names is expanded one level only: the names among
its members give way to what they stand for, and the result is normalized without
following any name again. What comes out is one object if the names among several
members are themselves defined without names, and it may keep a name if they are
not. A utility that works on objects accepts what has an object behind it.
-/

open Check

/-- An object, or a name of a kind. -/
def Ty.IsFactor
    (names : Reference → Prop) :
    Ty →
    Prop
  | .object _ _ => True
  | .named reference => names reference
  | _ => False

/-- A type built by intersections with members from types of a kind. -/
inductive Ty.Product
    (factor : Ty → Prop) :
    Ty →
    Prop
  | factor :
      factor type →
      Product factor type
  | intersection {parts : List Ty} :
      parts ≠ [] →
      (∀ part ∈ parts, Product factor part) →
      Product factor (.intersection occurrence parts)

/--
What an intersection of objects and names normalizes to: one object, a name that
was left alone, or several members that still have a name among them.
-/
inductive Ty.Merged
    (alone names : Reference → Prop) :
    Ty →
    Prop
  | object :
      Merged alone names (.object occurrence shape)
  | named :
      alone reference →
      Merged alone names (.named reference)
  | intersection {parts : List Ty} :
      (∀ part ∈ parts, Ty.IsFactor names part) →
      .named reference ∈ parts →
      Merged alone names (.intersection occurrence parts)

namespace Ty

variable {alone names : Reference → Prop} {type : Ty}

/-- A factor is an object or a name. -/
theorem IsFactor.cases
    (factor : type.IsFactor names) :
    (∃ occurrence shape, type = .object occurrence shape) ∨
      ∃ reference, names reference ∧ type = .named reference := by
  cases type with
  | object occurrence shape => exact .inl ⟨occurrence, shape, rfl⟩
  | named reference => exact .inr ⟨reference, factor, rfl⟩
  | _ => exact factor.elim

/-- A factor is neither empty nor a top type, and no atom or union. -/
theorem IsFactor.proper
    (factor : type.IsFactor names) :
    (type.isNever || type.isPrimitive .any) = false ∧
      type.isPrimitive .unknown = false ∧
      type.isAtom = false ∧ type.isUnion = false := by
  rcases factor.cases with ⟨occurrence, shape, rfl⟩ | ⟨reference, _, rfl⟩ <;>
    exact ⟨rfl, rfl, rfl, rfl⟩

/-- Products of types that are of a more general kind. -/
theorem Product.mono
    {factor wanted : Ty → Prop}
    (product : type.Product factor)
    (implies : ∀ part, factor part → wanted part) :
    type.Product wanted := by
  induction product with
  | factor here => exact .factor (implies _ here)
  | intersection nonempty _ inductionHypothesis =>
      exact .intersection nonempty inductionHypothesis

/-- Names that may be left in more cases. -/
theorem Merged.weaken
    (merged : type.Merged alone names)
    (implies : ∀ reference, alone reference → still reference) :
    type.Merged still names := by
  cases merged with
  | object => exact .object
  | named left => exact .named (implies _ left)
  | intersection factors left => exact .intersection factors left

/-- Without names to keep, only an object is left. -/
theorem Merged.isObject
    (merged : type.Merged (fun _ => False) fun _ => False) :
    ∃ occurrence shape, type = .object occurrence shape := by
  cases merged with
  | object => exact ⟨_, _, rfl⟩
  | named left => exact left.elim
  | intersection factors left =>
      have impossible : False := factors _ left
      exact impossible.elim

end Ty

section Meeting

variable
  {arena : Arena} {pass : NormalPass} {names : Reference → Prop}
  {types : List Ty} {result : Ty}

/-- Factors have no atoms to reduce. -/
theorem reduceAtoms_factors
    (factors : ∀ type ∈ types, type.IsFactor names) :
    reduceAtoms types = some types :=
  AtomsReduced.reduceAtoms <| .none <|
    List.filter_eq_nil_iff.mpr fun type member => by
      simp [(factors type member).proper]

/-- Merged factors are factors, and some are left. -/
theorem mergeObjects_factors
    [pass.Reports]
    {merged : List Ty}
    (factors : ∀ type ∈ types, type.IsFactor names)
    (nonempty : types ≠ [])
    (settles : Stateful.Settles (pass.mergeObjects arena depth types) merged) :
    (∀ type ∈ merged, type.IsFactor names) ∧
      merged ≠ [] ∧ (NormalPass.shapesOf merged).length ≤ 1 := by
  obtain ⟨⟨origin, _, objects, single⟩, same⟩ :=
    NormalPass.mergeObjects_cases settles
  refine ⟨fun type inMerged => ?_, ?_, single⟩
  · rcases origin type inMerged with inTypes | ⟨shape, rfl⟩
    · exact factors type inTypes
    · trivial
  · rcases same with rfl | ⟨first, rest, _, shapes, _, _⟩
    · exact nonempty
    · have isObject : types.any Ty.isObjectLike = true := by
        obtain ⟨type, inTypes, found⟩ :=
          List.mem_filterMap.mp (shapes first List.mem_cons_self)
        refine List.any_eq_true.mpr ⟨type, inTypes, ?_⟩
        cases type <;> first | rfl | cases found
      rintro rfl
      rw [← objects] at isObject
      cases isObject

/-- Several factors with at most one object among them have a name. -/
theorem exists_name
    (factors : ∀ type ∈ types, type.IsFactor names)
    (several : 1 < types.length)
    (single : (NormalPass.shapesOf types).length ≤ 1) :
    ∃ reference, .named reference ∈ types := by
  by_contra noName
  have objects :
      ∀ type ∈ types, ∃ occurrence shape, type = .object occurrence shape := by
    intro type inTypes
    rcases (factors type inTypes).cases with isObject | ⟨reference, _, rfl⟩
    · exact isObject
    · exact absurd ⟨reference, inTypes⟩ noName
  have all : (NormalPass.shapesOf types).length = types.length := by
    clear factors several single noName
    induction types with
    | nil => rfl
    | cons type rest inductionHypothesis =>
        rw [List.forall_mem_cons] at objects
        obtain ⟨⟨occurrence, shape, rfl⟩, others⟩ := objects
        simpa [NormalPass.shapesOf] using inductionHypothesis others
  omega

/-- Factors meet in an object, in one of their names, or in several factors. -/
theorem meetMembers_factors
    [pass.Reports]
    (factors : ∀ type ∈ types, type.IsFactor names)
    (nonempty : types ≠ [])
    (settles : Stateful.Settles (pass.meetMembers arena depth types) result) :
    result.Merged names names := by
  have noTop :
      (types.find? fun type => type.isNever || type.isPrimitive .any) = none :=
    List.find?_eq_none.mpr fun type member => by
      simp [(factors type member).proper]
  have noUnknown :
      (types.filter fun type => !type.isPrimitive .unknown) = types :=
    List.filter_eq_self.mpr fun type member => by
      simp [(factors type member).proper]
  have kept :
      ∀ type ∈ types.foldl arena.appendUnique [], type.IsFactor names :=
    fun type inKept => factors type (unique_sublist types |>.subset inKept)
  unfold NormalPass.meetMembers at settles
  simp only [noTop, noUnknown, reduceAtoms_factors kept] at settles
  obtain ⟨merged, merges, settles⟩ :=
    @Stateful.Settles.of_bind _ _ _ _ _ _ (fun _ => by split <;> infer_instance) _
      settles
  obtain ⟨left, someLeft, single⟩ :=
    mergeObjects_factors kept (unique_ne_nil arena nonempty) merges
  split at settles
  · exact absurd rfl someLeft
  · next type =>
    cases settles.of_pure
    rcases (left result (by simp)).cases with
      ⟨occurrence, shape, rfl⟩ | ⟨reference, known, rfl⟩
    · exact .object
    · exact .named known
  · next notNone notSingle =>
    cases settles.of_pure
    have several : 1 < merged.length := by
      rcases merged with _ | ⟨first, _ | ⟨second, rest⟩⟩
      · exact absurd rfl notNone
      · exact absurd rfl (notSingle first)
      · simp
    obtain ⟨reference, isName⟩ := exists_name left several single
    exact .intersection left isName

end Meeting

section Normalizing

variable {mode : NormalMode} {result : Ty}

/-- The settled normal form of a type that is written is that of its node. -/
theorem settles_node
    (written : type.isAbsent = false)
    (settles :
      Stateful.Settles ((normalPass mode budget).normalize depth type) result) :
    ∃ less,
      budget = less + 1 ∧
        Stateful.Settles
          ((normalPass mode less).normalizeNode mode (depth + 1) type)
          result := by
  cases budget with
  | zero =>
      obtain ⟨_, _, _, _, _, run, _⟩ := settles
      cases run
  | succ less =>
      change
        Stateful.Settles
          ((normalPass mode less).nextNormalize mode depth type) result
        at settles
      unfold NormalPass.nextNormalize at settles
      rw [if_neg (by simp [written])] at settles
      split at settles
      · obtain ⟨_, reported, _⟩ := settles.of_bind
        exact absurd reported not_settles_reportOnce
      · exact ⟨less, rfl, settles⟩

/-- Objects normalize to objects. -/
theorem settles_object
    (settles :
      Stateful.Settles
        ((normalPass mode budget).normalize depth (.object occurrence shape))
        result) :
    ∃ shape, result = .ofShape shape := by
  obtain ⟨less, _, settles⟩ := settles_node rfl settles
  obtain ⟨shape, _, settles⟩ := settles.of_bind
  exact ⟨shape, settles.of_pure⟩

/-- Names normalize to themselves. -/
theorem settles_named
    (settles :
      Stateful.Settles
        ((normalPass mode budget).normalize depth (.named reference)) result) :
    result = .named reference := by
  obtain ⟨less, _, settles⟩ := settles_node rfl settles
  exact settles.of_pure

variable [mode.evaluate.Reports]

/-- The members of an intersection are normalized, and then they meet. -/
theorem settles_intersection
    (settles :
      Stateful.Settles
        ((normalPass mode budget).normalize depth
          (.intersection occurrence members))
        result) :
    ∃ less types,
      less < budget ∧
        List.Forall₂
          (fun member type =>
            Stateful.Settles
              ((normalPass mode less).normalize (depth + 1) member) type)
          members types ∧
        ((∀ type ∈ flattenIntersection types, type.isUnion = false) →
          Stateful.Settles
            ((normalPass mode less).meetMembers mode.checker.arena (depth + 1)
              (flattenIntersection types))
            result) := by
  obtain ⟨left, within, settles⟩ := settles_node rfl settles
  cases left with
  | zero =>
      obtain ⟨_, _, _, _, _, run, _⟩ := settles
      cases run
  | succ less =>
      change
        Stateful.Settles
          ((normalPass mode less).nextIntersection mode.checker.arena
            (depth + 1) members)
          result
        at settles
      obtain ⟨types, visits, meets⟩ :=
        NormalPass.nextIntersection_cases settles
      refine ⟨less, types, by omega, visits.of_mapM, fun noUnion => ?_⟩
      rcases meets with ⟨_, meets⟩ | ⟨anyUnion, _⟩
      · exact meets
      · obtain ⟨type, inFlat, isUnion⟩ := List.any_eq_true.mp anyUnion
        rw [noUnion type inFlat] at isUnion
        cases isUnion

omit [mode.evaluate.Reports] in
/-- What is flattened out of merged types are factors. -/
theorem flatten_merged
    {types : List Ty}
    (merged : ∀ type ∈ types, type.Merged names names) :
    ∀ type ∈ flattenIntersection types, type.IsFactor names := by
  intro type inFlat
  obtain ⟨whole, inTypes, found⟩ := List.mem_flatMap.mp inFlat
  cases merged whole inTypes with
  | object =>
      cases List.mem_singleton.mp found
      trivial
  | named known =>
      cases List.mem_singleton.mp found
      exact known
  | intersection factors =>
      exact factors type found

omit [mode.evaluate.Reports] in
/-- Something is flattened out of some merged types. -/
theorem flatten_ne_nil
    {types : List Ty}
    (merged : ∀ type ∈ types, type.Merged names names)
    (nonempty : types ≠ []) :
    flattenIntersection types ≠ [] := by
  obtain ⟨type, inTypes⟩ := List.exists_mem_of_ne_nil types nonempty
  suffices found : ∃ part, part ∈ flattenIntersection types by
    exact List.ne_nil_of_mem found.choose_spec
  cases merged type inTypes with
  | object =>
      exact ⟨_, List.mem_flatMap.mpr ⟨_, inTypes, List.mem_singleton_self _⟩⟩
  | named =>
      exact ⟨_, List.mem_flatMap.mpr ⟨_, inTypes, List.mem_singleton_self _⟩⟩
  | intersection _ left =>
      exact ⟨_, List.mem_flatMap.mpr ⟨_, inTypes, left⟩⟩

/-- An intersection of types that normalize to merged ones does so too. -/
theorem merged_intersection
    {members : List Ty}
    (nonempty : members ≠ [])
    (each :
      ∀ member ∈ members, ∀ {budget depth normal},
        Stateful.Settles
          ((normalPass mode budget).normalize depth member) normal →
        normal.Merged names names)
    (settles :
      Stateful.Settles
        ((normalPass mode budget).normalize depth
          (.intersection occurrence members))
        result) :
    result.Merged names names := by
  obtain ⟨less, types, _, visits, meets⟩ := settles_intersection settles
  have merged : ∀ type ∈ types, type.Merged names names := by
    intro type inTypes
    obtain ⟨member, inMembers, normalizes⟩ :=
      exists_related_left visits inTypes
    exact each member inMembers normalizes
  have factors := flatten_merged merged
  refine meetMembers_factors factors (flatten_ne_nil merged ?_)
    (meets fun type inFlat => (factors type inFlat).proper.2.2.2)
  rintro rfl
  cases visits
  exact nonempty rfl

/-- Products of objects and names normalize to merged types. -/
theorem merged_product
    {type : Ty}
    (product : type.Product (Ty.IsFactor names))
    (settles :
      Stateful.Settles
        ((normalPass mode budget).normalize depth type) result) :
    result.Merged names names := by
  induction product generalizing budget depth result with
  | factor factor =>
      rcases factor.cases with
        ⟨occurrence, shape, rfl⟩ | ⟨reference, known, rfl⟩
      · obtain ⟨normal, rfl⟩ := settles_object settles
        exact .object
      · rw [settles_named settles]
        exact .named known
  | intersection nonempty _ inductionHypothesis =>
      exact merged_intersection nonempty
        (fun member inMembers => inductionHypothesis member inMembers) settles

/-- A factor on its own is left as it is. -/
theorem meetMembers_single
    {arena : Arena}
    {pass : NormalPass}
    {type : Ty}
    (factor : type.IsFactor names)
    (settles : Stateful.Settles (pass.meetMembers arena depth [type]) result) :
    result = type := by
  rcases factor.cases with
    ⟨occurrence, shape, rfl⟩ | ⟨reference, known, rfl⟩ <;>
  exact settles.of_pure

/-- An intersection of a single member normalizes like the member. -/
theorem merged_single
    {alone names : Reference → Prop}
    {member : Ty}
    (implies : ∀ reference, names reference → alone reference)
    (each :
      ∀ {budget depth normal},
        Stateful.Settles
          ((normalPass mode budget).normalize depth member) normal →
        normal.Merged alone names)
    (settles :
      Stateful.Settles
        ((normalPass mode budget).normalize depth
          (.intersection occurrence [member]))
        result) :
    result.Merged alone names := by
  obtain ⟨less, types, _, visits, meets⟩ := settles_intersection settles
  obtain ⟨normal, _, normalizes, ⟨⟩, rfl⟩ := List.forall₂_cons_left_iff.mp visits
  cases each normalizes with
  | @object occurrence shape =>
      have factor : (Ty.object occurrence shape).IsFactor alone := trivial
      rw [meetMembers_single factor
        (meets (List.forall_mem_singleton.mpr factor.proper.2.2.2))]
      exact .object
  | @named reference left =>
      have factor : (Ty.named reference).IsFactor alone := left
      rw [meetMembers_single factor
        (meets (List.forall_mem_singleton.mpr factor.proper.2.2.2))]
      exact .named left
  | @intersection _ _ parts factors left =>
      rw [show flattenIntersection [Ty.intersection _ parts] = parts from
        List.flatMap_singleton ..] at meets
      exact (meetMembers_factors factors (List.ne_nil_of_mem left)
        (meets fun type inParts => (factors type inParts).proper.2.2.2)).weaken
          implies

end Normalizing

namespace Evaluation

variable {evaluation : Evaluation}

/--
Where every name of some kind is defined by a type of the kind, following names
from such a type leads to one that is no name.
-/
theorem settles_resolveWithin
    {kind : Ty → Prop}
    (written :
      ∀ type, kind type → type.isAbsent = false ∧ type.isApplication = false)
    (defined :
      ∀ reference, kind (.named reference) →
        kind (evaluation.checker.arena.definition reference))
    (ofKind : kind type)
    (settles :
      Settles (evaluation.resolveWithin remaining depth type).run outcome) :
    ∃ resolved,
      outcome = .ok resolved ∧ kind resolved ∧ resolved.isReference = false := by
  induction remaining generalizing depth type with
  | zero =>
      unfold resolveWithin at settles
      exact absurd settles not_settles_exceeded
  | succ remaining inductionHypothesis =>
      cases type with
      | named reference =>
          have ofKindToo := defined reference ofKind
          unfold resolveWithin at settles
          split at settles
          · next isAbsent =>
            rw [isAbsent] at ofKindToo
            cases (written _ ofKindToo).1
          · exact inductionHypothesis ofKindToo settles
      | generic => cases (written _ ofKind).2
      | _ =>
          cases settles_pure.mp settles
          exact ⟨_, rfl, ofKind, rfl⟩

/-- A visit in which no item fails settles with values item by item. -/
theorem settles_evaluateMapM
    {visit : α → Evaluate β}
    [visits : ∀ item, Appends (visit item).run]
    {relation : α → β → Prop}
    {items : List α}
    (each :
      ∀ item ∈ items, ∀ {outcome},
        Settles (visit item).run outcome →
        ∃ value, outcome = .ok value ∧ relation item value)
    (settles : Settles (items.mapM visit).run outcome) :
    ∃ values, outcome = .ok values ∧ List.Forall₂ relation items values := by
  induction items generalizing outcome with
  | nil => exact ⟨[], settles_pure.mp settles, .nil⟩
  | cons item rest inductionHypothesis =>
      rw [List.forall_mem_cons] at each
      rw [List.mapM_cons] at settles
      have restAppends : Appends (rest.mapM visit).run :=
        Appends.ofEvaluateMapM visit rest visits
      rcases settles.of_evaluateBind fun _ => inferInstance with
        ⟨value, head, settles⟩ | ⟨error, head, _⟩
      · obtain ⟨_, ⟨⟩, related⟩ := each.1 head
        rcases settles.of_evaluateBind fun _ => inferInstance with
          ⟨others, tail, settles⟩ | ⟨error, tail, _⟩
        · obtain ⟨_, ⟨⟩, relatedRest⟩ := inductionHypothesis each.2 tail
          exact ⟨_, settles_pure.mp settles, .cons related relatedRest⟩
        · obtain ⟨_, ⟨⟩, _⟩ := inductionHypothesis each.2 tail
      · obtain ⟨_, ⟨⟩, _⟩ := each.1 head

/--
How the types of a kind are expanded. An intersection of the kind normalizes to
an object, a name of the kind, or several members with some of the given names,
which lead to products in turn; the names that these keep are of the kind again.
-/
structure Expands
    (evaluation : Evaluation)
    (kind : Ty → Prop)
    (names inner : Reference → Prop) :
    Prop where
  shape :
    ∀ type, kind type →
      (∃ occurrence shape, type = .object occurrence shape) ∨
        (∃ reference, type = .named reference) ∨
        ∃ occurrence members, type = .intersection occurrence members
  defined :
    ∀ reference, kind (.named reference) →
      kind (evaluation.checker.arena.definition reference)
  normal :
    ∀ {occurrence members depth result},
      kind (.intersection occurrence members) →
      Settles
        (evaluation.normalizeAt depth (.intersection occurrence members))
        result →
      result.Merged (fun reference => kind (.named reference)) names
  leads :
    ∀ {reference depth outcome},
      names reference →
      Settles (evaluation.resolve depth (.named reference)).run outcome →
      ∃ resolved,
        outcome = .ok resolved ∧ resolved.Product (Ty.IsFactor inner)
  kept : ∀ reference, inner reference → kind (.named reference)

namespace Expands

variable
  [evaluation.evaluate.Reports]
  {kind : Ty → Prop} {names inner : Reference → Prop}
  (expands : evaluation.Expands kind names inner)
include expands

/-- The names among some factors give way to what they lead to. -/
theorem mergeMembers
    {members : List Ty}
    (factors : ∀ member ∈ members, Ty.IsFactor names member)
    (left : .named reference ∈ members)
    (settles : Settles (evaluation.mergeMembers depth members) outcome) :
    ∃ merged, outcome = some merged ∧ merged.Merged inner inner := by
  unfold Evaluation.mergeMembers at settles
  rw [if_pos (List.any_eq_true.mpr ⟨_, left, rfl⟩)] at settles
  have each :
      ∀ member ∈ members, ∀ {outcome},
        Settles
          (if member.isReference then
            evaluation.resolve depth member
          else
            pure member : Evaluate Ty).run
          outcome →
        ∃ resolved,
          outcome = .ok resolved ∧ resolved.Product (Ty.IsFactor inner) := by
    intro member inMembers outcome settles
    rcases (factors member inMembers).cases with
      ⟨occurrence, shape, rfl⟩ | ⟨reference, known, rfl⟩
    · cases settles_pure.mp settles
      exact ⟨_, rfl, .factor trivial⟩
    · exact expands.leads known settles
  obtain ⟨found, follows, settles⟩ :=
    settles.of_bind fun found => by cases found <;> infer_instance
  obtain ⟨expanded, rfl, products⟩ := settles_evaluateMapM each follows
  obtain ⟨merged, normalizes, settles⟩ := settles_bind.mp settles
  refine ⟨merged, settles_pure.mp settles, ?_⟩
  refine merged_product (.intersection ?_ fun part inExpanded => ?_)
    (settles_of_normalizeIn normalizes)
  · rintro rfl
    cases products
    cases left
  · exact (exists_related_left products inExpanded).choose_spec.2

/-- Normalizing and merging an intersection leaves an object or names. -/
theorem normalizeMerged
    {members : List Ty}
    (ofKind : kind (.intersection occurrence members))
    (settles :
      Settles
        (evaluation.normalizeMerged depth (.intersection occurrence members))
        result) :
    result.Merged (fun reference => kind (.named reference)) inner := by
  unfold Evaluation.normalizeMerged at settles
  obtain ⟨normal, normalizes, settles⟩ := settles.of_bind fun normal => by
    split
    · refine @Appends.ofBind _ _ _ _ _ fun merged => ?_
      cases merged <;> infer_instance
    · infer_instance
  cases expands.normal ofKind normalizes with
  | object =>
      cases settles_pure.mp settles
      exact .object
  | named left =>
      cases settles_pure.mp settles
      exact .named left
  | intersection factors left =>
      obtain ⟨outcome, merges, settles⟩ := settles.of_bind fun outcome => by
        cases outcome <;> infer_instance
      obtain ⟨merged, rfl, found⟩ := expands.mergeMembers factors left merges
      cases settles_pure.mp settles
      exact found.weaken expands.kept

/-- What an intersection is merged into is followed if it is a name. -/
theorem followMerged
    {members : List Ty}
    {follow : Ty → Evaluate Ty}
    [∀ type, Appends (follow type).run]
    (next :
      ∀ {type outcome}, kind type → Settles (follow type).run outcome →
        ∃ result,
          outcome = .ok result ∧ result.Merged (fun _ => False) inner)
    (ofKind : kind (.intersection occurrence members))
    (settles :
      Settles
        (ExceptT.run (do
          let merged ←
            evaluation.normalizeMerged depth (.intersection occurrence members)
          if merged.isReference then follow merged else return merged))
        outcome) :
    ∃ result, outcome = .ok result ∧ result.Merged (fun _ => False) inner := by
  rcases settles.of_evaluateBind fun _ => inferInstance with
    ⟨merged, merges, settles⟩ | ⟨_, fails, _⟩
  · obtain ⟨_, ⟨⟩, merges⟩ := merges.of_evaluateLift
    cases expands.normalizeMerged ofKind merges with
    | object => exact ⟨_, settles_pure.mp settles, .object⟩
    | named left => exact next left settles
    | intersection factors left =>
        exact ⟨_, settles_pure.mp settles, .intersection factors left⟩
  · obtain ⟨_, ⟨⟩, _⟩ := fails.of_evaluateLift

/-- A type of the kind is resolved, and followed further if it is merged. -/
theorem followResolved
    (follow : Ty → Evaluate Ty)
    {behind : Ty → Evaluate Ty}
    [∀ type, Appends (follow type).run]
    (appends : ∀ type, Appends (behind type).run)
    (object :
      ∀ occurrence shape,
        behind (.object occurrence shape) = pure (.object occurrence shape))
    (intersection :
      ∀ occurrence members,
        behind (.intersection occurrence members) = do
          let merged ←
            evaluation.normalizeMerged (depth + 1)
              (.intersection occurrence members)
          if merged.isReference then follow merged else return merged)
    (next :
      ∀ {type outcome}, kind type → Settles (follow type).run outcome →
        ∃ result,
          outcome = .ok result ∧ result.Merged (fun _ => False) inner)
    (ofKind : kind type)
    (settles :
      Settles (evaluation.resolve depth type >>= behind).run outcome) :
    ∃ result, outcome = .ok result ∧ result.Merged (fun _ => False) inner := by
  have written :
      ∀ type, kind type → type.isAbsent = false ∧ type.isApplication = false := by
    intro type ofKind
    rcases expands.shape type ofKind with
      ⟨_, _, rfl⟩ | ⟨_, rfl⟩ | ⟨_, _, rfl⟩ <;> exact ⟨rfl, rfl⟩
  rcases settles.of_evaluateBind appends with
    ⟨resolved, resolves, settles⟩ | ⟨_, fails, _⟩
  · obtain ⟨_, ⟨⟩, leads, notName⟩ :=
      settles_resolveWithin written expands.defined ofKind resolves
    rcases expands.shape resolved leads with
      ⟨_, _, rfl⟩ | ⟨_, rfl⟩ | ⟨_, _, rfl⟩
    · rw [object] at settles
      exact ⟨_, settles_pure.mp settles, .object⟩
    · cases notName
    · rw [intersection] at settles
      exact expands.followMerged next leads settles
  · obtain ⟨_, ⟨⟩, _⟩ :=
      settles_resolveWithin written expands.defined ofKind fails

/-- What stands behind a type of the kind is an object, or keeps a name. -/
theorem structuralWithin
    (ofKind : kind type)
    (settles :
      Settles (evaluation.structuralWithin remaining depth type).run outcome) :
    ∃ result, outcome = .ok result ∧ result.Merged (fun _ => False) inner := by
  induction remaining generalizing depth type outcome with
  | zero =>
      unfold Evaluation.structuralWithin at settles
      refine expands.followResolved (fun _ => Check.exhausted)
        (fun resolved => ?_) ?_ ?_
        (fun _ settles => absurd settles not_settles_exhausted) ofKind settles
      · cases resolved <;> (dsimp only; infer_instance)
      · exact fun _ _ => rfl
      · exact fun _ _ => rfl
  | succ remaining inductionHypothesis =>
      unfold Evaluation.structuralWithin at settles
      refine expands.followResolved
        (evaluation.structuralWithin remaining (depth + 1))
        (fun resolved => ?_) ?_ ?_ inductionHypothesis ofKind settles
      · cases resolved <;> (dsimp only; infer_instance)
      · exact fun _ _ => rfl
      · exact fun _ _ => rfl

end Expands

end Evaluation

namespace Arena

/-- A type built from objects by intersections and by names for such types. -/
inductive Composed
    (arena : Arena) :
    Ty →
    Prop
  | object :
      Composed arena (.object occurrence shape)
  | named :
      Composed arena (arena.definition reference) →
      Composed arena (.named reference)
  | intersection {parts : List Ty} :
      parts ≠ [] →
      (∀ part ∈ parts, Composed arena part) →
      Composed arena (.intersection occurrence parts)

/-- A name for an object or an intersection in which no other name occurs. -/
def NamesObjects
    (arena : Arena)
    (reference : Reference) :
    Prop :=
  (arena.definition reference).Product (Ty.IsFactor fun _ => False)

/--
A composed type in which the names that stand among several members are defined
without names. What has a single member, or is a name, is as shallow as that.
-/
inductive Shallow
    (arena : Arena) :
    Ty →
    Prop
  | object :
      Shallow arena (.object occurrence shape)
  | named :
      Shallow arena (arena.definition reference) →
      Shallow arena (.named reference)
  | single :
      Shallow arena part →
      Shallow arena (.intersection occurrence [part])
  | several {parts : List Ty} :
      parts ≠ [] →
      (∀ part ∈ parts, Ty.Product (Ty.IsFactor arena.NamesObjects) part) →
      Shallow arena (.intersection occurrence parts)

variable {arena : Arena} {type : Ty}

/-- No application occurs in the definitions of the arena. -/
def ApplicationFree
    (arena : Arena) :
    Prop :=
  ∀ reference,
    (arena.definition reference).Every fun node => node.isApplication = false

/-- The names that a composed type follows lead back to none of themselves. -/
theorem Composed.tame
    (composed : arena.Composed type)
    (freeArena : arena.ApplicationFree)
    (free : type.Every fun node => node.isApplication = false) :
    type.Tame arena (fun reference => arena.Composed (.named reference)) true := by
  induction composed with
  | object =>
      refine .node (by rintro _ ⟨⟩) fun part inside => ?_
      exact ⟨(free.inside inside).calm, fun reference follows =>
        absurd follows (free.inside inside).not_follows⟩
  | @named reference composed inductionHypothesis =>
      have defined := inductionHypothesis (freeArena reference)
      refine .node ?_ (by rintro _ ⟨⟩)
      rintro _ ⟨⟩ _
      exact ⟨.named composed, .intro _ fun other follows =>
        defined.grounded other follows⟩
  | intersection _ _ inductionHypothesis =>
      exact .node (by rintro _ ⟨⟩) fun part inside =>
        inductionHypothesis part inside (free.inside inside)

/-- Without applications, following composed names comes to an end. -/
theorem calm_composed
    (freeArena : arena.ApplicationFree) :
    arena.Calm fun reference => arena.Composed (.named reference) := by
  rintro reference (_ | composed)
  exact (composed.tame freeArena (freeArena reference)).calm

/-- A composed type is a product of objects and names for composed types. -/
theorem Composed.product
    (composed : arena.Composed type) :
    type.Product (Ty.IsFactor fun reference => arena.Composed (.named reference)) := by
  induction composed with
  | object => exact .factor trivial
  | named composed _ => exact .factor (Composed.named composed)
  | intersection nonempty _ inductionHypothesis =>
      exact .intersection nonempty inductionHypothesis

/-- What is composed without names is shallow. -/
theorem Shallow.of_product
    (product : type.Product (Ty.IsFactor fun _ => False)) :
    arena.Shallow type := by
  cases product with
  | factor factor =>
      rcases factor.cases with ⟨occurrence, shape, rfl⟩ | ⟨_, ⟨⟩, _⟩
      exact .object
  | intersection nonempty each =>
      refine .several nonempty fun part inParts => (each part inParts).mono ?_
      intro part factor
      rcases factor.cases with ⟨occurrence, shape, rfl⟩ | ⟨_, ⟨⟩, _⟩
      trivial

/-- A shallow type normalizes to an object or keeps shallow names. -/
theorem Shallow.merged
    {mode : NormalMode}
    [mode.evaluate.Reports]
    (shallow : arena.Shallow type)
    (settles :
      Stateful.Settles
        ((normalPass mode budget).normalize depth type) result) :
    result.Merged (fun reference => arena.Shallow (.named reference))
      arena.NamesObjects := by
  have implies :
      ∀ reference, arena.NamesObjects reference →
        arena.Shallow (.named reference) :=
    fun _ known => .named (.of_product known)
  induction shallow generalizing budget depth result with
  | object =>
      obtain ⟨normal, rfl⟩ := settles_object settles
      exact .object
  | named shallow _ =>
      rw [settles_named settles]
      exact .named (.named shallow)
  | single _ inductionHypothesis =>
      exact merged_single implies inductionHypothesis settles
  | several nonempty each =>
      exact (merged_product (.intersection nonempty each) settles).weaken implies

end Arena

namespace Evaluation

variable {evaluation : Evaluation} [evaluation.evaluate.Reports]

omit [evaluation.evaluate.Reports] in
/-- A name for objects leads to a product of objects. -/
theorem leads_of_namesObjects
    (known : evaluation.checker.arena.NamesObjects reference)
    (settles :
      Settles (evaluation.resolve depth (.named reference)).run outcome) :
    ∃ resolved,
      outcome = .ok resolved ∧
        resolved.Product (Ty.IsFactor fun _ => False) := by
  let kind (type : Ty) : Prop :=
    type.Product (Ty.IsFactor fun _ => False) ∨
      ∃ reference,
        type = .named reference ∧
          evaluation.checker.arena.NamesObjects reference
  have product :
      ∀ {type}, kind type → type.isReference = false →
        type.Product (Ty.IsFactor fun _ => False) := by
    rintro _ (product | ⟨_, rfl, _⟩) notName
    · exact product
    · cases notName
  have written :
      ∀ type, kind type → type.isAbsent = false ∧ type.isApplication = false := by
    rintro _ (product | ⟨_, rfl, _⟩)
    · cases product with
      | factor factor =>
          rcases factor.cases with ⟨_, _, rfl⟩ | ⟨_, ⟨⟩, _⟩
          exact ⟨rfl, rfl⟩
      | intersection => exact ⟨rfl, rfl⟩
    · exact ⟨rfl, rfl⟩
  have defined :
      ∀ reference, kind (.named reference) →
        kind (evaluation.checker.arena.definition reference) := by
    rintro reference (product | ⟨_, ⟨⟩, known⟩)
    · cases product with
      | factor factor => exact factor.elim
    · exact .inl known
  obtain ⟨resolved, same, ofKind, notName⟩ :=
    settles_resolveWithin written defined (.inr ⟨reference, rfl, known⟩) settles
  exact ⟨resolved, same, product ofKind notName⟩

/-- Expanding a composed type leaves an object or composed names. -/
theorem expands_composed :
    let composed := evaluation.checker.arena.Composed
    evaluation.Expands composed
      (fun reference => composed (.named reference))
      (fun reference => composed (.named reference)) where
  shape := by
    rintro _ (_ | _ | _)
    · exact .inl ⟨_, _, rfl⟩
    · exact .inr (.inl ⟨_, rfl⟩)
    · exact .inr (.inr ⟨_, _, rfl⟩)
  defined := by
    rintro reference (_ | composed)
    exact composed
  normal composed settles :=
    merged_product composed.product (settles_of_normalizeIn settles)
  leads := by
    intro reference depth outcome composed settles
    obtain ⟨resolved, same, ofKind, _⟩ :=
      settles_resolveWithin
        (by rintro _ (_ | _ | _) <;> exact ⟨rfl, rfl⟩)
        (by rintro _ (_ | composed); exact composed)
        composed settles
    exact ⟨resolved, same, ofKind.product⟩
  kept _ composed := composed

/-- Expanding a shallow type leaves an object. -/
theorem expands_shallow :
    evaluation.Expands evaluation.checker.arena.Shallow
      evaluation.checker.arena.NamesObjects (fun _ => False) where
  shape := by
    rintro _ (_ | _ | _ | _)
    · exact .inl ⟨_, _, rfl⟩
    · exact .inr (.inl ⟨_, rfl⟩)
    · exact .inr (.inr ⟨_, _, rfl⟩)
    · exact .inr (.inr ⟨_, _, rfl⟩)
  defined := by
    rintro reference (_ | shallow)
    exact shallow
  normal shallow settles := shallow.merged (settles_of_normalizeIn settles)
  leads := leads_of_namesObjects
  kept _ impossible := impossible.elim

/-- A composed type has an object behind it, or an intersection with a name. -/
theorem structural_composed
    (composed : evaluation.checker.arena.Composed type)
    (settles : Settles (evaluation.structural depth type).run outcome) :
    ∃ result,
      outcome = .ok result ∧
        result.Merged (fun _ => False)
          fun reference => evaluation.checker.arena.Composed (.named reference) :=
  expands_composed.structuralWithin composed settles

/-- A shallow type has an object behind it. -/
theorem structural_shallow
    (shallow : evaluation.checker.arena.Shallow type)
    (settles : Settles (evaluation.structural depth type).run outcome) :
    ∃ occurrence shape, outcome = .ok (.object occurrence shape) := by
  obtain ⟨result, rfl, merged⟩ :=
    expands_shallow.structuralWithin shallow settles
  obtain ⟨occurrence, shape, rfl⟩ := merged.isObject
  exact ⟨occurrence, shape, rfl⟩

/-- The base of a utility on objects may be a shallow type. -/
theorem objectBase_shallow
    (shallow : evaluation.checker.arena.Shallow base)
    (settles : Settles (evaluation.objectBase utility depth base).run outcome) :
    ∃ shape, outcome = .ok shape := by
  unfold objectBase at settles
  rcases settles.of_evaluateBind fun found => by
      split <;> infer_instance with
    ⟨found, behind, settles⟩ | ⟨_, fails, _⟩
  · obtain ⟨occurrence, shape, ⟨⟩⟩ := structural_shallow shallow behind
    exact ⟨shape, settles_pure.mp settles⟩
  · obtain ⟨_, _, ⟨⟩⟩ := structural_shallow shallow fails

/-- `Partial` and `Required` accept a shallow base. -/
theorem applyOptional_shallow
    {optional : Bool}
    (shallow : evaluation.checker.arena.Shallow base)
    (settles :
      Settles
        (evaluation.applyOptional { utility, base, arguments := [] } optional
          depth).run
        outcome) :
    ∃ shape, outcome = .ok (.ofShape shape) := by
  unfold applyOptional at settles
  change Settles (evaluation.objectBase utility depth base >>= _).run outcome
    at settles
  rcases settles.of_evaluateBind fun _ => inferInstance with
    ⟨shape, _, settles⟩ | ⟨_, fails, _⟩
  · exact ⟨_, settles_pure.mp settles⟩
  · obtain ⟨_, ⟨⟩⟩ := objectBase_shallow shallow fails

/-- `Readonly` accepts a shallow base. -/
theorem applyReadonly_shallow
    (shallow : evaluation.checker.arena.Shallow base)
    (settles :
      Settles
        (evaluation.applyReadonly { utility, base, arguments := [] } depth).run
        outcome) :
    ∃ shape, outcome = .ok (.ofShape shape) := by
  unfold applyReadonly at settles
  change Settles (evaluation.structural (depth + 1) base >>= _).run outcome
    at settles
  rcases settles.of_evaluateBind fun found => by
      split <;> infer_instance with
    ⟨found, behind, settles⟩ | ⟨_, fails, _⟩
  · obtain ⟨occurrence, shape, ⟨⟩⟩ := structural_shallow shallow behind
    exact ⟨_, settles_pure.mp settles⟩
  · obtain ⟨_, _, ⟨⟩⟩ := structural_shallow shallow fails

/-- `Pick` and `Omit` read a shallow base and the listed keys. -/
theorem keyedBase_shallow
    (shallow : evaluation.checker.arena.Shallow base)
    (lists : evaluation.keySet utility keys = pure texts)
    (settles :
      Settles
        (evaluation.keyedBase { utility, base, arguments := [keys] } depth).run
        outcome) :
    ∃ shape, outcome = .ok (shape, texts) := by
  unfold keyedBase at settles
  dsimp only at settles
  rw [lists] at settles
  rcases settles.of_evaluateBind fun _ => inferInstance with
    ⟨shape, _, settles⟩ | ⟨_, fails, _⟩
  · exact ⟨shape, settles_pure.mp settles⟩
  · obtain ⟨_, ⟨⟩⟩ := objectBase_shallow shallow fails

/-- `Omit` accepts a shallow base. -/
theorem applyOmit_shallow
    (shallow : evaluation.checker.arena.Shallow base)
    (lists : evaluation.keySet utility keys = pure texts)
    (settles :
      Settles
        (evaluation.applyOmit { utility, base, arguments := [keys] } depth).run
        outcome) :
    ∃ shape, outcome = .ok (.ofShape shape) := by
  unfold applyOmit at settles
  rcases settles.of_evaluateBind fun _ => inferInstance with
    ⟨keyed, _, settles⟩ | ⟨_, fails, _⟩
  · exact ⟨_, settles_pure.mp settles⟩
  · obtain ⟨_, ⟨⟩⟩ := keyedBase_shallow shallow lists fails

/-- `Pick` accepts a shallow base and fails only for a key that it lacks. -/
theorem applyPick_shallow
    (shallow : evaluation.checker.arena.Shallow base)
    (lists : evaluation.keySet utility keys = pure texts)
    (settles :
      Settles
        (evaluation.applyPick { utility, base, arguments := [keys] } depth).run
        outcome) :
    (∃ shape, outcome = .ok (.ofShape shape)) ∨
      ∃ shape : Shape Ty, ∃ key ∈ texts,
        key.string?.bind shape.property? = none ∧
          outcome =
            .error
              { utility := Utility.pickKeys.name
                cause := .unknownKey key (.ofShape shape) } := by
  unfold applyPick at settles
  rcases settles.of_evaluateBind fun keyed => by
      split; split <;> infer_instance with
    ⟨keyed, reads, settles⟩ | ⟨_, fails, _⟩
  · obtain ⟨shape, ⟨⟩⟩ := keyedBase_shallow shallow lists reads
    dsimp only at settles
    split at settles
    · next key found =>
      refine .inr ⟨shape, key, List.mem_of_find?_eq_some found, ?_,
        settles_pure.mp settles⟩
      simpa using List.find?_some found
    · exact .inl ⟨_, settles_pure.mp settles⟩
  · obtain ⟨_, ⟨⟩⟩ := keyedBase_shallow shallow lists fails

end Evaluation

namespace Utility

/-- A utility is found under its name. -/
theorem ofName?_name
    (utility : Utility) :
    ofName? utility.name = some utility := by
  cases utility <;> decide

end Utility

namespace Checker

variable {checker : Checker} {type : Ty}

/-- Applying a utility from outside settles as its application does. -/
theorem settles_applyUtility
    (settles : Settles (checker.applyUtility application) outcome) :
    ∃ evaluation : Evaluation,
      evaluation.checker = checker ∧ evaluation.evaluate.Reports ∧
        Settles (evaluation.apply application 0).run outcome := by
  unfold applyUtility at settles
  obtain ⟨result, evaluates, settles⟩ := settles.of_bind fun result => by
    cases result <;> infer_instance
  have same : outcome = result := by
    cases result with
    | ok => exact settles_pure.mp settles
    | error =>
        obtain ⟨_, _, settles⟩ := settles_bind.mp settles
        exact settles_pure.mp settles
  subst same
  change Settles (checker.evaluateWithin checker.budget application 0).run outcome
    at evaluates
  cases budget : checker.budget with
  | zero =>
      rw [budget] at evaluates
      exact absurd evaluates not_settles_exhausted
  | succ less =>
      rw [budget] at evaluates
      exact ⟨{ checker, evaluate := checker.evaluateWithin less, budget := less },
        rfl, inferInstance, evaluates⟩

/-- The key set is written or named, and consists of the given texts. -/
def ListsKeys
    (checker : Checker)
    (keys : Ty)
    (texts : List Text.RawText) :
    Prop :=
  ∀ utility, checker.evaluation.keySet utility keys = pure texts

/--
A type is taken for an object: what stands behind it is one, `Partial`,
`Required`, `Readonly` and `Omit` succeed, and `Pick` fails only for a key that
names no property.
-/
structure TakesForObject
    (checker : Checker)
    (type : Ty) :
    Prop where
  expand :
    ∀ expanded, Settles (checker.expand type) expanded →
      ∃ occurrence shape, expanded = .object occurrence shape
  mapped :
    ∀ utility ∈ [.allOptional, .allRequired, .allReadonly], ∀ outcome,
      Settles
          (checker.applyUtility
            { utility := Utility.name utility, base := type, arguments := [] })
          outcome →
        ∃ shape, outcome = .ok (.ofShape shape)
  without :
    ∀ keys texts outcome, checker.ListsKeys keys texts →
      Settles
          (checker.applyUtility
            { utility := Utility.omitKeys.name, base := type
              arguments := [keys] })
          outcome →
        ∃ shape, outcome = .ok (.ofShape shape)
  picked :
    ∀ keys texts outcome, checker.ListsKeys keys texts →
      Settles
          (checker.applyUtility
            { utility := Utility.pickKeys.name, base := type
              arguments := [keys] })
          outcome →
        (∃ shape, outcome = .ok (.ofShape shape)) ∨
          ∃ shape : Shape Ty, ∃ key ∈ texts,
            key.string?.bind shape.property? = none ∧
              outcome =
                .error
                  { utility := Utility.pickKeys.name
                    cause := .unknownKey key (.ofShape shape) }

/-- Shallow types are taken for objects. -/
theorem takesForObject_of_shallow
    (shallow : checker.arena.Shallow type) :
    checker.TakesForObject type := by
  have written : type.isAbsent = false := by
    cases shallow <;> rfl
  constructor
  case expand =>
    intro expanded settles
    unfold Checker.expand at settles
    obtain ⟨outcome, behind, settles⟩ := settles.of_bind fun outcome => by
      cases outcome <;> infer_instance
    obtain ⟨occurrence, shape, rfl⟩ :=
      Evaluation.structural_shallow shallow behind
    exact ⟨occurrence, shape, settles_pure.mp settles⟩
  case mapped =>
    intro utility isMapped outcome settles
    obtain ⟨evaluation, rfl, _, settles⟩ := settles_applyUtility settles
    simp only [List.mem_cons, List.not_mem_nil, or_false] at isMapped
    rcases isMapped with rfl | rfl | rfl <;>
      simp only [Evaluation.apply, written, Bool.false_eq_true, if_false,
        Nat.not_lt_zero, Utility.ofName?_name] at settles
    · exact Evaluation.applyOptional_shallow shallow settles
    · exact Evaluation.applyOptional_shallow shallow settles
    · exact Evaluation.applyReadonly_shallow shallow settles
  case without =>
    intro keys texts outcome lists settles
    obtain ⟨evaluation, rfl, _, settles⟩ := settles_applyUtility settles
    simp only [Evaluation.apply, written, Bool.false_eq_true, if_false,
      Nat.not_lt_zero, Utility.ofName?_name] at settles
    exact Evaluation.applyOmit_shallow shallow (lists _) settles
  case picked =>
    intro keys texts outcome lists settles
    obtain ⟨evaluation, rfl, _, settles⟩ := settles_applyUtility settles
    simp only [Evaluation.apply, written, Bool.false_eq_true, if_false,
      Nat.not_lt_zero, Utility.ofName?_name] at settles
    exact Evaluation.applyPick_shallow shallow (lists _) settles

/-- Applying a utility from outside only adds to the log. -/
instance :
    Appends (checker.applyUtility application) := by
  unfold applyUtility
  refine @Appends.ofBind _ _ _ _ _ fun outcome => ?_
  cases outcome <;> infer_instance

/-- A question that ends has one answer for all budgets from some on. -/
theorem answers_of_ends
    {family : Nat → Check α}
    [∀ budget, Appends (family budget)]
    (ends : Ends family yields) :
    ∃ result added enough,
      ∀ budget, enough ≤ budget → ∀ log,
        family budget log = .ok (result, log ++ added) := by
  obtain ⟨result, added, enough, _, runs⟩ := ends []
  exact ⟨result, added, enough, fun budget fits => Appends.run (runs budget fits)⟩

/-- Expanding a composed type and applying utilities to it come to an end. -/
theorem composed_ends
    {arena : Arena}
    (composed : arena.Composed type)
    (freeArena : arena.ApplicationFree)
    (free : type.Every fun node => node.isApplication = false)
    (options : Options) :
    Ends (fun budget => (checkerOf arena options budget).expand type)
        (fun _ => True) ∧
      ∀ application : Application Ty,
        application.base = type →
        Ends
          (fun budget =>
            (checkerOf arena options budget).applyUtility application)
          (fun _ => True) := by
  have ends := endsAt (Arena.calm_composed freeArena) options 0
  have calm := (composed.tame freeArena free).calm
  constructor
  · refine Ends.bind (ends.structural calm) fun outcome _ => ?_
    cases outcome <;> exact .pure trivial
  · rintro application rfl
    refine Ends.bind (ends.evaluate calm) fun outcome _ => ?_
    cases outcome with
    | ok => exact .pure trivial
    | error error =>
        exact (Ends.reportFailure error).bind fun _ _ => .pure trivial

/--
Object utilities and intersections of objects and names. What stands behind a
composed type is an object, or an intersection that keeps a name. It is an
object, and the utilities accept the type, if the names that stand among several
members are defined without names themselves. Without applications in the arena
and in the type, all of these questions have an answer, the same for all budgets
from some on.
-/
theorem utilities_accept_shallow
    (composed : checker.arena.Composed type) :
    (∀ expanded, Settles (checker.expand type) expanded →
      (∃ occurrence shape, expanded = .object occurrence shape) ∨
        ∃ occurrence members reference,
          expanded = .intersection occurrence members ∧
            .named reference ∈ members) ∧
      (checker.arena.Shallow type → checker.TakesForObject type) ∧
      (checker.arena.ApplicationFree →
        (type.Every fun node => node.isApplication = false) →
        (∃ expanded added enough,
          ∀ budget, enough ≤ budget → ∀ log,
            Checker.expand { checker with budget } type log =
              .ok (expanded, log ++ added)) ∧
          ∀ application : Application Ty,
            application.base = type →
            ∃ outcome added enough,
              ∀ budget, enough ≤ budget → ∀ log,
                Checker.applyUtility { checker with budget } application log =
                  .ok (outcome, log ++ added)) := by
  refine ⟨?kept, takesForObject_of_shallow, ?answered⟩
  case kept =>
    intro expanded settles
    unfold Checker.expand at settles
    obtain ⟨outcome, behind, settles⟩ := settles.of_bind fun outcome => by
      cases outcome <;> infer_instance
    obtain ⟨result, rfl, merged⟩ :=
      Evaluation.structural_composed composed behind
    cases settles_pure.mp settles
    cases merged with
    | object => exact .inl ⟨_, _, rfl⟩
    | named impossible => exact impossible.elim
    | intersection _ left => exact .inr ⟨_, _, _, rfl, left⟩
  case answered =>
    intro freeArena free
    obtain ⟨expands, applies⟩ :=
      composed_ends composed freeArena free checker.options
    exact ⟨answers_of_ends expands, fun application same =>
      answers_of_ends (applies application same)⟩

/-- An object with one text property. -/
def texted
    (name : String) :
    Ty :=
  .ofShape { properties := [{ name, type := .string }] }

/-- An entity, a user that is one, and an administrator that is a user. -/
def accountArena : Arena :=
  { declarations :=
      [{ name := "Entity", definition := texted "id" },
        { name := "User"
          definition :=
            .ofIntersection [.named ⟨0, 0, "Entity"⟩, texted "name"] },
        { name := "Admin"
          definition :=
            .ofIntersection [.named ⟨0, 1, "User"⟩, texted "role"] }] }

/-- The name of the users. -/
def user : Ty :=
  .named ⟨0, 1, "User"⟩

/-- The name of the administrators. -/
def administrator : Ty :=
  .named ⟨0, 2, "Admin"⟩

/-- Objects with one property, and names for them, are composed. -/
theorem composed_user :
    accountArena.Composed user := by
  refine .named (.intersection (by decide) ?_)
  refine List.forall_mem_cons.mpr ⟨.named .object, ?_⟩
  exact List.forall_mem_singleton.mpr .object

/-- Administrators are composed of users and more. -/
theorem composed_administrator :
    accountArena.Composed administrator := by
  refine .named (.intersection (by decide) ?_)
  refine List.forall_mem_cons.mpr ⟨composed_user, ?_⟩
  exact List.forall_mem_singleton.mpr .object

/-- Entities stand for objects, so users may be made partial. -/
theorem utilities_accept_shallow_user :
    let checker : Checker := { arena := accountArena, budget := 20 }
    checker.arena.Shallow user ∧
      ∃ shape,
        Settles
          (checker.applyUtility
            { utility := "Partial", base := user, arguments := [] })
          (.ok (.ofShape shape)) := by
  intro checker
  have shallow : checker.arena.Shallow user := by
    refine .named (.several (by decide) ?_)
    refine List.forall_mem_cons.mpr ⟨.factor (.factor trivial), ?_⟩
    exact List.forall_mem_singleton.mpr (.factor trivial)
  obtain ⟨_, accepts, _⟩ :=
    @utilities_accept_shallow checker user composed_user
  obtain ⟨outcome, run⟩ :
      ∃ outcome,
        checker.applyUtility
            { utility := "Partial", base := user, arguments := [] } [] =
          .ok (outcome, []) :=
    ⟨.ok (.ofShape
        { properties :=
            [{ name := "id", type := .string, optional := true },
              { name := "name", type := .string, optional := true }] }),
      by decide +kernel⟩
  obtain ⟨shape, rfl⟩ :=
    (accepts shallow).mapped .allOptional (by decide) outcome
      ⟨[], run, Log.quiet_nil⟩
  exact ⟨shallow, shape, ⟨[], run, Log.quiet_nil⟩⟩

/--
Of an administrator, the user is expanded and the entity in it is kept, so that
no object is left and `Partial` refuses the type.
-/
theorem expand_keeps_deep_name :
    let checker : Checker := { arena := accountArena, budget := 20 }
    checker.arena.Composed administrator ∧
      Settles (checker.expand administrator)
        (.ofIntersection
          [.named ⟨0, 0, "Entity"⟩,
            .ofShape
              { properties :=
                  [{ name := "name", type := .string },
                    { name := "role", type := .string }] }]) ∧
      Settles
        (checker.applyUtility
          { utility := "Partial", base := administrator, arguments := [] })
        (.error
          { utility := "Partial", cause := .notObject administrator }) := by
  intro checker
  have refuses :
      checker.applyUtility
          { utility := "Partial", base := administrator, arguments := [] } [] =
        .ok
          (.error { utility := "Partial", cause := .notObject administrator },
            [{ stage := .utility
               severity := .error
               code := .invalidArgument
               message :=
                "Partial: invalid argument: Admin is not an object type" }]) := by
    decide +kernel
  refine ⟨composed_administrator, ⟨[], by decide +kernel, Log.quiet_nil⟩,
    ⟨_, refuses, ?_⟩⟩
  simp [Log.Quiet]

end Checker

end StructuralTyping
