import StructuralTyping.Proofs.Canonizing
import StructuralTyping.Proofs.CoverageMeaning
import StructuralTyping.Proofs.FlatterRuns
import StructuralTyping.Proofs.Termination

namespace StructuralTyping

/-!
# Coverage over whole runs

What a coverage answers depends on the set of the literals handled so far, up to
equality, and on nothing else. It is exhausted once the literal of every variant
is handled, and not before: a variant was seen to be an object or a literal when
the coverage was started, and normalizing it again does not make it empty.

The type of a variant is looked at three times, at different depths. Depths do
not matter to runs that report no exceeded one, so the three looks agree.
-/

open Check

/-- A type that a union keeps: it has values and is no union itself. -/
structure Ty.Lasts
    (type : Ty) :
    Prop where
  inhabited : type.isNever = false
  single : type.isUnion = false

/-- A reference lasts in every union. -/
theorem Ty.Lasts.of_isReference
    {type : Ty}
    (reference : type.isReference = true) :
    type.Lasts := by
  cases type <;> first | exact ⟨rfl, rfl⟩ | cases reference

namespace Checker

variable {checker : Checker}

section Looks

variable {budget depth : Nat}

/-- The settled normal form of a type is that of its node. -/
theorem normalize_node
    (present : type.isAbsent = false)
    (settles :
      Stateful.Settles
        ((normalPass checker.normalMode budget).normalize depth type) result) :
    ∃ less,
      Stateful.Settles
        ((normalPass checker.normalMode less).normalizeNode
          checker.normalMode (depth + 1) type)
        result := by
  cases budget with
  | zero =>
      obtain ⟨_, _, _, _, _, run, _⟩ := settles
      cases run
  | succ less =>
      rw [normalPass_succ] at settles
      change
        Stateful.Settles
          ((normalPass checker.normalMode less).nextNormalize
            checker.normalMode depth type)
          result at settles
      unfold NormalPass.nextNormalize at settles
      rw [if_neg (by simp [present])] at settles
      split at settles
      · obtain ⟨_, reports, _⟩ := settles.of_bind
        exact absurd reports not_settles_reportOnce
      · exact ⟨less, settles⟩

/-- An object lasts. -/
theorem lasts_of_object
    (settles :
      Stateful.Settles
        ((normalPass checker.normalMode budget).normalize depth
          (.object occurrence shape))
        result) :
    result.Lasts := by
  obtain ⟨less, settles⟩ := normalize_node rfl settles
  obtain ⟨_, _, settles⟩ := settles.of_bind
  cases settles.of_pure
  exact ⟨rfl, rfl⟩

/-- A literal lasts. -/
theorem lasts_of_literal
    (settles :
      Stateful.Settles
        ((normalPass checker.normalMode budget).normalize depth
          (.literal occurrence value))
        result) :
    result.Lasts := by
  obtain ⟨less, settles⟩ := normalize_node rfl settles
  cases settles.of_pure
  exact ⟨rfl, rfl⟩

/-- A type lasts if what its references lead to lasts. -/
theorem lasts_of_resolveWithin
    (resolves :
      Settles (checker.evaluation.resolveWithin remaining depth type).run
        (.ok resolved))
    (ends :
      ∀ {budget depth normal},
        Stateful.Settles
          ((normalPass checker.normalMode budget).normalize depth resolved)
          normal →
        normal.Lasts)
    (settles :
      Stateful.Settles
        ((normalPass checker.normalMode budget).normalize depth type) result) :
    result.Lasts := by
  induction remaining generalizing budget depth type with
  | zero =>
      unfold Evaluation.resolveWithin Checker.failTooComplex at resolves
      obtain ⟨_, _, resolves⟩ := resolves.of_evaluateOk
      cases settles_pure.mp resolves
  | succ remaining inductionHypothesis =>
      cases type with
      | named reference =>
          obtain ⟨less, settles⟩ := normalize_node rfl settles
          cases settles.of_pure
          exact .of_isReference rfl
      | generic occurrence application =>
          obtain ⟨less, settles⟩ := normalize_node rfl settles
          unfold Evaluation.resolveWithin at resolves
          obtain ⟨type, evaluates, resolves⟩ := resolves.of_evaluateOk
          rcases NormalPass.normalizeApplication_cases settles with
            ⟨again, evaluatesAgain, normalizes⟩ | stays
          · cases evaluatesAgain.answers.unique evaluates.answers
            exact inductionHypothesis resolves normalizes
          · obtain ⟨_, _, _, _, _, rfl⟩ := NormalPass.rebuild_cases stays
            exact .of_isReference rfl
      | _ =>
          cases settles_pure.mp resolves
          exact ends settles

/-- A merged type is its normal form, unless that is an intersection. -/
theorem normalizeMerged_agrees
    (settles :
      Settles (checker.evaluation.normalizeMerged depth type) merged) :
    ∃ normal,
      Stateful.Settles
          ((normalPass checker.normalMode checker.budget).normalize depth type)
          normal ∧
        (RelationStep.isIntersection normal = true ∨ merged = normal) := by
  unfold Evaluation.normalizeMerged at settles
  obtain ⟨normal, normalizes, settles⟩ := settles.of_bind fun normal => by
    split
    · refine @Appends.ofBind _ _ _ _ _ fun merged => ?_
      cases merged <;> infer_instance
    · infer_instance
  refine ⟨normal, settles_of_normalizeIn normalizes, ?_⟩
  split at settles
  · exact .inl rfl
  · exact .inr (settles_pure.mp settles)

/-- What stands behind a union is merged, or is behind the name that it is. -/
theorem merged_of_exposed
    {follow : Ty → Evaluate Ty}
    (appends : ∀ type, Appends (follow type).run)
    (settles :
      Settles
        (ExceptT.run (do
          let merged ← checker.evaluation.normalizeMerged depth type
          if merged.isReference then follow merged else return merged))
        (.ok result)) :
    ∃ merged,
      Settles (checker.evaluation.normalizeMerged depth type) merged ∧
        (merged.isReference = true ∧
            Settles (follow merged).run (.ok result) ∨
          merged = result) := by
  obtain ⟨merged, merges, settles⟩ := settles.of_evaluateOk
  obtain ⟨_, ⟨⟩, merges⟩ := merges.of_evaluateLift
  refine ⟨merged, merges, ?_⟩
  split at settles
  · next reference =>
    exact .inl ⟨reference, settles⟩
  · cases settles_pure.mp settles
    exact .inr rfl

/-- What stands behind a type is what its references lead to, or is merged. -/
theorem structuralWithin_agrees
    (settles :
      Settles (checker.evaluation.structuralWithin remaining depth type).run
        (.ok result)) :
    ∃ resolved,
      Settles (checker.evaluation.resolve depth type).run (.ok resolved) ∧
        (result = resolved ∨
          ∃ merged,
            Settles
                (checker.evaluation.normalizeMerged (depth + 1) resolved)
                merged ∧
              (merged.isReference = true ∨ merged = result)) := by
  cases remaining with
  | zero | succ remaining =>
    unfold Evaluation.structuralWithin at settles
    rcases settles.of_evaluateBind fun resolved => by
        cases resolved <;> (dsimp only; infer_instance) with
      ⟨resolved, resolves, settles⟩ | ⟨_, _, ⟨⟩⟩
    refine ⟨resolved, resolves, ?_⟩
    cases resolved with
    | union | intersection =>
        obtain ⟨merged, merges, leads⟩ :=
          merged_of_exposed (fun _ => inferInstance) settles
        exact .inr ⟨merged, merges, leads.imp_left And.left⟩
    | _ =>
        cases settles_pure.mp settles
        exact .inl rfl

/-- A type with an object behind it lasts. -/
theorem lasts_of_structural
    (structural :
      Settles (checker.structural depth type) (.ok (.object occurrence shape)))
    (settles :
      Stateful.Settles
        ((normalPass checker.normalMode budget).normalize depth type) result) :
    result.Lasts := by
  obtain ⟨resolved, resolves, found⟩ := structuralWithin_agrees structural
  refine lasts_of_resolveWithin resolves (fun normalizes => ?_) settles
  rcases found with rfl | ⟨merged, merges, isObject⟩
  · exact lasts_of_object normalizes
  · obtain ⟨normal, again, isNormal⟩ := normalizeMerged_agrees merges
    rw [settles_unique normalizes again]
    rcases isNormal with intersection | rfl
    · cases normal <;> first | exact ⟨rfl, rfl⟩ | cases intersection
    · rcases isObject with reference | rfl
      · exact .of_isReference reference
      · exact ⟨rfl, rfl⟩

end Looks

end Checker

namespace Coverage

variable {checker : Checker} {coverage : Coverage}

/-- What is handled is told by the literals handled so far. -/
theorem handle_handleAll
    (fresh : coverage.handled = [])
    (before : List Literal)
    (value : Literal) :
    ((coverage.handleAll before).handle value).1 = true ↔
      (∃ variant ∈ coverage.variants, variant.value.equal value = true) ∧
        ∀ earlier ∈ before, earlier.equal value = false := by
  have selects :
      ((coverage.handleAll before).variant? value).isSome = true ↔
        ∃ variant ∈ coverage.variants, variant.value.equal value = true := by
    rw [variant?, Option.isSome_map, List.find?_isSome, variants_handleAll]
  have first :
      ((coverage.handleAll before).handle value).1 = true ↔
        ((coverage.handleAll before).variant? value).isSome = true ∧
          (coverage.handleAll before).isHandled value = false := by
    rw [← Bool.not_eq_true', ← Bool.and_eq_true]
    unfold handle
    split
    · next fits => simp [fits]
    · next fits => simp [fits]
  rw [first, selects]
  refine and_congr_right fun selected => ?_
  obtain ⟨variant, inVariants, same⟩ := selected
  rw [isHandled, List.any_eq_false]
  constructor
  · intro unhandled earlier inBefore
    by_contra equal
    rw [Bool.not_eq_false] at equal
    have selected : earlier.equal variant.value = true :=
      Literal.equal_trans equal (by rwa [Literal.equal_comm])
    have handled :
        (coverage.handleAll before).isHandled variant.value = true := by
      rw [isHandled_handleAll fresh inVariants]
      exact List.any_eq_true.mpr ⟨earlier, inBefore, selected⟩
    obtain ⟨other, inHandled, otherSame⟩ := List.any_eq_true.mp handled
    exact unhandled other inHandled (Literal.equal_trans otherSame same)
  · intro differs earlier inHandled
    rcases mem_handled_handleAll inHandled with before | inBefore
    · rw [fresh] at before
      cases before
    · simp [differs earlier inBefore]

/-- Every variant of the coverage lasts where a residual is normalized. -/
def Lasting
    (checker : Checker)
    (coverage : Coverage) :
    Prop :=
  ∀ variant ∈ coverage.variants, ∀ budget normal,
    Stateful.Settles
        ((normalPass checker.normalMode budget).normalize 1 variant.type)
        normal →
      normal.Lasts

/-- The residual of lasting variants is only empty when nothing is left. -/
theorem residual_isNever
    (lasting : coverage.Lasting checker)
    {left : Ty}
    (settles : Settles (coverage.residual checker) left) :
    left.isNever = coverage.unhandled.isEmpty := by
  obtain ⟨budget, node⟩ :=
    Checker.normalize_node rfl (settles_of_normalizeIn settles)
  obtain ⟨types, visits, rfl⟩ := NormalPass.union_cases node
  have each := visits.of_mapM
  cases unhandled : coverage.unhandled with
  | nil =>
      rw [unhandled] at each
      cases each
      rfl
  | cons type rest =>
      have member : type ∈ coverage.unhandled := by simp [unhandled]
      obtain ⟨variant, kept, rfl⟩ := List.mem_map.mp member
      obtain ⟨normal, inTypes, normalizes⟩ := exists_related_right each member
      have lasts :=
        lasting variant (List.mem_filter.mp kept).1 budget normal normalizes
      rw [List.isEmpty_cons, Bool.eq_false_iff]
      intro empty
      have isNever :=
        Arena.isNever_of_joinMembers empty normal
          (List.mem_flatMap.mpr ⟨normal, inTypes, by
            simp [Ty.members_eq lasts.single]⟩)
      rw [lasts.inhabited] at isNever
      cases isNever

/-- The variants of a union of literals are literals. -/
theorem literal_of_literalVariants?
    {members : List Ty}
    {variants : List Variant}
    (taken : literalVariants? members = some variants)
    (member : variant ∈ variants) :
    ∃ occurrence value, variant.type = .literal occurrence value := by
  fun_induction literalVariants? members generalizing variants with
  | case1 =>
      cases taken
      cases member
  | case2 occurrence literal rest inductionHypothesis =>
      obtain ⟨others, takenRest, rfl⟩ := Option.map_eq_some_iff.mp taken
      rcases List.mem_cons.mp member with rfl | inRest
      · exact ⟨_, _, rfl⟩
      · exact inductionHypothesis takenRest inRest
  | case3 rest constant =>
      rename_i inductionHypothesis
      obtain ⟨others, takenRest, rfl⟩ := Option.map_eq_some_iff.mp taken
      rcases List.mem_cons.mp member with rfl | member
      · exact ⟨_, _, rfl⟩
      rcases List.mem_cons.mp member with rfl | inRest
      · exact ⟨_, _, rfl⟩
      · exact inductionHypothesis takenRest inRest
  | case4 =>
      cases taken

end Coverage

namespace Checker

variable {checker : Checker} {type : Ty} {coverage : Coverage}

/-- Every member of a union of objects has an object behind it. -/
theorem objectUnion?_members
    (settles : Settles (checker.objectUnion? type) (some union)) :
    ∀ member ∈ union.members, ∃ occurrence shape,
      Settles (checker.structural 1 member)
        (.ok (.object occurrence shape)) := by
  intro member inMembers
  obtain ⟨shape, _, settles⟩ :=
    exists_related_right (objectUnion?_shapes settles).2 inMembers
  obtain ⟨occurrence, resolves⟩ := memberShape_settles settles
  exact ⟨occurrence, shape, resolves⟩

/-- The variants of a discriminated union last. -/
theorem lasting_of_discriminate?
    (resolves : Settles (checker.objectUnion? type) (some union))
    (taken : checker.arena.discriminate? union name = some discriminated) :
    (Coverage.ofUnion discriminated).Lasting checker := by
  obtain ⟨values, _, rfl⟩ := Option.map_eq_some_iff.mp taken
  intro variant member budget normal normalizes
  obtain ⟨_, _, structural⟩ :=
    objectUnion?_members resolves variant.type (mem_of_mem_variants member)
  exact lasts_of_structural structural normalizes

/-- A coverage on a property starts with lasting variants. -/
theorem coverageOn?_lasting
    (settles : Settles (checker.coverageOn? type name) (some coverage)) :
    coverage.Lasting checker := by
  unfold coverageOn? discriminantBy? at settles
  obtain ⟨discriminated, taken, settles⟩ := settles_bind.mp settles
  obtain ⟨found, rfl, rfl⟩ :=
    Option.map_eq_some_iff.mp (settles_pure.mp settles).symm
  obtain ⟨union, resolves, taken⟩ := settles_bind.mp taken
  obtain ⟨union, rfl, discriminates⟩ :=
    Option.bind_eq_some_iff.mp (settles_pure.mp taken).symm
  exact lasting_of_discriminate? resolves discriminates

/-- A coverage of a whole type starts with lasting variants. -/
theorem coverage?_lasting
    (settles : Settles (checker.coverage? type) (some coverage)) :
    coverage.Lasting checker := by
  unfold coverage? at settles
  obtain ⟨discriminated, takes, settles⟩ := settles.of_bind fun found => by
    split <;> infer_instance
  cases discriminated with
  | some discriminated =>
      cases settles_pure.mp settles
      unfold discriminant? at takes
      obtain ⟨union, resolves, takes⟩ := takes.of_bind fun found => by
        split <;> infer_instance
      cases union with
      | none =>
          cases settles_pure.mp takes
      | some union =>
          obtain ⟨first, _, takes⟩ := settles_bind.mp takes
          obtain ⟨name, _, taken⟩ :=
            List.exists_of_findSome?_eq_some (settles_pure.mp takes).symm
          exact lasting_of_discriminate? resolves taken
  | none =>
      rcases literalCoverage?_cases settles with
        none | ⟨_, _, _, taken, covers⟩
      · cases none
      · cases covers
        intro other member budget normal normalizes
        obtain ⟨_, _, same⟩ :=
          Coverage.literal_of_literalVariants? taken member
        rw [same] at normalizes
        exact lasts_of_literal normalizes

/-- A coverage starts with nothing handled. -/
theorem handled_of_coverage?
    (answers :
      Answers (checker.coverage? type) (some coverage) ∨
        ∃ name, Answers (checker.coverageOn? type name) (some coverage)) :
    coverage.handled = [] := by
  rcases answers with answers | ⟨name, answers⟩
  · unfold coverage? at answers
    obtain ⟨discriminated, _, answers⟩ := answers.of_bind
    cases discriminated with
    | some discriminated =>
        cases answers_pure.mp answers
        rfl
    | none =>
        unfold literalCoverage? at answers
        obtain ⟨answer, _, answers⟩ := answers.of_bind
        split at answers
        · cases answers_pure.mp answers
        · split at answers
          · cases answers_pure.mp answers
            rfl
          · cases answers_pure.mp answers
  · unfold coverageOn? at answers
    obtain ⟨discriminated, _, answers⟩ := answers.of_bind
    obtain ⟨found, _, rfl⟩ :=
      Option.map_eq_some_iff.mp (answers_pure.mp answers).symm
    rfl

/-- Checking exhaustiveness handles the literals and looks at what is left. -/
theorem checkExhaustive_answers
    {values : List Literal}
    {result : Exhaustiveness}
    (started : Answers (checker.coverage? type) (some coverage)) :
    Answers (checker.checkExhaustive type values) result ↔
      Answers ((coverage.handleAll values).residual checker) result.residual ∧
        Answers ((coverage.handleAll values).exhaustive checker)
          result.exhaustive ∧
        result.discriminator = coverage.discriminator := by
  unfold checkExhaustive Coverage.exhaustive
  constructor
  · intro answers
    obtain ⟨found, starts, answers⟩ := answers.of_bind
    cases starts.unique started
    obtain ⟨left, leaves, same⟩ := answers.of_bind
    cases answers_pure.mp same
    exact ⟨leaves, answers_bind.mpr ⟨left, leaves, answers_pure.mpr rfl⟩, rfl⟩
  · rintro ⟨leaves, empties, sameDiscriminator⟩
    obtain ⟨left, again, same⟩ := empties.of_bind
    cases again.unique leaves
    have looks :
        Answers
          ((coverage.handleAll values).residual checker >>= fun residual =>
            pure
              { exhaustive := residual.isNever
                residual
                discriminator := coverage.discriminator })
          result := by
      refine answers_bind.mpr ⟨_, leaves, answers_pure.mpr ?_⟩
      rw [← sameDiscriminator, ← answers_pure.mp same]
    refine (@answers_bind _ _ _ _ (fun found => ?_) _).mpr
      ⟨some coverage, started, looks⟩
    cases found <;> (dsimp only; infer_instance)

/--
Coverage over whole runs. Handling a literal answers whether it is the first of
its kind that some variant has. The residual is the normalized union of the
variants, in their order, whose literals have not been handled. Neither the order
of the literals nor their number matters, and checking exhaustiveness handles all
of them at once. If starting the coverage and looking at what is left report no
exceeded depth, nothing is left if and only if the literal of every variant has
been handled.
-/
theorem coverage_runs
    (checker : Checker)
    (type : Ty)
    (coverage : Coverage)
    (values : List Literal)
    (started :
      Answers (checker.coverage? type) (some coverage) ∨
        ∃ name, Answers (checker.coverageOn? type name) (some coverage)) :
    (∀ before value after,
        values = before ++ value :: after →
        (((coverage.handleAll before).handle value).1 = true ↔
          (∃ variant ∈ coverage.variants, variant.value.equal value = true) ∧
            ∀ earlier ∈ before, earlier.equal value = false)) ∧
      (coverage.handleAll values).residual checker =
          checker.normalize
            (.ofUnion
              ((coverage.variants.filter fun variant =>
                !values.any (Literal.equal · variant.value)).map
                Variant.type)) ∧
      (∀ others,
        (∀ value, value ∈ others ↔ value ∈ values) →
        (coverage.handleAll others).residual checker =
            (coverage.handleAll values).residual checker ∧
          (coverage.handleAll others).exhaustive checker =
            (coverage.handleAll values).exhaustive checker) ∧
      (Answers (checker.coverage? type) (some coverage) →
        ∀ result,
          Answers (checker.checkExhaustive type values) result ↔
            Answers ((coverage.handleAll values).residual checker)
                result.residual ∧
              Answers ((coverage.handleAll values).exhaustive checker)
                result.exhaustive ∧
              result.discriminator = coverage.discriminator) ∧
      (Settles (checker.coverage? type) (some coverage) ∨
          (∃ name, Settles (checker.coverageOn? type name) (some coverage)) →
        ∀ answer,
          Settles ((coverage.handleAll values).exhaustive checker) answer →
          (answer = true ↔
            ∀ variant ∈ coverage.variants,
              ∃ value ∈ values, value.equal variant.value = true)) := by
  have fresh := handled_of_coverage? started
  have unhandled := Coverage.unhandled_handleAll fresh values
  refine ⟨?handles, ?residual, ?order, fun starts _ =>
    checkExhaustive_answers starts, ?exhaustive⟩
  case handles =>
    exact fun before value _ _ => Coverage.handle_handleAll fresh before value
  case residual =>
    rw [Coverage.residual, unhandled]
  case order =>
    intro others same
    have sameResidual :
        (coverage.handleAll others).residual checker =
          (coverage.handleAll values).residual checker := by
      rw [Coverage.residual, Coverage.residual, unhandled,
        Coverage.unhandled_handleAll fresh]
      have any (variant : Variant) :
          others.any (Literal.equal · variant.value) =
            values.any (Literal.equal · variant.value) := by
        rw [Bool.eq_iff_iff, List.any_eq_true, List.any_eq_true]
        simp only [same]
      simp only [any]
    refine ⟨sameResidual, ?_⟩
    rw [Coverage.exhaustive, Coverage.exhaustive, sameResidual]
  case exhaustive =>
    intro starts answer settles
    have lasting : (coverage.handleAll values).Lasting checker := by
      have startLasting : coverage.Lasting checker :=
        starts.elim coverage?_lasting fun ⟨_, starts⟩ =>
          coverageOn?_lasting starts
      unfold Coverage.Lasting
      rwa [Coverage.variants_handleAll]
    obtain ⟨left, leaves, same⟩ := settles_bind.mp settles
    rw [settles_pure.mp same, Coverage.residual_isNever lasting leaves,
      unhandled]
    simp

/-- An object with a text as its tag. -/
def tagged
    (tag : String) :
    Ty :=
  .ofShape
    { properties :=
        [{ name := "tag", type := .ofLiteral (.string (.ofString tag)) }] }

/-- The variant that a tag selects. -/
def taggedVariant
    (tag : String) :
    Variant :=
  { value := .string (.ofString tag), type := tagged tag }

/-- Of two tags, the second is handled; the first is left. -/
theorem coverage_runs_tagged :
    let checker : Checker := { budget := 8 }
    let coverage : Coverage :=
      { discriminator := "tag"
        variants := [taggedVariant "a", taggedVariant "b"] }
    Settles (checker.coverage? (.ofUnion [tagged "a", tagged "b"]))
        (some coverage) ∧
      ((coverage.handleAll []).handle (.string (.ofString "b"))).1 = true ∧
      Settles
        ((coverage.handleAll [.string (.ofString "b")]).exhaustive checker)
        false := by
  intro checker coverage
  have starts :
      Settles (checker.coverage? (.ofUnion [tagged "a", tagged "b"]))
        (some coverage) :=
    ⟨[], by decide +kernel, Log.quiet_nil⟩
  obtain ⟨handles, _, _, _, exhaustive⟩ :=
    coverage_runs checker _ coverage [.string (.ofString "b")]
      (.inl starts.answers)
  obtain ⟨answer, run⟩ :
      ∃ answer,
        (coverage.handleAll [.string (.ofString "b")]).exhaustive checker [] =
          .ok (answer, []) :=
    ⟨false, by decide +kernel⟩
  have settles :
      Settles
        ((coverage.handleAll [.string (.ofString "b")]).exhaustive checker)
        answer :=
    ⟨[], run, Log.quiet_nil⟩
  refine ⟨starts, (handles [] _ [] rfl).mpr ⟨⟨taggedVariant "b", ?_, ?_⟩, ?_⟩, ?_⟩
  · simp [coverage]
  · decide
  · exact nofun
  · have isOpen : answer = false := by
      by_contra full
      obtain ⟨value, member, same⟩ :=
        (exhaustive (.inl starts) answer settles).mp (by simpa using full)
          (taggedVariant "a") (by simp [coverage])
      cases List.mem_singleton.mp member
      revert same
      decide
    exact isOpen ▸ settles

/-- Two names that stand for each other. -/
def mutualAliases : Arena :=
  { declarations :=
      [{ name := "A", definition := .named ⟨0, 1, "B"⟩ },
        { name := "B", definition := .named ⟨0, 0, "A"⟩ }] }

/-- An object with a tag that is `null` or of a name without a type behind it. -/
def taggedNullable : Ty :=
  .ofIntersection
    [tagged "a", .ofUnion [.null, .named ⟨0, 0, "A"⟩]]

/--
Where the depth bound is met, a residual may lose a variant. `null` is identical
to a name that only leads to itself, and the two of them join to `null`, which
has nothing in common with an object. Starting the coverage, the bound is met
before this is seen.
-/
theorem exhausted_before_handled :
    let checker : Checker :=
      { arena := mutualAliases, options := { maxDepth := 3 }, budget := 8 }
    let handled : List Literal :=
      [.string (.ofString "b"), .string (.ofString "c")]
    ∃ coverage : Coverage,
      Answers
          (checker.coverage?
            (.ofUnion [.ofUnion [taggedNullable, tagged "b"], tagged "c"]))
          (some coverage) ∧
        Answers ((coverage.handleAll handled).exhaustive checker) true ∧
        ∃ variant ∈ coverage.variants,
          ∀ value ∈ handled, value.equal variant.value = false := by
  intro checker handled
  let coverage : Coverage :=
    { discriminator := "tag"
      variants :=
        [{ value := .string (.ofString "a"), type := taggedNullable },
          taggedVariant "b", taggedVariant "c"] }
  have starts :
      (checker.coverage?
          (.ofUnion [.ofUnion [taggedNullable, tagged "b"], tagged "c"])
          []).map Prod.fst =
        .ok (some coverage) := by
    decide +kernel
  have empties :
      ((coverage.handleAll handled).exhaustive checker []).map Prod.fst =
        .ok true := by
    decide +kernel
  obtain ⟨⟨_, log⟩, run, rfl⟩ := Except.map_eq_ok.mp starts
  obtain ⟨⟨_, after⟩, emptyRun, rfl⟩ := Except.map_eq_ok.mp empties
  refine ⟨coverage, ⟨[], log, run⟩, ⟨[], after, emptyRun⟩, _,
    List.mem_cons_self, ?_⟩
  decide

end Checker

end StructuralTyping
