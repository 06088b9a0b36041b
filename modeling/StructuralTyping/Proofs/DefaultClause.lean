import StructuralTyping.Proofs.Grouping
import StructuralTyping.Proofs.Limits
import StructuralTyping.Proofs.ReportingNarrowing

namespace StructuralTyping

/-!
# What a default clause sees

The guard that a property equals none of some labels leaves those members of a
union whose literal no label equals, and so does coverage on the property. The
two agree when narrowing works on the members that coverage takes apart and
each member writes its literal out.
-/

open Check

/-- A selection settles with the items that the visits decide to keep. -/
theorem Check.Settles.of_filterM_map
    {keep : β → Check Bool}
    [each : ∀ value, Appends (keep value)]
    {image : α → β}
    {items : List α}
    {kept : List β}
    {keeps : α → Bool}
    (settles : Settles ((items.map image).filterM keep) kept)
    (decides :
      ∀ item ∈ items, ∀ answer,
        Settles (keep (image item)) answer → answer = keeps item) :
    kept = (items.filter keeps).map image := by
  induction items generalizing kept with
  | nil => exact settles_pure.mp settles
  | cons item rest inductionHypothesis =>
      rw [List.map_cons, filterM_cons] at settles
      obtain ⟨answer, head, settles⟩ := settles_bind.mp settles
      obtain ⟨others, tail, settles⟩ := settles_bind.mp settles
      rw [List.forall_mem_cons] at decides
      rw [settles_pure.mp settles, decides.1 answer head, List.filter_cons,
        inductionHypothesis tail decides.2]
      split <;> rfl

/-- Besides unions, only `never` is empty on the face of it. -/
theorem isNever_of_notUnion
    {type : Ty}
    (notUnion : type.isUnion = false) :
    type.isNever = type.isPrimitive .never := by
  cases type <;> first | rfl | cases notUnion

section Fixed

variable {arena : Arena} {options : Options} {types : List Ty}

/-- The union of types that stay converges to what they join to. -/
theorem union_joins
    (flat : ∀ type ∈ types, type.isUnion = false)
    (each : ∀ type ∈ types, type.Fixed arena options)
    (depth : Nat) :
    Converges
      (fun (mode : ModeOver arena options) budget =>
        (mode.pass budget).union arena depth types)
      (· = arena.joinMembers types) := by
  unfold NormalPass.union
  refine (Converges.mapM_self fun type member => each type member depth).bind
    fun results same => .pure ?_
  rw [same, flattenUnion_of_flat flat]

end Fixed

namespace Checker

variable {checker : Checker}

/-- What normalization converges to is what it settles with. -/
theorem normalize_of_converges
    {type : Ty}
    {yields : Ty → Prop}
    (converges :
      Converges
        (fun (mode : ModeOver checker.arena checker.options) budget =>
          (mode.pass budget).normalize 0 type)
        yields)
    (settles : Settles (checker.normalize type) result) :
    yields result := by
  obtain ⟨arena, options, budget⟩ := checker
  obtain ⟨added, run, -⟩ := settles
  obtain ⟨answer, _, enough, kind, runs⟩ := normalize_runs converges
  have longer :=
    @ask_longer arena options budget (max budget enough) (.normalize type)
      result [] added run (Nat.le_max_left _ _)
  have same := runs (max budget enough) (Nat.le_max_right _ _) []
  cases longer.symm.trans same
  exact kind

/-- Normalizing the union of types that stay leads to what they join to. -/
theorem normalize_union_of_fixed
    {types : List Ty}
    (deep : 0 < checker.options.maxDepth)
    (flat : ∀ type ∈ types, type.isUnion = false)
    (each : ∀ type ∈ types, type.Fixed checker.arena checker.options)
    (settles : Settles (checker.normalize (.ofUnion types)) result) :
    result = checker.arena.joinMembers types := by
  refine @normalize_of_converges _ _ _ (· = checker.arena.joinMembers types)
    (.ofSucc ?_) settles
  have sameArena :
      ∀ mode : ModeOver checker.arena checker.options,
        mode.val.checker.arena = checker.arena :=
    fun mode => mode.property.1
  have below :
      ∀ mode : ModeOver checker.arena checker.options,
        ¬ mode.val.checker.options.maxDepth ≤ 0 :=
    fun mode => by
      rw [mode.property.2]
      exact Nat.not_le.mpr deep
  change Converges
    (fun (mode : ModeOver checker.arena checker.options) budget =>
      (mode.pass budget).nextNormalize mode.val 0 (.ofUnion types)) _
  simp only [NormalPass.nextNormalize, Ty.ofUnion, Ty.isAbsent, below,
    NormalPass.normalizeNode, sameArena, if_false, Bool.false_eq_true]
  exact union_joins flat each 1

section Reading

variable
  (deep : 4 ≤ checker.options.maxDepth)
  (funded : 2 ≤ checker.budget)

/--
A member leads to an object in which the property of a name is required and
written as a literal.
-/
inductive Writes
    (checker : Checker)
    (name : String)
    (member : Ty)
    (value : Literal) :
    Prop where
  | object :
      Settles (checker.structural 0 member) (.ok (.object occurrence shape)) →
      shape.property? name = some property →
      property.optional = false →
      property.type = .literal written value →
      Writes checker name member value

/-- A primitive is its own structure. -/
theorem structural_primitive
    (kind : Primitive) :
    checker.structural 0 (.primitive kind) = pure (.ok (.primitive kind)) := by
  unfold structural Evaluation.structural Evaluation.structuralWithin
  rw [resolve_of_notReference rfl (Nat.zero_le _), pure_bind]
  rfl

/-- What writes a literal is no primitive. -/
theorem Writes.notPrimitive
    (writes : checker.Writes name member value)
    (kind : Primitive) :
    member.isPrimitive kind = false := by
  cases writes with
  | object leads =>
      cases member with
      | primitive actual =>
          rw [structural_primitive] at leads
          cases settles_pure.mp leads
      | _ => rfl

/-- Reading the property of a member gives the literal that it writes. -/
theorem Writes.propertyOf
    (writes : checker.Writes name member value) :
    ∃ written, ∀ found,
      Settles (checker.propertyOf member name) found →
      found = some (.literal written value) := by
  cases writes with
  | @object _ shape property written leads declared required isLiteral =>
      refine ⟨written, fun found settles => ?_⟩
      unfold Checker.propertyOf at settles
      generalize checker.budget = budget at settles
      cases budget with
      | zero => exact (not_settles_exhausted settles).elim
      | succ budget =>
          unfold propertyWithin at settles
          obtain ⟨answer, again, settles⟩ := settles.of_bind fun answer => by
            split
            · infer_instance
            · refine @Appends.ofBind _ _ _ _
                  (Appends.ofOptionMapM _ _ fun member => inferInstance)
                  fun found => ?_
              cases found <;> (dsimp only; infer_instance)
            · infer_instance
            · refine @Appends.ofBind _ _ _ _ _ fun found => ?_
              cases found <;> (dsimp only; infer_instance)
          cases leads.unique again
          dsimp only at settles
          obtain ⟨apparent, exposes, settles⟩ := settles.of_bind fun found => by
            cases found <;> (dsimp only; infer_instance)
          have isShape : apparent = some shape := by
            unfold Checker.apparent at exposes
            generalize checker.budget = units at exposes
            cases units with
            | zero => exact (not_settles_exhausted exposes).elim
            | succ units => exact settles_pure.mp exposes
          rw [isShape] at settles
          rw [settles_pure.mp settles, readShape, declared]
          simp [required, isLiteral]

include deep funded in
/-- Normalization leaves literals and primitives alone. -/
theorem normalize_atom
    {type : Ty}
    (atom : type.isAtom = true) :
    checker.normalize type = pure type := by
  obtain ⟨budget, same⟩ := Nat.exists_eq_add_of_le' funded
  unfold normalize Evaluation.normalizeAt normalizeIn
  rw [show checker.evaluation.budget = (budget + 1) + 1 from same,
    normalize_leaf (.inl atom) (show 0 < checker.options.maxDepth by omega)]
  rfl

include deep funded in
/-- A literal is excluded by the labels that equal it. -/
theorem narrowEqual_literal
    (written occurrence : Occurrence)
    (value label : Literal) :
    checker.narrowEqual (.literal occurrence label) false false
        (.literal written value) =
      pure (if value.equal label then .never else .literal written value) := by
  have members :
      checker.membersOf (.literal written value) =
        pure [.literal written value] := by
    unfold membersOf
    rw [normalize_atom deep funded rfl, pure_bind]
    rfl
  have reduced :
      checker.narrowEqual (.literal occurrence label) false false
          (.literal written value) =
        checker.normalize
          (.ofUnion
            (if value.equal label then [] else [.literal written value])) := by
    unfold narrowEqual narrowMembers
    rw [members, pure_bind]
    cases excluded : value.equal label <;>
      simp [narrowMember, narrowStrict, Ty.isPrimitive, keepIf, Ty.isAbsent,
        excluded]
  rw [reduced]
  split
  · exact normalizeAt_flat funded (by simp) (by omega)
  · exact normalizeAt_flat funded (by simp [Ty.isFlat, Ty.isConstant])
      (by omega)

include deep funded in
/-- A member survives the labels that do not equal its literal. -/
theorem Writes.survives
    {chained answer : Bool}
    (writes : checker.Writes name member value)
    (settles :
      Settles
        (checker.memberSurvives name chained
          (checker.narrowEqual (.literal occurrence label) false false) member)
        answer) :
    answer = !value.equal label := by
  obtain ⟨written, reads⟩ := writes.propertyOf
  unfold memberSurvives at settles
  simp only [isNullishOrVoid, isAnyOrUnknown, Ty.isNullish,
    writes.notPrimitive, Bool.or_self, Bool.false_eq_true, if_false] at settles
  obtain ⟨found, answers, settles⟩ := settles.of_bind fun found => by
    cases found <;> (dsimp only; infer_instance)
  rw [reads found answers] at settles
  dsimp only at settles
  rw [narrowEqual_literal deep funded, pure_bind,
    normalize_atom deep funded (by split <;> rfl), pure_bind] at settles
  rw [settles_pure.mp settles]
  cases value.equal label <;> rfl

/-- What has no members survives every test, as it has no property either. -/
theorem survives_never
    {chained answer : Bool}
    {test : Ty → Check Ty}
    [∀ type, Appends (test type)]
    (settles :
      Settles (checker.memberSurvives name chained test .never) answer) :
    answer = true := by
  unfold memberSurvives at settles
  obtain ⟨found, answers, settles⟩ :=
    Settles.of_bind settles fun found => by
      cases found <;> (dsimp only; infer_instance)
  have missing : found = none := by
    unfold Checker.propertyOf at answers
    generalize checker.budget = budget at answers
    cases budget with
    | zero => exact (not_settles_exhausted answers).elim
    | succ budget =>
        unfold propertyWithin at answers
        rw [structural_primitive, pure_bind] at answers
        dsimp only at answers
        obtain ⟨members, exposes, answers⟩ :=
          Settles.of_bind answers fun found => by
            cases found <;> (dsimp only; infer_instance)
        have none : members = .none := by
          unfold Checker.apparent at exposes
          generalize checker.budget = units at exposes
          cases units with
          | zero => exact (not_settles_exhausted exposes).elim
          | succ units => exact settles_pure.mp exposes
        rw [none] at answers
        exact settles_pure.mp answers
  rw [missing] at settles
  exact settles_pure.mp settles

end Reading

section Told

/--
Variants that can be told apart by reading a property: each writes its literal
out, none is identical to another, and normalization leaves all of them alone.
-/
structure Told
    (checker : Checker)
    (name : String)
    (variants : List Variant) :
    Prop where
  writes : ∀ variant ∈ variants, checker.Writes name variant.type variant.value
  distinct :
    (variants.map Variant.type).Pairwise fun first second =>
      checker.arena.identical first second = false
  flat : ∀ variant ∈ variants, variant.type.isUnion = false
  fixed :
    ∀ variant ∈ variants, variant.type.Fixed checker.arena checker.options

variable
  {variants : List Variant}
  (deep : 4 ≤ checker.options.maxDepth)
  (funded : 2 ≤ checker.budget)

/-- Some of the variants can be told apart like all of them. -/
theorem Told.filter
    (told : checker.Told name variants)
    (keeps : Variant → Bool) :
    checker.Told name (variants.filter keeps) where
  writes variant kept := told.writes variant (List.mem_filter.mp kept).1
  distinct :=
    told.distinct.sublist ((List.filter_sublist).map Variant.type)
  flat variant kept := told.flat variant (List.mem_filter.mp kept).1
  fixed variant kept := told.fixed variant (List.mem_filter.mp kept).1

/-- The members of variants that are told apart join without a change. -/
theorem Told.joinMembers
    (told : checker.Told name variants) :
    checker.arena.joinMembers (variants.map Variant.type) =
      match variants.map Variant.type with
      | [] => .never
      | [type] => type
      | types => .ofUnion types := by
  have plain :
      ∀ type ∈ variants.map Variant.type,
        type.isNever = false ∧ type.isPrimitive .any = false ∧
          type.isPrimitive .unknown = false := by
    intro type member
    obtain ⟨variant, inVariants, rfl⟩ := List.mem_map.mp member
    have notPrimitive := (told.writes variant inVariants).notPrimitive
    refine ⟨?_, notPrimitive .any, notPrimitive .unknown⟩
    rw [isNever_of_notUnion (told.flat variant inVariants)]
    exact notPrimitive .never
  have unique :
      (variants.map Variant.type).foldl checker.arena.appendUnique [] =
        variants.map Variant.type :=
    foldl_appendUnique_of_pairwise (by simpa using told.distinct)
  have joined := @joinMembers_of_plain checker.arena _ plain
  rw [unique] at joined
  exact joined

include deep in
/-- Normalizing the union of variants that are told apart joins them. -/
theorem Told.normalize
    (told : checker.Told name variants)
    (settles :
      Settles (checker.normalize (.ofUnion (variants.map Variant.type)))
        result) :
    result = checker.arena.joinMembers (variants.map Variant.type) :=
  normalize_union_of_fixed (by omega) (List.forall_mem_map.mpr told.flat)
    (List.forall_mem_map.mpr told.fixed) settles

/-- The members a guard works on: those of the variants, or `never`. -/
def Sees
    (checker : Checker)
    (type : Ty)
    (variants : List Variant) :
    Prop :=
  ∀ members,
    Settles (checker.membersOf type) members →
    members = variants.map Variant.type ∨
      variants = [] ∧ members = [.never]

/-- A single member that leads to an object is seen as itself. -/
theorem Writes.membersOf
    (writes : checker.Writes name type value)
    (flat : type.isUnion = false)
    (fixed : type.Fixed checker.arena checker.options)
    (settles : Settles (checker.membersOf type) members) :
    members = [type] := by
  unfold Checker.membersOf at settles
  obtain ⟨normalized, normalizes, settles⟩ :=
    settles.of_bind fun normalized => by
      split
      · refine @Appends.ofBind _ _ _ _ _ fun expanded => ?_
        split <;> infer_instance
      · infer_instance
  cases normalize_of_converges (fixed 0) normalizes
  split at settles
  · obtain ⟨expanded, expands, settles⟩ :=
      settles.of_bind fun expanded => by split <;> infer_instance
    unfold Checker.expand at expands
    obtain ⟨answer, leads, expands⟩ :=
      expands.of_bind fun answer => by
        cases answer <;> (dsimp only; infer_instance)
    cases writes with
    | object found =>
        cases found.unique leads
        cases settles_pure.mp expands
        exact settles_pure.mp settles
  · rw [settles_pure.mp settles]
    cases type <;> first | rfl | cases flat

include deep funded in
/-- What variants join to has the variants as members. -/
theorem Told.sees
    (told : checker.Told name variants) :
    checker.Sees (checker.arena.joinMembers (variants.map Variant.type))
      variants := by
  intro members settles
  rw [told.joinMembers] at settles
  rcases variants with _ | ⟨first, _ | ⟨second, rest⟩⟩
  · unfold Checker.membersOf at settles
    rw [List.map_nil, normalize_atom deep funded rfl, pure_bind] at settles
    exact .inr ⟨rfl, settles_pure.mp settles⟩
  · have only : first ∈ [first] := List.mem_singleton_self first
    exact .inl ((told.writes first only).membersOf (told.flat first only)
      (told.fixed first only) settles)
  · unfold Checker.membersOf at settles
    obtain ⟨normalized, normalizes, settles⟩ :=
      settles.of_bind fun normalized => by
        split
        · refine @Appends.ofBind _ _ _ _ _ fun expanded => ?_
          split <;> infer_instance
        · infer_instance
    have joined := told.normalize deep normalizes
    rw [told.joinMembers] at joined
    rw [joined] at settles
    exact .inl (settles_pure.mp settles)

/-- The variants whose literal equals none of some labels. -/
def unlabelled
    (labels : List Literal)
    (variants : List Variant) :
    List Variant :=
  variants.filter fun variant =>
    !labels.any (Literal.equal · variant.value)

include deep funded in
/-- Excluding a label leaves what the variants without it join to. -/
theorem Told.refineProperty
    {view : View}
    {chained : Bool}
    (told : checker.Told name variants)
    (bound : view.typeOf? subject = some type)
    (sees : checker.Sees type variants)
    (settles :
      Settles
        (checker.refineProperty view (.name subject) name chained
          (checker.narrowEqual (.literal occurrence label) false false))
        facts) :
    facts =
      .single subject
        (checker.arena.joinMembers
          ((unlabelled [label] variants).map Variant.type)) := by
  unfold Checker.refineProperty refineName at settles
  dsimp only at settles
  rw [bound] at settles
  obtain ⟨result, narrows, settles⟩ := settles_bind.mp settles
  obtain ⟨members, seen, narrows⟩ := settles_bind.mp narrows
  obtain ⟨kept, keeps, normalizes⟩ := settles_bind.mp narrows
  rw [settles_pure.mp settles]
  congr 1
  rcases sees members seen with rfl | ⟨rfl, rfl⟩
  · have selected :
        kept = (unlabelled [label] variants).map Variant.type :=
      keeps.of_filterM_map fun variant inVariants answer settles => by
        rw [(told.writes variant inVariants).survives deep funded settles,
          Literal.equal_comm]
        simp
    rw [selected] at normalizes
    exact (told.filter _).normalize deep normalizes
  · rw [← List.map_id [Ty.never]] at keeps
    have selected : kept = ([Ty.never].filter fun _ => true).map id :=
      keeps.of_filterM_map fun member inMembers answer settles => by
        cases List.mem_singleton.mp inMembers
        exact survives_never settles
    rw [selected] at normalizes
    exact @normalize_union_of_fixed _ _ [.never] (by omega)
      (by simp [Ty.isUnion])
      (List.forall_mem_singleton.mpr
        (Ty.Canonical.primitive.fixed.1 .primitive))
      normalizes

/-- Excluding more labels excludes them from what the first ones leave. -/
theorem unlabelled_append
    (labels others : List Literal)
    (variants : List Variant) :
    unlabelled (labels ++ others) variants =
      unlabelled others (unlabelled labels variants) := by
  simp only [unlabelled, List.filter_filter, List.any_append, Bool.not_or,
    Bool.and_comm]

/-- The guard that a property differs from a label narrows by that label. -/
theorem refine_differs
    (view : View)
    (operand : Expression)
    (label : CaseLabel) :
    checker.refine view
        (.binary .strictNotEqual (.member operand name chained)
          (.constant (.literal label.occurrence label.value)))
        true =
      checker.refineProperty view operand name chained
        (checker.narrowEqual (.literal label.occurrence label.value) false
          false) := by
  simp [refine, refineComparison, refineEquality?, Ty.isAbsent]

/-- Where both operands hold, the right one is seen under facts of the left. -/
theorem refine_and
    (view : View)
    (left right : Expression) :
    checker.refine view (.binary .and left right) true = do
      let positive ← checker.refine view left true
      return positive.overlay
        (← checker.refine (view.withFacts positive) right true) := by
  rw [refine]
  rfl

/-- A fact about a name replaces an earlier one. -/
theorem overlay_single
    (subject : String)
    (type other : Ty) :
    (Facts.single subject type).overlay (.single subject other) =
      .single subject other := by
  simp [Facts.overlay, Facts.single, Facts.insert, Facts.insertEntry]

/-- Facts about a name replace what was known about it. -/
theorem typeOf?_withFacts_single
    (view : View)
    (subject : String)
    (type : Ty) :
    (view.withFacts (.single subject type)).typeOf? subject = some type := by
  have found : ∀ entries : List (String × Ty),
      (Facts.insertEntry subject type entries).find? (·.1 == subject) =
        some (subject, type) := by
    intro entries
    induction entries with
    | nil => simp [Facts.insertEntry]
    | cons entry rest inductionHypothesis =>
        simp only [Facts.insertEntry]
        split
        · simp
        · split
          · simp
          · next differs _ =>
              rw [List.find?_cons_of_neg (by simpa using Ne.symm differs)]
              exact inductionHypothesis
  simp [View.typeOf?, View.withFacts, Facts.overlay, Facts.single,
    Facts.insert, Facts.find?, found]

include deep funded in
/-- Excluding labels one by one leaves the variants with none of them. -/
theorem Told.refineLabels
    {view : View}
    {chained : Bool}
    {labels : List CaseLabel}
    {guard : Expression}
    (told : checker.Told name variants)
    (bound : view.typeOf? subject = some type)
    (sees : checker.Sees type variants)
    (guards :
      noLabel (.member (.name subject) name chained) labels = some guard)
    (settles : Settles (checker.refine view guard true) facts) :
    facts =
      .single subject
        (checker.arena.joinMembers
          ((unlabelled (labels.map CaseLabel.value) variants).map
            Variant.type)) := by
  rcases labels with _ | ⟨first, rest⟩
  · cases guards
  cases guards
  induction rest using List.reverseRecOn generalizing facts with
  | nil =>
      simp only [List.foldl_nil, refine_differs] at settles
      exact told.refineProperty deep funded bound sees settles
  | append_singleton before label inductionHypothesis =>
      simp only [List.foldl_concat, refine_and, refine_differs] at settles
      obtain ⟨positive, left, settles⟩ := settles_bind.mp settles
      obtain ⟨later, right, settles⟩ := settles_bind.mp settles
      rw [settles_pure.mp settles, inductionHypothesis left]
      rw [inductionHypothesis left] at right
      rw [(told.filter _).refineProperty deep funded
          (typeOf?_withFacts_single _ _ _) ((told.filter _).sees deep funded)
          right, overlay_single, ← List.cons_append, List.map_append,
        unlabelled_append]
      rfl

/--
Coverage on a property takes the members of a union apart, with one literal for
each of them.
-/
theorem coverageOn?_takes
    (settles : Settles (checker.coverageOn? type name) (some coverage)) :
    coverage.handled = [] ∧
      ∃ occurrence,
        Settles (checker.structural 0 type)
          (.ok (.union occurrence (coverage.variants.map Variant.type))) := by
  unfold coverageOn? discriminantBy? at settles
  obtain ⟨discriminated, taken, settles⟩ := settles_bind.mp settles
  obtain ⟨found, rfl, rfl⟩ :=
    Option.map_eq_some_iff.mp (settles_pure.mp settles).symm
  obtain ⟨union, resolves, taken⟩ := settles_bind.mp taken
  obtain ⟨union, rfl, discriminates⟩ :=
    Option.bind_eq_some_iff.mp (settles_pure.mp taken).symm
  obtain ⟨values, literals, rfl⟩ := Option.map_eq_some_iff.mp discriminates
  refine ⟨rfl, ?_⟩
  obtain ⟨⟨occurrence, leads⟩, shapes⟩ := objectUnion?_shapes resolves
  have lengths : values.length = union.members.length :=
    (Arena.distinctLiterals?_spec literals).length_eq.symm.trans
      shapes.length_eq.symm
  have types :
      (List.zipWith Variant.mk values union.members).map Variant.type =
        union.members :=
    List.ext_getElem (by simp [lengths]) (by simp)
  exact ⟨occurrence, types.symm ▸ leads⟩

/-- A union taken apart by the literals its members write out is told apart. -/
theorem told_of_covers
    (tidyArena : checker.arena.Tidy)
    (tidy : type.Tidy)
    (covers : Settles (checker.coverageOn? type name) (some coverage))
    (writes :
      ∀ variant ∈ coverage.variants,
        checker.Writes name variant.type variant.value)
    (stable :
      ∀ variant ∈ coverage.variants,
        variant.type.Stable checker.arena true) :
    checker.Told name coverage.variants ∧
      ∀ variant ∈ coverage.variants, variant.type.Tidy := by
  obtain ⟨-, occurrence, leads⟩ := coverageOn?_takes covers
  rcases (Checker.keeps_tidy tidyArena).evaluation.structuralWithin tidy leads with
    canonical | ⟨_, notUnion⟩
  · cases canonical with
    | union parts each =>
        have canonicalVariants := List.forall_mem_map.mp each
        exact
          ⟨{ writes
             distinct := parts.distinct
             flat := List.forall_mem_map.mp parts.flat
             fixed := fun variant inVariants =>
               (canonicalVariants variant inVariants).fixed.1
                 (stable variant inVariants) },
            fun variant inVariants =>
              (canonicalVariants variant inVariants).tidy⟩
  · cases notUnion

/--
The default clause sees the residual. When narrowing works on the members that
coverage on a property takes apart, each member writes its literal out and is
left alone by normalization, then excluding some labels one by one leads to what
coverage leaves once they are handled.
-/
theorem refine_sees_residual
    {labels : List CaseLabel}
    {view : View}
    {chained : Bool}
    {guard : Expression}
    {facts : Facts}
    {residual : Ty}
    (deep : 4 ≤ checker.options.maxDepth)
    (funded : 2 ≤ checker.budget)
    (tidyArena : checker.arena.Tidy)
    (tidy : type.Tidy)
    (covers : Settles (checker.coverageOn? type name) (some coverage))
    (sees :
      Settles (checker.membersOf type) (coverage.variants.map Variant.type))
    (writes :
      ∀ variant ∈ coverage.variants,
        checker.Writes name variant.type variant.value)
    (stable :
      ∀ variant ∈ coverage.variants,
        variant.type.Stable checker.arena true)
    (bound : view.typeOf? subject = some type)
    (guards :
      noLabel (.member (.name subject) name chained) labels = some guard)
    (refines : Settles (checker.refine view guard true) facts)
    (remains :
      Settles
        ((coverage.handleAll (labels.map CaseLabel.value)).residual checker)
        residual)
    (shallow : residual.Shallow identityDepth) :
    ∃ narrowed,
      facts = .single subject narrowed ∧
        narrowed = residual ∧
          checker.arena.identical narrowed residual = true := by
  obtain ⟨told, tidyVariants⟩ :=
    told_of_covers tidyArena tidy covers writes stable
  have narrows :=
    told.refineLabels deep funded bound
      (fun members again => .inl (again.unique sees)) guards refines
  have unhandled :
      (coverage.handleAll (labels.map CaseLabel.value)).unhandled =
        (unlabelled (labels.map CaseLabel.value) coverage.variants).map
          Variant.type :=
    Coverage.unhandled_handleAll (coverageOn?_takes covers).1 _
  unfold Coverage.residual at remains
  rw [unhandled] at remains
  have joined := (told.filter _).normalize deep remains
  have tidyResidual : residual.Tidy :=
    (canonical_normalize tidyArena
      (.union (List.forall_mem_map.mpr fun variant kept =>
        tidyVariants variant (List.mem_filter.mp kept).1)) remains).tidy
  exact ⟨_, narrows, joined.symm,
    joined ▸ identicalWithin_self tidyResidual.recognizable shallow []⟩

end Told

section Digits

/-- The object that has a type under the key `k`. -/
def keyed
    (type : Ty) :
    Ty :=
  .ofShape { properties := [{ name := "k", type }] }

/-- The case label of a digit. -/
def digitLabel
    (value : Nat) :
    CaseLabel :=
  { occurrence := none, value := digit value }

/-- A checker that knows `Zero`, the digit, and `Nought`, the object with it. -/
def noughts : Checker :=
  { arena :=
      { declarations :=
          [{ name := "Zero", definition := .ofLiteral (digit 0) },
            { name := "Nought"
              definition := keyed (.ofLiteral (digit 0)) }] }
    budget := 20 }

/-- The name of the digit. -/
def zero : Reference :=
  { arena := 0, id := 0, name := "Zero" }

/-- The name of the object. -/
def nought : Reference :=
  { arena := 0, id := 1, name := "Nought" }

/-- The coverage of three objects by their digit, the first by its name. -/
def digitCoverage : Coverage :=
  { discriminator := "k"
    variants :=
      [{ value := digit 0, type := .named nought },
        { value := digit 1, type := keyed (.ofLiteral (digit 1)) },
        { value := digit 2, type := keyed (.ofLiteral (digit 2)) }] }

/-- The union of the three objects. -/
def keyedDigits : Ty :=
  .ofUnion (digitCoverage.variants.map Variant.type)

/-- Excluding two digits leaves the object with the third. -/
theorem refine_sees_residual_digits :
    ∃ guard facts residual narrowed,
      noLabel (.member (.name "x") "k" false) [digitLabel 0, digitLabel 1] =
          some guard ∧
        Settles
          (noughts.refine { lookup := fun _ => some keyedDigits } guard true)
          facts ∧
        Settles
          ((digitCoverage.handleAll [digit 0, digit 1]).residual noughts)
          residual ∧
        facts = .single "x" narrowed ∧
        narrowed = residual ∧
        residual = keyed (.ofLiteral (digit 2)) ∧
        noughts.arena.identical narrowed residual = true := by
  have three {kind : Variant → Prop} {first second third : Variant} :
      kind first → kind second → kind third →
        ∀ variant ∈ [first, second, third], kind variant := by
    simp +contextual
  have tidyKeyed (value : Nat) (equal : (digit value).equal (digit value)) :
      (keyed (.ofLiteral (digit value))).Tidy :=
    .object (by simp [Shape.names])
      (List.forall_mem_singleton.mpr (.literal equal)) (by simp) (by simp)
  have stableKeyed (value : Nat) :
      (keyed (.ofLiteral (digit value))).Stable noughts.arena true :=
    .object (List.forall_mem_singleton.mpr .literal) (by simp) (by simp)
  have writesDigit (value : Nat) {member : Ty}
      (leads :
        noughts.structural 0 member [] =
          .ok (.ok (keyed (.ofLiteral (digit value))), [])) :
      noughts.Writes "k" member (digit value) :=
    .object ⟨[], leads, Log.quiet_nil⟩ rfl rfl rfl
  have refines :
      Settles
        (noughts.refine { lookup := fun _ => some keyedDigits }
          (.binary .and
            (.binary .strictNotEqual (.member (.name "x") "k" false)
              (.constant (.ofLiteral (digit 0))))
            (.binary .strictNotEqual (.member (.name "x") "k" false)
              (.constant (.ofLiteral (digit 1)))))
          true)
        (.single "x" (keyed (.ofLiteral (digit 2)))) :=
    ⟨[], by decide +kernel, Log.quiet_nil⟩
  have remains :
      Settles ((digitCoverage.handleAll [digit 0, digit 1]).residual noughts)
        (keyed (.ofLiteral (digit 2))) :=
    ⟨[], by decide +kernel, Log.quiet_nil⟩
  obtain ⟨narrowed, found, same, identical⟩ :=
    @refine_sees_residual noughts keyedDigits "k" digitCoverage "x"
      [digitLabel 0, digitLabel 1] _ false _ _ _ (by decide) (by decide)
      (Arena.tidy_of_declarations
        (List.forall_mem_cons.mpr
          ⟨.literal (by decide +kernel),
            List.forall_mem_singleton.mpr (tidyKeyed 0 (by decide +kernel))⟩))
      (.union (List.forall_mem_map.mpr
        (three .named (tidyKeyed 1 (by decide +kernel))
          (tidyKeyed 2 (by decide +kernel)))))
      ⟨[], by decide +kernel, Log.quiet_nil⟩
      ⟨[], by decide +kernel, Log.quiet_nil⟩
      (three (writesDigit 0 (by decide +kernel))
        (writesDigit 1 (by decide +kernel)) (writesDigit 2 (by decide +kernel)))
      (three .named (stableKeyed 1) (stableKeyed 2))
      rfl rfl refines remains
      (.object (List.forall_mem_singleton.mpr .literal) (by simp) (by simp))
  exact ⟨_, _, _, narrowed, rfl, refines, remains, found, same, rfl, identical⟩

/--
A literal under a name is taken apart by coverage alone. Excluding it leaves the
member that has it, which is no longer in the residual.
-/
theorem refine_misses_named_literal :
    let type : Ty :=
      .ofUnion [keyed (.named zero), keyed (.ofLiteral (digit 1))]
    ∃ coverage narrowed residual,
      Settles (noughts.coverageOn? type "k") (some coverage) ∧
        Settles
          (noughts.refine { lookup := fun _ => some type }
            (.binary .strictNotEqual (.member (.name "x") "k" false)
              (.constant (.ofLiteral (digit 0))))
            true)
          (.single "x" narrowed) ∧
        Settles ((coverage.handleAll [digit 0]).residual noughts) residual ∧
        noughts.arena.identical narrowed residual = false := by
  refine
    ⟨{ discriminator := "k"
       variants :=
        [{ value := digit 0, type := keyed (.named zero) },
          { value := digit 1, type := keyed (.ofLiteral (digit 1)) }] },
      .ofUnion [keyed (.named zero), keyed (.ofLiteral (digit 1))],
      keyed (.ofLiteral (digit 1)), ⟨[], ?_, Log.quiet_nil⟩,
      ⟨[], ?_, Log.quiet_nil⟩, ⟨[], ?_, Log.quiet_nil⟩, ?_⟩ <;>
    decide +kernel

end Digits

end Checker

end StructuralTyping
