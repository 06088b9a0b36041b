import StructuralTyping.Proofs.Limits
import StructuralTyping.Proofs.PlainForms
import StructuralTyping.Proofs.ReachedForms

namespace StructuralTyping

/-!
# Runs on plain types

What normalizing and expanding a plain type comes to is told by the type and the
arena alone: no run reports anything but an exceeded depth bound, and every run
without such a report has one answer. Names are followed, and a union stands for
its normal form, which may be a name again.
-/

namespace Check

/--
Every run that reports no exceeded depth answers with the value and reports
nothing at all.
-/
def Yields
    (computation : Check α)
    (value : α) :
    Prop :=
  ∀ answer added,
    computation [] = .ok (answer, added) →
    Log.Quiet added →
    answer = value ∧ added = []

namespace Yields

/-- A computation that settles answers with what it yields. -/
theorem eq_of_settles
    {computation : Check α}
    (yields : Yields computation value)
    (settles : Settles computation answer) :
    answer = value := by
  obtain ⟨added, run, quiet⟩ := settles
  exact (yields answer added run quiet).1

/-- A value yields itself. -/
theorem pure
    (value : α) :
    Yields (pure value) value := by
  intro answer added run quiet
  cases run
  exact ⟨rfl, rfl⟩

/-- What runs out of its budget yields everything. -/
theorem exhausted
    {value : α} :
    Yields Check.exhausted value := by
  intro answer added run quiet
  cases run

/-- What reports an exceeded depth yields everything. -/
theorem tooComplex
    {checker : Checker}
    {type : Ty}
    {outcome : Except UtilityError α} :
    Yields (checker.failTooComplex type : Evaluate α).run outcome := by
  intro answer added run quiet
  cases run
  exact absurd rfl (quiet _ (List.mem_singleton_self _))

/-- A sequence yields what its last part does. -/
theorem bind
    {first : Check α}
    {next : α → Check β}
    (yields : Yields first value)
    (continues : Yields (next value) result)
    (appends : ∀ value, OnlyAdds (next value)) :
    Yields (first >>= next) result := by
  intro answer added run quiet
  obtain ⟨⟨middle, reported⟩, firstRun, nextRun⟩ :=
    Except.bind_eq_ok.mp run
  change next middle reported = .ok (answer, added) at nextRun
  rw [(appends middle).shift reported] at nextRun
  obtain ⟨⟨last, later⟩, fresh, same⟩ := Except.map_eq_ok.mp nextRun
  simp only [Prod.mk.injEq] at same
  obtain ⟨rfl, rfl⟩ := same
  obtain ⟨firstQuiet, laterQuiet⟩ := Log.quiet_append.mp quiet
  obtain ⟨rfl, rfl⟩ := yields middle reported firstRun firstQuiet
  exact continues last later fresh laterQuiet

/-- A sequence that may fail yields what its last part does. -/
theorem evaluateBind
    {first : Evaluate α}
    {next : α → Evaluate β}
    (yields : Yields first.run (.ok value))
    (continues : Yields (next value).run result)
    (appends : ∀ value, OnlyAdds (next value).run) :
    Yields (first >>= next).run result := by
  rw [ExceptT.run_bind]
  refine yields.bind continues ?_
  rintro (error | value)
  · exact (Appends.ofPure _).toOnlyAdds
  · exact appends value

/-- A sequence that may find nothing yields what its last part does. -/
theorem optionBind
    {first : OptionT Check α}
    {next : α → OptionT Check β}
    (yields : Yields first.run (some value))
    (continues : Yields (next value).run result)
    (appends : ∀ value, OnlyAdds (next value).run) :
    Yields (first >>= next).run result := by
  rw [OptionT.run_bind]
  refine yields.bind continues ?_
  rintro (_ | value)
  · exact (Appends.ofPure _).toOnlyAdds
  · exact appends value

/-- A visit yields the values that the items yield. -/
theorem optionMapM
    {items : List α}
    {values : List β}
    {visit : α → OptionT Check β}
    [appends : ∀ item, Appends (visit item).run]
    (length : values.length = items.length)
    (each :
      ∀ item value,
        (item, value) ∈ items.zip values →
        Yields (visit item).run (some value)) :
    Yields (items.mapM visit).run (some values) := by
  induction items generalizing values with
  | nil =>
      rw [List.length_eq_zero_iff.mp length]
      exact .pure _
  | cons item rest inductionHypothesis =>
      obtain ⟨value, others, rfl⟩ :=
        List.exists_cons_of_length_eq_add_one length
      have restAppends := Appends.ofOptionMapM visit rest appends
      rw [List.mapM_cons]
      refine (each item value List.mem_cons_self).optionBind
        (Yields.optionBind
          (inductionHypothesis (by simpa using length)
            fun item value member => each item value (.tail _ member))
          (.pure _) fun _ => inferInstance)
        fun _ => inferInstance

/-- What cannot fail yields its value as a success. -/
theorem lift
    {computation : Check α}
    (yields : Yields computation value) :
    Yields (liftM computation : Evaluate α).run (.ok value) := by
  change
    Yields
      (computation >>= fun value =>
        Pure.pure (Except.ok value : Except UtilityError α))
      (.ok value)
  exact yields.bind (.pure _) fun _ => inferInstance

end Yields

end Check

open Check

section Forms

variable {arena : Arena}

/-- A primitive with values is found among those types that have values. -/
theorem any_isPrimitive_iff
    {types : List Ty}
    {kind : Primitive}
    (notNever : kind ≠ .never) :
    (types.filter fun type => !type.isNever).any (Ty.isPrimitive · kind) =
        true ↔
      .primitive kind ∈ types := by
  rw [List.any_eq_true]
  constructor
  · rintro ⟨type, member, isKind⟩
    exact eq_of_isPrimitive isKind ▸ (List.mem_filter.mp member).1
  · intro member
    refine ⟨_, List.mem_filter.mpr ⟨member, ?_⟩, by simp [Ty.isPrimitive]⟩
    simpa [Ty.isNever, Ty.isPrimitive] using notNever

/-- A union with `any` is `any`. -/
theorem joinMembers_any
    {types : List Ty}
    (member : .any ∈ types) :
    arena.joinMembers types = .any := by
  unfold Arena.joinMembers
  dsimp only
  rw [if_pos ((any_isPrimitive_iff (by simp)).mpr member)]

/-- A union with `unknown` is `unknown`, unless it has `any`. -/
theorem joinMembers_unknown
    {types : List Ty}
    (noAny : .any ∉ types)
    (member : .unknown ∈ types) :
    arena.joinMembers types = .unknown := by
  unfold Arena.joinMembers
  dsimp only
  rw [if_neg (mt (any_isPrimitive_iff (by simp)).mp noAny),
    if_pos ((any_isPrimitive_iff (by simp)).mpr member)]

/-- Types that are no unions have a top type among them, or are all members. -/
theorem top_or_isMember
    {types : List Ty}
    (flat : ∀ type ∈ types, type.isUnion = false) :
    .any ∈ types ∨ .any ∉ types ∧ .unknown ∈ types ∨
      ∀ type ∈ types, type.IsMember := by
  by_cases any : .any ∈ types
  · exact .inl any
  by_cases unknown : .unknown ∈ types
  · exact .inr (.inl ⟨any, unknown⟩)
  refine .inr (.inr fun type member => ⟨flat type member, ?_, ?_⟩)
  · refine Bool.eq_false_iff.mpr fun isAny => any ?_
    rwa [eq_of_isPrimitive isAny] at member
  · refine Bool.eq_false_iff.mpr fun isUnknown => unknown ?_
    rwa [eq_of_isPrimitive isUnknown] at member

section Undefined

variable
  {types : List Ty}
  (flat : ∀ type ∈ types, type.isUnion = false)

include flat

/-- A union takes up `undefined` before or after it is reduced. -/
theorem joinMembers_optional :
    arena.joinMembers ((arena.joinMembers types).members ++ [.undefined]) =
      arena.joinMembers (types ++ [.undefined]) := by
  rcases top_or_isMember flat with any | ⟨noAny, unknown⟩ | each
  · rw [joinMembers_any any, joinMembers_any (List.mem_append_left _ any)]
    rfl
  · rw [joinMembers_unknown noAny unknown,
      joinMembers_unknown (by simpa using noAny)
        (List.mem_append_left _ unknown)]
    rfl
  cases inhabited : (arena.joinMembers types).isPrimitive .never with
  | false => exact joinMembers_extend each ⟨rfl, rfl, rfl⟩ inhabited
  | true =>
      have none : types.filter (fun type => !type.isNever) = [] := by
        by_contra some
        obtain ⟨type, member⟩ := List.exists_mem_of_ne_nil _ some
        obtain ⟨inTypes, valued⟩ := List.mem_filter.mp member
        rw [joinMembers_inhabited each inTypes (by simpa using valued)]
          at inhabited
        cases inhabited
      rw [eq_of_isPrimitive inhabited, ← joinMembers_filter (types ++ _),
        List.filter_append, none]
      rfl

/-- A union that has `undefined` already does not change by taking it up. -/
theorem joinMembers_undefined
    (member : .undefined ∈ types) :
    arena.joinMembers (types ++ [.undefined]) = arena.joinMembers types := by
  rcases top_or_isMember flat with any | ⟨noAny, unknown⟩ | each
  · rw [joinMembers_any any, joinMembers_any (List.mem_append_left _ any)]
  · rw [joinMembers_unknown noAny unknown,
      joinMembers_unknown (by simpa using noAny)
        (List.mem_append_left _ unknown)]
  · exact joinMembers_absorb each member rfl
      (identicalWithin_self Ty.Tidy.primitive.recognizable .primitive [])

end Undefined

/-- What holds of all nodes of a type still does when it takes up `undefined`. -/
theorem Ty.Every.optional
    {kind : Ty → Prop}
    {type : Ty}
    (every : type.Every kind)
    (union : ∀ members, kind (.ofUnion members))
    (undefined : kind .undefined) :
    type.optional.Every kind := by
  unfold Ty.optional
  split
  · exact every
  · exact .node (union _) (List.forall_mem_append.mpr
      ⟨fun member inMembers => every.member inMembers,
        List.forall_mem_singleton.mpr (.leaf undefined rfl)⟩)

/-- A plain type that takes up `undefined` is plain. -/
theorem Ty.plain_optional
    {type : Ty}
    (plain : type.Every Ty.Plain) :
    type.optional.Every Ty.Plain :=
  plain.optional (fun _ => ⟨rfl, rfl⟩) ⟨rfl, rfl⟩

/-- The members of normal forms of plain types are no unions. -/
theorem flattenUnion_flat
    {members : List Ty}
    (plain : ∀ member ∈ members, member.Every Ty.Plain) :
    ∀ type ∈ flattenUnion (members.map arena.plainForm),
      type.isUnion = false := by
  intro type inFlat
  obtain ⟨form, inForms, inForm⟩ := List.mem_flatMap.mp inFlat
  obtain ⟨member, inMembers, rfl⟩ := List.mem_map.mp inForms
  exact (rebuilt_plainForm (plain member inMembers)).here.flat inForm

/-- A union with `undefined` is the normal form of the others that takes it up. -/
theorem plainForm_union_undefined
    {members : List Ty}
    (plain : ∀ member ∈ members, member.Every Ty.Plain) :
    arena.plainForm (.ofUnion (members ++ [.undefined])) =
      arena.joinMembers
        ((arena.plainForm (.ofUnion members)).members ++ [.undefined]) := by
  rw [Ty.ofUnion, Ty.ofUnion, Arena.plainForm_union, Arena.plainForm_union,
    joinMembers_optional (flattenUnion_flat plain), List.map_append,
    flattenUnion, flattenUnion, List.flatMap_append]
  rfl

/-- The normal form of a type that takes up `undefined`. -/
theorem plainForm_optional
    {type : Ty}
    (plain : type.Every Ty.Plain) :
    arena.plainForm type.optional =
      arena.joinMembers ((arena.plainForm type).members ++ [.undefined]) := by
  unfold Ty.optional
  cases isUnion : type.isUnion with
  | false =>
      rw [Ty.members_eq isUnion]
      split
      · next isUndefined =>
        obtain rfl : type = .undefined :=
          eq_of_isPrimitive (by simpa using isUndefined)
        exact (joinMembers_undefined (List.forall_mem_singleton.mpr rfl)
          (List.mem_singleton_self Ty.undefined)).symm
      · rw [List.singleton_append, Ty.ofUnion, Arena.plainForm_union]
        simp [flattenUnion, Arena.plainForm]
        rfl
  | true =>
  cases type with
  | union occurrence members =>
      have each : ∀ member ∈ members, member.Every Ty.Plain :=
        fun member inMembers => plain.inside inMembers
      have flat := @flattenUnion_flat arena members each
      split
      · next has =>
        obtain ⟨member, inMembers, isUndefined⟩ := List.any_eq_true.mp has
        have present :
            .undefined ∈ flattenUnion (members.map arena.plainForm) := by
          refine List.mem_flatMap.mpr ⟨_, List.mem_map_of_mem inMembers, ?_⟩
          rw [eq_of_isPrimitive isUndefined]
          exact List.mem_singleton_self _
        rw [Arena.plainForm_union, joinMembers_optional flat,
          joinMembers_undefined flat present]
      · exact plainForm_union_undefined each
  | _ => cases isUnion

end Forms

section Normalization

variable {checker : Checker} {keepReferences : Bool}

/-- Normalizing a plain type yields its normal form. -/
theorem normalizeIn_yields
    (plain : type.Every Ty.Plain)
    (depth : Nat) :
    Yields
      (normalizeIn (checker.modeKeeping keepReferences) checker.budget depth
        type)
      (checker.arena.plainForm type) := by
  -- A run is repeated where there is room for the whole type.
  let large : Checker :=
    { checker with
      options :=
        { checker.options with
          maxDepth := checker.options.maxDepth + (depth + type.size) }
      budget := checker.budget + 2 * type.size }
  have widens : Checker.Widens (.bounds 0) checker large :=
    { arena := rfl
      strict := rfl
      deeper := Nat.le_add_right _ _
      equal := nofun
      longer := Nat.le_add_right _ _ }
  have modes :
      NormalMode.Widens (.bounds 0) (checker.modeKeeping keepReferences)
        (large.modeKeeping keepReferences) :=
    { checker := widens
      evaluate := inferInstanceAs
        (Evaluator.Carries (.bounds 0) checker.evaluation.evaluate
          large.evaluation.evaluate)
      reports := inferInstance
      references := rfl }
  have carries :
      Check.Carries (.bounds 0)
        (normalizeIn (checker.modeKeeping keepReferences) checker.budget depth
          type)
        (normalizeIn (large.modeKeeping keepReferences) large.budget depth
          type) :=
    normalizeIn_carries widens.longer
  intro answer added run quiet
  have repeated := (carries.repeats run (.inr quiet)).2
  have roomy :
      normalizeIn (large.modeKeeping keepReferences) large.budget depth type =
        pure (checker.arena.plainForm type) :=
    normalizeIn_plain plain (Nat.le_add_left _ _) (Nat.le_add_left _ _)
  rw [roomy] at repeated
  cases repeated
  exact ⟨rfl, rfl⟩

end Normalization

namespace Arena

/-- Following names from a type leads to one that is no reference. -/
inductive Leads
    (arena : Arena) :
    Ty →
    Ty →
    Prop
  | here
      (written : type.isAbsent = false)
      (notReference : type.isReference = false) :
      Leads arena type type
  | name
      (leads : Leads arena (arena.definition reference) resolved) :
      Leads arena (.named reference) resolved

/--
What a plain type stands for: names are followed, and a union gives way to its
normal form. A normal form that is a name is expanded in turn.
-/
inductive Expands
    (arena : Arena) :
    Ty →
    Ty →
    Prop
  | shape
      (leads : arena.Leads type resolved)
      (whole : resolved.isUnion = false) :
      Expands arena type resolved
  | union
      (leads : arena.Leads type (.union occurrence members))
      (normal :
        (arena.plainForm (.union occurrence members)).isReference = false) :
      Expands arena type (arena.plainForm (.union occurrence members))
  | again
      (leads : arena.Leads type (.union occurrence members))
      (normal :
        arena.plainForm (.union occurrence members) = .named reference)
      (expands : Expands arena (.named reference) expanded) :
      Expands arena type expanded

variable
  {arena : Arena}
  (definitions : ∀ reference, (arena.definition reference).Every Ty.Plain)

/-- Only a name leads to another type. -/
theorem Leads.eq
    (leads : arena.Leads type resolved)
    (notReference : type.isReference = false) :
    resolved = type := by
  cases leads with
  | here => rfl
  | name => cases notReference

/-- No name is left when names were followed. -/
theorem Leads.notReference
    (leads : arena.Leads type resolved) :
    resolved.isReference = false := by
  induction leads with
  | here _ notReference => exact notReference
  | name _ inductionHypothesis => exact inductionHypothesis

/-- What a type stands for is no name. -/
theorem Expands.notReference
    (expands : arena.Expands type expanded) :
    expanded.isReference = false := by
  induction expands with
  | shape leads => exact leads.notReference
  | union _ normal => exact normal
  | again _ _ _ inductionHypothesis => exact inductionHypothesis

/-- A type that is neither a name nor a union stands for itself. -/
theorem Expands.eq
    (expands : arena.Expands type expanded)
    (notReference : type.isReference = false)
    (whole : type.isUnion = false) :
    expanded = type := by
  cases expands with
  | shape leads => exact leads.eq notReference
  | union leads | again leads =>
      rw [← leads.eq notReference] at whole
      cases whole

include definitions in
/-- Over plain definitions plain types lead to plain types. -/
theorem Leads.plain
    (leads : arena.Leads type resolved)
    (plain : type.Every Ty.Plain) :
    resolved.Every Ty.Plain := by
  induction leads with
  | here => exact plain
  | name _ inductionHypothesis => exact inductionHypothesis (definitions _)

include definitions in
/-- Over plain definitions plain types stand for plain types. -/
theorem Expands.plain
    (expands : arena.Expands type expanded)
    (plain : type.Every Ty.Plain) :
    expanded.Every Ty.Plain := by
  induction expands with
  | shape leads => exact leads.plain definitions plain
  | union leads =>
      exact plain_plainForm (leads.plain definitions plain)
  | again leads normal _ inductionHypothesis =>
      have form := @plain_plainForm arena _ (leads.plain definitions plain)
      rw [normal] at form
      exact inductionHypothesis form

end Arena

namespace Checker

variable
  {checker : Checker}
  (definitions :
    ∀ reference, (checker.arena.definition reference).Every Ty.Plain)

/-- Resolving yields what following names leads to. -/
theorem resolveWithin_yields
    (leads : checker.arena.Leads type resolved)
    (remaining depth : Nat) :
    Yields (checker.evaluation.resolveWithin remaining depth type).run
      (.ok resolved) := by
  induction leads generalizing remaining depth with
  | @here type written notReference =>
      cases remaining with
      | zero =>
          unfold Evaluation.resolveWithin
          exact .tooComplex
      | succ remaining =>
          rw [Evaluation.resolveWithin.eq_def]
          cases type with
          | named | generic => cases notReference
          | _ => exact .pure _
  | @name reference resolved leads inductionHypothesis =>
      cases remaining with
      | zero =>
          unfold Evaluation.resolveWithin
          exact .tooComplex
      | succ remaining =>
          unfold Evaluation.resolveWithin
          split
          · next missing =>
            rw [show checker.arena.definition reference = .absent from missing]
              at leads
            cases leads with
            | here written => cases written
          · exact inductionHypothesis remaining (depth + 1)

/-- Without intersections, merging comes to the normal form. -/
theorem normalizeMerged_yields
    (plain : type.Every Ty.Plain)
    (depth : Nat) :
    Yields (checker.evaluation.normalizeMerged depth type)
      (checker.arena.plainForm type) := by
  unfold Evaluation.normalizeMerged
  have normalizes :
      Yields (checker.evaluation.normalizeAt depth type)
        (checker.arena.plainForm type) :=
    @normalizeIn_yields checker false _ plain depth
  refine normalizes.bind ?_ fun normalized => ?_
  · have notMet := (@plain_plainForm checker.arena _ plain).here.notIntersection
    split
    · next same =>
      rw [same] at notMet
      cases notMet
    · exact .pure _
  · split
    · refine (@Appends.ofBind _ _ _ _ _ fun merged => ?_).toOnlyAdds
      cases merged <;> infer_instance
    · infer_instance

/-- A union goes on as its normal form, if that is a name. -/
theorem followMerged_yields
    {follow : Ty → Evaluate Ty}
    (followAppends : ∀ type, Appends (follow type).run)
    (plain : type.Every Ty.Plain)
    (depth : Nat)
    (follows :
      Yields
        (if (checker.arena.plainForm type).isReference then
            follow (checker.arena.plainForm type)
          else
            return checker.arena.plainForm type : Evaluate Ty).run
        (.ok expanded)) :
    Yields
      (ExceptT.run (do
        let merged ← checker.evaluation.normalizeMerged depth type
        if merged.isReference then follow merged else return merged))
      (.ok expanded) := by
  refine Yields.evaluateBind ?_ follows fun merged => ?_
  · exact (normalizeMerged_yields plain depth).lift
  · have := followAppends merged
    split <;> infer_instance

include definitions

/-- Expanding a plain type yields what it stands for. -/
theorem structuralWithin_yields
    (expands : checker.arena.Expands type expanded)
    (plain : type.Every Ty.Plain)
    (remaining depth : Nat) :
    Yields (checker.evaluation.structuralWithin remaining depth type).run
      (.ok expanded) := by
  have resolves {type resolved : Ty} (leads : checker.arena.Leads type resolved)
      (depth : Nat) :=
    resolveWithin_yields leads (checker.evaluation.remainingFrom depth) depth
  induction expands generalizing remaining depth with
  | @shape type resolved leads whole =>
      have ofResolved := (leads.plain definitions plain).here
      cases remaining <;>
      · unfold Evaluation.structuralWithin
        refine (resolves leads depth).evaluateBind ?_ fun resolved => by
          cases resolved <;> (dsimp only; infer_instance)
        cases resolved with
        | union => cases whole
        | intersection => cases ofResolved.notIntersection
        | _ => exact .pure _
  | @union type occurrence members leads normal =>
      have followed
          {follow : Ty → Evaluate Ty}
          (follows : ∀ type, Appends (follow type).run) :=
        followMerged_yields follows (leads.plain definitions plain) (depth + 1)
          (by rw [normal]; exact .pure _)
      cases remaining <;>
      · unfold Evaluation.structuralWithin
        refine (resolves leads depth).evaluateBind
          (followed fun _ => inferInstance) fun resolved => by
            cases resolved <;> (dsimp only; infer_instance)
  | @again type occurrence members reference expanded leads normal _
      inductionHypothesis =>
      have ofUnion := leads.plain definitions plain
      have followed
          {follow : Ty → Evaluate Ty}
          (appends : ∀ type, Appends (follow type).run)
          (follows : Yields (follow (.named reference)).run (.ok expanded)) :=
        followMerged_yields appends ofUnion (depth + 1)
          (by rw [normal]; exact follows)
      have named := @plain_plainForm checker.arena _ ofUnion
      rw [normal] at named
      cases remaining with
      | zero =>
          unfold Evaluation.structuralWithin
          refine (resolves leads depth).evaluateBind
            (followed (fun _ => inferInstance) .exhausted) fun resolved => by
              cases resolved <;> (dsimp only; infer_instance)
      | succ remaining =>
          unfold Evaluation.structuralWithin
          refine (resolves leads depth).evaluateBind
            (followed (fun _ => inferInstance)
              (inductionHypothesis named _ _))
            fun resolved => by
              cases resolved <;> (dsimp only; infer_instance)

/-- Resolving answers with what following names leads to. -/
theorem leads_of_resolveWithin
    (plain : type.Every Ty.Plain)
    (written : type.isAbsent = false)
    (settles :
      Settles (checker.evaluation.resolveWithin remaining depth type).run
        (.ok resolved)) :
    checker.arena.Leads type resolved := by
  induction remaining generalizing depth type with
  | zero =>
      unfold Evaluation.resolveWithin failTooComplex at settles
      obtain ⟨_, _, settles⟩ := settles.of_evaluateOk
      cases settles_pure.mp settles
  | succ remaining inductionHypothesis =>
      cases type with
      | named reference =>
          unfold Evaluation.resolveWithin at settles
          split at settles
          · cases settles_pure.mp settles
          · next defined =>
            refine .name (inductionHypothesis (definitions reference) ?_ settles)
            exact Bool.eq_false_iff.mpr fun missing =>
              defined (Ty.eq_absent missing)
      | generic => cases plain.here.notApplication
      | _ =>
          cases settles_pure.mp settles
          exact .here written rfl

omit definitions in
/-- A union that goes on as its normal form stands for what that does. -/
theorem expands_of_followMerged
    {follow : Ty → Evaluate Ty}
    (followAppends : ∀ type, Appends (follow type).run)
    (leads : checker.arena.Leads type (.union occurrence members))
    (plain : (Ty.union occurrence members).Every Ty.Plain)
    (settles :
      Settles
        (ExceptT.run (do
          let merged ←
            checker.evaluation.normalizeMerged depth (.union occurrence members)
          if merged.isReference then follow merged else return merged))
        (.ok expanded))
    (follows :
      ∀ reference,
        Settles (follow (.named reference)).run (.ok expanded) →
        checker.arena.Expands (.named reference) expanded) :
    checker.arena.Expands type expanded := by
  obtain ⟨merged, merges, settles⟩ := settles.of_evaluateOk
  obtain ⟨_, ⟨⟩, merges⟩ := merges.of_evaluateLift
  cases (normalizeMerged_yields plain depth).eq_of_settles merges
  have form := (@plain_plainForm checker.arena _ plain).here
  split at settles
  · next isReference =>
    cases normal : checker.arena.plainForm (.union occurrence members) with
    | named reference =>
        rw [normal] at settles
        exact .again leads normal (follows reference settles)
    | generic =>
        rw [normal] at form
        cases form.notApplication
    | _ =>
        rw [normal] at isReference
        cases isReference
  · next notReference =>
    cases settles_pure.mp settles
    exact .union leads (by simpa using notReference)

/-- What expanding a plain type answers is what it stands for. -/
theorem expands_of_structural
    (plain : type.Every Ty.Plain)
    (written : type.isAbsent = false)
    (settles : Settles (checker.structural depth type) (.ok expanded)) :
    checker.arena.Expands type expanded := by
  unfold structural Evaluation.structural at settles
  generalize checker.evaluation.remainingFrom depth = remaining at settles
  induction remaining generalizing type depth with
  | zero =>
      unfold Evaluation.structuralWithin at settles
      rcases settles.of_evaluateBind fun resolved => by
          cases resolved <;> (dsimp only; infer_instance) with
        ⟨resolved, resolves, settles⟩ | ⟨_, _, ⟨⟩⟩
      have leads := leads_of_resolveWithin definitions plain written resolves
      have ofResolved := leads.plain definitions plain
      cases resolved with
      | union =>
          exact expands_of_followMerged (fun _ => inferInstance) leads ofResolved
            settles fun _ exhausted => absurd exhausted not_settles_exhausted
      | intersection => cases ofResolved.here.notIntersection
      | _ =>
          cases settles_pure.mp settles
          exact .shape leads rfl
  | succ remaining inductionHypothesis =>
      unfold Evaluation.structuralWithin at settles
      rcases settles.of_evaluateBind fun resolved => by
          cases resolved <;> (dsimp only; infer_instance) with
        ⟨resolved, resolves, settles⟩ | ⟨_, _, ⟨⟩⟩
      have leads := leads_of_resolveWithin definitions plain written resolves
      have ofResolved := leads.plain definitions plain
      cases resolved with
      | union =>
          exact expands_of_followMerged (fun _ => inferInstance) leads ofResolved
            settles fun reference follows =>
              inductionHypothesis (.leaf ⟨rfl, rfl⟩ rfl) rfl follows
      | intersection => cases ofResolved.here.notIntersection
      | _ =>
          cases settles_pure.mp settles
          exact .shape leads rfl

end Checker

end StructuralTyping
