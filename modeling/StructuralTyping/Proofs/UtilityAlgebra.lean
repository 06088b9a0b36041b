import StructuralTyping.Proofs.FlatterRuns
import StructuralTyping.Proofs.MergedBases

namespace StructuralTyping

/-!
# Utilities that work property by property

`Pick`, `Omit`, `Partial`, `Required` and `Readonly` look at their base through
what stands behind it, and each gives an object or a sequence that nothing else
stands behind. So a composition of them depends on the base only through what
stands behind that, whether each utility is applied to the answer of the one
before or all of them are written as nested applications, and reordering two of
them comes down to a fact about shapes.
-/

open Check

/-- A utility that works property by property, with its keys if it takes some. -/
inductive PropertyWise where
  | allOptional
  | allRequired
  | allReadonly
  | pickKeys (keys : Ty)
  | omitKeys (keys : Ty)
  deriving Repr, DecidableEq

/-- A type that nothing else stands behind, as these utilities give them. -/
inductive Ty.Container :
    Ty →
    Prop
  | object :
      Container (.object occurrence shape)
  | array :
      Container (.array occurrence element readonly)
  | tuple :
      Container (.tuple occurrence elements readonly)

/-- Both evaluations give the same type, or both fail in the same way. -/
def SameOutcome :
    Except UtilityError Ty →
    Except UtilityError Ty →
    Prop
  | .ok type, .ok other => type = other
  | .error error, .error other => error.kind = other.kind
  | _, _ => False

namespace SameOutcome

/-- An outcome is the same as itself. -/
theorem refl
    (outcome : Except UtilityError Ty) :
    SameOutcome outcome outcome := by
  cases outcome <;> rfl

theorem symm
    (same : SameOutcome outcome other) :
    SameOutcome other outcome := by
  cases outcome <;> cases other <;> first | exact Eq.symm same | exact same

theorem trans
    (first : SameOutcome outcome between)
    (second : SameOutcome between other) :
    SameOutcome outcome other := by
  cases outcome <;> cases between <;> cases other <;>
    first | exact Eq.trans first second | exact first.elim | exact second.elim

end SameOutcome

/--
Whenever the first evaluation settles, the second one does so with the same
outcome.
-/
def Check.ComesTo
    (first second : Check (Except UtilityError Ty)) :
    Prop :=
  ∀ outcome, Settles first outcome →
    ∃ other, Settles second other ∧ SameOutcome outcome other

namespace Shape

variable {shape : Shape Ty} {change other : Property Ty → Property Ty}

/-- A property of a changed shape is that of the shape, changed. -/
theorem property?_mapProperties
    (keeps : ∀ property, (change property).name = property.name)
    (name : String) :
    (shape.mapProperties change).property? name =
      (shape.property? name).map change := by
  simp only [property?, mapProperties, List.find?_map]
  congr 2
  funext property
  simp [keeps]

/-- Changing the properties that are picked picks the changed properties. -/
theorem pick_mapProperties
    (keeps : ∀ property, (change property).name = property.name)
    (keys : List String) :
    (shape.mapProperties change).pick keys =
      (shape.pick keys).mapProperties change := by
  simp only [pick, mapProperties, List.filter_map]
  congr 3
  funext property
  simp [keeps]

/-- Changing the properties that are left leaves the changed properties. -/
theorem without_mapProperties
    (keeps : ∀ property, (change property).name = property.name)
    (keys : List String) :
    (shape.mapProperties change).without keys =
      (shape.without keys).mapProperties change := by
  simp only [without, mapProperties, List.filter_map]
  congr 3
  funext property
  simp [keeps]

/-- Two changes of all properties are one change of all of them. -/
theorem mapProperties_mapProperties :
    (shape.mapProperties change).mapProperties other =
      shape.mapProperties fun property => other (change property) := by
  simp [mapProperties]

end Shape

namespace PropertyWise

/-- The application of a utility to a base. -/
def application
    (base : Ty) :
    PropertyWise →
    Application Ty
  | allOptional =>
      { utility := Utility.allOptional.name, base, arguments := [] }
  | allRequired =>
      { utility := Utility.allRequired.name, base, arguments := [] }
  | allReadonly =>
      { utility := Utility.allReadonly.name, base, arguments := [] }
  | pickKeys keys =>
      { utility := Utility.pickKeys.name, base, arguments := [keys] }
  | omitKeys keys =>
      { utility := Utility.omitKeys.name, base, arguments := [keys] }

/-- One application around the other, the first utility innermost. -/
def nested
    (steps : List PropertyWise)
    (base : Ty) :
    Ty :=
  steps.foldl (fun type step => .generic none (step.application type)) base

/-- The last utility is the outermost. -/
theorem nested_concat
    (init : List PropertyWise)
    (last : PropertyWise)
    (base : Ty) :
    nested (init ++ [last]) base =
      .generic none (last.application (nested init base)) := by
  unfold nested
  rw [List.foldl_concat]

/-- The texts that the keys of a utility consist of. -/
def readKeys
    (evaluation : Evaluation) :
    PropertyWise →
    Evaluate (List Text.RawText)
  | pickKeys keys => evaluation.keySet Utility.pickKeys.name keys
  | omitKeys keys => evaluation.keySet Utility.omitKeys.name keys
  | _ => return []

/-- What a utility makes of each property that it keeps. -/
def change :
    PropertyWise →
    Property Ty →
    Property Ty
  | allOptional, property => { property with optional := true }
  | allRequired, property => { property with optional := false }
  | allReadonly, property => { property with readonly := true }
  | _, property => property

/-- What a utility makes of an object, given what reading its keys came to. -/
def ofShape
    (keys : Except UtilityError (List Text.RawText))
    (shape : Shape Ty)
    (step : PropertyWise) :
    Except UtilityError Ty :=
  match step with
  | pickKeys _ =>
      keys.bind fun keys =>
        match keys.find? fun key =>
          (key.string?.bind shape.property?).isNone with
        | some key =>
            .error
              { utility := Utility.pickKeys.name
                cause := .unknownKey key (.ofShape shape) }
        | none =>
            .ok (.ofShape (shape.pick (keys.filterMap Text.RawText.string?)))
  | omitKeys _ =>
      keys.bind fun keys =>
        .ok (.ofShape (shape.without (keys.filterMap Text.RawText.string?)))
  | step => .ok (.ofShape (shape.mapProperties step.change))

/-- What a utility makes of what stands behind its base. -/
def ofBehind
    (keys : Except UtilityError (List Text.RawText))
    (base behind : Ty)
    (step : PropertyWise) :
    Except UtilityError Ty :=
  match behind, step with
  | .object _ shape, step => step.ofShape keys shape
  | .array _ element _, allReadonly => .ok (.array none element true)
  | .tuple _ elements _, allReadonly => .ok (.tuple none elements true)
  | _, allReadonly =>
      .error
        { utility := Utility.allReadonly.name, cause := .notContainer base }
  | _, step =>
      .error
        { utility := (step.application base).utility, cause := .notObject base }

/-- The base a utility is applied to only matters to the wording of failures. -/
theorem ofBehind_congr
    {read : Except UtilityError (List Text.RawText)}
    {step : PropertyWise} :
    SameOutcome
      (step.ofBehind read base behind) (step.ofBehind read other behind) := by
  cases behind <;> cases step <;> first | exact .refl _ | rfl

/-- What utilities make of what stands behind the base of the first of them. -/
def composed
    (keys : PropertyWise → Except UtilityError (List Text.RawText)) :
    List PropertyWise →
    (base behind : Ty) →
    Except UtilityError Ty
  | [], base, _ => .ok base
  | step :: rest, base, behind =>
      (step.ofBehind (keys step) base behind).bind fun type =>
        composed keys rest type type

/-- Whether a utility selects properties by keys. -/
def takesKeys :
    PropertyWise →
    Bool
  | pickKeys _ => true
  | omitKeys _ => true
  | _ => false

/--
The compositions that may replace each other, the first utility being applied
first.
-/
inductive Interchange :
    List PropertyWise →
    List PropertyWise →
    Prop
  | readonlyOptional :
      Interchange [allOptional, allReadonly] [allReadonly, allOptional]
  | readonlyRequired :
      Interchange [allRequired, allReadonly] [allReadonly, allRequired]
  | optionalAgain :
      Interchange [allRequired, allOptional] [allOptional]
  | requiredAgain :
      Interchange [allOptional, allRequired] [allRequired]
  | selection :
      mapping.takesKeys = false →
      selecting.takesKeys = true →
      Interchange [mapping, selecting] [selecting, mapping]

/-- Compositions that may replace each other apply something. -/
theorem Interchange.notNil
    {first second : List PropertyWise}
    (interchange : Interchange first second) :
    first ≠ [] ∧ second ≠ [] := by
  cases interchange <;> exact ⟨nofun, nofun⟩

variable
  {keys : PropertyWise → Except UtilityError (List Text.RawText)}
  {step : PropertyWise} {base behind : Ty}

/-- A utility gives types that nothing else stands behind. -/
theorem ofBehind_container
    {read : Except UtilityError (List Text.RawText)}
    (found : step.ofBehind read base behind = .ok type) :
    type.Container := by
  cases behind with
  | object occurrence shape =>
      cases step with
      | pickKeys =>
          cases read with
          | error => cases found
          | ok texts =>
              dsimp only [ofBehind, ofShape, Except.bind] at found
              split at found
              · cases found
              · cases found
                exact .object
      | omitKeys =>
          cases read with
          | error => cases found
          | ok =>
              cases found
              exact .object
      | _ =>
          cases found
          exact .object
  | array =>
      cases step <;> cases found
      exact .array
  | tuple =>
      cases step <;> cases found
      exact .tuple
  | _ => cases step <;> cases found

/-- No utility changes the name of a property. -/
theorem change_name
    (property : Property Ty) :
    (step.change property).name = property.name := by
  cases step <;> rfl

/-- A utility without keys changes the properties of an object in place. -/
theorem ofShape_mapping
    (maps : step.takesKeys = false)
    (read : Except UtilityError (List Text.RawText))
    (shape : Shape Ty) :
    step.ofShape read shape =
      .ok (.ofShape (shape.mapProperties step.change)) := by
  cases step <;> first | rfl | cases maps

/-- Selecting from changed properties gives the selected ones, changed. -/
theorem ofShape_selecting
    (selects : step.takesKeys = true)
    (read : Except UtilityError (List Text.RawText))
    (shape : Shape Ty)
    (mapping : PropertyWise) :
    (∃ error other : UtilityError,
      error.kind = other.kind ∧
        step.ofShape read (shape.mapProperties mapping.change) = .error error ∧
        step.ofShape read shape = .error other) ∨
      ∃ selected : Shape Ty,
        step.ofShape read (shape.mapProperties mapping.change) =
            .ok (.ofShape (selected.mapProperties mapping.change)) ∧
          step.ofShape read shape = .ok (.ofShape selected) := by
  have keeps : ∀ property, (mapping.change property).name = property.name :=
    change_name
  cases read with
  | error error =>
      refine .inl ⟨error, error, rfl, ?_⟩
      cases step with
      | pickKeys => exact ⟨rfl, rfl⟩
      | omitKeys => exact ⟨rfl, rfl⟩
      | _ => cases selects
  | ok texts =>
      cases step with
      | pickKeys =>
          have sameKnown (key : Text.RawText) :
              (key.string?.bind
                  (shape.mapProperties mapping.change).property?).isNone =
                (key.string?.bind shape.property?).isNone := by
            cases key.string? <;> simp [Shape.property?_mapProperties keeps]
          simp only [ofShape, Except.bind, sameKnown]
          cases texts.find? fun key =>
              (key.string?.bind shape.property?).isNone with
          | some key =>
              refine .inl ⟨_, _, ?_, rfl, rfl⟩
              rfl
          | none =>
              rw [Shape.pick_mapProperties keeps]
              exact .inr ⟨_, rfl, rfl⟩
      | omitKeys =>
          simp only [ofShape, Except.bind]
          rw [Shape.without_mapProperties keeps]
          exact .inr ⟨_, rfl, rfl⟩
      | _ => cases selects

/-- Whether properties are changed before or after some are selected. -/
theorem composed_selection
    (maps : step.takesKeys = false)
    (selects : selecting.takesKeys = true) :
    SameOutcome
      (composed keys [step, selecting] base behind)
      (composed keys [selecting, step] base behind) := by
  cases behind with
  | object occurrence shape =>
      rcases ofShape_selecting selects (keys selecting) shape step with
        ⟨error, other, same, after, before⟩ | ⟨selected, after, before⟩
      · simpa [composed, ofBehind, ofShape_mapping maps, Except.bind, Ty.ofShape,
          after, before, SameOutcome] using same
      · simp [composed, ofBehind, ofShape_mapping maps, Except.bind, Ty.ofShape,
          after, before, SameOutcome]
  | _ =>
      cases selecting with
      | pickKeys => cases step <;> rfl
      | omitKeys => cases step <;> rfl
      | _ => cases selects

/-- Compositions that may replace each other make the same of every type. -/
theorem Interchange.composed
    {first second : List PropertyWise}
    (interchange : Interchange first second)
    (keys : PropertyWise → Except UtilityError (List Text.RawText))
    (behind : Ty) :
    SameOutcome
      (composed keys first base behind)
      (composed keys second base behind) := by
  cases interchange with
  | selection maps selects => exact composed_selection maps selects
  | _ =>
      cases behind with
      | object occurrence shape =>
          simp only [PropertyWise.composed, ofBehind, ofShape, Except.bind,
            Ty.ofShape, SameOutcome, Shape.mapProperties_mapProperties]
          rfl
      | _ => rfl

end PropertyWise

/-- Visiting a list reports nothing when no visit to an item does. -/
theorem exists_mapM_eq_pure
    {visit : α → Evaluate β}
    (each : ∀ item, ∃ outcome, (visit item).run = pure outcome)
    (items : List α) :
    ∃ outcome, (items.mapM visit).run = pure outcome := by
  induction items with
  | nil => exact ⟨.ok [], rfl⟩
  | cons item rest inductionHypothesis =>
      obtain ⟨first, head⟩ := each item
      obtain ⟨others, tail⟩ := inductionHypothesis
      rw [List.mapM_cons, ExceptT.run_bind, head, pure_bind]
      cases first with
      | error error => exact ⟨.error error, rfl⟩
      | ok value =>
          dsimp only
          rw [ExceptT.run_bind, tail, pure_bind]
          cases others with
          | error error => exact ⟨.error error, rfl⟩
          | ok values => exact ⟨.ok (value :: values), rfl⟩

/-- A sequence of two evaluations stops at a failure of the first one. -/
theorem settles_evaluateBind
    {first : Evaluate α}
    {next : α → Evaluate β}
    [nexts : ∀ value, Appends (next value).run] :
    Settles (first >>= next).run outcome ↔
      (∃ value, Settles first.run (.ok value) ∧ Settles (next value).run outcome) ∨
        ∃ error, Settles first.run (.error error) ∧ outcome = .error error := by
  have appends (result : Except UtilityError α) :
      OnlyAdds
        (match result with
        | .ok value => (next value).run
        | .error error => pure (.error error)) := by
    cases result <;> (dsimp only; exact Appends.toOnlyAdds)
  have sequence :
      (first >>= next).run =
        first.run >>= fun result =>
          match result with
          | .ok value => (next value).run
          | .error error => pure (.error error) := by
    rw [ExceptT.run_bind]
    congr 1
    funext result
    cases result <;> rfl
  rw [sequence]
  constructor
  · intro settles
    obtain ⟨result, head, tail⟩ := settles_bind.mp settles
    cases result with
    | ok value => exact .inl ⟨value, head, tail⟩
    | error error => exact .inr ⟨error, head, settles_pure.mp tail⟩
  · rintro (⟨value, head, tail⟩ | ⟨error, head, rfl⟩)
    · exact settles_bind.mpr ⟨_, head, tail⟩
    · exact settles_bind.mpr ⟨_, head, settles_pure.mpr rfl⟩

namespace Evaluation

/-- A key set is read without a report, from the arena alone. -/
theorem exists_keySet_eq_pure
    (arena : Arena)
    (utility : String)
    (keys : Ty) :
    ∃ outcome,
      ∀ evaluation : Evaluation, evaluation.checker.arena = arena →
        (evaluation.keySet utility keys).run = pure outcome := by
  have each (key : Ty) : ∃ outcome, (keyOf utility key).run = pure outcome := by
    unfold keyOf
    split
    · exact ⟨.ok _, rfl⟩
    · exact ⟨.error _, rfl⟩
  have written (keys : Ty) :
      ∃ outcome, (keys.members.mapM (keyOf utility)).run = pure outcome :=
    exists_mapM_eq_pure each keys.members
  by_cases never : keys.isNever
  · refine ⟨.ok [], fun evaluation _ => ?_⟩
    unfold keySet
    rw [if_pos never]
    rfl
  cases keys with
  | named reference =>
      cases resolves :
          arena.resolve (.named reference) Arena.defaultHops with
      | resolved keys =>
          obtain ⟨outcome, reads⟩ := written keys
          refine ⟨outcome, fun evaluation same => ?_⟩
          unfold keySet
          rw [if_neg never, same]
          simpa only [resolves] using reads
      | unresolved =>
          refine
            ⟨.error { utility, cause := .unresolvedKeySet reference },
              fun evaluation same => ?_⟩
          unfold keySet
          rw [if_neg never, same]
          simp only [resolves]
          rfl
  | _ =>
      obtain ⟨outcome, reads⟩ := written _
      refine ⟨outcome, fun evaluation _ => ?_⟩
      unfold keySet
      rw [if_neg never]
      exact reads

/-- The keys of a utility are read without a report, from the arena alone. -/
theorem exists_readKeys_eq_pure
    (arena : Arena)
    (step : PropertyWise) :
    ∃ outcome,
      ∀ evaluation : Evaluation, evaluation.checker.arena = arena →
        (step.readKeys evaluation).run = pure outcome := by
  cases step with
  | pickKeys keys => exact exists_keySet_eq_pure arena _ keys
  | omitKeys keys => exact exists_keySet_eq_pure arena _ keys
  | _ => exact ⟨.ok [], fun _ _ => rfl⟩

variable {evaluation : Evaluation} {step : PropertyWise} {base : Ty}

/-- The object behind a base, if there is one. -/
theorem objectBase_run
    (utility : String)
    (depth : Nat) :
    (evaluation.objectBase utility depth base).run =
      (evaluation.structural (depth + 1) base).run >>= fun behind =>
        pure
          (behind.bind fun type =>
            match type with
            | .object _ shape => .ok shape
            | _ => .error { utility, cause := .notObject base }) := by
  unfold objectBase
  rw [ExceptT.run_bind]
  congr 1
  funext behind
  cases behind with
  | error => rfl
  | ok type => cases type <;> rfl

/-- The object behind a base together with the keys of a utility. -/
theorem keyedBase_run
    {texts : Except UtilityError (List Text.RawText)}
    (reads : (evaluation.keySet utility keys).run = pure texts)
    (depth : Nat) :
    (evaluation.keyedBase { utility, base, arguments := [keys] } depth).run =
      (evaluation.structural (depth + 1) base).run >>= fun behind =>
        pure
          (behind.bind fun type =>
            match type with
            | .object _ shape => texts.map fun texts => (shape, texts)
            | _ => .error { utility, cause := .notObject base }) := by
  unfold keyedBase
  dsimp only
  rw [ExceptT.run_bind, objectBase_run, bind_assoc]
  congr 1
  funext behind
  cases behind with
  | error => rfl
  | ok type =>
      cases type with
      | object occurrence shape =>
          dsimp only [Except.bind]
          rw [pure_bind]
          dsimp only
          rw [ExceptT.run_bind, reads, pure_bind]
          cases texts <;> rfl
      | _ => rfl

/--
A utility looks at its base through what stands behind it, and the rest is up to
the utility.
-/
theorem apply_propertyWise
    {keys : Except UtilityError (List Text.RawText)}
    (reads : (step.readKeys evaluation).run = pure keys)
    (written : base.isAbsent = false)
    (within : depth ≤ evaluation.checker.options.maxDepth) :
    (evaluation.apply (step.application base) depth).run =
      (evaluation.structural (depth + 1) base).run >>= fun behind =>
        pure (behind.bind fun type => step.ofBehind keys base type) := by
  have notBeyond : ¬ evaluation.checker.options.maxDepth < depth :=
    Nat.not_lt.mpr within
  cases step with
  | pickKeys wanted =>
      simp only [apply, PropertyWise.application, written, Bool.false_eq_true,
        if_false, if_neg notBeyond, Utility.ofName?_name]
      unfold applyPick
      rw [ExceptT.run_bind, keyedBase_run reads, bind_assoc]
      congr 1
      funext behind
      cases behind with
      | error => rfl
      | ok type =>
          cases type with
          | object occurrence shape =>
              cases keys with
              | error => rfl
              | ok texts =>
                  dsimp only [PropertyWise.ofBehind, PropertyWise.ofShape,
                    Except.bind, Except.map]
                  rw [pure_bind]
                  dsimp only
                  cases texts.find? fun key =>
                    (key.string?.bind shape.property?).isNone <;> rfl
          | _ => rfl
  | omitKeys wanted =>
      simp only [apply, PropertyWise.application, written, Bool.false_eq_true,
        if_false, if_neg notBeyond, Utility.ofName?_name]
      unfold applyOmit
      rw [ExceptT.run_bind, keyedBase_run reads, bind_assoc]
      congr 1
      funext behind
      cases behind with
      | error => rfl
      | ok type => cases type <;> cases keys <;> rfl
  | allReadonly =>
      simp only [apply, PropertyWise.application, written, Bool.false_eq_true,
        if_false, if_neg notBeyond, Utility.ofName?_name]
      unfold applyReadonly
      change (evaluation.structural (depth + 1) base >>= _).run = _
      rw [ExceptT.run_bind]
      congr 1
      funext behind
      cases behind with
      | error => rfl
      | ok type => cases type <;> rfl
  | _ =>
      simp only [apply, PropertyWise.application, written, Bool.false_eq_true,
        if_false, if_neg notBeyond, Utility.ofName?_name]
      unfold applyOptional
      change (evaluation.objectBase _ depth base >>= _).run = _
      rw [ExceptT.run_bind, objectBase_run, bind_assoc]
      congr 1
      funext behind
      cases behind with
      | error => rfl
      | ok type => cases type <;> rfl

/-- References are followed first, and that is all for objects and sequences. -/
theorem settles_resolve
    [evaluation.evaluate.Reports]
    {type : Ty}
    (settles : Settles (evaluation.structural depth type).run outcome) :
    ∃ found,
      Settles (evaluation.resolve depth type).run found ∧
        (∀ error, found = .error error → outcome = .error error) ∧
        ∀ type : Ty, type.Container → found = .ok type → outcome = .ok type := by
  unfold structural at settles
  generalize evaluation.remainingFrom depth = remaining at settles
  unfold structuralWithin at settles
  rcases settles.of_evaluateBind fun resolved => by
      cases remaining <;> cases resolved <;> (dsimp only; infer_instance) with
    ⟨resolved, resolves, settles⟩ | ⟨error, resolves, failed⟩
  · refine ⟨_, resolves, nofun, ?_⟩
    rintro type container ⟨⟩
    cases container <;> exact settles_pure.mp settles
  · exact ⟨_, resolves, fun _ same => failed.trans same, nofun⟩

/-- What stands behind a type is not settled beyond the depth bound. -/
theorem depth_le_of_structural
    [evaluation.evaluate.Reports]
    {type : Ty}
    (settles : Settles (evaluation.structural depth type).run outcome) :
    depth ≤ evaluation.checker.options.maxDepth := by
  by_contra beyond
  have none : evaluation.remainingFrom depth = 0 := by
    unfold remainingFrom
    omega
  obtain ⟨found, resolves, _⟩ := settles_resolve settles
  unfold resolve at resolves
  rw [none] at resolves
  exact not_settles_exceeded resolves

/-- Nothing else stands behind an object or a sequence. -/
theorem structural_container
    {type : Ty}
    (container : type.Container)
    (within : depth ≤ evaluation.checker.options.maxDepth) :
    (evaluation.structural depth type).run = pure (.ok type) := by
  have some : evaluation.remainingFrom depth =
      evaluation.checker.options.maxDepth - depth + 1 := by
    unfold remainingFrom
    omega
  unfold structural structuralWithin resolve
  rw [some]
  cases container <;> rfl

end Evaluation

namespace Checker

variable {checker : Checker} {less : Nat} {base : Ty}

/-- Apply utilities one after the other, each to what the one before gives. -/
def applyAll
    (checker : Checker)
    (steps : List PropertyWise)
    (base : Ty) :
    Evaluate Ty :=
  steps.foldlM
    (fun type step => ExceptT.mk (checker.applyUtility (step.application type)))
    base

/-- Reporting a failure exceeds no depth. -/
theorem settles_reportFailure
    (error : UtilityError) :
    Settles (reportFailure error) () := by
  unfold reportFailure
  split
  · exact settles_pure.mpr rfl
  · next other =>
    refine ⟨_, rfl, fun diagnostic member => ?_⟩
    cases List.mem_singleton.mp member
    cases kind : error.kind <;> simp_all [UtilityErrorKind.code]

/-- Applying a utility from outside settles exactly as its application does. -/
theorem settles_applyUtility_iff
    (budget : checker.budget = less + 1) :
    Settles (checker.applyUtility application) outcome ↔
      Settles ((checker.evaluationWithin less).apply application 0).run
        outcome := by
  have below :
      checker.evaluation.evaluate application 0 =
        (checker.evaluationWithin less).apply application 0 := by
    change checker.evaluateWithin checker.budget application 0 = _
    rw [budget]
    rfl
  unfold applyUtility
  rw [below]
  refine (@settles_bind _ _ _ _ (fun result => ?_) outcome).trans ?_
  · cases result <;> (dsimp only; exact Appends.toOnlyAdds)
  constructor
  · rintro ⟨result, evaluates, settles⟩
    cases result with
    | ok =>
        cases settles_pure.mp settles
        exact evaluates
    | error =>
        obtain ⟨_, _, settles⟩ := settles_bind.mp settles
        cases settles_pure.mp settles
        exact evaluates
  · intro evaluates
    refine ⟨outcome, evaluates, ?_⟩
    cases outcome with
    | ok => exact settles_pure.mpr rfl
    | error error =>
        exact settles_bind.mpr
          ⟨(), settles_reportFailure error, settles_pure.mpr rfl⟩

/-- Applying a utility to a base that was left out fails. -/
theorem settles_application_absent
    (budget : checker.budget = less + 1)
    (step : PropertyWise)
    (missing : base.isAbsent = true) :
    Settles (checker.applyUtility (step.application base)) outcome ↔
      outcome =
        .error
          { utility := (step.application base).utility
            cause := .missingBase } := by
  have isBase : (step.application base).base = base := by cases step <;> rfl
  rw [settles_applyUtility_iff budget]
  unfold Evaluation.apply
  rw [isBase, if_pos missing]
  exact settles_pure

/-- A utility that works property by property looks behind its base once. -/
theorem settles_application
    (budget : checker.budget = less + 1)
    {step : PropertyWise}
    {keys : Except UtilityError (List Text.RawText)}
    (reads :
      (step.readKeys (checker.evaluationWithin less)).run = pure keys)
    (written : base.isAbsent = false) :
    Settles (checker.applyUtility (step.application base)) outcome ↔
      ∃ behind,
        Settles ((checker.evaluationWithin less).structural 1 base).run behind ∧
          outcome = behind.bind fun type => step.ofBehind keys base type := by
  rw [settles_applyUtility_iff budget,
    Evaluation.apply_propertyWise reads written (Nat.zero_le _), settles_bind]
  simp only [settles_pure]

/-- Applying utilities one after the other only adds to the log. -/
instance applyAll_appends
    (steps : List PropertyWise)
    (base : Ty) :
    Appends (checker.applyAll steps base).run := by
  unfold applyAll
  induction steps generalizing base with
  | nil => exact Appends.ofPure (Except.ok base)
  | cons step rest inductionHypothesis =>
      rw [List.foldlM_cons]
      have first :
          Appends
            (ExceptT.mk (checker.applyUtility (step.application base))).run :=
        inferInstanceAs (Appends (checker.applyUtility (step.application base)))
      infer_instance

/-- Without budget, nothing is applied. -/
theorem not_settles_applyUtility
    (budget : checker.budget = 0) :
    ¬ Settles (checker.applyUtility application) outcome := by
  rintro ⟨added, run, _⟩
  obtain ⟨result, evaluates, _⟩ := Except.bind_eq_ok.mp run
  change (checker.evaluateWithin checker.budget application 0).run [] = _
    at evaluates
  rw [budget] at evaluates
  cases evaluates

/-- The first utility is applied, and the others to what it gives. -/
theorem settles_applyAll_cons
    {step : PropertyWise}
    {rest : List PropertyWise} :
    Settles (checker.applyAll (step :: rest) base).run outcome ↔
      (∃ type,
        Settles (checker.applyUtility (step.application base)) (.ok type) ∧
          Settles (checker.applyAll rest type).run outcome) ∨
        ∃ error,
          Settles (checker.applyUtility (step.application base))
              (.error error) ∧
            outcome = .error error := by
  have sequence :
      checker.applyAll (step :: rest) base =
        ExceptT.mk (checker.applyUtility (step.application base)) >>= fun type =>
          checker.applyAll rest type := by
    unfold applyAll
    rw [List.foldlM_cons]
  rw [sequence]
  exact settles_evaluateBind

/-- The last utility is applied to what the others give. -/
theorem settles_applyAll_concat
    {init : List PropertyWise}
    {last : PropertyWise} :
    Settles (checker.applyAll (init ++ [last]) base).run outcome ↔
      (∃ type,
        Settles (checker.applyAll init base).run (.ok type) ∧
          Settles (checker.applyUtility (last.application type)) outcome) ∨
        ∃ error,
          Settles (checker.applyAll init base).run (.error error) ∧
            outcome = .error error := by
  have sequence :
      checker.applyAll (init ++ [last]) base =
        checker.applyAll init base >>= fun type =>
          ExceptT.mk (checker.applyUtility (last.application type)) := by
    unfold applyAll
    simp only [List.foldlM_append, List.foldlM_cons, List.foldlM_nil, bind_pure]
  have appends (type : Ty) :
      Appends
        (ExceptT.mk (checker.applyUtility (last.application type))).run :=
    inferInstanceAs (Appends (checker.applyUtility (last.application type)))
  rw [sequence]
  exact settles_evaluateBind

/-- A single utility is applied to the base. -/
theorem settles_applyAll_single
    {step : PropertyWise} :
    Settles (checker.applyAll [step] base).run outcome ↔
      Settles (checker.applyUtility (step.application base)) outcome := by
  unfold applyAll
  rw [List.foldlM_cons]
  simp only [List.foldlM_nil, bind_pure]
  rfl

section Composition

variable
  {keys : PropertyWise → Except UtilityError (List Text.RawText)}
  (budget : checker.budget = less + 1)
  (reads :
    ∀ within (step : PropertyWise),
      (step.readKeys (checker.evaluationWithin within)).run = pure (keys step))
include budget reads

/--
A composition looks behind its base once, if the rest of it does so behind what
the first utility gives.
-/
theorem settles_applyAll_first
    {step : PropertyWise}
    {rest : List PropertyWise}
    (tail :
      ∀ type : Ty, type.Container → 1 ≤ checker.options.maxDepth →
        (Settles (checker.applyAll rest type).run outcome ↔
          outcome = PropertyWise.composed keys rest type type))
    (written : base.isAbsent = false) :
    Settles (checker.applyAll (step :: rest) base).run outcome ↔
      ∃ behind,
        Settles ((checker.evaluationWithin less).structural 1 base).run behind ∧
          outcome =
            behind.bind fun type =>
              PropertyWise.composed keys (step :: rest) base type := by
  simp only [settles_applyAll_cons,
    settles_application budget (reads less step) written]
  constructor
  · rintro (⟨type, ⟨behind, found, same⟩, settles⟩ |
      ⟨error, ⟨behind, found, same⟩, rfl⟩)
    · refine ⟨behind, found, ?_⟩
      cases behind with
      | error => cases same
      | ok behind =>
          have within := Evaluation.depth_le_of_structural found
          have container := PropertyWise.ofBehind_container same.symm
          rw [(tail type container within).mp settles]
          simp only [Except.bind] at same
          simp only [Except.bind, PropertyWise.composed, ← same]
    · refine ⟨behind, found, ?_⟩
      cases behind with
      | error => exact same
      | ok behind =>
          simp only [Except.bind] at same
          simp only [Except.bind, PropertyWise.composed, ← same]
  · rintro ⟨behind, found, rfl⟩
    cases behind with
    | error error => exact .inr ⟨error, ⟨_, found, rfl⟩, rfl⟩
    | ok behind =>
        have within := Evaluation.depth_le_of_structural found
        cases first : step.ofBehind (keys step) base behind with
        | error error =>
            refine .inr ⟨error, ⟨_, found, first.symm⟩, ?_⟩
            simp only [Except.bind, PropertyWise.composed, first]
        | ok type =>
            refine .inl ⟨type, ⟨_, found, first.symm⟩, ?_⟩
            refine (tail type (PropertyWise.ofBehind_container first)
              within).mpr ?_
            simp only [Except.bind, PropertyWise.composed, first]

/-- A composition looks behind its base once, and the rest is up to the utilities. -/
theorem settles_applyAll
    {step : PropertyWise}
    {rest : List PropertyWise}
    (written : base.isAbsent = false) :
    Settles (checker.applyAll (step :: rest) base).run outcome ↔
      ∃ behind,
        Settles ((checker.evaluationWithin less).structural 1 base).run behind ∧
          outcome =
            behind.bind fun type =>
              PropertyWise.composed keys (step :: rest) base type := by
  induction rest generalizing step base with
  | nil =>
      refine settles_applyAll_first budget reads (fun type _ _ => ?_) written
      exact settles_pure
  | cons next rest inductionHypothesis =>
      refine settles_applyAll_first budget reads (fun type container within => ?_)
        written
      have writtenType : type.isAbsent = false := by cases container <;> rfl
      have alone :
          ((checker.evaluationWithin less).structural 1 type).run =
            pure (.ok type) :=
        Evaluation.structural_container container within
      rw [inductionHypothesis writtenType, alone]
      simp [Except.bind]

omit budget in
/--
An application is evaluated by looking behind its base, unless the base was left
out.
-/
theorem settles_evaluateWithin
    {step : PropertyWise}
    (settles :
      Settles
        (checker.evaluateWithin more (step.application base) depth).run outcome) :
    ∃ fewer,
      more = fewer + 1 ∧
        ((base.isAbsent = true ∧
            outcome =
              .error
                { utility := (step.application base).utility
                  cause := .missingBase }) ∨
          base.isAbsent = false ∧
            ∃ behind,
              Settles
                  ((checker.evaluationWithin fewer).structural (depth + 1)
                    base).run
                  behind ∧
                outcome =
                  behind.bind fun type =>
                    step.ofBehind (keys step) base type) := by
  have isBase : (step.application base).base = base := by cases step <;> rfl
  cases more with
  | zero =>
      obtain ⟨_, run, _⟩ := settles
      cases run
  | succ fewer =>
      refine ⟨fewer, rfl, ?_⟩
      change
        Settles
          ((checker.evaluationWithin fewer).apply (step.application base)
            depth).run
          outcome at settles
      cases written : base.isAbsent with
      | true =>
          unfold Evaluation.apply at settles
          rw [isBase, if_pos written] at settles
          exact .inl ⟨rfl, settles_pure.mp settles⟩
      | false =>
          have within :
              depth ≤ (checker.evaluationWithin fewer).checker.options.maxDepth := by
            by_contra beyond
            unfold Evaluation.apply at settles
            rw [isBase, written, if_neg Bool.false_ne_true,
              if_pos (Nat.lt_of_not_le beyond)] at settles
            exact Evaluation.not_settles_exceeded settles
          rw [Evaluation.apply_propertyWise (reads fewer step) written within]
            at settles
          obtain ⟨behind, found, same⟩ := settles_bind.mp settles
          exact .inr ⟨rfl, behind, found, settles_pure.mp same⟩

omit budget reads in
/-- What a utility gives is what stands behind its application. -/
theorem settles_structural_generic
    (container :
      ∀ type,
        Settles (checker.evaluateWithin more application (depth + 1)).run
          (.ok type) →
        type.Container)
    (settles :
      Settles
        ((checker.evaluationWithin more).structural depth
          (.generic occurrence application)).run
        outcome) :
    Settles (checker.evaluateWithin more application (depth + 1)).run outcome := by
  obtain ⟨found, resolves, failed, kept⟩ := Evaluation.settles_resolve settles
  unfold Evaluation.resolve at resolves
  cases remaining : (checker.evaluationWithin more).remainingFrom depth with
  | zero =>
      rw [remaining] at resolves
      exact absurd resolves Evaluation.not_settles_exceeded
  | succ left =>
      rw [remaining] at resolves
      unfold Evaluation.resolveWithin at resolves
      rcases settles_evaluateBind.mp resolves with
        ⟨type, applies, follows⟩ | ⟨error, applies, rfl⟩
      · have alone := container type applies
        cases left with
        | zero =>
            unfold Evaluation.resolveWithin at follows
            exact absurd follows Evaluation.not_settles_exceeded
        | succ =>
            have same : found = .ok type := by
              cases alone <;> exact settles_pure.mp follows
            rw [kept type alone same]
            exact applies
      · rw [failed error rfl]
        exact applies

omit budget in
/-- An application is evaluated to a type that nothing else stands behind. -/
theorem evaluateWithin_container
    {step : PropertyWise}
    (settles :
      Settles
        (checker.evaluateWithin more (step.application base) depth).run
        (.ok type)) :
    type.Container := by
  obtain ⟨_, _, ⟨_, same⟩ | ⟨_, behind, _, same⟩⟩ :=
    settles_evaluateWithin reads settles
  · cases same
  · cases behind with
    | error => cases same
    | ok => exact PropertyWise.ofBehind_container same.symm

/-- Utilities are evaluated in one nested application as they are one by one. -/
theorem settles_evaluateNested
    {init : List PropertyWise}
    {last : PropertyWise}
    (below : more ≤ less + 1)
    (settles :
      Settles
        (checker.evaluateWithin more
          (last.application (PropertyWise.nested init base)) depth).run
        outcome) :
    ∃ other,
      Settles (checker.applyAll (init ++ [last]) base).run other ∧
        SameOutcome outcome other := by
  induction init using List.reverseRecOn generalizing last more depth outcome with
  | nil =>
      refine ⟨outcome, ?_, .refl outcome⟩
      rw [List.nil_append, settles_applyAll_single]
      obtain ⟨fewer, rfl, ⟨missing, rfl⟩ | ⟨written, behind, found, rfl⟩⟩ :=
        settles_evaluateWithin reads settles
      · exact (settles_application_absent budget last missing).mpr rfl
      · refine (settles_application budget (reads less last) written).mpr
          ⟨behind, ?_, rfl⟩
        exact settles_structural_flatter (Nat.le_of_succ_le_succ below)
          (Nat.le_add_left 1 depth) found
  | append_singleton init between inductionHypothesis =>
      obtain ⟨fewer, rfl, ⟨missing, _⟩ | ⟨_, behind, found, rfl⟩⟩ :=
        settles_evaluateWithin reads settles
      · rw [PropertyWise.nested_concat] at missing
        cases missing
      rw [PropertyWise.nested_concat] at found
      have evaluates :=
        settles_structural_generic
          (fun type applies => evaluateWithin_container reads applies) found
      obtain ⟨other, applies, same⟩ :=
        inductionHypothesis (Nat.le_of_succ_le below) evaluates
      cases behind with
      | error error =>
          cases other with
          | ok => exact same.elim
          | error other =>
              exact ⟨_, settles_applyAll_concat.mpr (.inr ⟨_, applies, rfl⟩), same⟩
      | ok type =>
          cases other with
          | error => exact same.elim
          | ok other =>
              cases (same : type = other)
              have container := evaluateWithin_container reads evaluates
              have within : 1 ≤ checker.options.maxDepth :=
                Nat.le_trans (Nat.le_add_left 1 depth)
                  (Evaluation.depth_le_of_structural found)
              have alone :
                  Settles
                    ((checker.evaluationWithin less).structural 1 type).run
                    (.ok type) := by
                rw [Evaluation.structural_container container within]
                exact settles_pure.mpr rfl
              have written : type.isAbsent = false := by cases container <;> rfl
              refine
                ⟨_,
                  settles_applyAll_concat.mpr
                    (.inl ⟨_, applies,
                      (settles_application budget (reads less last) written).mpr
                        ⟨_, alone, rfl⟩⟩), ?_⟩
              exact PropertyWise.ofBehind_congr

end Composition

/-- The keys of a utility are read alike with any budget. -/
theorem exists_readKeys
    (checker : Checker) :
    ∃ keys : PropertyWise → Except UtilityError (List Text.RawText),
      ∀ budget step,
        (step.readKeys (checker.evaluationWithin budget)).run =
          pure (keys step) := by
  choose keys reads using Evaluation.exists_readKeys_eq_pure checker.arena
  exact ⟨keys, fun budget step => reads step _ rfl⟩

/-- Compositions that make the same of every type come to the same. -/
theorem applyAll_comesTo
    {first second : List PropertyWise}
    (notNil : first ≠ [] ∧ second ≠ [])
    (alike :
      ∀ keys behind,
        SameOutcome
          (PropertyWise.composed keys first base behind)
          (PropertyWise.composed keys second base behind)) :
    (checker.applyAll first base).run.ComesTo
      (checker.applyAll second base).run := by
  intro outcome settles
  obtain ⟨keys, reads⟩ := checker.exists_readKeys
  obtain ⟨step, rest, rfl⟩ := List.exists_cons_of_ne_nil notNil.1
  obtain ⟨next, others, rfl⟩ := List.exists_cons_of_ne_nil notNil.2
  cases budget : checker.budget with
  | zero =>
      rcases settles_applyAll_cons.mp settles with
        ⟨_, applies, _⟩ | ⟨_, applies, _⟩
      · exact absurd applies (not_settles_applyUtility budget)
      · exact absurd applies (not_settles_applyUtility budget)
  | succ less =>
      cases written : base.isAbsent with
      | true =>
          have fails :=
            (settles_application_absent budget next written).mpr rfl
          refine ⟨_, settles_applyAll_cons.mpr (.inr ⟨_, fails, rfl⟩), ?_⟩
          rcases settles_applyAll_cons.mp settles with
            ⟨_, applies, _⟩ | ⟨_, applies, rfl⟩
          · cases (settles_application_absent budget step written).mp applies
          · cases (settles_application_absent budget step written).mp applies
            rfl
      | false =>
          obtain ⟨behind, found, rfl⟩ :=
            (settles_applyAll budget reads written).mp settles
          refine
            ⟨_, (settles_applyAll budget reads written).mpr ⟨_, found, rfl⟩, ?_⟩
          cases behind with
          | error => rfl
          | ok behind => exact alike keys behind

/-- One application of a nested composition to the rest of it. -/
theorem applyNested_comesTo
    (init : List PropertyWise)
    (last : PropertyWise)
    (base : Ty) :
    (checker.applyUtility
      (last.application (PropertyWise.nested init base))).ComesTo
      (checker.applyAll (init ++ [last]) base).run := by
  intro outcome settles
  obtain ⟨keys, reads⟩ := checker.exists_readKeys
  cases budget : checker.budget with
  | zero => exact absurd settles (not_settles_applyUtility budget)
  | succ less =>
      exact settles_evaluateNested budget reads (Nat.le_refl _)
        ((settles_applyUtility_iff budget).mp settles)

/-- What stands behind a nested composition. -/
theorem structuralNested_comesTo
    (init : List PropertyWise)
    (last : PropertyWise)
    (base : Ty) :
    (checker.structural 0 (PropertyWise.nested (init ++ [last]) base)).ComesTo
      (checker.applyAll (init ++ [last]) base).run := by
  intro outcome settles
  obtain ⟨keys, reads⟩ := checker.exists_readKeys
  rw [PropertyWise.nested_concat] at settles
  have evaluates :=
    settles_structural_generic
      (fun type applies => evaluateWithin_container reads applies) settles
  cases budget : checker.budget with
  | zero =>
      rw [budget] at evaluates
      obtain ⟨_, _, _⟩ := settles_evaluateWithin reads evaluates
      omega
  | succ less =>
      exact settles_evaluateNested budget reads (Nat.le_of_eq budget) evaluates

/--
Utilities that may be interchanged come to the same on every base, whichever of
the two compositions is taken first, and a composition written as one nested
application comes to what its utilities come to one by one: when the outermost
of them is applied, and when a type is sought behind it.
-/
theorem utilities_commute
    (checker : Checker)
    (base : Ty)
    {first second : List PropertyWise}
    (interchange : PropertyWise.Interchange first second) :
    (checker.applyAll first base).run.ComesTo
        (checker.applyAll second base).run ∧
      (checker.applyAll second base).run.ComesTo
        (checker.applyAll first base).run ∧
      ∀ init last,
        init ++ [last] ∈ [first, second] →
        (checker.applyUtility
            (last.application (PropertyWise.nested init base))).ComesTo
            (checker.applyAll (init ++ [last]) base).run ∧
          (checker.structural 0
              (PropertyWise.nested (init ++ [last]) base)).ComesTo
            (checker.applyAll (init ++ [last]) base).run :=
  ⟨applyAll_comesTo interchange.notNil interchange.composed,
    applyAll_comesTo interchange.notNil.symm fun keys behind =>
      (interchange.composed keys behind).symm,
    fun init last _ =>
      ⟨applyNested_comesTo init last base,
        structuralNested_comesTo init last base⟩⟩

/-- Of users, the name is picked and made optional in either order. -/
theorem utilities_commute_user :
    let checker : Checker := { arena := accountArena, budget := 20 }
    let name : PropertyWise := .pickKeys (.ofLiteral (.string (.ofString "name")))
    let optionalName : Ty :=
      .ofShape
        { properties := [{ name := "name", type := .string, optional := true }] }
    PropertyWise.Interchange [.allOptional, name] [name, .allOptional] ∧
      Settles (checker.applyAll [name, .allOptional] user).run
        (.ok optionalName) ∧
      Settles (checker.applyAll [.allOptional, name] user).run
        (.ok optionalName) := by
  intro checker name optionalName
  have interchange :
      PropertyWise.Interchange [.allOptional, name] [name, .allOptional] :=
    .selection rfl rfl
  have run :
      (checker.applyAll [name, .allOptional] user).run [] =
        .ok (.ok optionalName, []) := by
    decide +kernel
  have settles :
      Settles (checker.applyAll [name, .allOptional] user).run
        (.ok optionalName) :=
    ⟨[], run, Log.quiet_nil⟩
  obtain ⟨_ | type, other, same⟩ :=
    (utilities_commute checker user interchange).2.1 _ settles
  · exact same.elim
  · cases (same : optionalName = type)
    exact ⟨interchange, settles, other⟩

end Checker

end StructuralTyping
