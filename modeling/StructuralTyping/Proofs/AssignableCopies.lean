import StructuralTyping.Proofs.NormalizedOperands
import StructuralTyping.Proofs.Resemblance

namespace StructuralTyping

/-!
# A type is assignable to its copies

A comparison of two faithful types goes on with normal forms, members and parts of
them. Whatever it goes on with, the source stays embedded in the target to as many
levels as are left before the depth bound. So it fails only at that bound, and a
faithful type is assignable to every copy of it.
-/

open Stateful Relating

section Optional

variable {type other : Ty}

/-- The members of a known faithful type are known. -/
theorem Ty.Faithful.known_members
    (faithful : type.Faithful)
    (known : type.Known) :
    ∀ member ∈ type.members, member.Known := by
  cases type with
  | union => exact faithful.here.1
  | _ => exact List.forall_mem_singleton.mpr known

/-- A known faithful type may take up `undefined`. -/
theorem Ty.Faithful.optional
    (faithful : type.Faithful)
    (known : type.Known) :
    type.optional.Faithful := by
  unfold Ty.optional
  split
  · exact faithful
  · refine .node ⟨?_, .undefined, by simp, rfl⟩ ?_
    · exact List.forall_mem_append.mpr ⟨faithful.known_members known,
        List.forall_mem_singleton.mpr ⟨rfl, rfl⟩⟩
    · exact List.forall_mem_append.mpr ⟨fun _ => faithful.member,
        List.forall_mem_singleton.mpr (.leaf trivial rfl)⟩

/-- A type that takes up `undefined` keeps its alternatives. -/
theorem Ty.Alternative.optional
    (chosen : type.Alternative alternative) :
    type.optional.Alternative alternative := by
  unfold Ty.optional
  split
  · exact chosen
  · cases chosen with
    | self notUnion =>
        refine .member (List.mem_append_left _ ?_) (.self notUnion)
        rw [Ty.members_eq notUnion]
        exact List.mem_singleton_self _
    | member inMembers chosen =>
        exact .member (List.mem_append_left _ inMembers) chosen

end Optional

/-- A type is embedded in another one to so many levels. -/
def Ty.EmbedsWithin :
    (levels : Nat) →
    Ty →
    Ty →
    Prop
  | 0, _, _ => True
  | levels + 1, type, other => type.Embeds (Ty.Resembles levels) other

/-- Two faithful types, of which one is embedded in the other. -/
structure Embedded
    (levels : Nat)
    (type other : Ty) :
    Prop where
  faithful : type.Faithful
  otherFaithful : other.Faithful
  embeds : type.EmbedsWithin levels other

section Embeddings

variable {type other : Ty}

/-- A type that takes up `undefined` embeds what it did without it. -/
theorem Ty.Embeds.optional
    (embeds : type.Embeds related other) :
    type.Embeds related other.optional := by
  rcases embeds with ⟨any, known⟩ | each
  · exact .inl ⟨any.optional, known⟩
  · refine .inr fun alternative chosen valued => ?_
    obtain ⟨counterpart, otherChosen, alike⟩ := each alternative chosen valued
    exact ⟨counterpart, otherChosen.optional, alike⟩

/-- What is embedded to some levels is so to one level less. -/
theorem Ty.Embeds.within
    (embeds : type.Embeds (Ty.Resembles levels) other) :
    type.EmbedsWithin levels other := by
  cases levels with
  | zero => trivial
  | succ => exact embeds.imp fun _ _ => Ty.Resembles.fewer

namespace Embedded

/-- Faithful types that resemble each other are embedded in each other. -/
theorem of_resembles
    (resembles : Ty.Resembles levels type other)
    (faithful : type.Faithful)
    (otherFaithful : other.Faithful) :
    Embedded levels type other := by
  refine ⟨faithful, otherFaithful, ?_⟩
  cases levels with
  | zero => trivial
  | succ => exact resembles.1

/-- A type is embedded in what takes up `undefined`. -/
theorem optional
    (embedded : Embedded levels type other)
    (known : other.Known) :
    Embedded levels type other.optional := by
  obtain ⟨faithful, otherFaithful, embeds⟩ := embedded
  refine ⟨faithful, otherFaithful.optional known, ?_⟩
  cases levels with
  | zero => trivial
  | succ => exact Ty.Embeds.optional embeds

end Embedded

/-- Alike nodes of faithful types suit each other. -/
theorem NodesAlike.suits
    (alike : NodesAlike (Ty.Resembles levels) type other)
    (faithful : type.Faithful)
    (otherFaithful : other.Faithful)
    (present : type.isAbsent = false)
    (notUnion : type.isUnion = false) :
    RelationStep.Suits (Embedded levels) type other := by
  have flipped := alike.symm faithful.tidy otherFaithful.tidy
    fun _ _ _ _ => Ty.Resembles.symm
  have copyable := otherFaithful.here
  cases alike with
  | absent => cases present
  | primitive => exact .primitive
  | literal equal => exact .literal equal
  | @object _ _ shape otherShape =>
      have inside := Ty.forall_parts_object.mp fun _ => faithful.inside
      have otherInside :=
        Ty.forall_parts_object.mp fun _ => otherFaithful.inside
      obtain ⟨-, closed, known⟩ := copyable
      cases flipped with
      | object _ properties =>
          refine .object (fun property inOther => ?_) closed
          obtain ⟨actual, found, optional, -, resembles⟩ :=
            properties property inOther
          obtain ⟨inShape, -⟩ := Shape.mem_of_property? found
          have embedded :=
            Embedded.of_resembles resembles.symm
              (inside.properties actual inShape)
              (otherInside.properties property inOther)
          refine ⟨actual, found, optional.symm, ?_⟩
          split
          · next isOptional =>
            exact embedded.optional (known property inOther isOptional)
          · exact embedded
  | array element =>
      exact .array (.of_resembles element
        (faithful.inside (List.mem_singleton_self _))
        (otherFaithful.inside (List.mem_singleton_self _)))
  | tuple elements =>
      exact .tuple (forall₂_imp_of_mem elements
        fun _ inFirst _ inSecond resembles =>
          .of_resembles resembles (faithful.inside inFirst)
            (otherFaithful.inside inSecond))
  | @function _ _ signature otherSignature _ parameters _ rest result =>
      have inside := Ty.forall_parts_function.mp fun _ => faithful.inside
      have otherInside :=
        Ty.forall_parts_function.mp fun _ => otherFaithful.inside
      refine .function ?_ (fun present _ => ?_) fun present => ?_
      · exact forall₂_imp_of_mem parameters
          fun _ inFirst _ inSecond both =>
            .of_resembles both.2.symm (otherInside.1 _ inSecond)
              (inside.1 _ inFirst)
      · exact .of_resembles (rest present).symm otherInside.2.1 inside.2.1
      · rw [Ty.orElse_present present] at result
        refine .of_resembles result ?_ otherInside.2.2
        exact faithful.compared (by simp [Ty.compared])
  | union => cases notUnion
  | intersection | generic => cases copyable

end Embeddings

namespace RelationStep

variable {step : RelationStep}

/-- Normalizing a faithful operand leads to its normal form. -/
theorem normalizeOperand_faithful
    {type : Ty}
    (faithful : type.Faithful)
    (settles :
      Check.Settles (step.checker.evaluation.normalizeOperand step.depth type)
        result) :
    result = step.checker.arena.plainForm type :=
  (normalizeIn_yields (Ty.Faithful.plain faithful) step.depth).eq_of_settles
    settles

section Embedding

variable
  [step.compare.Reports]
  {source target : Ty}
  (parts :
    ∀ {assumptions source target},
      Embedded levels source target →
      Succeeds (step.compare assumptions source target))
  (faithful : source.Faithful)
  (otherFaithful : target.Faithful)
  (embeds : source.Embeds (Ty.Resembles levels) target)

include parts faithful otherFaithful embeds

/-- A union is assignable if its normal form or its members are. -/
theorem fromUnion_embedded :
    Succeeds (step.fromUnion assumptions source target) := by
  intro answer settles
  obtain ⟨normal, normalizes, settles⟩ :=
    @Settles.of_bind _ _ _ _ _ _ (fun _ => by split <;> infer_instance) _
      settles
  cases normalizeOperand_faithful faithful normalizes.of_lift
  have ofForm :
      (step.checker.arena.plainForm source).Embeds (Ty.Resembles levels)
        target :=
    (faithful.resembles_plainForm step.checker.arena (levels + 1)).2.trans embeds
      fun _ _ _ => Ty.Resembles.trans
  have formFaithful := faithful.plainForm step.checker.arena
  generalize step.checker.arena.plainForm source = form at *
  split at settles
  · refine Succeeds.allOf_map (fun member inForm answer settles => ?_) answer
      settles
    exact parts ⟨formFaithful.inside inForm, otherFaithful,
      (ofForm.member inForm).within⟩ answer (settles_orFail settles)
  · exact parts ⟨formFaithful, otherFaithful, ofForm.within⟩ answer settles

/-- What is no union is assignable to a union if it is to some member. -/
theorem toUnion_embedded
    (notUnion : source.isUnion = false)
    (valued : source.isNever = false) :
    Succeeds (step.toUnion assumptions source target) := by
  intro answer settles
  obtain ⟨normal, normalizes, settles⟩ :=
    @Settles.of_bind _ _ _ _ _ _ (fun _ => by split <;> infer_instance) _
      settles
  cases normalizeOperand_faithful otherFaithful normalizes.of_lift
  have ofForm :
      source.Embeds (Ty.Resembles levels)
        (step.checker.arena.plainForm target) :=
    embeds.trans
      (otherFaithful.resembles_plainForm step.checker.arena (levels + 1)).1
      fun _ _ _ => Ty.Resembles.trans
  have formFaithful := otherFaithful.plainForm step.checker.arena
  have rebuilt :
      (step.checker.arena.plainForm target).Rebuilt step.checker.arena :=
    (rebuilt_plainForm (Ty.Faithful.plain otherFaithful)).here
  generalize step.checker.arena.plainForm target = form at *
  split at settles
  · next occurrence members =>
    obtain ⟨-, proper⟩ := rebuilt
    have inForm {alternative : Ty} :=
      @Ty.alternative_iff (.union occurrence members) alternative proper.flat
    rcases ofForm with ⟨any, -⟩ | each
    · cases (proper.bounded _ (inForm.mp any)).1
    · obtain ⟨counterpart, chosen, alike⟩ := each source (.self notUnion) valued
      have inMembers := inForm.mp chosen
      refine Succeeds.anyOf_map inMembers ?_ answer (settles_orFail settles)
      exact parts ⟨faithful, formFaithful.inside inMembers,
        (Ty.Embeds.single notUnion (proper.flat _ inMembers) alike).within⟩
  · exact parts ⟨faithful, formFaithful, ofForm.within⟩ answer settles

/-- A faithful type that is embedded in another one is assignable to it. -/
theorem relate_embedded
    (present : source.isAbsent = false)
    (otherPresent : target.isAbsent = false) :
    Succeeds (step.relate assumptions source target) := by
  have notReference {type : Ty} (faithful : type.Faithful) :
      type.isReference = false := by
    have copyable := faithful.here
    cases type <;> first | rfl | cases copyable
  have notIntersection {type : Ty} (faithful : type.Faithful) :
      isIntersection type = false :=
    (Ty.Faithful.plain faithful).here.notIntersection
  intro answer settles
  -- The cases are split in the order in which the rules are tried.
  unfold relate at settles
  simp only [notReference faithful, notReference otherFaithful,
    notIntersection faithful, notIntersection otherFaithful, Bool.or_self,
    Bool.false_eq_true, if_false] at settles
  split at settles
  · exact settles.of_pure
  next notAny =>
  split at settles
  · exact settles.of_pure
  next regarded =>
  simp only [Bool.or_eq_true, not_or, Bool.not_eq_true] at notAny regarded
  have known : target.Known := ⟨otherPresent, regarded.1⟩
  have valued : source.isNever = false := by
    have copyable := faithful.here
    cases source with
    | union =>
        obtain ⟨member, inMembers, -⟩ := copyable.2
        exact List.isEmpty_eq_false_iff.mpr (List.ne_nil_of_mem inMembers)
    | _ => exact regarded.2
  split at settles
  · next isUnknown =>
    rw [eq_of_isPrimitive isUnknown] at embeds
    rcases embeds with ⟨-, allKnown⟩ | each
    · cases (allKnown _ (.self rfl)).notUnknown
    · obtain ⟨counterpart, chosen, alike⟩ := each _ (.self rfl) rfl
      cases alike
      cases (otherFaithful.known_alternative known chosen).notUnknown
  split at settles
  · next isNever =>
    obtain ⟨alternative, chosen, valued⟩ := faithful.exists_valued valued
    rw [eq_of_isPrimitive isNever] at embeds
    rcases embeds with ⟨any, -⟩ | each
    · cases any.eq rfl
    · obtain ⟨counterpart, otherChosen, alike⟩ := each _ chosen valued
      rw [alike.isNever chosen.notUnion, otherChosen.eq rfl] at valued
      cases valued
  split at settles
  · exact settles.of_pure
  split at settles
  · exact fromUnion_embedded parts faithful otherFaithful embeds answer settles
  next sourceWhole =>
  simp only [Bool.not_eq_true] at sourceWhole
  split at settles
  · exact toUnion_embedded parts faithful otherFaithful embeds sourceWhole
      valued answer settles
  next targetWhole =>
  simp only [Bool.not_eq_true] at targetWhole
  rcases embeds with ⟨any, -⟩ | each
  · rw [← any.eq targetWhole] at notAny
    cases notAny.2
  · obtain ⟨counterpart, chosen, alike⟩ := each _ (.self sourceWhole) valued
    rw [chosen.eq targetWhole] at alike
    exact compareShapes_succeeds parts
      (alike.suits faithful otherFaithful present sourceWhole) answer settles

end Embedding

end RelationStep

namespace Checker

variable {checker : Checker}

/-- A comparison whose source is embedded in its target fails at no rule. -/
theorem compareWithin_embedded
    (embedded : Embedded levels source target)
    (deep : remaining ≤ levels) :
    Succeeds (checker.compareWithin remaining assumptions source target) := by
  induction remaining generalizing levels assumptions source target with
  | zero =>
      intro answer settles
      unfold compareWithin at settles
      dsimp only at settles
      split at settles
      · exact settles.of_pure
      · exact absurd settles failAtBound_never_settles
  | succ remaining inductionHypothesis =>
      intro answer settles
      unfold compareWithin at settles
      dsimp only at settles
      split at settles
      · exact settles.of_pure
      next differ =>
      obtain ⟨levels, rfl⟩ : ∃ fewer, levels = fewer + 1 :=
        ⟨levels - 1, by omega⟩
      obtain ⟨faithful, otherFaithful, embeds⟩ := embedded
      cases otherMissing : target.isAbsent with
      | true =>
          rw [Ty.eq_absent otherMissing] at settles
          unfold RelationStep.relate at settles
          split at settles
          · exact settles.of_pure
          · exact settles.of_pure
      | false =>
      cases missing : source.isAbsent with
      | true =>
          -- No alternative of a type that is there looks like a missing type.
          rw [Ty.eq_absent missing] at embeds
          rcases embeds with ⟨-, known⟩ | each
          · cases (known _ (.self rfl)).present
          · obtain ⟨counterpart, chosen, alike⟩ := each _ (.self rfl) rfl
            cases alike
            cases otherFaithful.present_alternative otherMissing chosen
      | false =>
          rw [Ty.orElse_present missing, Ty.orElse_present otherMissing]
            at settles
          exact RelationStep.relate_embedded
            (fun embedded => inductionHypothesis embedded (by omega)) faithful
            otherFaithful embeds missing otherMissing answer settles

/--
A type is assignable to every copy of it wherever nothing is reported, under all
options. The type may nest primitives with `any`, literals, objects with optional
and read-only properties, arrays, tuples, functions and unions; each union has
values and no member `unknown`, and no optional property is of that type.
-/
theorem isAssignable_copy
    {type copy : Ty}
    (faithful : type.Faithful)
    (same : type.form = copy.form)
    (assigns : Check.Settles (checker.isAssignable type copy) answer) :
    answer = true := by
  have otherFaithful := faithful.of_copy same
  have recognizes : checker.arena.Recognizes type copy := .copy same
  have embedded : Embedded checker.options.maxDepth type copy :=
    .of_resembles (recognizes.resembles faithful otherFaithful) faithful
      otherFaithful
  exact compareWithin_embedded embedded le_rfl answer
    (settles_of_isAssignable assigns)

section Settings

/-- A choice of two constants, written down from an occurrence on. -/
def writtenDigits
    (first : Nat) :
    Ty :=
  .union (some first)
    [.literal (some (first + 1)) (.number (.ofNat 1)),
      .literal (some (first + 2)) (.number (.ofNat 2))]

/-- A callback that takes an array, written down from an occurrence on. -/
def writtenCallback
    (first : Nat) :
    Ty :=
  .function (some first)
    { parameters :=
        [{ name := "all", type := .array (some (first + 1)) .unknown false }]
      rest := .absent
      result := .absent }

/-- An optional choice and a callback, written down from an occurrence on. -/
def writtenSettings
    (first : Nat) :
    Ty :=
  .object (some first)
    { properties :=
        [{ name := "size", type := writtenDigits (first + 1), optional := true },
          { name := "done", type := writtenCallback (first + 4)
            readonly := true }] }

/-- Constants to choose from are recognized in copies. -/
theorem faithful_writtenDigits
    (first : Nat) :
    (writtenDigits first).Faithful := by
  have constant (occurrence : Occurrence) (value : Nat) :
      (Ty.literal occurrence (.number (.ofNat value))).Faithful :=
    .leaf (Literal.equal_self (Number.isNaN_ofNat value)) rfl
  refine .node ⟨?_, _, List.mem_cons_self, rfl⟩ ?_
  · exact List.forall_mem_cons.mpr
      ⟨⟨rfl, rfl⟩, List.forall_mem_singleton.mpr ⟨rfl, rfl⟩⟩
  · exact List.forall_mem_cons.mpr
      ⟨constant _ 1, List.forall_mem_singleton.mpr (constant _ 2)⟩

/-- The settings are recognized in copies. -/
theorem faithful_writtenSettings
    (first : Nat) :
    (writtenSettings first).Faithful := by
  have absent : Ty.absent.Faithful := .leaf trivial rfl
  have callback : (writtenCallback (first + 4)).Faithful :=
    .node trivial (Ty.forall_parts_function.mpr
      ⟨List.forall_mem_singleton.mpr
        (.node trivial (List.forall_mem_singleton.mpr (.leaf trivial rfl))),
        absent, absent⟩)
  have names : ["size", "done"].Nodup := by decide
  refine .node ⟨names, rfl, ?_⟩ (Ty.forall_parts_object.mpr ⟨?_, nofun, nofun⟩)
  · exact List.forall_mem_cons.mpr
      ⟨fun _ => ⟨rfl, rfl⟩, List.forall_mem_singleton.mpr nofun⟩
  · exact List.forall_mem_cons.mpr
      ⟨faithful_writtenDigits _, List.forall_mem_singleton.mpr callback⟩

/-- Settings are assignable to settings that were written down once more. -/
theorem isAssignable_copy_settings :
    ∃ answer,
      Check.Settles
          (plainChecker.isAssignable (writtenSettings 0) (writtenSettings 6))
          answer ∧
        answer = true := by
  have assigns :
      Check.Settles
        (plainChecker.isAssignable (writtenSettings 0) (writtenSettings 6))
        true :=
    ⟨[], by decide +kernel, Log.quiet_nil⟩
  have same : (writtenSettings 0).form = (writtenSettings 6).form := rfl
  exact
    ⟨_, assigns, isAssignable_copy (faithful_writtenSettings 0) same assigns⟩

/-- An object with an optional property of any kind. -/
def writtenUnknown
    (first : Nat) :
    Ty :=
  .object (some first)
    { properties := [{ name := "a", type := .unknown, optional := true }] }

/--
An optional property of type `unknown` is expected as `unknown | undefined`, to
which `unknown` is not assignable, so that the object is not assignable to its copy.
-/
theorem isAssignable_copy_misses_unknown :
    (writtenUnknown 0).form = (writtenUnknown 1).form ∧
      Check.Settles
        (plainChecker.isAssignable (writtenUnknown 0) (writtenUnknown 1))
        false :=
  ⟨rfl, [], by decide +kernel, Log.quiet_nil⟩

end Settings

end Checker

end StructuralTyping
