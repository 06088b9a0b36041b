import StructuralTyping.Proofs.NormalizedOperands
import StructuralTyping.Proofs.PlainRuns

namespace StructuralTyping

/-!
# A comparison that goes round forever

Identity looks the properties of one object up by name in the other one, so it
misses that an object which repeats a property name has the structure of its own
copy. A cycle of comparisons through such copies is not recognized: each round
meets a pair that is new, whatever the depth bound is.
-/

open Stateful

/-- Normalization that settles answers with the normal form of a plain type. -/
theorem normalizeOperand_settles_plain
    {checker : Checker}
    (plain : type.Every Ty.Plain)
    (settles :
      Check.Settles (checker.evaluation.normalizeOperand depth type) result) :
    result = checker.arena.plainForm type :=
  (@normalizeIn_yields checker true _ plain depth).eq_of_settles settles

namespace RelationStep

open Relating

section Rules

variable {step : RelationStep} {source target : Ty}

/-- Two references that are not recognized settle as what they stand for. -/
theorem viaReference_settles
    (differ : step.checker.arena.identical source target = false)
    (isNew :
      ∀ pair ∈ assumptions.references,
        ¬ (step.checker.arena.identical pair.1 source = true ∧
          step.checker.arena.identical pair.2 target = true))
    (ofSource : step.expandReference source = pure (.ok first))
    (ofTarget : step.expandReference target = pure (.ok second))
    (settles : Settles (step.viaReference assumptions source target) answer) :
    Settles
      (step.compare
        { assumptions with
          references := assumptions.references ++ [(source, target)] }
        first second)
      answer := by
  unfold viaReference at settles
  dsimp only at settles
  have unknown :
      ¬ (assumptions.references.any fun pair =>
        step.checker.arena.identical pair.1 source &&
          step.checker.arena.identical pair.2 target) = true := by
    rw [List.any_eq_true]
    rintro ⟨pair, member, same⟩
    exact isNew pair member (Bool.and_eq_true_iff.mp same)
  rw [if_neg (by simp [differ]), if_neg unknown, ofSource, pure_bind] at settles
  dsimp only at settles
  rw [ofTarget, pure_bind] at settles
  exact settles

variable [step.compare.Reports]

/-- A source union of one member settles as that member. -/
theorem fromUnion_settles
    (plain : source.Every Ty.Plain)
    (single : (step.checker.arena.plainForm source).isUnion = false)
    (settles : Settles (step.fromUnion assumptions source target) answer) :
    Settles
      (step.compare assumptions (step.checker.arena.plainForm source) target)
      answer := by
  obtain ⟨normal, normalizes, settles⟩ :=
    @Settles.of_bind _ _ _ _ _ _ (fun _ => by split <;> infer_instance) _
      settles
  cases normalizeOperand_settles_plain plain normalizes.of_lift
  split at settles
  · next same =>
    rw [same] at single
    cases single
  · exact settles

/-- A target union of one member settles as that member. -/
theorem toUnion_settles
    (plain : target.Every Ty.Plain)
    (single : (step.checker.arena.plainForm target).isUnion = false)
    (settles : Settles (step.toUnion assumptions source target) answer) :
    Settles
      (step.compare assumptions source (step.checker.arena.plainForm target))
      answer := by
  obtain ⟨normal, normalizes, settles⟩ :=
    @Settles.of_bind _ _ _ _ _ _ (fun _ => by split <;> infer_instance) _
      settles
  cases normalizeOperand_settles_plain plain normalizes.of_lift
  split at settles
  · next same =>
    rw [same] at single
    cases single
  · exact settles

section Members

variable
  {own shape : Shape Ty} {actual expected : Property Ty}
  (first : shape.properties = expected :: others)
  (found : own.property? expected.name = some actual)
  (required : actual.optional = false)
  (demanded : expected.optional = false)

include first found required demanded

/-- Members settle only if the first property of the target does. -/
theorem toMembers_settles
    (settles :
      Settles (step.toMembers assumptions source target own shape) answer) :
    ∃ holds,
      Settles (step.compare assumptions actual.type expected.type) holds := by
  unfold toMembers at settles
  obtain ⟨fit, compares, settles⟩ :=
    @Settles.of_bind _ _ _ _ _ _ (fun fit => by
      split
      · split <;> infer_instance
      · infer_instance) _ settles
  rw [first, List.map_cons] at compares
  have accountable :
      Accountable
        (allOf (others.map (step.toProperty assumptions source target own))) :=
    allOf_accountable (List.forall_mem_map.mpr fun _ _ => inferInstance)
  obtain ⟨holds, compares, _⟩ := compares.of_bind
  unfold toProperty at compares
  rw [found] at compares
  dsimp only at compares
  rw [if_neg (by simp [required]), if_neg (by simp [demanded])] at compares
  exact ⟨holds, settles_orFail compares⟩

/-- A rebuilt object settles only if the first property of the target does. -/
theorem toObject_settles
    (settles :
      Settles (step.toObject assumptions (.object none own) target shape)
        answer) :
    ∃ holds,
      Settles
        (step.compare
          { assumptions with
            objects := (.object none own, target) :: assumptions.objects }
          actual.type expected.type)
        holds := by
  -- A rebuilt node is the same as no other, itself included.
  have isNew :
      underComparison assumptions (.object none own) target = false := by
    rw [underComparison, List.any_eq_false]
    rintro ⟨known, other⟩ member same
    have sameNode := (Bool.and_eq_true_iff.mp same).1
    cases Checker.eq_of_sameNode sameNode
    cases sameNode
  have inhabited : shape.isEmpty = false := by
    simp [Shape.isEmpty, first]
  unfold toObject at settles
  rw [if_neg (by simp [Ty.isNullish, Ty.isPrimitive]),
    if_neg (by simp [inhabited])] at settles
  obtain ⟨members, exposes, settles⟩ :=
    @Settles.of_bind _ _ _ _ _ _ (fun members => by
      cases members <;> (dsimp only; infer_instance)) _ settles
  cases apparent_object exposes.of_lift
  have isObject : isObject (.object none own) = true := rfl
  dsimp only at settles
  rw [if_pos isObject, if_neg (by simp [isNew])] at settles
  exact toMembers_settles first found required demanded settles

end Members

end Rules

end RelationStep

/-- A comparison of different nodes that settles is above the bound. -/
theorem Checker.compareWithin_settles
    {checker : Checker}
    {source target : Ty}
    (differ : source.sameNode target = false)
    (ofSource : source.isAbsent = false)
    (ofTarget : target.isAbsent = false)
    (settles :
      Settles (checker.compareWithin remaining assumptions source target)
        answer) :
    ∃ below, remaining = below + 1 ∧
      Settles
        (RelationStep.relate
          { checker
            depth := checker.options.maxDepth - below
            compare := checker.compareWithin below }
          assumptions source target)
        answer := by
  have written {type : Ty} (here : type.isAbsent = false) :
      type.orElse .unknown = type := by
    cases type <;> first | rfl | cases here
  cases remaining with
  | zero =>
      unfold compareWithin at settles
      dsimp only at settles
      rw [written ofSource, written ofTarget, if_neg (by simp [differ])] at settles
      exact absurd settles failAtBound_never_settles
  | succ below =>
      unfold compareWithin at settles
      dsimp only at settles
      rw [written ofSource, written ofTarget, if_neg (by simp [differ])] at settles
      exact ⟨below, rfl, settles⟩

namespace TwinFields

/-- The name of what holds an object with twin fields. -/
def name : Ty :=
  .named { arena := 0, id := 0, name := "N" }

/-- A field of that name, and two fields that share their name. -/
def twinShape : Shape Ty :=
  { properties :=
      [{ name := "a", type := name },
        { name := "d", type := .string, optional := true },
        { name := "d", type := .string, optional := true, readonly := true }] }

def twins
    (occurrence : Occurrence) :
    Ty :=
  .object occurrence twinShape

/-- One field, which holds such an object. -/
def holderShape
    (occurrence : Occurrence) :
    Shape Ty :=
  { properties := [{ name := "a", type := twins occurrence }] }

/-- What the name stands for: a union of one member. -/
def definition : Ty :=
  .union (some 0) [.object (some 1) (holderShape (some 2))]

def arena : Arena :=
  { declarations := [{ name := "N", definition := definition }] }

theorem definition_plain :
    definition.Every Ty.Plain := by
  have name : name.Every Ty.Plain := .leaf ⟨rfl, rfl⟩ rfl
  have text : Ty.string.Every Ty.Plain := .leaf ⟨rfl, rfl⟩ rfl
  exact .node ⟨rfl, rfl⟩ (List.forall_mem_singleton.mpr
    (.node ⟨rfl, rfl⟩ (List.forall_mem_singleton.mpr
      (.node ⟨rfl, rfl⟩ (List.forall_mem_cons.mpr ⟨name,
        List.forall_mem_cons.mpr ⟨text,
          List.forall_mem_singleton.mpr text⟩⟩)))))

/-- No copy of the object with twin fields is recognized. -/
theorem not_identical_twins
    (occurrence : Occurrence) :
    arena.identical (twins occurrence) (twins none) = false := by
  cases occurrence <;> rfl

section Rounds

variable {maxDepth budget : Nat}

/-- Comparison over these definitions, some levels above a depth bound. -/
def compare
    (maxDepth budget remaining : Nat) :
    Comparison :=
  Checker.compareWithin { arena, options := { maxDepth }, budget } remaining

/-- One level of that comparison. -/
def level
    (maxDepth budget below : Nat) :
    RelationStep where
  checker := { arena, options := { maxDepth }, budget }
  depth := maxDepth - below
  compare := compare maxDepth budget below

instance :
    (level maxDepth budget below).compare.Reports :=
  inferInstanceAs (Comparison.Reports (Checker.compareWithin _ below))

/-- A comparison of different nodes that settles is above the bound. -/
theorem relate_settles
    {source target : Ty}
    (differ : source.sameNode target = false)
    (ofSource : source.isAbsent = false)
    (ofTarget : target.isAbsent = false)
    (settles :
      Settles (compare maxDepth budget remaining assumptions source target)
        answer) :
    ∃ below, remaining = below + 1 ∧
      Settles ((level maxDepth budget below).relate assumptions source target)
        answer :=
  Checker.compareWithin_settles differ ofSource ofTarget settles

/-- From the name to the object it takes three comparisons to the way back. -/
theorem settles_back_of_forth
    (isNew :
      ∀ pair ∈ assumptions.references,
        arena.identical pair.2 (twins occurrence) = false)
    (settles :
      Settles
        (compare maxDepth budget remaining assumptions name (twins occurrence))
        answer) :
    ∃ below later outcome,
      below < remaining ∧
        later.references =
            assumptions.references ++ [(name, twins occurrence)] ∧
        Settles (compare maxDepth budget below later (twins none) name)
          outcome := by
  have different : arena.identical name (twins occurrence) = false := by
    cases occurrence <;> rfl
  obtain ⟨first, rfl, viaName⟩ := relate_settles rfl rfl rfl settles
  change Settles
    ((level maxDepth budget first).viaReference assumptions name
      (twins occurrence)) answer at viaName
  have ofDefinition := RelationStep.viaReference_settles different
    (fun pair member same =>
      absurd same.2 (Bool.eq_false_iff.mp (isNew pair member)))
    rfl rfl viaName
  obtain ⟨second, rfl, fromUnion⟩ := relate_settles rfl rfl rfl ofDefinition
  change Settles
    ((level maxDepth budget second).fromUnion _ definition (twins occurrence))
    answer at fromUnion
  have ofHolder := RelationStep.fromUnion_settles definition_plain rfl fromUnion
  change Settles
    (compare maxDepth budget second _ (.object none (holderShape none))
      (twins occurrence)) answer at ofHolder
  obtain ⟨third, rfl, fromHolder⟩ := relate_settles rfl rfl rfl ofHolder
  change Settles
    ((level maxDepth budget third).toObject _
      (.object none (holderShape none)) (twins occurrence) twinShape)
    answer at fromHolder
  obtain ⟨outcome, back⟩ :=
    RelationStep.toObject_settles rfl rfl rfl rfl fromHolder
  exact ⟨third, _, outcome, by omega, rfl, back⟩

/-- From the object to the name it takes three comparisons to the way forth. -/
theorem settles_forth_of_back
    (isNew :
      ∀ pair ∈ assumptions.references,
        arena.identical pair.1 (twins none) = false)
    (settles :
      Settles (compare maxDepth budget remaining assumptions (twins none) name)
        answer) :
    ∃ below later outcome,
      below < remaining ∧
        later.references = assumptions.references ++ [(twins none, name)] ∧
        Settles (compare maxDepth budget below later name (twins none))
          outcome := by
  have different : arena.identical (twins none) name = false := rfl
  obtain ⟨first, rfl, viaName⟩ := relate_settles rfl rfl rfl settles
  change Settles
    ((level maxDepth budget first).viaReference assumptions (twins none) name)
    answer at viaName
  have ofDefinition := RelationStep.viaReference_settles different
    (fun pair member same =>
      absurd same.1 (Bool.eq_false_iff.mp (isNew pair member)))
    rfl rfl viaName
  obtain ⟨second, rfl, toUnion⟩ := relate_settles rfl rfl rfl ofDefinition
  change Settles
    ((level maxDepth budget second).toUnion _ (twins none) definition)
    answer at toUnion
  have ofHolder := RelationStep.toUnion_settles definition_plain rfl toUnion
  change Settles
    (compare maxDepth budget second _ (twins none)
      (.object none (holderShape none))) answer at ofHolder
  obtain ⟨third, rfl, toHolder⟩ := relate_settles rfl rfl rfl ofHolder
  change Settles
    ((level maxDepth budget third).toObject _ (twins none)
      (.object none (holderShape none)) (holderShape none))
    answer at toHolder
  obtain ⟨outcome, forth⟩ :=
    RelationStep.toObject_settles rfl rfl rfl rfl toHolder
  exact ⟨third, _, outcome, by omega, rfl, forth⟩

/-- The pairs under comparison are those of the rounds so far. -/
def OfRounds
    (assumptions : Assumptions) :
    Prop :=
  ∀ pair ∈ assumptions.references,
    (∃ occurrence, pair = (name, twins occurrence)) ∨ pair = (twins none, name)

/-- A round adds its two pairs, none of which was recognized. -/
theorem never_settles
    (ofRounds : OfRounds assumptions) :
    ¬ Settles (compare maxDepth budget remaining assumptions (twins none) name)
        answer := by
  induction remaining using Nat.strongRecOn generalizing assumptions answer with
  | ind remaining inductionHypothesis =>
  intro settles
  have isNew :
      ∀ pair ∈ assumptions.references,
        arena.identical pair.1 (twins none) = false := by
    intro pair member
    rcases ofRounds pair member with ⟨occurrence, rfl⟩ | rfl
    · rfl
    · exact not_identical_twins none
  obtain ⟨below, later, outcome, nearer, same, forth⟩ :=
    settles_forth_of_back isNew settles
  have stillNew :
      ∀ pair ∈ later.references,
        arena.identical pair.2 (twins none) = false := by
    rw [same]
    refine List.forall_mem_append.mpr ⟨fun pair member => ?_,
      List.forall_mem_singleton.mpr rfl⟩
    rcases ofRounds pair member with ⟨occurrence, rfl⟩ | rfl
    · exact not_identical_twins occurrence
    · rfl
  obtain ⟨lower, last, final, closer, added, back⟩ :=
    settles_back_of_forth stillNew forth
  refine inductionHypothesis lower (by omega) ?_ back
  intro pair member
  rw [added, same, List.append_assoc] at member
  rcases List.mem_append.mp member with known | fresh
  · exact ofRounds pair known
  · simp only [List.singleton_append, List.mem_cons, List.not_mem_nil,
      or_false] at fresh
    rcases fresh with rfl | rfl
    · exact .inr rfl
    · exact .inl ⟨none, rfl⟩

end Rounds

end TwinFields

/--
The name is compared with an object that repeats a property name until the depth
bound is met, whatever that bound is.
-/
theorem Checker.isAssignable_meets_every_bound :
    ∀ maxDepth budget answer,
      ¬ Check.Settles
          (Checker.isAssignable
            { arena := TwinFields.arena, options := { maxDepth }, budget }
            TwinFields.name (TwinFields.twins (some 3)))
          answer := by
  intro maxDepth budget answer settles
  have isNew :
      ∀ pair ∈ ({} : Assumptions).references,
        TwinFields.arena.identical pair.2 (TwinFields.twins (some 3)) =
          false :=
    List.forall_mem_nil _
  obtain ⟨below, later, outcome, _, same, back⟩ :=
    TwinFields.settles_back_of_forth isNew
      (Checker.settles_of_isAssignable settles)
  refine TwinFields.never_settles ?_ back
  rw [TwinFields.OfRounds, same]
  exact List.forall_mem_singleton.mpr (.inl ⟨some 3, rfl⟩)

/-- No depth is enough for the two types, so the guard against cycles alone
does not make the relation finite. -/
theorem Checker.isAssignable_finds_no_bound :
    ¬ ∃ bound, ∀ maxDepth, bound ≤ maxDepth →
        ∃ budget answer,
          Check.Settles
            (Checker.isAssignable
              { arena := TwinFields.arena, options := { maxDepth }, budget }
              TwinFields.name (TwinFields.twins (some 3)))
            answer := by
  rintro ⟨bound, settles⟩
  obtain ⟨budget, answer, settled⟩ := settles bound le_rfl
  exact Checker.isAssignable_meets_every_bound bound budget answer settled

end StructuralTyping
