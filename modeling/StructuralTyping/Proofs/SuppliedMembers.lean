import StructuralTyping.Proofs.ClosedCycles
import StructuralTyping.Proofs.Layers
import StructuralTyping.Proofs.Resemblance
import StructuralTyping.Proofs.ScalarRuns
import StructuralTyping.Proofs.WidenedTargets

namespace StructuralTyping

/-!
# Members that supply what a name accepts

Where a name comes back to itself only through the parts of structural types, and
no name is just another one, each name that a comparison meets on its way through
definitions and unions lies in a lower layer than those before it. So no pair is
met again, and a constant or a primitive that is assignable to a name is assignable
to a type that the name reaches and that is neither a name nor a union.
-/

open Stateful Relating

namespace Arena

variable {arena : Arena}

/-- What is reached from something reached is reached. -/
theorem Reaches.trans
    (reaches : arena.Reaches first second)
    (continues : arena.Reaches second third) :
    arena.Reaches first third := by
  induction continues with
  | refl => exact reaches
  | definition _ inductionHypothesis => exact .definition inductionHypothesis
  | member _ inMembers inductionHypothesis =>
      exact .member inductionHypothesis inMembers

/-- A type reaches its alternatives. -/
theorem reaches_alternative
    (chosen : Ty.Alternative type alternative) :
    arena.Reaches type alternative := by
  induction chosen with
  | self => exact .refl
  | member inMembers _ inductionHypothesis =>
      exact (Reaches.member .refl inMembers).trans inductionHypothesis

end Arena

section Forms

variable {arena : Arena}

/-- An alternative mentions no names but those of the type. -/
theorem Ty.Alternative.mentions
    {type alternative : Ty}
    (chosen : type.Alternative alternative) :
    ∀ reference ∈ alternative.mentions, reference ∈ type.mentions := by
  induction chosen with
  | self => exact fun _ => id
  | member inMembers _ inductionHypothesis =>
      exact fun reference mentioned => Ty.mem_mentions_union.mpr
        ⟨_, inMembers, inductionHypothesis reference mentioned⟩

/-- Types that are no unions are joined to some of them, or to `never`. -/
theorem mem_of_joinMembers
    {types : List Ty}
    (flat : ∀ type ∈ types, type.isUnion = false)
    (joined : member ∈ (arena.joinMembers types).members) :
    member = .never ∨ member ∈ types := by
  have origin {kind : Primitive}
      (has : (inhabited types).any (Ty.isPrimitive · kind) = true)
      (isTop : member ∈ (Ty.primitive kind).members) :
      member ∈ types := by
    obtain ⟨type, inTypes, isKind⟩ := List.any_eq_true.mp has
    rw [List.mem_singleton.mp isTop, ← eq_of_isPrimitive isKind]
    exact (List.mem_filter.mp inTypes).1
  rw [Arena.joinMembers_eq] at joined
  split at joined
  · next has => exact .inr (origin has joined)
  split at joined
  · next has => exact .inr (origin has joined)
  have kept :
      ∀ type ∈ (inhabited types).foldl arena.appendUnique [], type ∈ types :=
    fun type inKept =>
      (List.mem_filter.mp ((unique_sublist _).subset inKept)).1
  generalize (inhabited types).foldl arena.appendUnique [] = distinct
    at joined kept
  rcases distinct with _ | ⟨first, _ | ⟨second, rest⟩⟩
  · exact .inl (List.mem_singleton.mp joined)
  · have inTypes := kept first List.mem_cons_self
    have same : member ∈ first.members := joined
    rw [Ty.members_eq (flat first inTypes), List.mem_singleton] at same
    exact .inr (same ▸ inTypes)
  · exact .inr (kept member joined)

/-- A member of a normal form is the normal form of an alternative. -/
theorem exists_alternative_plainForm
    {type : Ty}
    (plain : type.Every Ty.Plain)
    (inForm : member ∈ (arena.plainForm type).members) :
    member = .never ∨
      ∃ alternative,
        type.Alternative alternative ∧
          member = arena.plainForm alternative := by
  induction type using Ty.partsInduction with
  | node type inductionHypothesis =>
  cases isUnion : type.isUnion with
  | false =>
      have single : (arena.plainForm type).isUnion = false := by
        cases type <;> first | rfl | cases isUnion
      rw [Ty.members_eq single, List.mem_singleton] at inForm
      exact .inr ⟨type, .self isUnion, inForm⟩
  | true =>
      cases type with
      | union occurrence members =>
          have each : ∀ part ∈ members, part.Every Ty.Plain :=
            fun part inMembers => plain.inside inMembers
          rw [Arena.plainForm_union] at inForm
          rcases mem_of_joinMembers (flattenUnion_flat each) inForm with
            isNever | inFlat
          · exact .inl isNever
          obtain ⟨part, inMembers, inPart⟩ :=
            mem_flattenUnion_plainForm.mp inFlat
          rcases inductionHypothesis part inMembers (each part inMembers)
              inPart with isNever | ⟨alternative, chosen, same⟩
          · exact .inl isNever
          · exact .inr ⟨alternative, .member inMembers chosen, same⟩
      | _ => cases isUnion

end Forms

namespace Checker

variable
  {checker : Checker}
  {source type : Ty}
  {assumptions : Assumptions}

/-- No text is identical to the type of numbers. -/
theorem not_identical_number
    (isText : source.isText = true) :
    checker.arena.identical source .number = false := by
  refine Bool.eq_false_iff.mpr fun identical => ?_
  have notNamed : source.isNamed = false := by
    cases source <;> first | rfl | cases isText
  rcases Arena.identicalWithin_unnamed notNamed rfl identical with
    rfl | ⟨_, _, equals⟩
  · cases isText
  · cases source with
    | primitive kind =>
        cases kind <;>
          first
          | (simp [equalNodes] at equals; done)
          | cases isText
    | literal => cases equals
    | _ => cases isText

/-- Nothing is assumed for numbers where all assumptions are about a text. -/
theorem recalls_number
    (known : ∀ pair ∈ assumptions.references, pair.1 = source)
    (isText : source.isText = true)
    (target : Ty) :
    checker.recalls assumptions .number target =
      checker.recalls {} .number target := by
  have nothing : checker.recalls assumptions .number target = false := by
    unfold recalls
    rw [List.any_eq_false]
    rintro ⟨first, second⟩ member both
    cases known _ member
    rw [Bool.and_eq_true, not_identical_number isText] at both
    cases both.1
  exact nothing

/-- A comparison from scratch that settles decides about assignability. -/
theorem settles_isAssignable
    (anywhere :
      SettlesAnywhere
        (checker.compareWithin checker.options.maxDepth {} source type) answer) :
    Check.Settles (checker.isAssignable source type) answer := by
  obtain ⟨after, _, runs⟩ := anywhere {} rfl
  unfold isAssignable Checker.compare
  exact Check.settles_bind.mpr ⟨(answer, after), runs, Check.settles_pure.mpr rfl⟩

/-- A type is a leaf, left out, a name or a union, if its nodes are surveyable. -/
theorem leaf_or_front
    (surveyable : type.Every Ty.Surveyable) :
    type.IsLeaf ∨ type = .absent ∨ (∃ reference, type = .named reference) ∨
      type.isUnion = true := by
  cases type with
  | absent => exact .inr (.inl rfl)
  | named reference => exact .inr (.inr (.inl ⟨reference, rfl⟩))
  | union => exact .inr (.inr (.inr rfl))
  | _ => exact .inl ⟨surveyable, rfl, rfl, rfl⟩

/-- The type of all values is a leaf. -/
theorem isLeaf_unknown :
    Ty.unknown.IsLeaf :=
  ⟨.leaf ⟨⟨rfl, rfl⟩, fun same => by cases same⟩ rfl, rfl, rfl, rfl⟩

/-- Some type that the target reaches, no name and no union, takes up the source. -/
def TakesUp
    (checker : Checker)
    (source target : Ty) :
    Prop :=
  ∃ leaf,
    checker.arena.Reaches target leaf ∧
      leaf.isReference = false ∧
      leaf.isUnion = false ∧
      Check.Settles (checker.isAssignable source leaf) true

/-- What is taken up behind something reached is taken up. -/
theorem TakesUp.of_reaches
    (reaches : checker.arena.Reaches type other)
    (takes : checker.TakesUp source other) :
    checker.TakesUp source type := by
  obtain ⟨leaf, behind, whole⟩ := takes
  exact ⟨leaf, reaches.trans behind, whole⟩

/-- A union that accepts a source was normalized, and one of its members accepts. -/
theorem exists_member_of_toUnion
    (plain : type.Every Ty.Plain)
    (settles :
      Settles ((checker.level fewer).toUnion assumptions source type) true) :
    checker.HasRoom checker.budget (checker.options.maxDepth - fewer) type ∧
      ∃ member ∈ (checker.arena.plainForm type).members,
        Settles (checker.compareWithin fewer assumptions source member)
          true := by
  obtain ⟨normal, normalizes, settles⟩ :=
    @Settles.of_bind _ _ _ _ _ _ (fun _ => by split <;> infer_instance) _
      settles
  have normalizes := normalizes.of_lift
  cases normalizeOperand_settles_plain plain normalizes
  refine ⟨.of_normalizes normalizes, ?_⟩
  generalize checker.arena.plainForm type = form at settles
  split at settles
  · exact settles_of_anyOf_map (settles_orFail settles)
  · next notUnion =>
    have single : form.isUnion = false := by
      cases form <;> first | rfl | exact absurd rfl (notUnion _ _)
    rw [Ty.members_eq single]
    exact ⟨form, List.mem_singleton_self form, settles⟩

section Accepting

variable
  (strict : checker.options.strictNullChecks = true)
  (scalar : source.isScalar = true)

include strict scalar

/-- A scalar that is one node with a type or equal to it is assignable to it. -/
theorem isAssignable_equal
    (within : 0 < checker.options.maxDepth)
    (present : type.isAbsent = false)
    (equals :
      source.sameNode type = true ∨
        ∃ equal : Ty → Ty → Bool, equalNodes equal source type = true) :
    type.isAtom = true ∧
      Check.Settles (checker.isAssignable source type) true := by
  have here := present_of_isScalar scalar
  cases same : source.sameNode type with
  | true =>
      refine ⟨eq_of_sameNode same ▸ isAtom_of_isScalar scalar,
        settles_isAssignable ?_⟩
      rw [compareWithin_sameNode here present same]
      exact .pure true
  | false =>
      obtain ⟨equal, equals⟩ := equals.resolve_left (by simp [same])
      obtain ⟨above, isSucc⟩ : ∃ above, checker.options.maxDepth = above + 1 :=
        ⟨_, (Nat.sub_add_cancel within).symm⟩
      cases source with
      | primitive kind =>
          cases type with
          | primitive other =>
              cases (by simpa [equalNodes] using equals : kind = other)
              simp [Ty.sameNode, Ty.isShared] at same
          | _ => cases equals
      | literal occurrence value =>
          cases type with
          | literal otherNode other =>
              refine ⟨rfl, settles_isAssignable ?_⟩
              rw [isSucc]
              refine compareWithin_settlesAnywhere rfl rfl same ?_
              rw [RelationStep.relate_scalar strict rfl ⟨rfl, rfl⟩]
              have taken : value.equal other = true := equals
              change
                SettlesAnywhere
                  (if value.equal other = true then pure true
                    else fail (.notTheLiteral _ _))
                  true
              rw [if_pos taken]
              exact .pure true
          | _ => cases equals
      | _ => cases scalar

/-- A scalar that is identical to a name is assignable to what the name stands for. -/
theorem takesUp_of_identical
    (aliasFree : checker.arena.AliasFree)
    (within : 0 < checker.options.maxDepth)
    (identical :
      checker.arena.identical source (.named reference) = true) :
    checker.TakesUp source (.named reference) := by
  have notNamed : source.isNamed = false := by
    cases source <;> first | rfl | cases scalar
  unfold Arena.identical at identical
  rw [Arena.identicalWithin_eq] at identical
  rcases identicalFrom_cases identical with
    rfl | assumed | ⟨_, first, second, -, -, unfoldsFirst, unfolds, identical⟩ |
    ⟨_, -, equals⟩
  · cases scalar
  · cases assumed
  · have itself : first = source := by
      cases source <;> first | (cases unfoldsFirst; rfl) | cases scalar
    unfold Arena.unfold? at unfolds
    dsimp only at unfolds
    have otherNotNamed := aliasFree reference
    split at unfolds
    · cases unfolds
    · next isPresent =>
      cases unfolds
      have present :
          (checker.arena.definition reference).isAbsent = false := by
        cases written : checker.arena.definition reference <;>
          first | rfl | exact absurd written isPresent
      have equals :=
        Arena.identicalFrom_unnamed notNamed otherNotNamed
          (itself ▸ identical)
      have equals :
          source.sameNode (checker.arena.definition reference) = true ∨
            ∃ equal : Ty → Ty → Bool,
              equalNodes equal source (checker.arena.definition reference) =
                true := by
        rcases equals with same | ⟨_, _, equals⟩
        · exact .inl same
        · exact .inr ⟨_, equals⟩
      obtain ⟨isAtom, assigns⟩ :=
        isAssignable_equal strict scalar within present equals
      refine ⟨_, .definition .refl, ?_, ?_, assigns⟩
      all_goals
        cases written : checker.arena.definition reference <;>
          first | rfl | (rw [written] at isAtom; cases isAtom)
  · cases source <;> cases equals

/-- No scalar is assignable to `never`. -/
theorem not_settles_never :
    ¬ Settles (checker.compareWithin fewer assumptions source .never) true := by
  intro settles
  have differ : source.sameNode .never = false := by
    refine Bool.eq_false_iff.mpr fun same => ?_
    cases eq_of_sameNode same
    cases scalar
  obtain ⟨below, rfl, comes⟩ :=
    compareWithin_settles differ (present_of_isScalar scalar) rfl settles
  rw [RelationStep.relate_scalar strict scalar ⟨rfl, rfl⟩] at comes
  cases settles_fail comes

/-- A name accepts a scalar by itself, or its definition does in turn. -/
theorem takesUp_or_definition
    (guarded : checker.arena.Guarded)
    (aliasFree : checker.arena.AliasFree)
    (within : fewer ≤ checker.options.maxDepth)
    (known :
      ∀ pair ∈ assumptions.references,
        Overlies checker.arena pair.2 (.named reference))
    (settles :
      Settles
        (checker.compareWithin fewer assumptions source (.named reference))
        true) :
    checker.TakesUp source (.named reference) ∨
      ∃ below,
        fewer = below + 1 ∧
          Settles
            (checker.compareWithin below
              { assumptions with
                references :=
                  assumptions.references ++ [(source, .named reference)] }
              source (checker.arena.definition reference))
            true := by
  obtain ⟨below, rfl, comes⟩ :=
    compareWithin_settles (sameNode_of_isScalar scalar rfl)
      (present_of_isScalar scalar) rfl settles
  rw [RelationStep.relate_scalar strict scalar ⟨rfl, rfl⟩] at comes
  change
    Settles
      ((checker.level below).viaReference assumptions source (.named reference))
      true at comes
  rw [RelationStep.viaReference_scalar scalar] at comes
  split at comes
  · next identical =>
    exact .inl (takesUp_of_identical strict scalar aliasFree
      (Nat.lt_of_lt_of_le (Nat.succ_pos below) within) identical)
  split at comes
  · next recalled =>
    -- No name is met again on the way through lower and lower layers.
    obtain ⟨pair, member, both⟩ := List.any_eq_true.mp recalled
    rw [Bool.and_eq_true, (known pair member).not_identical guarded] at both
    cases both.2
  split at comes
  · cases settles_fail comes
  · exact .inr ⟨below, rfl, comes⟩

/--
A union accepts a scalar only if the normal form of one of its alternatives does,
for which there was room one level below the union.
-/
theorem exists_accepting_alternative
    (plain : (Ty.union occurrence members).Every Ty.Plain)
    (settles :
      Settles
        (checker.compareWithin fewer assumptions source
          (.union occurrence members))
        true) :
    ∃ below alternative,
      fewer = below + 1 ∧
        (Ty.union occurrence members).Alternative alternative ∧
        checker.HasRoom checker.budget (checker.options.maxDepth - below + 1)
          alternative ∧
        Settles
          (checker.compareWithin below assumptions source
            (checker.arena.plainForm alternative))
          true := by
  obtain ⟨below, rfl, comes⟩ :=
    compareWithin_settles (sameNode_of_isScalar scalar rfl)
      (present_of_isScalar scalar) rfl settles
  rw [RelationStep.relate_scalar strict scalar ⟨rfl, rfl⟩] at comes
  obtain ⟨room, member, inForm, compares⟩ := exists_member_of_toUnion plain comes
  rcases exists_alternative_plainForm plain inForm with
    rfl | ⟨alternative, chosen, rfl⟩
  · exact absurd compares (not_settles_never strict scalar)
  refine ⟨below, alternative, rfl, chosen, ?_, compares⟩
  obtain ⟨less, isBudget⟩ := room.exists_budget
  rw [isBudget] at room ⊢
  cases chosen with
  | self notUnion => cases notUnion
  | member inMembers chosen =>
      exact ((room.member inMembers).alternative chosen).flatter
        (Nat.le_succ less) (Nat.le_refl _)

/--
A scalar that a comparison accepts below a name is taken up by a type reached. The
induction is on the distance to the depth bound, and all names under comparison lie
over the type.
-/
theorem takesUp_of_compareWithin
    (guarded : checker.arena.Guarded)
    (aliasFree : checker.arena.AliasFree)
    (definitions :
      ∀ reference, (checker.arena.definition reference).Every Ty.Surveyable)
    (surveyable : type.Every Ty.Surveyable)
    (within : fewer ≤ checker.options.maxDepth)
    (started : type.isNamed = false → fewer < checker.options.maxDepth)
    (known :
      ∀ pair ∈ assumptions.references,
        pair.1 = source ∧ Overlies checker.arena pair.2 type)
    (settles :
      Settles (checker.compareWithin fewer assumptions source type) true) :
    checker.TakesUp source type := by
  induction fewer using Nat.strongRecOn generalizing assumptions type with
  | _ fewer nearer =>
  have sources : ∀ pair ∈ assumptions.references, pair.1 = source :=
    fun pair member => (known pair member).1
  have plainDefinitions (reference : Reference) :
      (checker.arena.definition reference).Every Ty.Plain :=
    (definitions reference).plainNodes
  rcases leaf_or_front surveyable with
    leaf | rfl | ⟨reference, rfl⟩ | isUnion
  · exact ⟨type, .refl, leaf.notReference, leaf.notUnion, settles_isAssignable
      (compareWithin_leaf strict plainDefinitions scalar leaf
        (recalls_number sources) within true settles)⟩
  · refine ⟨.absent, .refl, rfl, rfl, settles_isAssignable ?_⟩
    rw [compareWithin_absent] at settles ⊢
    exact compareWithin_leaf strict plainDefinitions scalar isLeaf_unknown
      (recalls_number sources) within true settles
  · rcases takesUp_or_definition strict scalar guarded aliasFree within
        (fun pair member => (known pair member).2) settles with
      takes | ⟨below, rfl, next⟩
    · exact takes
    · refine .of_reaches (.definition .refl) ?_
      refine nearer below (Nat.lt_succ_self below) (definitions reference)
        (Nat.le_of_succ_le within) (fun _ => within) ?_ next
      exact List.forall_mem_append.mpr
        ⟨fun pair member =>
          ⟨sources pair member, (known pair member).2.definition⟩,
        List.forall_mem_singleton.mpr
          ⟨rfl, .of_definition (.self guarded (aliasFree reference))⟩⟩
  · cases type with
    | union occurrence members =>
        obtain ⟨below, alternative, rfl, chosen, room, settles⟩ :=
          exists_accepting_alternative strict scalar surveyable.plainNodes
            settles
        have surveyed : alternative.Every Ty.Surveyable :=
          surveyable.alternative chosen
        refine .of_reaches (Arena.reaches_alternative chosen) ?_
        -- Only a leaf is not its own normal form.
        have again
            (same : checker.arena.plainForm alternative = alternative) :
            checker.TakesUp source alternative :=
          nearer below (Nat.lt_succ_self below) surveyed
            (Nat.le_of_succ_le within) (fun _ => within)
            (fun pair member =>
              ⟨sources pair member,
                (known pair member).2.mono chosen.mentions⟩)
            (same ▸ settles)
        rcases leaf_or_front surveyed with
          leaf | rfl | ⟨reference, rfl⟩ | isUnion
        · have started := started rfl
          exact ⟨alternative, .refl, leaf.notReference, leaf.notUnion,
            settles_isAssignable (compareWithin_leaf_written strict
              plainDefinitions scalar leaf (recalls_number sources) within
              (by omega) room true settles)⟩
        · exact again rfl
        · exact again rfl
        · cases chosen.notUnion.symm.trans isUnion
    | _ => cases isUnion

/--
Closing a cycle invents no members under strict null checks, in an arena where
each cycle of names passes through the parts of a structural type and no name is
defined as another one: a constant or primitive is assignable to a name only if it
is assignable to a type that the name reaches through definitions and members of
unions, and that is neither a reference nor a union. Definitions may hold anything
but intersections and utility applications, with index signatures for primitives.
-/
theorem isAssignable_reached
    (guarded : checker.arena.Guarded)
    (aliasFree : checker.arena.AliasFree)
    (definitions :
      ∀ reference, (checker.arena.definition reference).Every Ty.Surveyable)
    (assigns :
      Check.Settles (checker.isAssignable source (.named reference)) true) :
    ∃ leaf,
      checker.arena.Reaches (.named reference) leaf ∧
        leaf.isReference = false ∧
        leaf.isUnion = false ∧
        Check.Settles (checker.isAssignable source leaf) true :=
  takesUp_of_compareWithin strict scalar guarded aliasFree definitions
    (.leaf ⟨⟨rfl, rfl⟩, fun same => by cases same⟩ rfl) (Nat.le_refl _)
    (fun notNamed => Bool.noConfusion notNamed)
    (fun _ member => by cases member)
    (settles_of_isAssignable assigns)

end Accepting

section Sizes

/-- A name of the arena of sizes. -/
def sizeName
    (id : Nat)
    (name : String) :
    Ty :=
  .named { arena := 0, id, name }

/--
A size is nothing or sized, what is sized has a length, and a length is a number
or a size in turn.
-/
def sizeArena : Arena :=
  { declarations :=
      [{ name := "Size"
         definition := .ofUnion [.null, sizeName 1 "Sized"] },
        { name := "Sized"
          definition :=
            .ofShape
              { properties :=
                  [{ name := "length", type := sizeName 2 "Length" }] } },
        { name := "Length"
          definition := .ofUnion [sizeName 0 "Size", .number] }] }

/-- Texts are sizes, as they have a length: what is sized takes them up. -/
theorem isAssignable_reached_size :
    let checker : Checker := { arena := sizeArena, budget := 16 }
    ∃ leaf,
      checker.arena.Reaches (sizeName 0 "Size") leaf ∧
        leaf.isReference = false ∧
        leaf.isUnion = false ∧
        Check.Settles (checker.isAssignable .string leaf) true := by
  have guarded : sizeArena.Guarded := by
    refine Arena.guarded_of_rank
      (fun reference => if reference.id = 2 then 2 else 1 - reference.id)
      fun reference other mentions => ?_
    unfold Arena.Mentions Arena.definition Arena.lookup sizeArena sizeName
      at mentions
    split at mentions
    · rcases reference with ⟨_, _ | _ | _ | id, _⟩ <;>
        simp [Ty.mentions, Ty.mentionsAll, Ty.ofUnion, Ty.ofShape]
          at mentions ⊢
      all_goals subst mentions
      all_goals decide
    · simp [Ty.mentions] at mentions
  have aliasFree : sizeArena.AliasFree := by
    intro reference
    by_cases undefined : sizeArena.definition reference = .absent
    · rw [undefined]
      rfl
    · exact Arena.forall_definition (·.isNamed = false) (by decide +kernel)
        reference undefined
  have definitions :
      ∀ reference, (sizeArena.definition reference).Every Ty.Surveyable := by
    intro reference
    have leaf {type : Ty}
        (notObject : RelationStep.isObject type = false)
        (plain : type.Plain)
        (alone : type.parts = []) :
        type.Every Ty.Surveyable :=
      .leaf ⟨plain, fun same => by cases same; cases notObject⟩ alone
    by_cases undefined : sizeArena.definition reference = .absent
    · rw [undefined]
      exact leaf rfl ⟨rfl, rfl⟩ rfl
    · refine Arena.forall_definition (·.Every Ty.Surveyable) ?_ reference
        undefined
      refine List.forall_mem_cons.mpr ⟨?_, List.forall_mem_cons.mpr ⟨?_,
        List.forall_mem_singleton.mpr ?_⟩⟩
      · exact .node ⟨⟨rfl, rfl⟩, fun same => by cases same⟩
          (List.forall_mem_cons.mpr ⟨leaf rfl ⟨rfl, rfl⟩ rfl,
            List.forall_mem_singleton.mpr (leaf rfl ⟨rfl, rfl⟩ rfl)⟩)
      · exact .node
          ⟨⟨rfl, rfl⟩, fun same indexed => by cases same; cases indexed⟩
          (List.forall_mem_singleton.mpr (leaf rfl ⟨rfl, rfl⟩ rfl))
      · exact .node ⟨⟨rfl, rfl⟩, fun same => by cases same⟩
          (List.forall_mem_cons.mpr ⟨leaf rfl ⟨rfl, rfl⟩ rfl,
            List.forall_mem_singleton.mpr (leaf rfl ⟨rfl, rfl⟩ rfl)⟩)
  have assigns :
      Check.Settles
        (isAssignable { arena := sizeArena, budget := 16 } .string
          (sizeName 0 "Size"))
        true :=
    ⟨[], by decide +kernel, Log.quiet_nil⟩
  exact isAssignable_reached rfl rfl guarded aliasFree definitions assigns

end Sizes

end Checker

end StructuralTyping
