import StructuralTyping.Proofs.NormalizeMeaning
import StructuralTyping.Proofs.Reporting

namespace StructuralTyping

/-!
# Flat results

Where no intersections occur, normalization that reports no exceeded depth
answers with a flat type: none of its members is a union. Arrays and tuples of
the answer were there before, so the answer exposes no further positions.
-/

open Stateful

/-- No member of the type is a union. -/
def Ty.IsFlat
    (type : Ty) :
    Prop :=
  ∀ member ∈ type.members, member.isUnion = false

/-- A type that is no union is flat. -/
theorem Ty.isFlat_of_not_isUnion
    {type : Ty}
    (notUnion : type.isUnion = false) :
    type.IsFlat := by
  cases type <;> simp_all [IsFlat, members, isUnion]

/-- The union of types that are no unions is flat. -/
theorem isFlat_joinMembers
    {arena : Arena}
    {types : List Ty}
    (flat : ∀ type ∈ types, type.isUnion = false) :
    (arena.joinMembers types).IsFlat := by
  have kept :
      ∀ type ∈ (types.filter fun type => !type.isNever).foldl
        arena.appendUnique [], type.isUnion = false := by
    intro type member
    have inFiltered := (mem_of_mem_unique member).resolve_left (by simp)
    exact flat type (List.mem_filter.mp inFiltered).1
  unfold Arena.joinMembers
  dsimp only
  split
  · exact Ty.isFlat_of_not_isUnion rfl
  split
  · exact Ty.isFlat_of_not_isUnion rfl
  split
  · exact Ty.isFlat_of_not_isUnion rfl
  · next type single =>
    exact Ty.isFlat_of_not_isUnion (kept type (by simp [single]))
  · exact kept

mutual

/--
Whether reading a property from a value of the type is answered by an index
signature: that of an object, or the positions of a sequence.
-/
def Ty.indexAnswers
    (name : String) :
    Ty →
    Bool
  | .object _ shape =>
      (shape.property? name).isNone &&
        shape.index.any fun index => indexApplies index.key name
  | .array _ _ _ =>
      name != "length" && indexApplies .number name
  | .tuple _ elements _ =>
      name != "length" &&
        !(positionProperties false 0 elements).any (·.name == name) &&
        indexApplies .number name
  | .union _ members => Ty.indexAnswersAny name members
  | _ => false

/-- Whether reading from a value of some type of a list may be answered so. -/
def Ty.indexAnswersAny
    (name : String) :
    List Ty →
    Bool
  | [] => false
  | type :: rest =>
      Ty.indexAnswers name type || Ty.indexAnswersAny name rest

end

/-- An index signature answers for a list when it does for one of its types. -/
theorem Ty.indexAnswersAny_iff
    {types : List Ty} :
    Ty.indexAnswersAny name types = true ↔
      ∃ type ∈ types, type.indexAnswers name = true := by
  induction types with
  | nil =>
      simp [indexAnswersAny]
  | cons type rest inductionHypothesis =>
      simp [indexAnswersAny, inductionHypothesis]

/-- An index signature answers for a type when it does for a member. -/
theorem Ty.indexAnswers_members
    {type : Ty} :
    type.indexAnswers name = true ↔
      ∃ member ∈ type.members, member.indexAnswers name = true := by
  cases type <;> simp only [members, List.mem_singleton, exists_eq_left]
  rw [indexAnswers, indexAnswersAny_iff]

/-- The union of some types exposes no further positions. -/
theorem indexAnswers_of_joinMembers
    {arena : Arena}
    {types : List Ty}
    (answers : (arena.joinMembers types).indexAnswers name = true) :
    ∃ type ∈ types, type.indexAnswers name = true := by
  have kept :
      ∀ type ∈ (types.filter fun type => !type.isNever).foldl
        arena.appendUnique [], type ∈ types := by
    intro type member
    have inFiltered := (mem_of_mem_unique member).resolve_left (by simp)
    exact (List.mem_filter.mp inFiltered).1
  unfold Arena.joinMembers at answers
  dsimp only at answers
  split at answers
  · simp [Ty.indexAnswers] at answers
  split at answers
  · simp [Ty.indexAnswers] at answers
  split at answers
  · simp [Ty.indexAnswers] at answers
  · next type single =>
    exact ⟨type, kept type (by simp [single]), answers⟩
  · rw [Ty.ofUnion, Ty.indexAnswers, Ty.indexAnswersAny_iff] at answers
    obtain ⟨type, member, answers⟩ := answers
    exact ⟨type, kept type member, answers⟩

/-- The names of positions depend on their number only. -/
theorem map_name_positionProperties
    {first second : List Ty}
    (sameLength : first.length = second.length) :
    (positionProperties firstReadonly position first).map Property.name =
      (positionProperties secondReadonly position second).map
        Property.name := by
  induction first generalizing position second with
  | nil =>
      cases second <;> simp_all [positionProperties]
  | cons type rest inductionHypothesis =>
      cases second with
      | nil =>
          simp at sameLength
      | cons other others =>
          simp only [positionProperties, List.map_cons, List.cons.injEq,
            true_and]
          exact inductionHypothesis (by simpa using sameLength)

section Step

variable {fragment : Fragment} {mode : NormalMode} {pass : NormalPass}

/-- A pass exposes no further positions. -/
structure NormalPass.KeepsPositions
    (fragment : Fragment)
    (pass : NormalPass) :
    Prop where
  normalize :
    ∀ {depth type result name},
      fragment.admits type = true →
      Answers (pass.normalize depth type) result →
      result.indexAnswers name = true →
      type.indexAnswers name = true
  inner :
    ∀ {depth type result name},
      fragment.admits type = true →
      Answers (pass.inner depth type) result →
      result.indexAnswers name = true →
      type.indexAnswers name = true

/-- One step of normalization exposes no further positions. -/
theorem NormalPass.KeepsPositions.next
    (keeps : pass.KeepsPositions fragment)
    (plain : fragment.intersections = false) :
    (pass.next mode).KeepsPositions fragment where
  normalize {depth type result name} admitted answers indexed := by
    change Answers (pass.nextNormalize mode depth type) result at answers
    unfold NormalPass.nextNormalize at answers
    split at answers
    · cases answers_pure.mp answers
      exact indexed
    split at answers
    · obtain ⟨_, _, answers⟩ := answers.of_bind
      cases answers_pure.mp answers
      exact indexed
    cases type with
    | absent =>
        simp at admitted
    | primitive kind =>
        cases answers_pure.mp answers
        exact indexed
    | literal occurrence value =>
        cases answers_pure.mp answers
        exact indexed
    | named reference =>
        cases answers_pure.mp answers
        exact indexed
    | generic occurrence application =>
        simp at admitted
    | object occurrence shape =>
        obtain ⟨normal, inner, answers⟩ := answers.of_bind
        cases answers_pure.mp answers
        obtain ⟨noIndex, _⟩ := Fragment.admits_object.mp admitted
        unfold NormalPass.normalizeShape at inner
        obtain ⟨_, _, inner⟩ := inner.of_bind
        rw [noIndex] at inner
        obtain ⟨_, indexAnswers, inner⟩ := inner.of_bind
        cases answers_pure.mp indexAnswers
        cases answers_pure.mp inner
        simp [Ty.ofShape, Ty.indexAnswers] at indexed
    | array occurrence element readonly =>
        obtain ⟨normal, inner, answers⟩ := answers.of_bind
        cases answers_pure.mp answers
        simpa [Ty.indexAnswers] using indexed
    | tuple occurrence elements readonly =>
        obtain ⟨normals, visits, answers⟩ := answers.of_bind
        cases answers_pure.mp answers
        have names :=
          @map_name_positionProperties false 0 false _ _
            visits.of_mapM.length_eq
        have any :
            ∀ types : List Ty,
              (positionProperties false 0 types).any (·.name == name) =
                ((positionProperties false 0 types).map Property.name).any
                  (· == name) := by
          simp [List.any_map, Function.comp_def]
        simpa [Ty.indexAnswers, any, names] using indexed
    | function occurrence signature =>
        obtain ⟨normal, inner, answers⟩ := answers.of_bind
        cases answers_pure.mp answers
        simp [Ty.indexAnswers] at indexed
    | union occurrence members =>
        change Answers (pass.union _ _ members) result at answers
        unfold NormalPass.union at answers
        obtain ⟨types, visits, answers⟩ := answers.of_bind
        cases answers_pure.mp answers
        obtain ⟨type, inFlat, indexed⟩ := indexAnswers_of_joinMembers indexed
        obtain ⟨normal, inTypes, inNormal⟩ := List.mem_flatMap.mp inFlat
        obtain ⟨member, inMembers, answers⟩ :=
          exists_related_left visits.of_mapM inTypes
        have memberIndexed :=
          keeps.normalize (Fragment.admits_union.mp admitted member inMembers)
            answers (Ty.indexAnswers_members.mpr ⟨type, inNormal, indexed⟩)
        rw [Ty.indexAnswers, Ty.indexAnswersAny_iff]
        exact ⟨member, inMembers, memberIndexed⟩
    | intersection occurrence members =>
        simp [plain] at admitted
  inner {depth type result name} admitted answers indexed := by
    change Answers (pass.nextInner depth type) result at answers
    unfold NormalPass.nextInner at answers
    split at answers
    · simp at admitted
    · exact keeps.normalize admitted answers indexed

/-- Meeting the depth bound is reported. -/
theorem not_settles_reportOnce
    {checker : Checker}
    {type : Ty} :
    ¬ Settles (NormalPass.reportOnce checker type) value := by
  rintro ⟨state, after, lowered, stillLowered, added, run, _⟩
  change state = false at lowered
  subst lowered
  cases run
  change (true : Bool) = false at stillLowered
  cases stillLowered

/-- A pass settles with flat types. -/
def NormalPass.Flattens
    (fragment : Fragment)
    (pass : NormalPass) :
    Prop :=
  ∀ {depth type result},
    fragment.admits type = true →
    Settles (pass.normalize depth type) result →
    result.IsFlat

/-- One step of normalization settles with flat types. -/
theorem NormalPass.Flattens.next
    [pass.Reports]
    [mode.evaluate.Reports]
    (flattens : pass.Flattens fragment)
    (plain : fragment.intersections = false) :
    (pass.next mode).Flattens fragment := by
  intro depth type result admitted settles
  change Settles (pass.nextNormalize mode depth type) result at settles
  unfold NormalPass.nextNormalize at settles
  split at settles
  · next isAbsent =>
    cases type <;> simp [Ty.isAbsent] at isAbsent
    simp at admitted
  split at settles
  · obtain ⟨_, reported, _⟩ := settles.of_bind
    exact absurd reported not_settles_reportOnce
  have answers := settles.answers
  cases type with
  | absent =>
      simp at admitted
  | primitive kind =>
      cases answers_pure.mp answers
      exact Ty.isFlat_of_not_isUnion rfl
  | literal occurrence value =>
      cases answers_pure.mp answers
      exact Ty.isFlat_of_not_isUnion rfl
  | named reference =>
      cases answers_pure.mp answers
      exact Ty.isFlat_of_not_isUnion rfl
  | generic occurrence application =>
      simp at admitted
  | object occurrence shape =>
      obtain ⟨_, _, answers⟩ := answers.of_bind
      cases answers_pure.mp answers
      exact Ty.isFlat_of_not_isUnion rfl
  | array occurrence element readonly =>
      obtain ⟨_, _, answers⟩ := answers.of_bind
      cases answers_pure.mp answers
      exact Ty.isFlat_of_not_isUnion rfl
  | tuple occurrence elements readonly =>
      obtain ⟨_, _, answers⟩ := answers.of_bind
      cases answers_pure.mp answers
      exact Ty.isFlat_of_not_isUnion rfl
  | function occurrence signature =>
      obtain ⟨_, _, answers⟩ := answers.of_bind
      cases answers_pure.mp answers
      exact Ty.isFlat_of_not_isUnion rfl
  | union occurrence members =>
      change Settles (pass.union _ _ members) result at settles
      unfold NormalPass.union at settles
      obtain ⟨types, visits, settles⟩ := settles.of_bind
      cases settles.of_pure
      apply isFlat_joinMembers
      intro type inFlat
      obtain ⟨normal, inTypes, inNormal⟩ := List.mem_flatMap.mp inFlat
      obtain ⟨member, inMembers, settles⟩ :=
        exists_related_left visits.of_mapM inTypes
      exact flattens (Fragment.admits_union.mp admitted member inMembers)
        settles type inNormal
  | intersection occurrence members =>
      simp [plain] at admitted

end Step

section Checking

variable {fragment : Fragment} {reading : Reading}

/-- Every pass exposes no further positions. -/
theorem normalPass_keepsPositions
    (mode : NormalMode)
    (plain : fragment.intersections = false)
    (budget : Nat) :
    (normalPass mode budget).KeepsPositions fragment := by
  induction budget with
  | zero =>
      exact
        { normalize := fun _ answers => (not_answers_exhausted answers).elim
          inner := fun _ answers => (not_answers_exhausted answers).elim }
  | succ budget inductionHypothesis =>
      rw [normalPass_succ]
      exact inductionHypothesis.next plain

/-- Every pass settles with flat types. -/
theorem normalPass_flattens
    (mode : NormalMode)
    [mode.evaluate.Reports]
    (plain : fragment.intersections = false)
    (budget : Nat) :
    (normalPass mode budget).Flattens fragment := by
  induction budget with
  | zero =>
      exact fun _ settles => (not_answers_exhausted settles.answers).elim
  | succ budget inductionHypothesis =>
      rw [normalPass_succ]
      exact inductionHypothesis.next plain

/-- A normal form of a type: the same values, flat, with no further positions. -/
structure IsNormalOf
    (fragment : Fragment)
    (reading : Reading)
    (arena : Arena)
    (type result : Ty) :
    Prop where
  admits : fragment.admits result = true
  holds :
    ∀ value, Holds reading arena result value ↔ Holds reading arena type value
  flat : result.IsFlat
  positions :
    ∀ {name}, result.indexAnswers name = true → type.indexAnswers name = true

/-- Normalization that settles is a run of a pass that settles. -/
theorem settles_of_normalizeIn
    {mode : NormalMode}
    [mode.evaluate.Reports]
    (settles : Check.Settles (normalizeIn mode budget depth type) result) :
    Settles ((normalPass mode budget).normalize depth type) result := by
  unfold normalizeIn at settles
  rw [StateT.run'_eq, map_eq_pure_bind] at settles
  obtain ⟨⟨value, flag⟩, run, settles⟩ := Check.settles_bind.mp settles
  cases Check.settles_pure.mp settles
  have quietRun := run
  obtain ⟨added, fresh, quiet⟩ := run
  -- A flag that went up would have been reported.
  have lowered : Flagged.raised flag = false := by
    have accountable :
        Accountable ((normalPass mode budget).normalize depth type) :=
      inferInstance
    rcases accountable.reported fresh with same | ⟨_, loud⟩
    · exact same
    · exact absurd quiet loud
  exact ⟨false, flag, rfl, lowered, quietRun⟩

/-- Normalization that settles answers with a normal form. -/
theorem normalizeIn_settles
    (mode : NormalMode)
    [mode.evaluate.Reports]
    (sound : fragment.Sound reading mode.checker.arena)
    (plain : fragment.intersections = false)
    (admitted : fragment.admits type = true)
    (settles : Check.Settles (normalizeIn mode budget depth type) result) :
    IsNormalOf fragment reading mode.checker.arena type result := by
  have renders := normalizeIn_renders mode sound admitted settles.answers
  have run := settles_of_normalizeIn settles
  exact ⟨renders.admits, renders.holds,
    normalPass_flattens mode plain budget admitted run,
    (normalPass_keepsPositions mode plain budget).normalize admitted
      run.answers⟩

end Checking

end StructuralTyping
