import StructuralTyping.Proofs.Enumerations
import StructuralTyping.Proofs.SplitObjects

namespace StructuralTyping

/-!
# A target intersection of objects accepts what all of its members accept

The members of a target intersection are merged into one object first. A source
is assignable to that object if it is assignable to each of the members, wherever
the types of the properties that they share have a meet.
-/

open Stateful Relating

/-- A shape that is identical with another one meets it in itself. -/
theorem MeetsShape.of_identical
    {checker : Checker}
    {equal : Ty → Ty → Bool}
    {first second : Shape Ty}
    (shares :
      first.Shares
        (fun type other =>
          equal type other = true → checker.IsMeet type other type)
        second)
    (same : equalNodes equal (.ofShape first) (.ofShape second) = true) :
    MeetsShape checker first second first := by
  simp only [equalNodes, Ty.ofShape, Bool.and_eq_true, beq_iff_eq] at same
  obtain ⟨⟨length, each⟩, index⟩ := same
  rw [List.all_eq_true] at each
  refine ⟨shares.names, fun name => ?_, ?_⟩
  · cases found : first.property? name with
    | none =>
        cases otherFound : second.property? name with
        | none => exact .none
        | some other =>
            obtain ⟨inSecond, sameName⟩ := Shape.mem_of_property? otherFound
            obtain ⟨property, inFirst, beside⟩ :=
              exists_counterpart shares.names shares.otherNames length each
                inSecond
            have named := (Shape.mem_of_property? beside).2
            rw [← sameName, named,
              Shape.property?_of_mem shares.names inFirst] at found
            cases found
    | some property =>
        obtain ⟨inFirst, sameName⟩ := Shape.mem_of_property? found
        have equals := each property inFirst
        unfold equalProperty at equals
        rw [sameName] at equals
        cases otherFound : second.property? name with
        | none =>
            rw [otherFound] at equals
            cases equals
        | some other =>
            obtain ⟨inSecond, otherName⟩ := Shape.mem_of_property? otherFound
            rw [otherFound] at equals
            simp only [Bool.and_eq_true, beq_iff_eq] at equals
            refine .both (by rw [← equals.1.1, Bool.and_self]) ?_
            exact shares.properties property inFirst other inSecond
              (sameName.trans otherName.symm) equals.2
  · have shared := shares.index
    generalize first.index = one at shared index ⊢
    generalize second.index = another at shared index ⊢
    cases one with
    | none =>
        cases another with
        | none => exact .none
        | some => cases index
    | some one =>
        cases another with
        | none => cases index
        | some another =>
            simp only [equalIndex, Bool.and_eq_true] at index
            obtain ⟨governs, meets⟩ := shared one rfl another rfl
            exact .both (fun _ => rfl) governs (meets index.2)

namespace Checker

variable {checker : Checker}

/--
Forms whose intersection is a meet: one form twice, enumerations that are not
too large, or objects without index signature whose shared properties have such
types.
-/
inductive Compatible
    (checker : Checker) :
    Ty →
    Ty →
    Prop
  | same
      (again : Reaches checker form form)
      (recognized : checker.arena.identical form form = true) :
      Compatible checker form form
  | enumerations
      (again : Reaches checker first first)
      (otherAgain : Reaches checker second second)
      (enumerates : first.Enumerates)
      (otherEnumerates : second.Enumerates)
      (small : productTooLarge 1 [first, second] = false) :
      Compatible checker first second
  | objects
      {first second : Shape Ty}
      (again : Reaches checker (.ofShape first) (.ofShape first))
      (otherAgain : Reaches checker (.ofShape second) (.ofShape second))
      (properties :
        ∀ property ∈ first.properties, ∀ other ∈ second.properties,
          property.name = other.name →
          Compatible checker property.type other.type) :
      Compatible checker (.ofShape first) (.ofShape second)

/-- What is found in an enumeration is found in one that is identical with it. -/
theorem isOneOf_of_identical
    {form first second : Ty}
    (enumerates : first.Enumerates)
    (otherEnumerates : second.Enumerates)
    (again : Reaches checker first first)
    (otherAgain : Reaches checker second second)
    (same : checker.arena.identicalWithin depth [] first second = true)
    (found : form.isOneOf first = true) :
    form.isOneOf second = true := by
  have atomic {member : Ty} (inFirst : member ∈ first.members) :=
    atomic_of_enumerates enumerates again inFirst
  have otherAtomic {member : Ty} (inSecond : member ∈ second.members) :=
    atomic_of_enumerates otherEnumerates otherAgain inSecond
  rcases again.identical_cases otherAgain same with rfl | ⟨nearer, -, equals⟩
  · exact found
  obtain ⟨member, inFirst, taken⟩ := List.any_eq_true.mp found
  have bothUnions : first.isUnion = second.isUnion := by
    cases first <;> cases second <;> first | rfl | cases equals
  cases isUnion : first.isUnion with
  | false =>
      have members := Ty.members_eq isUnion
      have otherMembers := Ty.members_eq (bothUnions ▸ isUnion)
      have taken : form.isTakenAs first = true := by
        rw [members, List.mem_singleton] at inFirst
        exact inFirst ▸ taken
      rw [(atomic (by simp [members])).isTakenAs_congr
        (otherAtomic (by simp [otherMembers])) (.inr same)] at taken
      rw [Ty.isOneOf, otherMembers, List.any_cons, taken, Bool.true_or]
  | true =>
      cases first with
      | union =>
          cases second with
          | union =>
              simp only [equalNodes, sameMembers, Bool.and_eq_true,
                List.all_eq_true] at equals
              obtain ⟨other, inSecond, same⟩ :=
                List.any_eq_true.mp (equals.1 member inFirst)
              refine List.any_eq_true.mpr ⟨other, inSecond, ?_⟩
              rw [(otherAtomic inSecond).isTakenAs_congr (atomic inFirst)
                (.inr same)]
              exact taken
          | _ => cases equals
      | _ => cases isUnion

/-- A form that is identical with a compatible one is their meet. -/
theorem Compatible.meet_of_identical
    {first second : Ty}
    (compatible : checker.Compatible first second)
    (strict : checker.options.strictNullChecks = true)
    (same : checker.arena.identicalWithin depth [] first second = true) :
    checker.IsMeet first second first := by
  induction compatible generalizing depth with
  | same again => exact .self again
  | enumerations again otherAgain enumerates otherEnumerates =>
      refine .enumerations strict again enumerates otherEnumerates
        enumerates.atoms fun _ => ⟨fun found => ⟨found, ?_⟩, And.left⟩
      exact isOneOf_of_identical enumerates otherEnumerates again otherAgain
        same found
  | objects again otherAgain properties inductionHypothesis =>
      rcases again.identical_cases otherAgain same with
        equal | ⟨nearer, -, equals⟩
      · cases equal
        exact .self again
      refine .objects strict again otherAgain (.of_identical ?_ equals)
      exact
        { names := again.shape_closed.1
          otherNames := otherAgain.shape_closed.1
          properties := fun property inFirst other inSecond named same =>
            inductionHypothesis property inFirst other inSecond named same
          index := fun index written => by
            cases again.shape_closed.2.symm.trans written }

/-- The intersection of two objects is what they are merged into. -/
theorem intersection_objects
    {first second : Ty}
    {shape other : Shape Ty}
    {budget : Nat}
    (normalizes : checker.NormalizesTo first (.ofShape shape))
    (otherNormalizes : checker.NormalizesTo second (.ofShape other))
    (meets :
      ∀ less,
        shape.Shares
          ((normalPass (checker.modeKeeping keepReferences) less).Meets checker
            depth)
          other)
    (alike :
      checker.arena.identical (.ofShape shape) (.ofShape other) = true →
      MeetsShape checker shape other shape)
    (settles :
      Settles
        ((normalPass (checker.modeKeeping keepReferences) budget).intersection
          depth [first, second])
        result) :
    ∃ met, result = .ofShape met ∧ MeetsShape checker shape other met := by
  obtain ⟨less, ⟨-, settles⟩ | ⟨anyUnion, -⟩⟩ :=
    intersection_pair normalizes otherNormalizes rfl rfl settles
  swap
  · cases anyUnion
  have noTop :
      ([Ty.ofShape shape, .ofShape other].find? fun type =>
        type.isNever || type.isPrimitive .any) = none :=
    rfl
  have kept :
      ([Ty.ofShape shape, .ofShape other].filter fun type =>
        !type.isPrimitive .unknown) = [.ofShape shape, .ofShape other] :=
    rfl
  unfold NormalPass.meetMembers at settles
  simp only [noTop, kept] at settles
  cases same :
      checker.arena.identical (.ofShape shape) (.ofShape other) with
  | true =>
      have once :
          [Ty.ofShape shape, .ofShape other].foldl checker.arena.appendUnique
              [] =
            [.ofShape shape] := by
        simp [Arena.appendUnique, same]
      rw [once] at settles
      exact ⟨shape, settles.of_pure, alike same⟩
  | false =>
      have twice :
          [Ty.ofShape shape, .ofShape other].foldl checker.arena.appendUnique
              [] =
            [.ofShape shape, .ofShape other] := by
        simp [Arena.appendUnique, same]
      have apart :
          reduceAtoms [Ty.ofShape shape, .ofShape other] =
            some [.ofShape shape, .ofShape other] :=
        rfl
      rw [twice, apart] at settles
      obtain ⟨merged, merges, settles⟩ :=
        @Settles.of_bind _ _ _ _ _ _ (fun _ => by split <;> infer_instance) _
          settles
      obtain ⟨met, folds, merges⟩ := merges.of_bind
      cases merges.of_pure
      obtain ⟨between, mergesShape, folds⟩ := folds.of_bind
      cases folds.of_pure
      exact ⟨_, settles.of_pure, NormalPass.mergeShape_meets (meets less)
        mergesShape⟩

/-- What two compatible forms come to in a merged object is their meet. -/
theorem Compatible.meets
    {first second : Ty}
    {budget : Nat}
    (compatible : checker.Compatible first second)
    (strict : checker.options.strictNullChecks = true) :
    (normalPass (checker.modeKeeping keepReferences) budget).Meets checker depth
      first second := by
  induction compatible generalizing budget with
  | same again recognized =>
      rintro type (⟨-, rfl⟩ | ⟨differ, -⟩)
      · exact .self again
      · cases differ.symm.trans recognized
  | enumerations again otherAgain enumerates otherEnumerates small =>
      rintro type (⟨same, rfl⟩ | ⟨-, settles⟩)
      · exact meet_of_identical
          (.enumerations again otherAgain enumerates otherEnumerates small)
          strict same
      · exact .of_enumerations enumerates otherEnumerates again otherAgain
          strict small settles
  | @objects shape other again otherAgain properties inductionHypothesis =>
      have compatible := Compatible.objects again otherAgain properties
      rintro type (⟨same, rfl⟩ | ⟨differ, settles⟩)
      · exact compatible.meet_of_identical strict same
      · obtain ⟨met, rfl, meets⟩ :=
          intersection_objects again.normalizesTo otherAgain.normalizesTo
            (fun less =>
              { names := again.shape_closed.1
                otherNames := otherAgain.shape_closed.1
                properties := fun property inFirst other inSecond named =>
                  inductionHypothesis property inFirst other inSecond named
                index := fun index written => by
                  cases again.shape_closed.2.symm.trans written })
            (fun same => by cases differ.symm.trans same) settles
        exact .objects strict again otherAgain meets

end Checker

/-- Normalizing an object leads to the members that its members reach. -/
theorem ReachesShape.normalizesTo
    {checker : Checker}
    {shape form : Shape Ty}
    (reaches : ReachesShape checker shape form) :
    checker.NormalizesTo (.object node shape) (.ofShape form) := by
  refine .of_node rfl fun keepReferences budget depth result settles => ?_
  obtain ⟨normal, visits, settles⟩ := Settles.of_bind settles
  obtain ⟨visited, indexed⟩ := NormalPass.normalizeShape_cases visits
  have sameProperties : normal.properties = form.properties := by
    refine List.forall₂_eq_eq_eq ▸
      forall₂_trans_of_mem visited.flip reaches.properties ?_
    rintro after - before - wanted - ⟨same, inside⟩ ⟨otherSame, reaches⟩
    rw [same, otherSame,
      reaches.normalizesTo.inner reaches.isApplication inside]
  have sameIndex : normal.index = form.index := by
    have reached := reaches.index
    generalize normal.index = one at indexed ⊢
    generalize form.index = other at reached ⊢
    generalize shape.index = written at indexed reached
    cases indexed with
    | none =>
        cases reached
        rfl
    | @some index after visited =>
        cases reached with
        | @some _ wanted reached =>
        obtain ⟨key, value⟩ := visited
        obtain ⟨sameKey, ⟨kind, isKind⟩, reached⟩ := reached
        have kept : checker.NormalizesTo (.primitive kind) (.primitive kind) :=
          .of_node rfl fun _ _ _ _ settles => settles.of_pure
        obtain ⟨afterKey, afterValue⟩ := after
        obtain ⟨wantedKey, wantedValue⟩ := wanted
        rw [isKind] at key sameKey
        dsimp only at key value sameKey reached
        rw [kept.inner rfl key, sameKey,
          reached.normalizesTo.inner reached.isApplication value]
  obtain ⟨_, _⟩ := normal
  obtain ⟨_, _⟩ := form
  cases sameProperties
  cases sameIndex
  exact settles.of_pure

/-- The members of a merged object reach themselves if those of the two do. -/
theorem MeetsShape.related_self
    {checker : Checker}
    {first second met : Shape Ty}
    (meets : MeetsShape checker first second met)
    (again : ∀ type ∈ first.types, Reaches checker type type)
    (otherAgain : ∀ type ∈ second.types, Reaches checker type type) :
    RelatedShape (Reaches checker) met met := by
  have known {shape : Shape Ty} {name : String} {property : Property Ty}
      (again : ∀ type ∈ shape.types, Reaches checker type type)
      (found : shape.property? name = some property) :
      Reaches checker property.type property.type :=
    again _ (Shape.type_mem_types (Shape.mem_of_property? found).1)
  refine ⟨List.forall₂_same.mpr fun property inMet => ⟨rfl, rfl, ?_⟩, ?_⟩
  · have properties := meets.properties property.name
    rw [Shape.property?_of_mem meets.names inMet] at properties
    generalize one : first.property? property.name = before at properties
    generalize another : second.property? property.name = after at properties
    cases properties with
    | left => exact known again one
    | right => exact known otherAgain another
    | both _ meets => exact meets.again
  · have index := meets.index
    generalize one : first.index = before at index
    generalize another : second.index = after at index
    generalize met.index = merged at index ⊢
    cases index with
    | none => exact .none
    | left => exact .some ⟨rfl, again _ (Shape.value_mem_types one)⟩
    | right => exact .some ⟨rfl, otherAgain _ (Shape.value_mem_types another)⟩
    | both _ _ meets => exact .some ⟨rfl, meets.again⟩

namespace ReachesOpen

variable {checker : Checker} {source form : Ty}

/-- What reaches a form, an open object included, is no top type or reference. -/
theorem plain
    (reaches : ReachesOpen checker source form) :
    source.isAbsent = false ∧ source.isPrimitive .any = false ∧
      source.isPrimitive .unknown = false ∧ source.isReference = false := by
  cases reaches with
  | object => exact ⟨rfl, rfl, rfl, rfl⟩
  | closed reaches =>
      exact ⟨reaches.isAbsent, reaches.isPrimitive.1, reaches.isPrimitive.2,
        reaches.isReference⟩

/-- Only `never` reaches `never`, open objects included. -/
theorem isNever
    (reaches : ReachesOpen checker source form) :
    source.isPrimitive .never = form.isPrimitive .never := by
  cases reaches with
  | object => rfl
  | closed reaches => exact reaches.isNever

/-- Only a union reaches a union, open objects included. -/
theorem form_isUnion
    (reaches : ReachesOpen checker source form)
    (notUnion : source.isUnion = false) :
    form.isUnion = false := by
  cases reaches with
  | object => rfl
  | closed reaches => exact reaches.form_isUnion notUnion

end ReachesOpen

/-- A form is never the same node as an object. -/
theorem Reaches.sameNode_object
    {checker : Checker}
    {form : Ty}
    {shape : Shape Ty}
    (again : Reaches checker form form) :
    form.sameNode (.object node shape) = false := by
  cases same : form.sameNode (.object node shape) with
  | false => rfl
  | true =>
      cases Checker.eq_of_sameNode same
      cases again
      cases same

namespace Checker

/-- A comparison holds at once for one node, or goes one step further. -/
theorem compareWithin_step
    {checker : Checker}
    {source target : Ty}
    (present : source.isAbsent = false)
    (targetPresent : target.isAbsent = false)
    (settles :
      Settles (checker.compareWithin remaining assumptions source target)
        answer) :
    source.sameNode target = true ∧ answer = true ∨
      ∃ below, remaining = below + 1 ∧
        Settles
          (RelationStep.relate
            { checker
              depth := checker.options.maxDepth - below
              compare := checker.compareWithin below }
            assumptions source target)
          answer := by
  have kept {type : Ty} (present : type.isAbsent = false) :
      type.orElse .unknown = type := by
    cases type <;> first | rfl | cases present
  unfold compareWithin at settles
  dsimp only at settles
  rw [kept present, kept targetPresent] at settles
  split at settles
  · next same => exact .inl ⟨same, settles.of_pure⟩
  cases remaining with
  | zero => exact absurd settles failAtBound_never_settles
  | succ below => exact .inr ⟨below, rfl, settles⟩

section Sources

variable
  {checker : Checker}
  {source form : Ty}
  (strict : checker.options.strictNullChecks = true)

include strict

/-- A comparison with what has values and is no union starts with the source. -/
theorem relate_source
    {step : RelationStep}
    (sameChecker : step.checker = checker)
    (reaches : ReachesOpen checker source form)
    (plain : ∀ kind, target.isPrimitive kind = false)
    (unreferenced : target.isReference = false)
    (settles : Settles (step.relate assumptions source target) answer) :
    form.isPrimitive .never = true ∧ answer = true ∨
      form.isPrimitive .never = false ∧
        Settles
          (if source.isUnion then
            step.fromUnion assumptions source target
          else if target.isUnion then
            step.toUnion assumptions source target
          else if RelationStep.isIntersection target then
            step.toIntersection assumptions source target
          else if RelationStep.isIntersection source then
            step.fromIntersection assumptions source target
          else
            step.compareShapes assumptions source target)
          answer := by
  obtain ⟨-, notAny, notUnknown, notReference⟩ := reaches.plain
  unfold RelationStep.relate at settles
  rw [notAny, notUnknown, notReference, plain, plain, plain, unreferenced,
    reaches.isNever, sameChecker, strict] at settles
  cases isNever : form.isPrimitive .never with
  | true =>
      rw [isNever] at settles
      exact .inl ⟨rfl, settles.of_pure⟩
  | false =>
      rw [isNever] at settles
      exact .inr ⟨rfl, settles⟩

variable (unmixed : form.Every Ty.Unmixed)

include unmixed

/--
Comparison of what is no union with an object is decided by what its form
exposes. An object that is compared with itself has to fit its own members.
-/
theorem compareWithin_whole
    {shape shapeForm : Shape Ty}
    (reaches : ReachesOpen checker source form)
    (notUnion : source.isUnion = false)
    (inhabited : form.isPrimitive .never = false)
    (shaped : RelatedShape (Reaches checker) shape shapeForm)
    (own :
      source.sameNode (.object node shape) = true →
      TakesObject checker.arena checker.Admits form shapeForm)
    (settles :
      Settles
        (checker.compareWithin remaining {} source (.object node shape))
        answer) :
    Decided answer
      (TakesObject checker.arena checker.Admits form shapeForm)
      (TakesObject checker.arena checker.Accepts form shapeForm) := by
  induction remaining using Nat.strongRecOn generalizing source with
  | _ remaining nearer =>
  obtain ⟨same, rfl⟩ | ⟨below, rfl, relates⟩ :=
    compareWithin_step reaches.plain.1 rfl settles
  · exact .accepted (own same)
  obtain ⟨isNever, -⟩ | ⟨-, settles⟩ :=
    relate_source strict rfl reaches (fun _ => rfl) rfl relates
  · cases isNever.symm.trans inhabited
  rw [if_neg (by simp [notUnion]), if_neg (by simp [Ty.isUnion]),
    if_neg (by simp [RelationStep.isIntersection])] at settles
  split at settles
  · next isMet =>
    obtain ⟨reaches⟩ | reaches := reaches
    swap
    · cases isMet
    -- What an intersection comes to is compared once more.
    have again := reaches.again_members.1
    rcases RelationStep.fromIntersection_cases reaches settles with
      settles | ⟨isMet, -⟩
    · exact nearer below (Nat.lt_succ_self below) (.closed again)
        (reaches.form_isUnion notUnion)
        (fun same => by cases again.sameNode_object.symm.trans same) settles
    · cases isMet.symm.trans unmixed.here
  · next isSimple =>
    have simple : source.isCompound = false := by
      rw [Ty.isCompound, notUnion, Bool.false_or]
      simpa using isSimple
    exact RelationStep.toObject_decided rfl compareWithin_decided reaches simple
      shaped apart_nil settles

/--
Comparison is decided member by member if it is for what is no union, where the
target is no union and stands for nothing else.
-/
theorem compareWithin_each
    {target : Ty}
    {necessary sufficient : Ty → Prop}
    (reaches : ReachesOpen checker source form)
    (present : target.isAbsent = false)
    (plain : ∀ kind, target.isPrimitive kind = false)
    (unreferenced : target.isReference = false)
    (notUnion : target.isUnion = false)
    (apart :
      ∀ {member}, Reaches checker member member →
        member.Every Ty.Unmixed →
        member.sameNode target = false)
    (own : source.sameNode target = true → necessary form)
    (whole :
      ∀ {remaining source form answer},
        ReachesOpen checker source form →
        form.Every Ty.Unmixed →
        source.isUnion = false →
        form.isPrimitive .never = false →
        (source.sameNode target = true → necessary form) →
        Settles (checker.compareWithin remaining {} source target) answer →
        Decided answer (necessary form) (sufficient form))
    (settles :
      Settles (checker.compareWithin remaining {} source target) answer) :
    Decided answer
      (form.isPrimitive .never = true ∨
        ∀ member ∈ form.members, necessary member)
      (form.isPrimitive .never = true ∨
        ∀ member ∈ form.members, sufficient member) := by
  induction remaining using Nat.strongRecOn generalizing source with
  | _ remaining nearer =>
  cases isUnion : source.isUnion with
  | false =>
      rw [Ty.members_eq (reaches.form_isUnion isUnion)]
      simp only [List.forall_mem_singleton]
      cases isNever : form.isPrimitive .never with
      | false =>
          simp only [Bool.false_eq_true, false_or]
          exact whole reaches unmixed isUnion isNever own settles
      | true =>
          obtain ⟨-, rfl⟩ | ⟨below, rfl, relates⟩ :=
            compareWithin_step reaches.plain.1 present settles
          · exact .accepted (.inl rfl)
          obtain ⟨-, rfl⟩ | ⟨inhabited, -⟩ :=
            relate_source strict rfl reaches plain unreferenced relates
          · exact .accepted (.inl rfl)
          · cases isNever.symm.trans inhabited
  | true =>
  obtain ⟨reaches⟩ | reaches := reaches
  swap
  · cases isUnion
  have again := reaches.again_members.1
  obtain ⟨same, -⟩ | ⟨below, rfl, relates⟩ :=
    compareWithin_step reaches.isAbsent present settles
  · cases eq_of_sameNode same
    cases isUnion.symm.trans notUnion
  obtain ⟨isNever, rfl⟩ | ⟨inhabited, settles⟩ :=
    relate_source strict rfl (.closed reaches) plain unreferenced relates
  · exact .accepted (.inl isNever)
  rw [if_pos isUnion] at settles
  rcases RelationStep.fromUnion_cases reaches settles with
    settles | ⟨-, settles⟩
  · refine nearer below (Nat.lt_succ_self below) (.closed again) (fun same => ?_)
      settles
    cases (apart again unmixed).symm.trans same
  -- The members are compared one by one, and none of them is a union.
  refine (decided_allOf_map (List.forall₂_same.mpr fun _ _ => rfl)
    (fun member inForm other same answer settles => ?_) settles).imp .inr
    fun enough => enough.resolve_left (by simp [inhabited])
  subst same
  obtain ⟨memberAgain, memberWhole⟩ := again.again_members.2 member inForm
  obtain ⟨-, valued⟩ := again.members_proper inhabited
  have memberUnmixed := unmixed.member inForm
  have memberInhabited : member.isPrimitive .never = false := by
    have valued := valued member inForm
    cases member <;> first | rfl | exact valued
  exact whole (.closed memberAgain) memberUnmixed memberWhole memberInhabited
    (fun same => by
      cases (apart memberAgain memberUnmixed).symm.trans same)
    (settles_orFail settles)

end Sources

section Objects

variable
  {checker : Checker}
  {source form : Ty}
  {first second firstForm secondForm : Shape Ty}
  (strict : checker.options.strictNullChecks = true)
  (shaped : ReachesShape checker first firstForm)
  (otherShaped : ReachesShape checker second secondForm)
  (compatible : firstForm.Shares checker.Compatible secondForm)

include strict shaped otherShaped compatible

/-- The intersection of two objects normalizes to what they are merged into. -/
theorem met_of_intersection
    {budget : Nat}
    (settles :
      Settles
        ((normalPass (checker.modeKeeping keepReferences) budget).normalize
          depth
          (.intersection occurrence [.object node first, .object other second]))
        result) :
    ∃ met,
      result = .ofShape met ∧ MeetsShape checker firstForm secondForm met := by
  cases budget with
  | zero => exact (not_settles_emptyPass settles).elim
  | succ budget =>
  change
    Settles
      ((normalPass (checker.modeKeeping keepReferences) budget).nextNormalize
        (checker.modeKeeping keepReferences) depth
        (.intersection occurrence [.object node first, .object other second]))
      result at settles
  unfold NormalPass.nextNormalize at settles
  rw [if_neg (by simp [Ty.isAbsent])] at settles
  split at settles
  · obtain ⟨_, reported, _⟩ := settles.of_bind
    exact absurd reported not_settles_reportOnce
  refine intersection_objects shaped.normalizesTo otherShaped.normalizesTo
    (fun _ => compatible.imp fun compatible => compatible.meets strict)
    (fun same => ?_) settles
  rw [identical_ofShape] at same
  exact .of_identical
    (compatible.imp fun compatible => compatible.meet_of_identical strict) same

/--
Comparison of what is no union with the intersection of two objects is decided
by both of them.
-/
theorem compareWithin_met
    (reaches : ReachesOpen checker source form)
    (unmixed : form.Every Ty.Unmixed)
    (notUnion : source.isUnion = false)
    (inhabited : form.isPrimitive .never = false)
    (own :
      source.sameNode
          (.intersection occurrence
            [.object node first, .object other second]) =
        true →
      TakesObject checker.arena checker.Accepts form firstForm ∧
        TakesObject checker.arena checker.Accepts form secondForm)
    (settles :
      Settles
        (checker.compareWithin remaining {} source
          (.intersection occurrence
            [.object node first, .object other second]))
        answer) :
    Decided answer
      (TakesObject checker.arena checker.Accepts form firstForm ∧
        TakesObject checker.arena checker.Accepts form secondForm)
      (TakesObject checker.arena checker.Admits form firstForm ∧
        TakesObject checker.arena checker.Admits form secondForm) := by
  obtain ⟨same, rfl⟩ | ⟨below, rfl, relates⟩ :=
    compareWithin_step reaches.plain.1 rfl settles
  · exact .accepted (own same)
  obtain ⟨isNever, -⟩ | ⟨-, settles⟩ :=
    relate_source strict rfl reaches (fun _ => rfl) rfl relates
  · cases isNever.symm.trans inhabited
  rw [if_neg (by simp [notUnion]), if_neg (by simp [Ty.isUnion]),
    if_pos (by simp [RelationStep.isIntersection])] at settles
  obtain ⟨normal, normalizes, settles⟩ :=
    @Settles.of_bind _ _ _ _ _ _ (fun _ => by split <;> infer_instance) _
      settles
  obtain ⟨met, rfl, meets⟩ :=
    met_of_intersection strict shaped otherShaped compatible
      (@settles_of_normalizeIn _ _ _ _ (checker.modeKeeping true) _
        normalizes.of_lift)
  have again := shaped.again
  have otherAgain := otherShaped.again
  have fresh :
      source.sameNode (.object none met) = true →
        TakesObject checker.arena checker.Admits form met := by
    intro same
    cases eq_of_sameNode same
    cases same
  refine (compareWithin_whole strict unmixed reaches notUnion inhabited
    (meets.related_self again otherAgain) fresh settles).imp
    (fun takes => ⟨?_, ?_⟩) fun both => ?_
  · exact meets.takes_left strict reaches unmixed again compatible.names takes
  · exact meets.symm.takes_left strict reaches unmixed otherAgain
      compatible.otherNames takes
  · exact meets.takes_both strict reaches unmixed again otherAgain both.1
      both.2

end Objects

end Checker

/-- A shape has the names of the one that it reaches. -/
theorem ReachesShape.names
    {checker : Checker}
    {shape form : Shape Ty}
    (reaches : ReachesShape checker shape form) :
    form.names = shape.names := by
  have same :
      List.Forall₂ (· = ·)
        (form.properties.map Property.name)
        (shape.properties.map Property.name) := by
    rw [List.forall₂_map_left_iff, List.forall₂_map_right_iff]
    exact reaches.properties.flip.imp fun _ _ ⟨same, _⟩ => by rw [same]
  exact List.forall₂_eq_eq_eq ▸ same

/-- An object without index signature reaches what its members reach. -/
theorem ReachesShape.reaches
    {checker : Checker}
    {shape form : Shape Ty}
    (shaped : ReachesShape checker shape form)
    (distinct : form.names.Nodup)
    (closed : shape.index = none) :
    Reaches checker (.object node shape) (.ofShape form) := by
  have formClosed : form.index = none := by
    have index := shaped.index
    rw [closed] at index
    generalize form.index = written at index
    cases index
    rfl
  exact .object (shaped.properties.imp fun _ _ => And.left)
    (fun before after beside =>
      ((forall_zip shaped.properties).2 before after beside).2)
    (shaped.names ▸ distinct) closed formClosed

/-- What reaches a form as an object without index signature fits its members. -/
theorem ReachesOpen.takesObject_own
    {checker : Checker}
    {shape shapeForm : Shape Ty}
    (reaches : ReachesOpen checker (.object node shape) form)
    (shaped : ReachesShape checker shape shapeForm)
    (distinct : shapeForm.names.Nodup)
    (closed : shape.index = none) :
    TakesObject checker.arena checker.Admits form shapeForm := by
  have written : Reaches checker (.object node shape) (.ofShape shapeForm) :=
    shaped.reaches distinct closed
  have same : form = .ofShape shapeForm := by
    cases reaches with
    | closed reaches => exact written.unique reaches
    | @object _ _ otherForm other =>
        have distinct : otherForm.names.Nodup := by
          rw [other.names, ← shaped.names]
          exact distinct
        exact written.unique (other.reaches distinct closed)
  exact same ▸ Checker.takesObject_self written.again_members.1

namespace Checker

variable {checker : Checker}

/-- Assignability to an object is decided by what each member exposes. -/
theorem isAssignable_object
    {source form : Ty}
    {shape shapeForm : Shape Ty}
    (strict : checker.options.strictNullChecks = true)
    (reaches : ReachesOpen checker source form)
    (unmixed : form.Every Ty.Unmixed)
    (shaped : ReachesShape checker shape shapeForm)
    (distinct : shapeForm.names.Nodup)
    (own : source = .object node shape → shape.index = none)
    (assigns :
      Check.Settles (checker.isAssignable source (.object node shape)) answer) :
    Decided answer
      (form.isPrimitive .never = true ∨
        ∀ member ∈ form.members,
          TakesObject checker.arena checker.Admits member shapeForm)
      (form.isPrimitive .never = true ∨
        ∀ member ∈ form.members,
          TakesObject checker.arena checker.Accepts member shapeForm) := by
  refine compareWithin_each strict unmixed reaches rfl (fun _ => rfl) rfl rfl
    (fun again _ => again.sameNode_object) (fun same => ?_)
    (fun reaches unmixed notUnion inhabited own settles =>
      compareWithin_whole strict unmixed reaches notUnion inhabited
        shaped.related own settles)
    (settles_of_isAssignable assigns)
  cases eq_of_sameNode same
  exact reaches.takesObject_own shaped distinct (own rfl)

/--
A type is assignable to the intersection of two objects if and only if it is
assignable to both of them, under strict null checks and where nothing is
reported. The objects may have optional and read-only properties and index
signatures. Index signatures that both have govern the same names, and the types
that both have for a name or an index are compatible. The source may be of any
kind, and if it is one of the two objects this has no index signature.
-/
theorem isAssignable_intersection
    {source form : Ty}
    {first second firstForm secondForm : Shape Ty}
    (strict : checker.options.strictNullChecks = true)
    (reaches : ReachesOpen checker source form)
    (unmixed : form.Every Ty.Unmixed)
    (shaped : ReachesShape checker first firstForm)
    (otherShaped : ReachesShape checker second secondForm)
    (compatible : firstForm.Shares checker.Compatible secondForm)
    (own : source = .object node first → first.index = none)
    (otherOwn : source = .object other second → second.index = none)
    (assigns :
      Check.Settles
        (checker.isAssignable source
          (.intersection occurrence
            [.object node first, .object other second]))
        answer)
    (assignsFirst :
      Check.Settles (checker.isAssignable source (.object node first))
        firstAnswer)
    (assignsSecond :
      Check.Settles (checker.isAssignable source (.object other second))
        secondAnswer) :
    answer = true ↔ firstAnswer = true ∧ secondAnswer = true := by
  have toFirst :=
    isAssignable_object strict reaches unmixed shaped compatible.names own
      assignsFirst
  have toSecond :=
    isAssignable_object strict reaches unmixed otherShaped compatible.otherNames
      otherOwn assignsSecond
  have apart {member : Ty}
      (unmixed : member.Every Ty.Unmixed) :
      member.sameNode
          (.intersection occurrence
            [.object node first, .object other second]) =
        false := by
    cases same :
        member.sameNode
          (.intersection occurrence
            [.object node first, .object other second]) with
    | false => rfl
    | true =>
        cases eq_of_sameNode same
        cases unmixed.here
  have toBoth :=
    compareWithin_each strict unmixed reaches rfl (fun _ => rfl) rfl rfl
      (fun _ => apart) (fun same => by
        -- The source is the intersection itself, and comes to one object.
        cases eq_of_sameNode same
        obtain ⟨reaches⟩ := reaches
        obtain ⟨_, _, _, result, settles⟩ :
            checker.IsSettled
              (.intersection occurrence
                [.object node first, .object other second]) := by
          cases reaches
          assumption
        cases reaches.normalizesTo _ _ _ _ settles
        obtain ⟨met, rfl, meets⟩ :=
          met_of_intersection strict shaped otherShaped compatible settles
        have again := reaches.again_members.1
        have takes := takesObject_self again
        exact ⟨meets.takes_left strict (.closed again) unmixed shaped.again
            compatible.names takes,
          meets.symm.takes_left strict (.closed again) unmixed otherShaped.again
            compatible.otherNames takes⟩)
      (fun reaches unmixed notUnion inhabited own settles =>
        compareWithin_met strict shaped otherShaped compatible reaches unmixed
          notUnion inhabited own settles)
      (settles_of_isAssignable assigns)
  constructor
  · intro positive
    have fits := toBoth.only positive
    exact
      ⟨toFirst.whenever (fits.imp_right fun each member inForm =>
          (each member inForm).1),
        toSecond.whenever (fits.imp_right fun each member inForm =>
          (each member inForm).2)⟩
  · rintro ⟨positive, otherPositive⟩
    refine toBoth.whenever ?_
    rcases toFirst.only positive with isNever | each
    · exact .inl isNever
    rcases toSecond.only otherPositive with isNever | otherEach
    · exact .inl isNever
    exact .inr fun member inForm =>
      ⟨each member inForm, otherEach member inForm⟩

section Digits

/-- An object with one of two constants. -/
def digitField : Shape Ty :=
  { properties := [{ name := "a", type := digits }] }

/-- An object whose members are all numbers, with a property that may be missing. -/
def numberFields : Shape Ty :=
  { properties :=
      [{ name := "a", type := .number, optional := true, readonly := true }]
    index := some { key := .string, value := .number } }

/-- One of two constants is a form. -/
theorem reaches_digits :
    Reaches plainChecker digits digits := by
  have constant (value : Nat) :
      Reaches plainChecker (.ofLiteral (.number (.ofNat value)))
        (.ofLiteral (.number (.ofNat value))) :=
    .literal (Literal.equal_self (Number.isNaN_ofNat value))
  refine .union rfl ?_ (by decide +kernel) rfl
  refine Reaches.forall_zip_self rfl fun before after beside => ?_
  have member := (List.of_mem_zip beside).2
  simp only [List.mem_cons, List.not_mem_nil, or_false] at member
  rcases member with rfl | rfl
  · exact constant 1
  · exact constant 2

/-- A constant is assignable where both a choice and all numbers are expected. -/
theorem isAssignable_intersection_digits :
    ∃ answer firstAnswer secondAnswer,
      Check.Settles
          (plainChecker.isAssignable (constantField "a" 1)
            (.intersection none [.ofShape digitField, .ofShape numberFields]))
          answer ∧
        Check.Settles
          (plainChecker.isAssignable (constantField "a" 1)
            (.ofShape digitField))
          firstAnswer ∧
        Check.Settles
          (plainChecker.isAssignable (constantField "a" 1)
            (.ofShape numberFields))
          secondAnswer ∧
        (answer = true ↔ firstAnswer = true ∧ secondAnswer = true) := by
  have numeric : Reaches plainChecker .number .number :=
    .primitive (by simp) (by simp)
  have shaped : ReachesShape plainChecker digitField digitField :=
    ⟨.cons ⟨rfl, reaches_digits⟩ .nil, .none⟩
  have otherShaped : ReachesShape plainChecker numberFields numberFields :=
    ⟨.cons ⟨rfl, numeric⟩ .nil, .some ⟨rfl, ⟨_, rfl⟩, numeric⟩⟩
  have compatible :
      digitField.Shares plainChecker.Compatible numberFields := by
    refine ⟨by decide, by decide, fun property inFirst other inSecond _ => ?_,
      fun _ written => by cases written⟩
    cases List.mem_singleton.mp inFirst
    cases List.mem_singleton.mp inSecond
    exact .enumerations reaches_digits numeric
      ⟨by decide, rfl⟩ ⟨by decide, rfl⟩ (by decide)
  have assigns :
      Check.Settles
        (plainChecker.isAssignable (constantField "a" 1)
          (.intersection none [.ofShape digitField, .ofShape numberFields]))
        true :=
    ⟨[], by decide +kernel, Log.quiet_nil⟩
  have assignsFirst :
      Check.Settles
        (plainChecker.isAssignable (constantField "a" 1) (.ofShape digitField))
        true :=
    ⟨[], by decide +kernel, Log.quiet_nil⟩
  have assignsSecond :
      Check.Settles
        (plainChecker.isAssignable (constantField "a" 1)
          (.ofShape numberFields))
        true :=
    ⟨[], by decide +kernel, Log.quiet_nil⟩
  exact ⟨_, _, _, assigns, assignsFirst, assignsSecond,
    isAssignable_intersection rfl (.closed (reaches_constantField "a" 1))
      (.node rfl (List.forall_mem_singleton.mpr (.leaf rfl rfl))) shaped
      otherShaped compatible (fun _ => rfl) (fun same => by cases same) assigns
      assignsFirst assignsSecond⟩

/-- An object whose members of some names are texts. -/
def textsUnder
    (key : Ty) :
    Ty :=
  .ofShape { index := some { key, value := .string } }

/-- An object with a number. -/
def numberField : Ty :=
  .ofShape { properties := [{ name := "a", type := .number }] }

/--
Where the index signatures govern different names the merged object keeps the
first of them, and a source that only the first object accepts is assignable to
the intersection.
-/
theorem isAssignable_intersection_keeps_first_key :
    Check.Settles
        (plainChecker.isAssignable numberField
          (.ofIntersection [textsUnder .number, textsUnder .string]))
        true ∧
      Check.Settles
        (plainChecker.isAssignable numberField (textsUnder .number)) true ∧
      Check.Settles
        (plainChecker.isAssignable numberField (textsUnder .string)) false :=
  ⟨⟨[], by decide +kernel, Log.quiet_nil⟩,
    ⟨[], by decide +kernel, Log.quiet_nil⟩,
    ⟨[], by decide +kernel, Log.quiet_nil⟩⟩

end Digits

end Checker

end StructuralTyping
