import StructuralTyping.Proofs.FlatterRuns
import StructuralTyping.Proofs.IdentityEquivalence
import StructuralTyping.Proofs.MergedBases
import StructuralTyping.Proofs.NarrowingPredicates
import StructuralTyping.Proofs.SumTypes

namespace StructuralTyping

/-!
# Type tags and guards on them

The type of `typeof x` lists the tags that the members of the type of `x` have,
and the guard `typeof x === tag` keeps the members that may have the tag. Both
expand the members of the same list one by one, so without intersections a tag is
listed exactly when the guard leaves something, provided that what it keeps stays
inhabited when the union of it is normalized once more.
-/

open Check

/-- The union of empty types is empty. -/
theorem Arena.joinMembers_isNever
    {arena : Arena}
    {types : List Ty}
    (empty : ∀ type ∈ types, type.isNever = true) :
    (arena.joinMembers types).isNever = true := by
  have none : (types.filter fun type => !type.isNever) = [] :=
    List.filter_eq_nil_iff.mpr fun type member => by simp [empty type member]
  unfold joinMembers
  rw [none]
  rfl

namespace Ty.IsJoined

variable {type : Ty}

/-- A joined type is empty when its members are. -/
theorem isNever
    (joined : type.IsJoined)
    (empty : ∀ member ∈ type.members, member.isNever = true) :
    type.isNever = true := by
  cases type with
  | union occurrence parts =>
      cases parts with
      | nil => rfl
      | cons part rest =>
          have inhabited := (joined _ _ rfl part List.mem_cons_self).2
          rw [empty part List.mem_cons_self] at inhabited
          cases inhabited
  | _ => exact empty _ (List.mem_singleton_self _)

/-- The members of an empty joined type are empty. -/
theorem isNever_member
    {member : Ty}
    (joined : type.IsJoined)
    (empty : type.isNever = true)
    (inMembers : member ∈ type.members) :
    member.isNever = true := by
  cases type with
  | union occurrence parts =>
      cases List.isEmpty_iff.mp empty
      cases inMembers
  | _ =>
      cases List.mem_singleton.mp inMembers
      exact empty

end Ty.IsJoined

namespace Checker

variable {checker : Checker} {type member : Ty} {tag : String}

/-- Normalized once more, the type stays inhabited, or stays empty. -/
def Enduring
    (checker : Checker)
    (type : Ty) :
    Prop :=
  ∀ normal, Settles (checker.normalize type) normal →
    normal.isNever = type.isNever

/-- A member that is inhabited and whose single tag, if it has one, is the given one. -/
structure MayHave
    (checker : Checker)
    (tag : String)
    (member : Ty) :
    Prop where
  inhabited : member.isNever = false
  tagged :
    ∃ expanded,
      Settles (checker.expand member) expanded ∧
        ∀ actual,
          checker.arena.typeofTag? expanded = some actual →
          actual = tag

/-- A member expands in one way, so its tag is that of what it expands to. -/
theorem mayHave_iff
    (inhabited : member.isNever = false)
    (expands : Settles (checker.expand member) expanded) :
    checker.MayHave tag member ↔
      ∀ actual,
        checker.arena.typeofTag? expanded = some actual →
        actual = tag := by
  constructor
  · rintro ⟨_, other, settles, tagged⟩
    cases expands.unique settles
    exact tagged
  · exact fun tagged => ⟨inhabited, expanded, expands, tagged⟩

/-- Normalization of a type that is there settles as that of its node does. -/
theorem settles_normalizeNode
    (present : type.isAbsent = false)
    (settles : Settles (checker.normalize type) normal) :
    ∃ less,
      checker.budget = less + 1 ∧
        Stateful.Settles
          ((normalPass checker.normalMode less).normalizeNode checker.normalMode 1
            type)
          normal :=
  settles_node present (settles_of_normalizeIn settles)

/-- The normal form of a union joins the normal forms of its members. -/
theorem settles_normalizeUnion
    (settles : Settles (checker.normalize (.union occurrence types)) normal) :
    ∃ forms,
      List.Forall₂ (fun type form => Settles (checker.normalize type) form)
          types forms ∧
        normal = checker.arena.joinMembers (flattenUnion forms) := by
  obtain ⟨less, _, settles⟩ := settles_normalizeNode rfl settles
  obtain ⟨forms, visits, same⟩ := NormalPass.union_cases settles
  refine ⟨forms, visits.of_mapM.imp fun type form visited => ?_, same⟩
  exact settles_normalize_of_deeper (by omega) visited

/-- An empty type stays empty. -/
theorem enduring_of_isNever
    (empty : type.isNever = true) :
    checker.Enduring type := by
  intro normal normalizes
  cases type with
  | primitive =>
      obtain ⟨_, _, settles⟩ := settles_normalizeNode rfl normalizes
      cases settles.of_pure
      rfl
  | union occurrence members =>
      cases List.isEmpty_iff.mp empty
      obtain ⟨forms, each, rfl⟩ := settles_normalizeUnion normalizes
      cases each
      rfl
  | _ => cases empty

/-- What is no union and no application stays inhabited. -/
theorem enduring_of_sum
    (sum : type.Sum)
    (notUnion : type.isUnion = false)
    (unapplied : type.isApplication = false) :
    checker.Enduring type := by
  intro normal normalizes
  obtain ⟨_, _, settles⟩ := settles_normalizeNode sum.present normalizes
  have here := sum.every.here
  cases type with
  | absent => cases sum.present
  | union => cases notUnion
  | generic => cases unapplied
  | intersection => exact here.elim
  | primitive | literal | named =>
      cases settles.of_pure
      rfl
  | object | array | tuple | function =>
      obtain ⟨_, _, settles⟩ := Stateful.Settles.of_bind settles
      cases settles.of_pure
      rfl

/-- What is no reference expands to itself. -/
theorem expand_self
    (admitted : Fragment.narrowing.admits member = true)
    (notUnion : member.isUnion = false) :
    Settles (checker.expand member) member := by
  rw [expand_eq_pure admitted notUnion]
  exact settles_pure.mpr rfl

/-- A boolean constant is kept by its own tag only. -/
theorem typeofMember_boolean
    (value : Bool) :
    checker.typeofMember tag true (.ofLiteral (.boolean value)) =
      pure (keepIf ("boolean" == tag) (.ofLiteral (.boolean value))) := by
  have expand :
      checker.expand (.ofLiteral (.boolean value)) =
        pure (.ofLiteral (.boolean value)) :=
    expand_eq_pure rfl rfl
  unfold typeofMember
  rw [expand, pure_bind, ← beq_true ("boolean" == tag)]
  rfl

/-- The primitive types `any` and `unknown`. -/
theorem top_of_isAnyOrUnknown
    (isTop : isAnyOrUnknown member = true) :
    member = .any ∨ member = .unknown :=
  (Bool.or_eq_true_iff.mp isTop).imp eq_of_isPrimitive eq_of_isPrimitive

/-- What the guard leaves of `any` and `unknown` is an inhabited primitive type. -/
theorem getD_tagPrimitive
    (isTop : isAnyOrUnknown member = true)
    (tag : String) :
    ∃ kind,
      (tagPrimitive? tag).getD member = .primitive kind ∧ kind ≠ .never := by
  unfold tagPrimitive?
  split
  case h_5 =>
    rcases top_of_isAnyOrUnknown isTop with rfl | rfl <;>
      exact ⟨_, rfl, nofun⟩
  all_goals exact ⟨_, rfl, nofun⟩

/-- Values of `any` and `unknown` may have every tag. -/
theorem mayHave_of_isAnyOrUnknown
    (isTop : isAnyOrUnknown member = true) :
    checker.MayHave tag member := by
  rcases top_of_isAnyOrUnknown isTop with rfl | rfl
  all_goals exact ⟨rfl, _, expand_self rfl rfl, nofun⟩

/--
What the guard leaves of a member: sums that stay inhabited if an application
does, and something inhabited exactly if the member may have the tag.
-/
structure Leaves
    (checker : Checker)
    (tag : String)
    (member : Ty)
    (results : List Ty) :
    Prop where
  sums : ∀ result ∈ results, result.isAbsent = false → result.Sum
  enduring :
    (member.isApplication = true → checker.Enduring member) →
    ∀ result ∈ results, result.isAbsent = false → checker.Enduring result
  inhabited :
    (∃ result ∈ results, result.isAbsent = false ∧ result.isNever = false) ↔
      checker.MayHave tag member

namespace Leaves

/-- A primitive type is a sum and stays as it is. -/
theorem primitive_sum
    (kind : Primitive) :
    (Ty.primitive kind).Sum ∧ checker.Enduring (.primitive kind) :=
  have sum : (Ty.primitive kind).Sum := ⟨rfl, .leaf trivial rfl⟩
  ⟨sum, enduring_of_sum sum rfl rfl⟩

/-- An inhabited primitive type is left of a member that may have the tag. -/
theorem primitive
    (inhabited : kind ≠ .never)
    (has : checker.MayHave tag member) :
    checker.Leaves tag member [.primitive kind] where
  sums _ inResults _ :=
    List.mem_singleton.mp inResults ▸ (@primitive_sum checker kind).1
  enduring _ _ inResults _ :=
    List.mem_singleton.mp inResults ▸ (primitive_sum kind).2
  inhabited :=
    iff_of_true
      ⟨_, List.mem_singleton_self _, rfl, decide_eq_false inhabited⟩ has

/-- Nothing is left of a member that does not have the tag. -/
theorem nothing
    (absent : ∀ result ∈ results, result.isAbsent = true)
    (lacks : ¬ checker.MayHave tag member) :
    checker.Leaves tag member results where
  sums result inResults present :=
    absurd (absent result inResults) (Bool.eq_false_iff.mp present)
  enduring _ result inResults present :=
    absurd (absent result inResults) (Bool.eq_false_iff.mp present)
  inhabited :=
    iff_of_false
      (fun ⟨result, inResults, present, _⟩ =>
        absurd (absent result inResults) (Bool.eq_false_iff.mp present))
      lacks

/-- A member that may have the tag, unless it is empty, is left as it is. -/
theorem whole
    (sum : member.Sum)
    (notUnion : member.isUnion = false)
    (has : member.isNever = false → checker.MayHave tag member) :
    checker.Leaves tag member [member] where
  sums _ inResults _ := List.mem_singleton.mp inResults ▸ sum
  enduring ofApplication result inResults _ := by
    cases List.mem_singleton.mp inResults
    cases applied : member.isApplication with
    | false => exact enduring_of_sum sum notUnion applied
    | true => exact ofApplication applied
  inhabited :=
    ⟨fun ⟨result, inResults, _, inhabited⟩ =>
      has (List.mem_singleton.mp inResults ▸ inhabited),
      fun has => ⟨_, List.mem_singleton_self _, sum.present, has.inhabited⟩⟩

end Leaves

/-- The guard leaves `boolean` whole for its own tag and nothing for others. -/
theorem narrowMember_boolean
    (settles :
      Settles (narrowMember (checker.typeofMember tag true) .boolean) results) :
    checker.Leaves tag .boolean results := by
  have tagged : checker.arena.typeofTag? .boolean = some "boolean" := rfl
  have has := @mayHave_iff checker .boolean tag _ rfl (expand_self rfl rfl)
  rw [tagged] at has
  have isBoolean : Ty.boolean.isPrimitive .boolean = true := rfl
  unfold narrowMember at settles
  rw [if_pos isBoolean] at settles
  dsimp only at settles
  rw [typeofMember_boolean, typeofMember_boolean, pure_bind, pure_bind] at settles
  by_cases same : "boolean" = tag
  · subst same
    cases settles_pure.mp settles
    exact .primitive nofun (has.mpr fun _ actual => (Option.some.inj actual).symm)
  · rw [beq_eq_false_iff_ne.mpr same] at settles
    cases settles_pure.mp settles
    exact .nothing
      (List.forall_mem_cons.mpr ⟨rfl, List.forall_mem_singleton.mpr rfl⟩)
      fun hasTag => same (has.mp hasTag _ rfl)

/-- The guard keeps a member by the tag of what it expands to. -/
theorem typeofMember_leaves
    (sum : member.Sum)
    (notUnion : member.isUnion = false)
    (settles : Settles (checker.typeofMember tag true member) result) :
    checker.Leaves tag member [result] := by
  unfold typeofMember at settles
  split at settles
  · next isTop =>
    obtain ⟨kind, isKind, inhabited⟩ := getD_tagPrimitive isTop tag
    rw [if_pos rfl, isKind] at settles
    cases settles_pure.mp settles
    exact .primitive inhabited (mayHave_of_isAnyOrUnknown isTop)
  · obtain ⟨expanded, expands, settles⟩ :=
      settles.of_bind fun expanded => by split <;> infer_instance
    split at settles
    · next untagged =>
      cases settles_pure.mp settles
      refine .whole sum notUnion fun inhabited => ?_
      rw [mayHave_iff inhabited expands, untagged]
      rintro actual ⟨⟩
    · next actual tagged =>
      cases settles_pure.mp settles
      by_cases same : actual = tag
      · rw [same, beq_self_eq_true, beq_self_eq_true, keepIf, if_pos rfl]
        refine .whole sum notUnion fun inhabited => ?_
        rw [mayHave_iff inhabited expands, tagged]
        exact fun _ other => (Option.some.inj other).symm.trans same
      · rw [beq_eq_false_iff_ne.mpr same]
        refine .nothing (List.forall_mem_singleton.mpr rfl) fun has => ?_
        exact same ((mayHave_iff has.inhabited expands).mp has actual tagged)

/-- The guard narrows a member by the tags that its values may have. -/
theorem narrowMember_leaves
    (sum : member.Sum)
    (notUnion : member.isUnion = false)
    (settles :
      Settles (narrowMember (checker.typeofMember tag true) member) results) :
    checker.Leaves tag member results := by
  by_cases isBoolean : member.isPrimitive .boolean = true
  · cases eq_of_isPrimitive isBoolean
    exact narrowMember_boolean settles
  · unfold narrowMember at settles
    rw [if_neg isBoolean] at settles
    obtain ⟨result, narrows, settles⟩ := settles_bind.mp settles
    cases settles_pure.mp settles
    exact typeofMember_leaves sum notUnion narrows

/-- The tags of members are collected from one member after the other. -/
theorem run_memberTags_cons
    (member : Ty)
    (rest : List Ty) :
    (checker.memberTags (member :: rest)).run =
      if member.isNever then
        (checker.memberTags rest).run
      else do
        match checker.arena.typeofTag? (← checker.expand member) with
        | none => return none
        | some tag =>
            return (← (checker.memberTags rest).run).map (tag :: ·) := by
  rw [memberTags]
  split
  · rfl
  · have lifted (next : Ty → OptionT Check (List String)) :
        (liftM (checker.expand member) >>= next : OptionT Check _).run =
          checker.expand member >>= fun expanded => (next expanded).run := by
      simp [OptionT.run_bind, Option.elimM]
    rw [lifted]
    refine congrArg (checker.expand member >>= ·) (funext fun expanded => ?_)
    cases checker.arena.typeofTag? expanded with
    | none => rfl
    | some tag =>
        change (checker.memberTags rest >>= fun tags => pure (tag :: tags)).run =
          (checker.memberTags rest).run >>= fun found =>
            pure (found.map (tag :: ·))
        rw [OptionT.run_bind]
        refine congrArg ((checker.memberTags rest).run >>= ·)
          (funext fun found => ?_)
        cases found <;> rfl

/-- The tags of members are those that one of them may have. -/
theorem mem_memberTags
    {members : List Ty}
    (known : tag ∈ typeofTags)
    (settles : Settles (checker.memberTags members).run found) :
    tag ∈ found.getD typeofTags ↔
      ∃ member ∈ members, checker.MayHave tag member := by
  induction members generalizing found with
  | nil =>
      cases settles_pure.mp settles
      simp
  | cons member rest inductionHypothesis =>
      rw [run_memberTags_cons] at settles
      rw [List.exists_mem_cons_iff]
      split at settles
      · next empty =>
        rw [inductionHypothesis settles, or_iff_right]
        intro has
        rw [has.inhabited] at empty
        cases empty
      · next inhabited =>
        obtain ⟨expanded, expands, settles⟩ :=
          settles.of_bind fun expanded => by split <;> infer_instance
        rw [mayHave_iff (Bool.eq_false_iff.mpr inhabited) expands]
        split at settles
        · next untagged =>
          cases settles_pure.mp settles
          rw [untagged]
          refine iff_of_true known (.inl ?_)
          rintro actual ⟨⟩
        · next actual tagged =>
          obtain ⟨others, restSettles, settles⟩ := settles_bind.mp settles
          cases settles_pure.mp settles
          rw [← inductionHypothesis restSettles, tagged]
          cases others with
          | none => exact iff_of_true known (.inr known)
          | some tags => simp [eq_comm]

/-- The literal type of a tag. -/
def tagLiteral
    (tag : String) :
    Ty :=
  .ofLiteral (.string (.ofString tag))

/-- The literal types of different tags differ. -/
theorem tagLiteral_injective :
    Function.Injective tagLiteral := by
  intro first second same
  have text := Literal.string.inj (Ty.literal.inj same).2
  have characters : first.toList = second.toList :=
    List.map_injective_iff.mpr (fun _ _ equal => Text.RawLetter.character.inj equal)
      (Text.RawText.mk.inj text)
  exact String.toList_injective characters

/-- Literal types of tags are identical for the same tag only. -/
theorem eq_of_identical_tagLiteral
    {arena : Arena}
    {first second : String}
    (identical :
      arena.identical (tagLiteral first) (tagLiteral second) = true) :
    first = second := by
  rcases Arena.equalNodes_of_identical (.here rfl) (.here rfl) identical with
    same | ⟨_, equals⟩
  · exact tagLiteral_injective same
  · have text : Text.RawText.ofString first = .ofString second :=
      eq_of_beq equals
    refine tagLiteral_injective ?_
    rw [tagLiteral, tagLiteral, text]

/-- The normal form of the literal types of tags has them as members. -/
theorem tagLiteral_mem_normalized
    {tags : List String}
    (settles :
      Settles (checker.normalize (.ofUnion (tags.map tagLiteral))) result) :
    tagLiteral tag ∈ result.members ↔ tag ∈ tags := by
  obtain ⟨forms, each, rfl⟩ := settles_normalizeUnion settles
  have same : tags.map tagLiteral = forms := by
    refine List.forall₂_eq_eq_eq ▸
      List.forall₂_map_left_iff.mpr
        ((List.forall₂_map_left_iff.mp each).imp ?_)
    intro tag form normalizes
    obtain ⟨_, _, settles⟩ := settles_normalizeNode rfl normalizes
    exact settles.of_pure.symm
  have flattened : flattenUnion forms = tags.map tagLiteral := by
    rw [← same, flattenUnion, List.flatMap_map]
    exact List.flatMap_pure_eq_map tagLiteral tags
  rw [flattened]
  rcases eq_or_ne tags [] with rfl | nonempty
  · refine iff_of_false (fun inNever => ?_) List.not_mem_nil
    cases List.mem_singleton.mp inNever
  rw [members_joinMembers
    (fun type inLiterals => by
      obtain ⟨_, _, rfl⟩ := List.mem_map.mp inLiterals
      exact ⟨rfl, rfl, rfl⟩)
    (fun type inLiterals => by
      obtain ⟨_, _, rfl⟩ := List.mem_map.mp inLiterals
      rfl)
    (by simpa using nonempty)]
  have sublist :=
    @unique_sublist checker.arena (tags.map tagLiteral)
  constructor
  · intro inKept
    obtain ⟨other, inTags, same⟩ := List.mem_map.mp (sublist.subset inKept)
    exact tagLiteral_injective same ▸ inTags
  · intro inTags
    obtain ⟨kept, inKept, same⟩ :=
      exists_counterpart_of_mem checker.arena []
        (show tagLiteral tag ∈ tags.map tagLiteral from
          List.mem_map_of_mem inTags)
    obtain ⟨other, _, rfl⟩ := List.mem_map.mp (sublist.subset inKept)
    rcases same with same | identical
    · exact same ▸ inKept
    · exact eq_of_identical_tagLiteral identical ▸ inKept

section Members

variable
  (definitions :
    ∀ declaration ∈ checker.arena.declarations,
      declaration.definition.Every Ty.IsSum)
include definitions

/-- What a sum expands to has the form of a normal type. -/
theorem expand_sum
    (sum : type.Sum)
    (notUnion : type.isUnion = false)
    (settles : Settles (checker.expand type) expanded) :
    expanded.SumForm := by
  unfold expand at settles
  obtain ⟨found, follows, settles⟩ :=
    settles.of_bind fun found => by cases found <;> infer_instance
  have alone {type : Ty} (sum : type.Sum) (notUnion : type.isUnion = false) :
      type.SumForm :=
    ⟨sum, by rintro _ _ rfl; cases notUnion⟩
  cases found with
  | ok type =>
      cases settles_pure.mp settles
      rcases (keeps_sum definitions).evaluation.structuralWithin sum follows with
        form | ⟨foundSum, foundFlat⟩
      · exact form
      · exact alone foundSum foundFlat
  | error =>
      cases settles_pure.mp settles
      exact alone sum notUnion

/-- The members of a sum are sums and no unions. -/
theorem membersOf_sum
    (sum : type.Sum)
    (settles : Settles (checker.membersOf type) members) :
    ∀ member ∈ members, member.Sum ∧ member.isUnion = false := by
  have ofForm {type : Ty} (form : type.SumForm) :
      ∀ member ∈ type.members, member.Sum ∧ member.isUnion = false := by
    intro member inMembers
    refine ⟨form.toSum.member inMembers, ?_⟩
    cases type with
    | union occurrence parts => exact (form.joined _ _ rfl member inMembers).1
    | _ =>
        cases List.mem_singleton.mp inMembers
        rfl
  unfold membersOf at settles
  obtain ⟨normalized, normalizes, settles⟩ :=
    settles.of_bind fun normalized => by
      split
      · refine @Appends.ofBind _ _ _ _ _ fun expanded => ?_
        split <;> infer_instance
      · infer_instance
  have form := (keeps_sum definitions).normalize sum normalizes
  split at settles
  · next isReference =>
    have notUnion : normalized.isUnion = false := by
      cases normalized <;> first | rfl | cases isReference
    obtain ⟨expanded, expands, settles⟩ :=
      settles.of_bind fun expanded => by split <;> infer_instance
    have expandedForm :=
      expand_sum definitions form.toSum notUnion expands
    split at settles
    · cases settles_pure.mp settles
      exact ofForm expandedForm
    · cases settles_pure.mp settles
      exact List.forall_mem_singleton.mpr ⟨form.toSum, notUnion⟩
  · cases settles_pure.mp settles
    exact ofForm form

/-- A union of enduring types is only empty when all of them are. -/
theorem isNever_union
    {types : List Ty}
    (sums : ∀ type ∈ types, type.Sum ∧ checker.Enduring type)
    (settles : Settles (checker.normalize (.ofUnion types)) normal) :
    normal.isNever = true ↔ ∀ type ∈ types, type.isNever = true := by
  obtain ⟨forms, each, rfl⟩ := settles_normalizeUnion settles
  have related (type form : Ty)
      (inTypes : type ∈ types)
      (normalizes : Settles (checker.normalize type) form) :
      form.SumForm ∧ form.isNever = type.isNever := by
    obtain ⟨sum, enduring⟩ := sums type inTypes
    exact ⟨(keeps_sum definitions).normalize sum normalizes,
      enduring form normalizes⟩
  constructor
  · intro empty type inTypes
    obtain ⟨form, inForms, run⟩ := exists_related_right each inTypes
    obtain ⟨isForm, same⟩ := related type form inTypes run
    rw [← same]
    refine isForm.joined.isNever fun part inside => ?_
    exact Arena.isNever_of_joinMembers empty part
      (List.mem_flatMap.mpr ⟨form, inForms, inside⟩)
  · intro empty
    refine Arena.joinMembers_isNever fun part inFlat => ?_
    obtain ⟨form, inForms, inside⟩ := List.mem_flatMap.mp inFlat
    obtain ⟨type, inTypes, run⟩ := exists_related_left each inForms
    obtain ⟨isForm, same⟩ := related type form inTypes run
    refine isForm.joined.isNever_member ?_ inside
    rw [same, empty type inTypes]

/-- The guard keeps sums, and something inhabited exactly if a member may have the tag. -/
theorem narrowTypeof_cases
    (sum : type.Sum)
    (memberSettles : Settles (checker.membersOf type) members)
    (settles : Settles (checker.narrowTypeof tag true type) narrowed) :
    ∃ kept,
      Settles (checker.normalize (.ofUnion kept)) narrowed ∧
        (∀ result ∈ kept, result.Sum) ∧
        ((∀ member ∈ members,
          member.isApplication = true → checker.Enduring member) →
          ∀ result ∈ kept, checker.Enduring result) ∧
        ((∃ result ∈ kept, result.isNever = false) ↔
          ∃ member ∈ members, checker.MayHave tag member) := by
  unfold narrowTypeof narrowMembers at settles
  obtain ⟨again, againSettles, settles⟩ := settles_bind.mp settles
  cases memberSettles.unique againSettles
  obtain ⟨narrowed, visits, settles⟩ := settles_bind.mp settles
  have related := visits.of_mapM
  have sums := membersOf_sum definitions sum memberSettles
  have each (member results)
      (inMembers : member ∈ members)
      (run :
        Settles (narrowMember (checker.typeofMember tag true) member)
          results) :=
    narrowMember_leaves (sums member inMembers).1 (sums member inMembers).2 run
  have source {result}
      (inKept : result ∈ narrowed.flatten.filter fun type => !type.isAbsent) :
      ∃ member results,
        member ∈ members ∧
          Settles (narrowMember (checker.typeofMember tag true) member)
            results ∧
          result ∈ results ∧ result.isAbsent = false := by
    obtain ⟨inNarrowed, present⟩ := List.mem_filter.mp inKept
    obtain ⟨results, inLists, inResults⟩ := List.mem_flatten.mp inNarrowed
    obtain ⟨member, inMembers, run⟩ := exists_related_left related inLists
    exact ⟨member, results, inMembers, run, inResults, by simpa using present⟩
  refine ⟨_, settles, fun result inKept => ?_, fun enduring result inKept => ?_,
    fun ⟨result, inKept, inhabited⟩ => ?_, fun ⟨member, inMembers, has⟩ => ?_⟩
  · obtain ⟨member, results, inMembers, run, inResults, present⟩ :=
      source inKept
    exact (each member results inMembers run).sums result inResults present
  · obtain ⟨member, results, inMembers, run, inResults, present⟩ :=
      source inKept
    exact (each member results inMembers run).enduring
      (enduring member inMembers) result inResults present
  · obtain ⟨member, results, inMembers, run, inResults, present⟩ :=
      source inKept
    exact ⟨member, inMembers,
      (each member results inMembers run).inhabited.mp
        ⟨result, inResults, present, inhabited⟩⟩
  · obtain ⟨results, inLists, run⟩ := exists_related_right related inMembers
    obtain ⟨result, inResults, present, inhabited⟩ :=
      (each member results inMembers run).inhabited.mpr has
    refine ⟨result, List.mem_filter.mpr ⟨?_, by simp [present]⟩, inhabited⟩
    exact List.mem_flatten.mpr ⟨results, inLists, inResults⟩

end Members

/-- The guard `typeof x === tag`. -/
def tagGuard
    (name tag : String) :
    Expression :=
  .binary .strictEqual (.typeof (.name name)) (.constant (tagLiteral tag))

/-- A text of characters is read as it is. -/
theorem replaced_ofString
    (text : String) :
    (Text.RawText.ofString text).replaced = text := by
  simp [Text.RawText.replaced, Text.RawText.ofString, Function.comp_def,
    Text.RawText.character?]

/-- The guard on the tag of a binding narrows its type by the tag. -/
theorem narrow_tagGuard
    (binding : Binding)
    (tag : String) :
    checker.narrow binding (tagGuard binding.name tag) true =
      checker.narrowTypeof tag true binding.current := by
  have seen : binding.view.typeOf? binding.name = some binding.current := by
    simp [View.typeOf?, Binding.view, Facts.find?]
  have replaced := replaced_ofString tag
  have compared :
      checker.refineComparison binding.view (.typeof (.name binding.name))
          (.constant (tagLiteral tag)) true false =
        Facts.single binding.name <$>
          checker.narrowTypeof tag true binding.current := by
    unfold refineComparison refineEquality? refineName
    simp [tagLiteral, Ty.ofLiteral, Ty.isAbsent, seen, replaced]
  unfold narrow tagGuard refine
  rw [compared]
  simp [Facts.find?, Facts.single]

/-- The tag of a name has the type that lists the tags of the type of the name. -/
theorem typeOf_typeof
    {scope : Scope}
    {table : BindingTable}
    (sees : (scope.view table).lookup name = some type) :
    (checker.typeOf scope (.typeof (.name name))).run table =
      (·, table) <$> checker.typeofResult type := by
  unfold typeOf typeOf typeOfName
  simp [sees]

/-- The type of a tag lists the tags that members may have. -/
theorem typeofResult_cases
    (known : tag ∈ typeofTags)
    (settles : Settles (checker.typeofResult type) result) :
    ∃ members,
      Settles (checker.membersOf type) members ∧
        (tagLiteral tag ∈ result.members ↔
          ∃ member ∈ members, checker.MayHave tag member) := by
  unfold typeofResult at settles
  obtain ⟨members, memberSettles, settles⟩ := settles_bind.mp settles
  obtain ⟨found, collects, settles⟩ := settles_bind.mp settles
  refine ⟨members, memberSettles, ?_⟩
  rw [← mem_memberTags known collects]
  exact tagLiteral_mem_normalized settles

/--
The members of a type stay inhabited when they are normalized once more. Names,
constants and what is built from other types always do, so this is about
applications that were left as they are.
-/
def EnduringMembers
    (checker : Checker)
    (type : Ty) :
    Prop :=
  ∀ members,
    Settles (checker.membersOf type) members →
    ∀ member ∈ members,
      member.isApplication = true →
      checker.Enduring member

/--
A tag that the type of `typeof x` does not list leaves nothing of `x`. It is
listed exactly when the guard on it leaves something, unless an application among
the members only comes to nothing when it is normalized once more.
-/
theorem typeof_agrees
    {binding : Binding}
    {scope : Scope}
    {table after : BindingTable}
    (definitions :
      ∀ declaration ∈ checker.arena.declarations,
        declaration.definition.Every Ty.IsSum)
    (sum : binding.current.Sum)
    (sees : (scope.view table).lookup binding.name = some binding.current)
    (known : tag ∈ typeofTags)
    (narrows :
      Settles (checker.narrow binding (tagGuard binding.name tag) true) narrowed)
    (typed :
      Settles
        ((checker.typeOf scope (.typeof (.name binding.name))).run table)
        (result, after)) :
    (tagLiteral tag ∉ result.members → narrowed.isNever = true) ∧
      (checker.EnduringMembers binding.current →
        (narrowed.isNever = true ↔ tagLiteral tag ∉ result.members)) := by
  rw [narrow_tagGuard] at narrows
  rw [typeOf_typeof sees, map_eq_pure_bind] at typed
  obtain ⟨_, lists, same⟩ := settles_bind.mp typed
  cases settles_pure.mp same
  obtain ⟨members, memberSettles, listed⟩ := typeofResult_cases known lists
  obtain ⟨kept, settles, sums, enduring, inhabited⟩ :=
    narrowTypeof_cases definitions sum memberSettles narrows
  rw [listed, ← inhabited]
  have union (enduring : ∀ result ∈ kept, checker.Enduring result) :=
    isNever_union definitions
      (fun result inKept => ⟨sums result inKept, enduring result inKept⟩) settles
  constructor
  · intro none
    have empty : ∀ result ∈ kept, result.isNever = true :=
      fun result inKept => by
        by_contra inhabited
        exact none ⟨result, inKept, Bool.eq_false_iff.mpr inhabited⟩
    exact (union fun result inKept =>
      enduring_of_isNever (empty result inKept)).mpr empty
  · intro enduringMembers
    rw [union (enduring (enduringMembers members memberSettles))]
    simp

section Runs

/-- A run that reports no exceeded depth settles. -/
theorem settles_of_checked
    {computation : Check α}
    (answers : (computation []).map Prod.fst = .ok value)
    (quiet :
      (computation []).toOption.all
          (fun answer => answer.2.all (·.code != .typeTooComplex)) =
        true) :
    Settles computation value := by
  obtain ⟨⟨_, added⟩, run, rfl⟩ := Except.map_eq_ok.mp answers
  simp only [run, Except.toOption, Option.all_some, List.all_eq_true] at quiet
  exact ⟨added, run, fun diagnostic member =>
    bne_iff_ne.mp (quiet diagnostic member)⟩

/-- An object with a text under its only name. -/
def lettered : Ty :=
  .ofShape { properties := [{ name := "a", type := .string }] }

/-- An application to the object. -/
def letteredBy
    (utility : String)
    (keys : Ty) :
    Ty :=
  .generic none { utility, base := lettered, arguments := [keys] }

/-- A name of some type. -/
def onlyBinding
    (type : Ty) :
    Binding :=
  { name := "x", declared := type }

/-- The scope in which the only binding is visible. -/
def onlyScope : Scope :=
  [[("x", 0)]]

theorem sum_lettered :
    lettered.Sum :=
  ⟨rfl, .node trivial (List.forall_mem_singleton.mpr (.leaf trivial rfl))⟩

theorem sum_letteredBy
    (sum : keys.Sum) :
    (letteredBy utility keys).Sum :=
  ⟨rfl, .node trivial (Ty.forall_parts_generic.mpr
    ⟨sum_lettered.every, List.forall_mem_singleton.mpr sum.every⟩)⟩

theorem sum_pair
    (firstSum : first.Sum)
    (secondSum : second.Sum) :
    (Ty.ofUnion [first, second]).Sum :=
  Ty.sum_union (List.forall_mem_cons.mpr
    ⟨firstSum, List.forall_mem_singleton.mpr secondSum⟩)

theorem sum_tagLiteral
    (tag : String) :
    (tagLiteral tag).Sum :=
  ⟨rfl, .leaf trivial rfl⟩

/-- The reference to a name for the object. -/
def letteredName : Reference :=
  ⟨0, 0, "Lettered"⟩

/-- A checker that knows the name. -/
def letters : Checker :=
  { arena :=
      { declarations := [{ name := "Lettered", definition := lettered }] }
    budget := 20 }

/-- The name, or an application that fails: there is no such property to pick. -/
def letteredOrUnpicked : Ty :=
  .ofUnion [.named letteredName, letteredBy "Pick" (tagLiteral "b")]

/-- The name, or a text. -/
def letteredOrText : Ty :=
  .ofUnion [.named letteredName, .string]

/-- The application is left as it is, and stays so. -/
theorem enduringMembers_letteredOrUnpicked :
    letters.EnduringMembers letteredOrUnpicked := by
  intro members settles member inMembers _ normal normalizes
  have run :
      Settles (letters.membersOf letteredOrUnpicked)
        [.named letteredName, letteredBy "Pick" (tagLiteral "b")] := by
    refine settles_of_checked ?_ ?_ <;> decide +kernel
  cases settles.unique run
  rcases List.mem_pair.mp inMembers with rfl | rfl
  · contradiction
  · have again :
        Settles (letters.normalize (letteredBy "Pick" (tagLiteral "b")))
          (letteredBy "Pick" (tagLiteral "b")) := by
      refine settles_of_checked ?_ ?_ <;> decide +kernel
    cases normalizes.unique again
    rfl

/-- A member without a tag may have any; a text or an object is no function. -/
theorem typeof_agrees_lettered :
    (∃ narrowed result after,
      Settles
          (letters.narrow (onlyBinding letteredOrUnpicked)
            (tagGuard "x" "function") true)
          narrowed ∧
        Settles
          ((letters.typeOf onlyScope (.typeof (.name "x"))).run
            [onlyBinding letteredOrUnpicked])
          (result, after) ∧
        tagLiteral "function" ∈ result.members ∧ narrowed.isNever = false) ∧
      ∃ narrowed result after,
        Settles
          (letters.narrow (onlyBinding letteredOrText)
            (tagGuard "x" "function") true)
          narrowed ∧
        Settles
          ((letters.typeOf onlyScope (.typeof (.name "x"))).run
            [onlyBinding letteredOrText])
          (result, after) ∧
        tagLiteral "function" ∉ result.members ∧ narrowed.isNever = true := by
  have definitions :
      ∀ declaration ∈ letters.arena.declarations,
        declaration.definition.Every Ty.IsSum :=
    List.forall_mem_singleton.mpr sum_lettered.every
  have nameSum : (Ty.named letteredName).Sum := ⟨rfl, .leaf trivial rfl⟩
  have unpickedSum : (onlyBinding letteredOrUnpicked).current.Sum :=
    sum_pair nameSum (sum_letteredBy (sum_tagLiteral "b"))
  have textSum : (onlyBinding letteredOrText).current.Sum :=
    sum_pair nameSum ⟨rfl, .leaf trivial rfl⟩
  constructor
  · have narrows :
        Settles
          (letters.narrow (onlyBinding letteredOrUnpicked)
            (tagGuard "x" "function") true)
          (letteredBy "Pick" (tagLiteral "b")) := by
      refine settles_of_checked ?_ ?_ <;> decide +kernel
    have typed :
        Settles
          ((letters.typeOf onlyScope (.typeof (.name "x"))).run
            [onlyBinding letteredOrUnpicked])
          (.ofUnion (typeofTags.map tagLiteral),
            [onlyBinding letteredOrUnpicked]) := by
      refine settles_of_checked ?_ ?_ <;> decide +kernel
    have listed :
        tagLiteral "function" ∈ (Ty.ofUnion (typeofTags.map tagLiteral)).members :=
      List.mem_map_of_mem (by decide)
    have agree :=
      (typeof_agrees definitions unpickedSum rfl (by decide) narrows typed).2
        enduringMembers_letteredOrUnpicked
    refine ⟨_, _, _, narrows, typed, listed, ?_⟩
    rw [← Bool.not_eq_true, agree, not_not]
    exact listed
  · have narrows :
        Settles
          (letters.narrow (onlyBinding letteredOrText)
            (tagGuard "x" "function") true)
          .never := by
      refine settles_of_checked ?_ ?_ <;> decide +kernel
    have typed :
        Settles
          ((letters.typeOf onlyScope (.typeof (.name "x"))).run
            [onlyBinding letteredOrText])
          (.ofUnion [tagLiteral "object", tagLiteral "string"],
            [onlyBinding letteredOrText]) := by
      refine settles_of_checked ?_ ?_ <;> decide +kernel
    have unlisted :
        tagLiteral "function" ∉
          (Ty.ofUnion [tagLiteral "object", tagLiteral "string"]).members := by
      decide
    exact ⟨_, _, _, narrows, typed, unlisted,
      (typeof_agrees definitions textSum rfl (by decide) narrows typed).1
        unlisted⟩

/-- A function of one parameter that never returns. -/
def endless
    (parameter : Ty) :
    Ty :=
  .function none
    { parameters := [{ name := "p", type := parameter }]
      rest := .absent
      result := .never }

/--
What one of two functions returns, whose parameters are written differently. The
keys of the first one are the union of a name and nothing.
-/
def endlessResult : Ty :=
  .generic none
    { utility := "ReturnType"
      base :=
        .ofUnion
          [endless
              (.ofUnion
                [letteredBy "Pick" (.ofUnion [tagLiteral "a", .never]), lettered]),
            endless lettered]
      arguments := [] }

theorem sum_endless
    (sum : parameter.Sum) :
    (endless parameter).Sum :=
  ⟨rfl, .node (List.forall_mem_singleton.mpr sum.present)
    (Ty.forall_parts_function.mpr
      ⟨List.forall_mem_singleton.mpr sum.every, .leaf trivial rfl,
        .leaf trivial rfl⟩)⟩

/--
What the guard keeps is normalized once more. The two functions have become the
same by then, so the application that stood for any tag leaves nothing.
-/
theorem typeof_lists_dropped_tags :
    (onlyBinding endlessResult).current.Sum ∧
      (onlyScope.view [onlyBinding endlessResult]).lookup "x" = some endlessResult ∧
      ∃ result after,
        Settles
          ((typeOf { budget := 20 } onlyScope (.typeof (.name "x"))).run
            [onlyBinding endlessResult])
          (result, after) ∧
        ∀ tag ∈ typeofTags,
          Settles
            (narrow { budget := 20 } (onlyBinding endlessResult) (tagGuard "x" tag) true)
            .never ∧
          tagLiteral tag ∈ result.members := by
  have parameters :
      (Ty.ofUnion
        [letteredBy "Pick" (.ofUnion [tagLiteral "a", .never]),
          lettered]).Sum :=
    sum_pair
      (sum_letteredBy (sum_pair (sum_tagLiteral "a") ⟨rfl, .leaf trivial rfl⟩))
      sum_lettered
  have functions := sum_pair (sum_endless parameters) (sum_endless sum_lettered)
  refine ⟨⟨rfl, .node trivial (Ty.forall_parts_generic.mpr
      ⟨functions.every, nofun⟩)⟩, rfl,
    .ofUnion (typeofTags.map tagLiteral), [onlyBinding endlessResult], ?_, ?_⟩
  · refine settles_of_checked ?_ ?_ <;> decide +kernel
  · refine fun tag known => ⟨?_, List.mem_map_of_mem known⟩
    revert tag
    refine fun tag known => settles_of_checked ?_ ?_ <;>
      revert tag <;> decide +kernel

end Runs

end Checker

end StructuralTyping
