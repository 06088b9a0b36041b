import StructuralTyping.Proofs.Canonizing
import StructuralTyping.Ty.Occurrence

namespace StructuralTyping

/-!
# Types that look alike

Two types look alike to some levels when their nodes have the same form that
far down, with every name replaced by what it stands for. On tidy types whose
names all stand for something, looking alike is reflexive on copies, symmetric
and transitive at every level.
-/

/-- The parts that identity compares; a result left out counts as `void`. -/
def Ty.compared :
    Ty →
    List Ty
  | .function _ signature =>
      signature.parameters.map Parameter.type ++
        [signature.rest, signature.result.orElse .void]
  | type => type.parts

/-- Each member of one list is related to a member of the other. -/
structure SameSet
    (related : Ty → Ty → Prop)
    (first second : List Ty) :
    Prop where
  each : ∀ x ∈ first, ∃ y ∈ second, related y x
  every : ∀ y ∈ second, ∃ x ∈ first, related x y

/-- Identity compares the parts of a type, and `void` for a missing result. -/
theorem Ty.mem_compared
    {type part : Ty}
    (inside : part ∈ type.compared) :
    part ∈ type.parts ∨ part = .void := by
  cases type with
  | function occurrence signature =>
      simp only [compared, parts, List.mem_append, List.mem_cons,
        List.not_mem_nil, or_false] at inside ⊢
      rcases inside with inParameters | isRest | isResult
      · exact .inl (.inl inParameters)
      · exact .inl (.inr (.inl isRest))
      · cases absent : signature.result <;>
          simp only [absent, orElse] at isResult <;> simp [isResult]
  | _ => exact .inl inside

/-- The parts of a tidy type are tidy. -/
theorem Ty.Tidy.part
    {type part : Ty}
    (tidy : type.Tidy)
    (inside : part ∈ type.parts) :
    part.Tidy := by
  cases tidy with
  | object _ properties keys values =>
      exact forall_parts_object.mpr ⟨properties, keys, values⟩ part inside
  | array element =>
      cases List.mem_singleton.mp inside
      exact element
  | tuple elements => exact elements part inside
  | function parameters rest result =>
      exact forall_parts_function.mpr ⟨parameters, rest, result⟩ part inside
  | union parts => exact parts part inside
  | intersection parts => exact parts part inside
  | generic base arguments =>
      exact forall_parts_generic.mpr ⟨base, arguments⟩ part inside
  | _ => cases inside

/-- Two nodes of the same form whose parts are related. -/
inductive NodesAlike
    (related : Ty → Ty → Prop) :
    Ty →
    Ty →
    Prop
  | absent :
      NodesAlike related .absent .absent
  | primitive :
      NodesAlike related (.primitive kind) (.primitive kind)
  | literal :
      first.equal second = true →
      NodesAlike related (.literal i first) (.literal j second)
  | object {first second : Shape Ty} :
      first.properties.length = second.properties.length →
      (∀ property ∈ first.properties,
        ∃ other,
          second.property? property.name = some other ∧
            property.optional = other.optional ∧
            property.readonly = other.readonly ∧
            related property.type other.type) →
      Option.Rel
        (fun index other =>
          related index.key other.key ∧ related index.value other.value)
        first.index second.index →
      NodesAlike related (.object i first) (.object j second)
  | array :
      related first second →
      NodesAlike related (.array i first readonly) (.array j second readonly)
  | tuple :
      List.Forall₂ related first second →
      NodesAlike related (.tuple i first readonly) (.tuple j second readonly)
  | function :
      first.method = second.method →
      List.Forall₂
        (fun parameter other =>
          parameter.optional = other.optional ∧
            related parameter.type other.type)
        first.parameters second.parameters →
      first.rest.isAbsent = second.rest.isAbsent →
      (first.rest.isAbsent = false → related first.rest second.rest) →
      related (first.result.orElse .void) (second.result.orElse .void) →
      NodesAlike related (.function i first) (.function j second)
  | union :
      SameSet related first second →
      NodesAlike related (.union i first) (.union j second)
  | intersection :
      SameSet related first second →
      NodesAlike related (.intersection i first) (.intersection j second)
  | generic :
      first.utility = second.utility →
      related first.base second.base →
      List.Forall₂ related first.arguments second.arguments →
      NodesAlike related (.generic i first) (.generic j second)

section Lists

/-- Lists related position by position stay so under what their items imply. -/
theorem forall₂_imp_of_mem
    {related wanted : α → β → Prop}
    (relates : List.Forall₂ related items values)
    (implies :
      ∀ item ∈ items, ∀ value ∈ values,
        related item value → wanted item value) :
    List.Forall₂ wanted items values := by
  induction relates with
  | nil =>
      exact .nil
  | cons head _ inductionHypothesis =>
      refine .cons (implies _ (by simp) _ (by simp) head)
        (inductionHypothesis fun item inItems value inValues => ?_)
      exact implies item (by simp [inItems]) value (by simp [inValues])

/-- Lists related to one between them are related position by position. -/
theorem forall₂_trans_of_mem
    {first : α → β → Prop}
    {second : β → γ → Prop}
    {wanted : α → γ → Prop}
    (early : List.Forall₂ first items others)
    (late : List.Forall₂ second others values)
    (implies :
      ∀ item ∈ items, ∀ other ∈ others, ∀ value ∈ values,
        first item other → second other value → wanted item value) :
    List.Forall₂ wanted items values := by
  induction early generalizing values with
  | nil =>
      cases late
      exact .nil
  | cons head _ inductionHypothesis =>
      cases late with
      | cons next rest =>
          refine .cons
            (implies _ (by simp) _ (by simp) _ (by simp) head next)
            (inductionHypothesis rest
              fun item inItems other inOthers value inValues => ?_)
          exact implies item (.tail _ inItems) other (.tail _ inOthers)
            value (.tail _ inValues)

/-- What may be missing on both sides stays related under what it implies. -/
theorem optionRel_imp
    {related wanted : α → β → Prop}
    (relates : Option.Rel related before after)
    (implies :
      ∀ item, before = some item →
        ∀ value, after = some value →
          related item value → wanted item value) :
    Option.Rel wanted before after := by
  cases relates with
  | none => exact .none
  | some relates => exact .some (implies _ rfl _ rfl relates)

/-- What may be missing is related through what lies between. -/
theorem optionRel_trans
    {first : α → β → Prop}
    {second : β → γ → Prop}
    {wanted : α → γ → Prop}
    (early : Option.Rel first before between)
    (late : Option.Rel second between after)
    (implies :
      ∀ item, before = some item →
        ∀ other, between = some other →
          ∀ value, after = some value →
            first item other → second other value → wanted item value) :
    Option.Rel wanted before after := by
  cases early with
  | none =>
      cases late
      exact .none
  | some early =>
      cases late with
      | some late => exact .some (implies _ rfl _ rfl _ rfl early late)

/-- What may be missing on both sides is related in either order. -/
theorem optionRel_flip
    {related : α → β → Prop}
    (relates : Option.Rel (fun value item => related item value) after before) :
    Option.Rel related before after := by
  cases relates with
  | none => exact .none
  | some relates => exact .some relates

end Lists

section Equal

variable {equal : Ty → Ty → Bool}

/-- Lists are equal when they are so position by position. -/
theorem equalLists_iff
    {first second : List Ty} :
    equalLists equal first second = true ↔
      List.Forall₂ (fun x y => equal x y = true) first second := by
  induction first generalizing second with
  | nil =>
      cases second <;> simp [equalLists]
  | cons type rest inductionHypothesis =>
      cases second <;> simp [equalLists, inductionHypothesis]

@[inherit_doc equalLists_iff]
theorem equalParameters_iff
    {first second : List (Parameter Ty)} :
    equalParameters equal first second = true ↔
      List.Forall₂
        (fun parameter other =>
          parameter.optional = other.optional ∧
            equal parameter.type other.type = true)
        first second := by
  induction first generalizing second with
  | nil =>
      cases second <;> simp [equalParameters]
  | cons parameter rest inductionHypothesis =>
      cases second <;> simp [equalParameters, inductionHypothesis]

/-- Index signatures are equal when they are both missing or agree. -/
theorem equalIndex_iff
    {first second : Option (IndexSignature Ty)} :
    equalIndex equal first second = true ↔
      Option.Rel
        (fun index other =>
          equal index.key other.key = true ∧
            equal index.value other.value = true)
        first second := by
  cases first <;> cases second <;> simp [equalIndex]

/-- A property has an equal counterpart when one is found under its name. -/
theorem equalProperty_iff
    {shape : Shape Ty}
    {property : Property Ty} :
    equalProperty equal shape property = true ↔
      ∃ other,
        shape.property? property.name = some other ∧
          property.optional = other.optional ∧
          property.readonly = other.readonly ∧
          equal property.type other.type = true := by
  unfold equalProperty
  split
  · next other found => simp [found, and_assoc]
  · next missing => simp [missing]

/-- Member lists are the same set when each member of one is in the other. -/
theorem sameMembers_iff
    {first second : List Ty} :
    sameMembers equal first second = true ↔
      SameSet (fun x y => equal x y = true) first second := by
  simp only [sameMembers, containsMember, Bool.and_eq_true, List.all_eq_true,
    List.any_eq_true]
  exact ⟨fun same => ⟨same.1, same.2⟩, fun same => ⟨same.each, same.every⟩⟩

/-- Nodes that compare equal are alike. -/
theorem alike_of_equalNodes
    {first second : Ty}
    (equals : equalNodes equal first second = true) :
    NodesAlike (fun x y => equal x y = true) first second := by
  unfold equalNodes at equals
  split at equals
  · cases eq_of_beq equals
    exact .primitive
  · exact .literal equals
  · simp only [Bool.and_eq_true, beq_iff_eq, List.all_eq_true,
      equalProperty_iff, equalIndex_iff] at equals
    exact .object equals.1.1 equals.1.2 equals.2
  · simp only [Bool.and_eq_true, beq_iff_eq] at equals
    obtain ⟨rfl, elements⟩ := equals
    exact .array elements
  · simp only [Bool.and_eq_true, beq_iff_eq, equalLists_iff] at equals
    obtain ⟨rfl, elements⟩ := equals
    exact .tuple elements
  · simp only [Bool.and_eq_true, Bool.or_eq_true, beq_iff_eq,
      equalParameters_iff] at equals
    obtain ⟨⟨⟨⟨method, parameters⟩, sameRest⟩, rest⟩, result⟩ := equals
    exact .function method parameters sameRest
      (fun present => rest.resolve_left (by simp [present])) result
  · exact .union (sameMembers_iff.mp equals)
  · exact .intersection (sameMembers_iff.mp equals)
  · simp only [Bool.and_eq_true, beq_iff_eq, equalLists_iff] at equals
    exact .generic equals.1.1 equals.1.2 equals.2
  · cases equals

/-- Alike nodes compare equal, unless they stand for a type left out. -/
theorem equalNodes_of_alike
    {first second : Ty}
    (present : first.isAbsent = false)
    (alike : NodesAlike (fun x y => equal x y = true) first second) :
    equalNodes equal first second = true := by
  cases alike with
  | absent => cases present
  | primitive => simp [equalNodes]
  | literal equals => exact equals
  | object length properties index =>
      simpa [equalNodes, equalProperty_iff, equalIndex_iff, and_assoc] using
        ⟨length, properties, index⟩
  | array elements => simp [equalNodes, elements]
  | tuple elements => simp [equalNodes, equalLists_iff.mpr elements]
  | function method parameters sameRest rest result =>
      simp only [equalNodes, Bool.and_eq_true, Bool.or_eq_true, beq_iff_eq,
        equalParameters_iff]
      refine ⟨⟨⟨⟨method, parameters⟩, sameRest⟩, ?_⟩, result⟩
      cases restAbsent : Ty.isAbsent _ with
      | true => exact .inl rfl
      | false => exact .inr (rest restAbsent)
  | union members => exact sameMembers_iff.mpr members
  | intersection members => exact sameMembers_iff.mpr members
  | generic utility base arguments =>
      simp [equalNodes, utility, base, equalLists_iff.mpr arguments]

end Equal

namespace SameSet

variable {related wanted : Ty → Ty → Prop} {first second third : List Ty}

/-- Sets stay the same under a relation that holds of as many members. -/
theorem imp
    (same : SameSet related first second)
    (forward : ∀ x ∈ first, ∀ y ∈ second, related x y → wanted x y)
    (backward : ∀ x ∈ first, ∀ y ∈ second, related y x → wanted y x) :
    SameSet wanted first second := by
  constructor
  · intro x inFirst
    obtain ⟨y, inSecond, relates⟩ := same.each x inFirst
    exact ⟨y, inSecond, backward x inFirst y inSecond relates⟩
  · intro y inSecond
    obtain ⟨x, inFirst, relates⟩ := same.every y inSecond
    exact ⟨x, inFirst, forward x inFirst y inSecond relates⟩

/-- Sets are compared in both directions, so their order does not matter. -/
theorem symm
    (same : SameSet related first second) :
    SameSet related second first :=
  ⟨same.every, same.each⟩

/-- Being the same set passes on when being related does. -/
theorem trans
    (early : SameSet related first second)
    (late : SameSet related second third)
    (forward :
      ∀ x ∈ first, ∀ y ∈ second, ∀ z ∈ third,
        related x y → related y z → related x z)
    (backward :
      ∀ x ∈ first, ∀ y ∈ second, ∀ z ∈ third,
        related z y → related y x → related z x) :
    SameSet related first third := by
  constructor
  · intro x inFirst
    obtain ⟨y, inSecond, before⟩ := early.each x inFirst
    obtain ⟨z, inThird, after⟩ := late.each y inSecond
    exact ⟨z, inThird, backward x inFirst y inSecond z inThird after before⟩
  · intro z inThird
    obtain ⟨y, inSecond, after⟩ := late.every z inThird
    obtain ⟨x, inFirst, before⟩ := early.every y inSecond
    exact ⟨x, inFirst, forward x inFirst y inSecond z inThird before after⟩

end SameSet

namespace NodesAlike

variable {related wanted : Ty → Ty → Prop} {first second third : Ty}

/-- Nodes stay alike under a relation that holds of as many of their parts. -/
theorem imp
    (alike : NodesAlike related first second)
    (forward :
      ∀ x ∈ first.compared, ∀ y ∈ second.compared,
        related x y → wanted x y)
    (backward :
      ∀ x ∈ first.compared, ∀ y ∈ second.compared,
        related y x → wanted y x) :
    NodesAlike wanted first second := by
  cases alike with
  | absent => exact .absent
  | primitive => exact .primitive
  | literal equals => exact .literal equals
  | object length properties index =>
      refine .object length (fun property member => ?_) ?_
      · obtain ⟨other, found, optional, readonly, types⟩ :=
          properties property member
        obtain ⟨inSecond, _⟩ := Shape.mem_of_property? found
        exact ⟨other, found, optional, readonly,
          forward _ (List.mem_append_left _ (List.mem_map_of_mem member))
            _ (List.mem_append_left _ (List.mem_map_of_mem inSecond)) types⟩
      · refine optionRel_imp index fun before written after found both =>
          ⟨forward _ ?_ _ ?_ both.1, forward _ ?_ _ ?_ both.2⟩ <;>
          simp [Ty.compared, Ty.parts, written, found]
  | array elements =>
      exact .array (forward _ List.mem_cons_self _ List.mem_cons_self elements)
  | tuple elements =>
      exact .tuple (forall₂_imp_of_mem elements forward)
  | function method parameters sameRest rest result =>
      refine .function method ?_ sameRest (fun present => ?_) ?_
      · refine forall₂_imp_of_mem parameters
          fun parameter member other inSecond both =>
            ⟨both.1, forward _ ?_ _ ?_ both.2⟩
        · exact List.mem_append_left _ (List.mem_map_of_mem member)
        · exact List.mem_append_left _ (List.mem_map_of_mem inSecond)
      · exact forward _ (by simp [Ty.compared]) _ (by simp [Ty.compared])
          (rest present)
      · exact forward _ (by simp [Ty.compared]) _ (by simp [Ty.compared])
          result
  | union members => exact .union (members.imp forward backward)
  | intersection members => exact .intersection (members.imp forward backward)
  | generic utility base arguments =>
      refine .generic utility
        (forward _ List.mem_cons_self _ List.mem_cons_self base) ?_
      exact forall₂_imp_of_mem arguments fun x inFirst y inSecond =>
        forward x (.tail _ inFirst) y (.tail _ inSecond)

/-- Objects with distinct names are alike in either order. -/
theorem symm
    (alike : NodesAlike related first second)
    (tidyFirst : first.Tidy)
    (tidySecond : second.Tidy)
    (flip :
      ∀ x ∈ first.compared, ∀ y ∈ second.compared,
        related x y → related y x) :
    NodesAlike related second first := by
  cases alike with
  | absent => exact .absent
  | primitive => exact .primitive
  | literal equals =>
      rw [Literal.equal_comm] at equals
      exact .literal equals
  | @object _ _ first second length properties index =>
      cases tidyFirst with | object firstDistinct _ _ _ =>
      cases tidySecond with | object secondDistinct _ _ _ =>
      have each :
          ∀ property ∈ first.properties,
            equalProperty (fun _ _ => true) second property = true :=
        fun property member =>
          let ⟨other, found, optional, readonly, _⟩ :=
            properties property member
          equalProperty_iff.mpr ⟨other, found, optional, readonly, rfl⟩
      refine .object length.symm (fun property inSecond => ?_) ?_
      · obtain ⟨other, inFirst, found⟩ :=
          exists_counterpart firstDistinct secondDistinct length each inSecond
        obtain ⟨_, again, optional, readonly, types⟩ :=
          properties other inFirst
        cases Option.some.inj (found.symm.trans again)
        rw [(Shape.mem_of_property? found).2]
        exact ⟨other, Shape.property?_of_mem firstDistinct inFirst,
          optional.symm, readonly.symm,
          flip _ (List.mem_append_left _ (List.mem_map_of_mem inFirst))
            _ (List.mem_append_left _ (List.mem_map_of_mem inSecond)) types⟩
      · refine optionRel_flip (optionRel_imp index
          fun before written after found both =>
            ⟨flip _ ?_ _ ?_ both.1, flip _ ?_ _ ?_ both.2⟩) <;>
          simp [Ty.compared, Ty.parts, written, found]
  | array elements =>
      exact .array (flip _ List.mem_cons_self _ List.mem_cons_self elements)
  | tuple elements =>
      exact .tuple (forall₂_imp_of_mem elements flip).flip
  | function method parameters sameRest rest result =>
      refine .function method.symm ?_ sameRest.symm (fun present => ?_) ?_
      · refine List.Forall₂.flip (forall₂_imp_of_mem parameters
          fun parameter member other inSecond both =>
            ⟨both.1.symm, flip _ ?_ _ ?_ both.2⟩)
        · exact List.mem_append_left _ (List.mem_map_of_mem member)
        · exact List.mem_append_left _ (List.mem_map_of_mem inSecond)
      · exact flip _ (by simp [Ty.compared]) _ (by simp [Ty.compared])
          (rest (sameRest.trans present))
      · exact flip _ (by simp [Ty.compared]) _ (by simp [Ty.compared]) result
  | union members => exact .union members.symm
  | intersection members => exact .intersection members.symm
  | generic utility base arguments =>
      refine .generic utility.symm
        (flip _ List.mem_cons_self _ List.mem_cons_self base) ?_
      exact (forall₂_imp_of_mem arguments fun x inFirst y inSecond =>
        flip x (.tail _ inFirst) y (.tail _ inSecond)).flip

/-- Being alike passes on from node to node when it does from part to part. -/
theorem trans
    (early : NodesAlike related first second)
    (late : NodesAlike related second third)
    (forward :
      ∀ x ∈ first.compared, ∀ y ∈ second.compared, ∀ z ∈ third.compared,
        related x y → related y z → related x z)
    (backward :
      ∀ x ∈ first.compared, ∀ y ∈ second.compared, ∀ z ∈ third.compared,
        related z y → related y x → related z x) :
    NodesAlike related first third := by
  cases early with
  | absent => exact late
  | primitive => exact late
  | literal earlyEquals =>
      cases late with
      | literal lateEquals =>
          exact .literal (Literal.equal_trans earlyEquals lateEquals)
  | object earlyLength earlyProperties earlyIndex =>
      cases late with
      | object lateLength lateProperties lateIndex =>
          refine .object (earlyLength.trans lateLength)
            (fun property member => ?_) ?_
          · obtain ⟨other, found, optional, readonly, types⟩ :=
              earlyProperties property member
            obtain ⟨inSecond, sameName⟩ := Shape.mem_of_property? found
            obtain ⟨last, foundLast, lastOptional, lastReadonly, lastTypes⟩ :=
              lateProperties other inSecond
            obtain ⟨inThird, _⟩ := Shape.mem_of_property? foundLast
            refine ⟨last, sameName ▸ foundLast, optional.trans lastOptional,
              readonly.trans lastReadonly,
              forward _ ?_ _ ?_ _ ?_ types lastTypes⟩
            · exact List.mem_append_left _ (List.mem_map_of_mem member)
            · exact List.mem_append_left _ (List.mem_map_of_mem inSecond)
            · exact List.mem_append_left _ (List.mem_map_of_mem inThird)
          · refine optionRel_trans earlyIndex lateIndex
              fun x before y between z after early late =>
                ⟨forward _ ?_ _ ?_ _ ?_ early.1 late.1,
                  forward _ ?_ _ ?_ _ ?_ early.2 late.2⟩ <;>
              simp [Ty.compared, Ty.parts, before, between, after]
  | array earlyElements =>
      cases late with
      | array lateElements =>
          exact .array (forward _ List.mem_cons_self _ List.mem_cons_self
            _ List.mem_cons_self earlyElements lateElements)
  | tuple earlyElements =>
      cases late with
      | tuple lateElements =>
          exact .tuple (forall₂_trans_of_mem earlyElements lateElements forward)
  | function method parameters sameRest rest result =>
      cases late with
      | function lateMethod lateParameters lateSameRest lateRest lateResult =>
          refine .function (method.trans lateMethod) ?_
            (sameRest.trans lateSameRest) (fun present => ?_) ?_
          · refine forall₂_trans_of_mem parameters lateParameters
              fun x inFirst y inSecond z inThird before after =>
                ⟨before.1.trans after.1,
                  forward _ ?_ _ ?_ _ ?_ before.2 after.2⟩
            · exact List.mem_append_left _ (List.mem_map_of_mem inFirst)
            · exact List.mem_append_left _ (List.mem_map_of_mem inSecond)
            · exact List.mem_append_left _ (List.mem_map_of_mem inThird)
          · exact forward _ (by simp [Ty.compared]) _ (by simp [Ty.compared])
              _ (by simp [Ty.compared]) (rest present)
              (lateRest (sameRest ▸ present))
          · exact forward _ (by simp [Ty.compared]) _ (by simp [Ty.compared])
              _ (by simp [Ty.compared]) result lateResult
  | union members =>
      cases late with
      | union lateMembers =>
          exact .union (members.trans lateMembers forward backward)
  | intersection members =>
      cases late with
      | intersection lateMembers =>
          exact .intersection (members.trans lateMembers forward backward)
  | generic utility base arguments =>
      cases late with
      | generic lateUtility lateBase lateArguments =>
          refine .generic (utility.trans lateUtility)
            (forward _ List.mem_cons_self _ List.mem_cons_self
              _ List.mem_cons_self base lateBase) ?_
          exact forall₂_trans_of_mem arguments lateArguments
            fun x inFirst y inSecond z inThird =>
              forward x (.tail _ inFirst) y (.tail _ inSecond)
                z (.tail _ inThird)

end NodesAlike

section Copies

/-- Lists with equal images are related position by position. -/
theorem forall₂_of_map_eq
    {image : α → γ}
    {other : β → γ}
    (same : items.map image = values.map other) :
    List.Forall₂ (fun item value => image item = other value) items values := by
  rw [← List.forall₂_eq_eq_eq, List.forall₂_map_left_iff,
    List.forall₂_map_right_iff] at same
  exact same

namespace Ty

theorem formAll_eq_map
    (types : List Ty) :
    formAll types = types.map form := by
  induction types with
  | nil => rfl
  | cons type rest inductionHypothesis =>
      rw [formAll, inductionHypothesis, List.map_cons]

theorem formProperties_eq_map
    (properties : List (Property Ty)) :
    formProperties properties =
      properties.map fun property =>
        { property with type := form property.type } := by
  induction properties with
  | nil => rfl
  | cons property rest inductionHypothesis =>
      rw [formProperties, inductionHypothesis, List.map_cons]

theorem formParameters_eq_map
    (parameters : List (Parameter Ty)) :
    formParameters parameters =
      parameters.map fun parameter =>
        { parameter with type := form parameter.type } := by
  induction parameters with
  | nil => rfl
  | cons parameter rest inductionHypothesis =>
      rw [formParameters, inductionHypothesis, List.map_cons]

/-- Copies are left out together. -/
theorem isAbsent_form
    (type : Ty) :
    type.form.isAbsent = type.isAbsent := by
  cases type <;> rfl

/-- The form of a type with a default is its form with the default. -/
theorem form_orElse_void
    (type : Ty) :
    (type.orElse .void).form = type.form.orElse .void := by
  cases type <;> rfl

end Ty

/-- Lists related both ways position by position are the same set. -/
theorem sameSet_of_forall₂
    {related : Ty → Ty → Prop}
    {first second : List Ty}
    (pairs :
      List.Forall₂ (fun x y => related x y ∧ related y x) first second) :
    SameSet related first second := by
  constructor
  · intro x inFirst
    obtain ⟨y, inSecond, both⟩ := exists_related_right pairs inFirst
    exact ⟨y, inSecond, both.2⟩
  · intro y inSecond
    obtain ⟨x, inFirst, both⟩ := exists_related_left pairs inSecond
    exact ⟨x, inFirst, both.1⟩

/-- Copies of a node are alike when copies of its parts are related. -/
theorem nodesAlike_of_form
    {related : Ty → Ty → Prop}
    {first second : Ty}
    (sameForm : first.form = second.form)
    (notNamed : first.isNamed = false)
    (tidyFirst : first.Tidy)
    (tidySecond : second.Tidy)
    (parts :
      ∀ x ∈ first.compared, ∀ y ∈ second.compared,
        x.form = y.form → related x y ∧ related y x) :
    NodesAlike related first second := by
  have lists :
      ∀ {firstTypes secondTypes : List Ty},
        Ty.formAll firstTypes = Ty.formAll secondTypes →
        (∀ x ∈ firstTypes, x ∈ first.compared) →
        (∀ y ∈ secondTypes, y ∈ second.compared) →
        List.Forall₂ (fun x y => related x y ∧ related y x)
          firstTypes secondTypes := by
    intro firstTypes secondTypes same inFirst inSecond
    rw [Ty.formAll_eq_map, Ty.formAll_eq_map] at same
    exact forall₂_imp_of_mem (forall₂_of_map_eq same)
      fun x xMember y yMember =>
        parts x (inFirst x xMember) y (inSecond y yMember)
  cases first <;> cases second <;>
    simp only [Ty.form, reduceCtorEq, Ty.literal.injEq, Ty.object.injEq,
      Ty.array.injEq, Ty.tuple.injEq, Ty.function.injEq, Ty.union.injEq,
      Ty.intersection.injEq, Ty.generic.injEq, Shape.mk.injEq,
      Signature.mk.injEq, Application.mk.injEq, true_and] at sameForm
  case absent.absent => exact .absent
  case primitive.primitive =>
    cases sameForm
    exact .primitive
  case named.named => cases notNamed
  case literal.literal =>
    subst sameForm
    cases tidyFirst with | literal equals => exact .literal equals
  case object.object i shape j other =>
    obtain ⟨properties, index⟩ := sameForm
    cases tidySecond with | object distinct _ _ _ =>
    rw [Ty.formProperties_eq_map, Ty.formProperties_eq_map] at properties
    have copies := forall₂_of_map_eq properties
    refine .object copies.length_eq (fun property member => ?_) ?_
    · obtain ⟨twin, inOther, same⟩ := exists_related_right copies member
      simp only [Property.mk.injEq] at same
      obtain ⟨name, type, optional, readonly⟩ := same
      refine ⟨twin, ?_, optional, readonly, (parts _ ?_ _ ?_ type).1⟩
      · rw [name]
        exact Shape.property?_of_mem distinct inOther
      · exact List.mem_append_left _ (List.mem_map_of_mem member)
      · exact List.mem_append_left _ (List.mem_map_of_mem inOther)
    · cases before : shape.index <;> cases after : other.index <;>
        simp only [before, after, Ty.formIndex, reduceCtorEq,
          Option.some.injEq, IndexSignature.mk.injEq] at index
      · exact .none
      · refine .some
          ⟨(parts _ ?_ _ ?_ index.1).1, (parts _ ?_ _ ?_ index.2).1⟩ <;>
          simp [Ty.compared, Ty.parts, before, after]
  case array.array =>
    obtain ⟨elements, rfl⟩ := sameForm
    exact .array (parts _ List.mem_cons_self _ List.mem_cons_self elements).1
  case tuple.tuple =>
    obtain ⟨elements, rfl⟩ := sameForm
    exact .tuple ((lists elements (fun _ => id) (fun _ => id)).imp
      fun _ _ => And.left)
  case function.function i signature j other =>
    obtain ⟨parameters, rest, result, method⟩ := sameForm
    rw [Ty.formParameters_eq_map, Ty.formParameters_eq_map] at parameters
    refine .function method ?_ ?_ (fun _ => ?_) ?_
    · refine forall₂_imp_of_mem (forall₂_of_map_eq parameters)
        fun before inBefore after inAfter same => ?_
      simp only [Parameter.mk.injEq] at same
      refine ⟨same.2.2, (parts _ ?_ _ ?_ same.2.1).1⟩
      · exact List.mem_append_left _ (List.mem_map_of_mem inBefore)
      · exact List.mem_append_left _ (List.mem_map_of_mem inAfter)
    · rw [← Ty.isAbsent_form, rest, Ty.isAbsent_form]
    · exact (parts _ (by simp [Ty.compared]) _ (by simp [Ty.compared]) rest).1
    · refine (parts _ (by simp [Ty.compared]) _ (by simp [Ty.compared]) ?_).1
      rw [Ty.form_orElse_void, Ty.form_orElse_void, result]
  case union.union =>
    exact .union (sameSet_of_forall₂
      (lists sameForm (fun _ => id) (fun _ => id)))
  case intersection.intersection =>
    exact .intersection (sameSet_of_forall₂
      (lists sameForm (fun _ => id) (fun _ => id)))
  case generic.generic =>
    obtain ⟨utility, base, arguments⟩ := sameForm
    refine .generic utility
      (parts _ List.mem_cons_self _ List.mem_cons_self base).1
      ((lists arguments ?_ ?_).imp fun _ _ => And.left)
    · exact fun _ => .tail _
    · exact fun _ => .tail _

end Copies

namespace Arena

variable {arena : Arena}

/-- A type leads through so many names to a node that is no name. -/
inductive Unfolds
    (arena : Arena) :
    (names : Nat) →
    Ty →
    Ty →
    Prop
  | here :
      type.isNamed = false →
      Unfolds arena 0 type type
  | name :
      arena.definition reference ≠ .absent →
      Unfolds arena names (arena.definition reference) node →
      Unfolds arena (names + 1) (.named reference) node

/-- A type leads to one node, through one number of names. -/
theorem Unfolds.unique
    (unfolds : arena.Unfolds names type node)
    (again : arena.Unfolds others type other) :
    names = others ∧ node = other := by
  induction unfolds generalizing others with
  | here notNamed =>
      cases again with
      | here => exact ⟨rfl, rfl⟩
      | name => cases notNamed
  | name _ _ inductionHypothesis =>
      cases again with
      | here notNamed => cases notNamed
      | name _ again =>
          obtain ⟨rfl, rfl⟩ := inductionHypothesis again
          exact ⟨rfl, rfl⟩

/-- What a type leads to is no name. -/
theorem Unfolds.notNamed
    (unfolds : arena.Unfolds names type node) :
    node.isNamed = false := by
  induction unfolds with
  | here notNamed => exact notNamed
  | name _ _ inductionHypothesis => exact inductionHypothesis

/-- A type that is no name leads to itself. -/
theorem Unfolds.of_notNamed
    (unfolds : arena.Unfolds names type node)
    (notNamed : type.isNamed = false) :
    names = 0 ∧ node = type :=
  unfolds.unique (.here notNamed)

/-- A type leads to what its references resolve to. -/
theorem exists_unfolds
    (resolves : arena.followReferences hops type = .resolved found) :
    ∃ names, arena.Unfolds names type found := by
  induction hops generalizing type with
  | zero =>
      cases resolves
  | succ hops inductionHypothesis =>
      cases type with
      | named reference =>
          unfold followReferences at resolves
          split at resolves
          · cases resolves
          · next defined =>
            obtain ⟨names, unfolds⟩ := inductionHypothesis resolves
            exact ⟨names + 1, .name defined unfolds⟩
      | _ =>
          cases resolves
          exact ⟨0, .here rfl⟩

/--
A type that structural identity can tell from others: it is tidy, and each of
its names resolves to a type that is no name.
-/
structure Identifies
    (arena : Arena)
    (type : Ty) :
    Prop where
  tidy : type.Tidy
  resolves :
    type.Every fun node =>
      node.isNamed = true →
      ∃ limit found, arena.resolve node limit = .resolved found

/-- Structural identity can tell every definition from other types. -/
def Identifiable
    (arena : Arena) :
    Prop :=
  ∀ reference,
    arena.definition reference ≠ .absent →
    arena.Identifies (arena.definition reference)

/-- What can be told apart leads to a node. -/
theorem Identifies.unfolds
    (identifies : arena.Identifies type) :
    ∃ names node, arena.Unfolds names type node := by
  cases named : type.isNamed with
  | false => exact ⟨0, type, .here named⟩
  | true =>
      obtain ⟨limit, found, resolves⟩ := identifies.resolves.here named
      obtain ⟨names, unfolds⟩ := exists_unfolds resolves
      exact ⟨names, found, unfolds⟩

/-- What is behind the names of a type can be told apart like the type. -/
theorem Unfolds.identifies
    (identifiable : arena.Identifiable)
    (unfolds : arena.Unfolds names type node)
    (identifies : arena.Identifies type) :
    arena.Identifies node := by
  induction unfolds with
  | here => exact identifies
  | name defined _ inductionHypothesis =>
      exact inductionHypothesis (identifiable _ defined)

/-- The compared parts of a type can be told apart like the type. -/
theorem Identifies.part
    (identifies : arena.Identifies type)
    {part : Ty}
    (inside : part ∈ type.compared) :
    arena.Identifies part := by
  rcases Ty.mem_compared inside with inParts | rfl
  · exact ⟨identifies.tidy.part inParts, identifies.resolves.inside inParts⟩
  · exact ⟨.primitive, .leaf (by simp [Ty.isNamed]) rfl⟩

/-- Two types look alike to so many levels, whatever names they use. -/
def Alike
    (arena : Arena) :
    (levels : Nat) →
    Ty →
    Ty →
    Prop
  | 0, _, _ => True
  | levels + 1, first, second =>
      ∃ firstNames firstNode secondNames secondNode,
        arena.Unfolds firstNames first firstNode ∧
          arena.Unfolds secondNames second secondNode ∧
          NodesAlike (arena.Alike levels) firstNode secondNode

/-- What looks alike to some levels looks alike to fewer. -/
theorem Alike.fewer
    (alike : arena.Alike (levels + 1) first second) :
    arena.Alike levels first second := by
  induction levels generalizing first second with
  | zero => trivial
  | succ levels inductionHypothesis =>
      obtain ⟨i, x, j, y, unfoldsFirst, unfoldsSecond, nodes⟩ := alike
      exact ⟨i, x, j, y, unfoldsFirst, unfoldsSecond,
        nodes.imp (fun _ _ _ _ => inductionHypothesis)
          (fun _ _ _ _ => inductionHypothesis)⟩

/-- Copies lead to copies. -/
theorem form_of_unfolds
    (sameForm : first.form = second.form)
    (unfoldsFirst : arena.Unfolds i first x)
    (unfoldsSecond : arena.Unfolds j second y) :
    x.form = y.form := by
  cases unfoldsFirst with
  | here notNamed =>
      have alsoNot : second.isNamed = false := by
        cases first <;> cases second <;> simp_all [Ty.form, Ty.isNamed]
      rw [(unfoldsSecond.of_notNamed alsoNot).2, sameForm]
  | name defined unfolds =>
      cases second <;> simp only [Ty.form, reduceCtorEq] at sameForm
      cases sameForm
      rw [((Unfolds.name defined unfolds).unique unfoldsSecond).2]

/-- Copies look alike. -/
theorem alike_of_form
    (identifiable : arena.Identifiable)
    (identifiesFirst : arena.Identifies first)
    (identifiesSecond : arena.Identifies second)
    (sameForm : first.form = second.form)
    (levels : Nat) :
    arena.Alike levels first second := by
  induction levels generalizing first second with
  | zero => trivial
  | succ levels inductionHypothesis =>
      obtain ⟨i, x, unfoldsFirst⟩ := identifiesFirst.unfolds
      obtain ⟨j, y, unfoldsSecond⟩ := identifiesSecond.unfolds
      have sameNode := form_of_unfolds sameForm unfoldsFirst unfoldsSecond
      have identifiesX := unfoldsFirst.identifies identifiable identifiesFirst
      have identifiesY :=
        unfoldsSecond.identifies identifiable identifiesSecond
      refine ⟨i, x, j, y, unfoldsFirst, unfoldsSecond, ?_⟩
      exact nodesAlike_of_form sameNode unfoldsFirst.notNamed identifiesX.tidy
        identifiesY.tidy fun part inX other inY same =>
          ⟨inductionHypothesis (identifiesX.part inX) (identifiesY.part inY)
              same,
            inductionHypothesis (identifiesY.part inY) (identifiesX.part inX)
              same.symm⟩

/-- Looking alike does not depend on the order of the types. -/
theorem Alike.symm
    (identifiable : arena.Identifiable)
    (identifiesFirst : arena.Identifies first)
    (identifiesSecond : arena.Identifies second)
    (alike : arena.Alike levels first second) :
    arena.Alike levels second first := by
  induction levels generalizing first second with
  | zero => trivial
  | succ levels inductionHypothesis =>
      obtain ⟨i, x, j, y, unfoldsFirst, unfoldsSecond, nodes⟩ := alike
      have identifiesX := unfoldsFirst.identifies identifiable identifiesFirst
      have identifiesY :=
        unfoldsSecond.identifies identifiable identifiesSecond
      exact ⟨j, y, i, x, unfoldsSecond, unfoldsFirst,
        nodes.symm identifiesX.tidy identifiesY.tidy
          fun _ inX _ inY =>
            inductionHypothesis (identifiesX.part inX)
              (identifiesY.part inY)⟩

/-- Looking alike passes on from type to type. -/
theorem Alike.trans
    (early : arena.Alike levels first second)
    (late : arena.Alike levels second third) :
    arena.Alike levels first third := by
  induction levels generalizing first second third with
  | zero => trivial
  | succ levels inductionHypothesis =>
      obtain ⟨i, x, j, y, unfoldsFirst, unfoldsSecond, before⟩ := early
      obtain ⟨_, _, k, z, again, unfoldsThird, after⟩ := late
      obtain ⟨rfl, rfl⟩ := unfoldsSecond.unique again
      exact ⟨i, x, k, z, unfoldsFirst, unfoldsThird,
        before.trans after (fun _ _ _ _ _ _ => inductionHypothesis)
          (fun _ _ _ _ _ _ => inductionHypothesis)⟩

end Arena

end StructuralTyping
