import StructuralTyping.Proofs.Discrimination
import StructuralTyping.Proofs.Grouping
import StructuralTyping.Proofs.IdentityEquivalence
import StructuralTyping.Proofs.SharedForms

namespace StructuralTyping

/-!
# Unions of objects and the names in them

A union of objects that a property tells apart is exhausted by the labels that
equal the literals of the property. A name for one of the objects is seen through,
and so is one for the whole union. A name for several of them among others has no
object behind it: the union is not taken apart, and no labels exhaust it.
-/

open Check

/-- A type that every union keeps, as one member. -/
structure Ty.StaysMember
    (type : Ty) :
    Prop where
  notUnion : type.isUnion = false
  plain :
    type.isNever = false ∧ type.isPrimitive .any = false ∧
      type.isPrimitive .unknown = false

namespace Arena

variable {arena : Arena} {tag : String} {value other : Literal}

/-- An object, written out or under names, with a literal under a required tag. -/
def TaggedObject
    (arena : Arena)
    (tag : String)
    (type : Ty)
    (value : Literal) :
    Prop :=
  ∃ names occurrence shape,
    arena.Unfolds names type (.object occurrence shape) ∧
      arena.discriminantOf? tag shape = some value ∧
        value.equal value = true

/-- Identical types with literals behind them have equal ones. -/
theorem equal_of_identicalWithin
    {type another : Ty}
    (unfolds : arena.Unfolds names type (.literal i value))
    (unfoldsOther : arena.Unfolds others another (.literal j other))
    (itself : value.equal value = true)
    (elsewhere :
      ∀ pair ∈ opened, ∃ names occurrence shape,
        arena.Unfolds names pair.1 (.object occurrence shape))
    (identical : arena.identicalWithin depth opened type another = true) :
    value.equal other = true := by
  unfold identicalWithin at identical
  rcases unfoldPair_cases opened unfolds unfoldsOther
      unfolds.names_le_pairHops unfoldsOther.names_le_pairHops with
    ⟨-, pair, passes, same⟩ | ⟨stuck, -⟩ | ⟨_, exposed, -⟩
  · obtain ⟨⟨_, -, passesFirst⟩, _, -, passesSecond⟩ := passes
    rcases same with same | inOpened
    · have literals := ((same ▸ passesFirst).unique passesSecond).2
      cases literals
      exact itself
    · obtain ⟨_, _, _, toObject⟩ := elsewhere pair inOpened
      cases (passesFirst.unique toObject).2
  · rw [stuck] at identical
    cases identical
  · rw [exposed] at identical
    cases depth with
    | zero => cases identical
    | succ depth => exact identical

/-- Objects are only identical if their tags are equal. -/
theorem TaggedObject.equal_of_identical
    {type another : Ty}
    (tagged : arena.TaggedObject tag type value)
    (alsoTagged : arena.TaggedObject tag another other)
    (identical : arena.identical type another = true) :
    value.equal other = true := by
  obtain ⟨names, i, shape, unfolds, has, itself⟩ := tagged
  obtain ⟨others, j, second, unfoldsOther, hasOther, -⟩ := alsoTagged
  unfold Arena.identical identicalWithin at identical
  rcases unfoldPair_cases [] unfolds unfoldsOther
      unfolds.names_le_pairHops unfoldsOther.names_le_pairHops with
    ⟨-, pair, passes, same⟩ | ⟨stuck, -⟩ | ⟨opened, exposed, -, met⟩
  · obtain ⟨⟨_, -, passesFirst⟩, _, -, passesSecond⟩ := passes
    rcases same with same | assumed
    · have objects := ((same ▸ passesFirst).unique passesSecond).2
      cases objects
      rw [has] at hasOther
      cases hasOther
      exact itself
    · cases assumed
  · rw [stuck] at identical
    cases identical
  · rw [exposed] at identical
    obtain ⟨property, _, declared, -, literal⟩ := resolve_of_discriminantOf? has
    obtain ⟨counterpart, _, alsoDeclared, -, otherLiteral⟩ :=
      resolve_of_discriminantOf? hasOther
    obtain ⟨_, leads⟩ := exists_unfolds literal
    obtain ⟨_, alsoLeads⟩ := exists_unfolds otherLiteral
    obtain ⟨inShape, rfl⟩ := Shape.mem_of_property? declared
    have types :
        arena.identicalWithin 255 opened property.type counterpart.type =
          true := by
      change
        equalNodes (arena.identicalWithin 255 opened)
          (.object i shape) (.object j second) = true at identical
      simp only [equalNodes, Bool.and_eq_true, List.all_eq_true] at identical
      have equal := identical.1.2 property inShape
      rw [equalProperty, alsoDeclared] at equal
      simp only [Bool.and_eq_true] at equal
      exact equal.2
    refine equal_of_identicalWithin leads alsoLeads ?_ (fun pair inOpened => ?_)
      types
    · exact itself
    · rcases met pair inOpened with assumed | passes
      · cases assumed
      · obtain ⟨fewer, -, toObject⟩ := passes.first
        exact ⟨fewer, i, shape, toObject⟩

/-- Every union keeps an object. -/
theorem TaggedObject.kept
    {type : Ty}
    (tagged : arena.TaggedObject tag type value) :
    type.StaysMember := by
  obtain ⟨_, _, _, unfolds, -⟩ := tagged
  cases unfolds <;> exact ⟨rfl, rfl, rfl, rfl⟩

/-- What every union keeps is all of a union without other members. -/
theorem joinMembers_alone
    {type : Ty}
    (kept : type.StaysMember) :
    arena.joinMembers (flattenUnion [type]) = type := by
  rw [flattenUnion_of_flat (List.forall_mem_singleton.mpr kept.notUnion),
    joinMembers_of_plain (List.forall_mem_singleton.mpr kept.plain)]
  rfl

end Arena

namespace Checker

variable
  {checker : Checker}
  {tag : String}
  {value : Literal}
  {type form : Ty}
  {budget depth : Nat}

/-- Some normalization of the type settles with the form. -/
def HasForm
    (checker : Checker)
    (type form : Ty) :
    Prop :=
  ∃ budget depth,
    Stateful.Settles
      ((normalPass checker.normalMode budget).normalize depth type) form

/-- A type has one form. -/
theorem HasForm.unique
    (hasForm : checker.HasForm type form)
    (again : checker.HasForm type other) :
    form = other := by
  obtain ⟨_, _, settles⟩ := hasForm
  obtain ⟨_, _, settlesAgain⟩ := again
  exact settles_unique settles settlesAgain

/-- A name is its own form. -/
theorem HasForm.eq_of_named
    (hasForm : checker.HasForm (.named reference) form) :
    form = .named reference := by
  obtain ⟨_, _, settles⟩ := hasForm
  obtain ⟨_, settles⟩ := normalize_node rfl settles
  exact settles.of_pure

/-- A name is among the forms of types that it is among. -/
theorem named_mem_forms
    {types forms : List Ty}
    (hasForms : List.Forall₂ checker.HasForm types forms)
    (inTypes : .named reference ∈ types) :
    .named reference ∈ forms := by
  obtain ⟨_, inForms, hasForm⟩ := exists_related_right hasForms inTypes
  cases hasForm.eq_of_named
  exact inForms

/-- A union has the form that the forms of its members join to. -/
theorem HasForm.of_union
    {types : List Ty}
    (hasForm : checker.HasForm (.union occurrence types) form) :
    ∃ forms,
      List.Forall₂ checker.HasForm types forms ∧
        form = checker.arena.joinMembers (flattenUnion forms) := by
  obtain ⟨_, _, settles⟩ := hasForm
  obtain ⟨_, settles⟩ := normalize_node rfl settles
  obtain ⟨forms, visits, joined⟩ := NormalPass.union_cases settles
  exact ⟨forms, visits.of_mapM.imp fun _ _ settles => ⟨_, _, settles⟩, joined⟩

/-- A type that leads to a literal stays where it is a part of another one. -/
theorem inner_of_literalOf?
    (literal : checker.arena.literalOf? type = some value)
    (settles :
      Stateful.Settles
        ((normalPass checker.normalMode budget).inner depth type) form) :
    form = type := by
  cases budget with
  | zero =>
      obtain ⟨_, _, _, _, _, run, _⟩ := settles
      cases run
  | succ less =>
      cases type with
      | named reference => exact HasForm.eq_of_named ⟨less, depth, settles⟩
      | literal occurrence found =>
          change
            Stateful.Settles
              ((normalPass checker.normalMode less).normalize depth
                (.literal occurrence found))
              form at settles
          obtain ⟨_, settles⟩ := normalize_node rfl settles
          exact settles.of_pure
      | _ => cases literal

/-- The literal under a tag stays in the normal form of a shape. -/
theorem discriminantOf?_normalizeShape
    {shape normal : Shape Ty}
    (settles :
      Stateful.Settles
        ((normalPass checker.normalMode budget).normalizeShape depth shape)
        normal)
    (has : checker.arena.discriminantOf? tag shape = some value) :
    checker.arena.discriminantOf? tag normal = some value := by
  let Stays (before after : Ty) : Prop :=
    ∀ value, checker.arena.literalOf? before = some value → after = before
  have properties :
      List.Forall₂ (RelatedProperty Stays) shape.properties normal.properties :=
    (NormalPass.normalizeShape_cases settles).1.imp
      fun _ _ both =>
        ⟨by rw [both.1], by rw [both.1],
          fun _ literal => inner_of_literalOf? literal both.2⟩
  have found := Parallel.property? properties tag
  unfold Arena.discriminantOf? at has ⊢
  generalize shape.property? tag = declared at has found
  generalize normal.property? tag = kept at found
  cases found with
  | none => cases has
  | some related =>
      dsimp only at has ⊢
      rw [← related.optional]
      split at has
      · cases has
      · next required =>
        rw [if_neg required, related.type _ has]
        exact has

/-- The form of an object has the literal under the tag, too. -/
theorem HasForm.tagged
    (hasForm : checker.HasForm type form)
    (tagged : checker.arena.TaggedObject tag type value) :
    checker.arena.TaggedObject tag form value := by
  have isTagged := tagged
  obtain ⟨_, _, shape, unfolds, has, itself⟩ := tagged
  cases unfolds with
  | here =>
      obtain ⟨_, _, settles⟩ := hasForm
      obtain ⟨_, settles⟩ := normalize_node rfl settles
      obtain ⟨normal, normalizes, settles⟩ := settles.of_bind
      cases settles.of_pure
      exact ⟨0, none, normal, .here rfl,
        discriminantOf?_normalizeShape normalizes has, itself⟩
  | name =>
      rw [hasForm.eq_of_named]
      exact isTagged

section Behind

variable {remaining names : Nat} {outcome : Except UtilityError Ty}

/-- Following references from a type ends at the node that it leads to. -/
theorem settles_resolveWithin_node
    {node : Ty}
    (unfolds : checker.arena.Unfolds names type node)
    (notReference : node.isReference = false)
    (settles :
      Settles (checker.evaluation.resolveWithin remaining depth type).run
        outcome) :
    outcome = .ok node := by
  induction unfolds generalizing remaining depth with
  | here =>
      cases remaining with
      | zero => exact absurd settles Evaluation.not_settles_exceeded
      | succ remaining =>
          rename_i type _
          cases type <;>
            first | exact settles_pure.mp settles | cases notReference
  | name defined _ inductionHypothesis =>
      cases remaining with
      | zero => exact absurd settles Evaluation.not_settles_exceeded
      | succ remaining =>
          unfold Evaluation.resolveWithin at settles
          split at settles
          · next isAbsent => exact absurd isAbsent defined
          · exact inductionHypothesis notReference settles

/-- Behind a type that leads to an object is this object. -/
theorem settles_structural_object
    (unfolds : checker.arena.Unfolds names type (.object occurrence shape))
    (settles :
      Settles (checker.evaluation.structuralWithin remaining depth type).run
        outcome) :
    outcome = .ok (.object occurrence shape) := by
  cases remaining with
  | zero | succ remaining =>
    unfold Evaluation.structuralWithin at settles
    rcases settles.of_evaluateBind fun resolved => by
        cases resolved <;> (dsimp only; infer_instance) with
      ⟨resolved, resolves, settles⟩ | ⟨_, resolves, _⟩
    · cases settles_resolveWithin_node unfolds rfl resolves
      exact settles_pure.mp settles
    · cases settles_resolveWithin_node unfolds rfl resolves

/--
Behind a type that leads to a union is the form of the union, or what is behind
the form if that is a name. Only intersections are taken further apart.
-/
theorem settles_structural_union
    {types : List Ty}
    (unfolds : checker.arena.Unfolds names type (.union occurrence types))
    (settles :
      Settles (checker.evaluation.structuralWithin remaining depth type).run
        outcome) :
    ∃ form,
      checker.HasForm (.union occurrence types) form ∧
        (RelationStep.isIntersection form = true ∨
          (form.isReference = true ∧
            ∃ less,
              Settles
                (checker.evaluation.structuralWithin less (depth + 1) form).run
                outcome) ∨
          form.isReference = false ∧ outcome = .ok form) := by
  cases remaining with
  | zero | succ remaining =>
    unfold Evaluation.structuralWithin at settles
    rcases settles.of_evaluateBind fun resolved => by
        cases resolved <;> (dsimp only; infer_instance) with
      ⟨resolved, resolves, settles⟩ | ⟨_, resolves, _⟩
    · cases settles_resolveWithin_node unfolds rfl resolves
      rcases settles.of_evaluateBind fun merged => by
          split <;> infer_instance with
        ⟨merged, merges, settles⟩ | ⟨_, merges, _⟩
      · obtain ⟨_, ⟨⟩, merges⟩ := merges.of_evaluateLift
        obtain ⟨form, normalizes, agrees⟩ := normalizeMerged_agrees merges
        refine ⟨form, ⟨_, _, normalizes⟩, agrees.imp_right fun same => ?_⟩
        subst same
        cases reference : merged.isReference with
        | true =>
            rw [reference] at settles
            first
            | exact .inl ⟨rfl, _, settles⟩
            | exact (not_settles_exhausted settles).elim
        | false =>
            rw [reference] at settles
            exact .inr ⟨rfl, settles_pure.mp settles⟩
      · obtain ⟨_, ⟨⟩, _⟩ := merges.of_evaluateLift
    · cases settles_resolveWithin_node unfolds rfl resolves

/-- Behind a union of one member that every union keeps is what is behind its form. -/
theorem settles_structural_alone
    {member : Ty}
    (unfolds : checker.arena.Unfolds names type (.union occurrence [member]))
    (kept : ∀ form, checker.HasForm member form → form.StaysMember)
    (settles :
      Settles (checker.evaluation.structuralWithin remaining depth type).run
        outcome) :
    ∃ form,
      checker.HasForm member form ∧
        (RelationStep.isIntersection form = true ∨
          (form.isReference = true ∧
            ∃ less,
              Settles
                (checker.evaluation.structuralWithin less (depth + 1) form).run
                outcome) ∨
          form.isReference = false ∧ outcome = .ok form) := by
  obtain ⟨_, hasJoined, leads⟩ := settles_structural_union unfolds settles
  obtain ⟨_, hasForms, rfl⟩ := hasJoined.of_union
  obtain ⟨form, _, hasForm, rest, rfl⟩ := List.forall₂_cons_left_iff.mp hasForms
  cases rest
  rw [Arena.joinMembers_alone (kept form hasForm)] at leads
  exact ⟨form, hasForm, leads⟩

end Behind

/-- The shape of the object that the form of a type leads to. -/
def Shows
    (checker : Checker)
    (type : Ty)
    (shape : Shape Ty) :
    Prop :=
  ∃ form names occurrence,
    checker.HasForm type form ∧
      checker.arena.Unfolds names form (.object occurrence shape)

/-- A type shows one shape. -/
theorem Shows.unique
    {shape another : Shape Ty}
    (shows : checker.Shows type shape)
    (again : checker.Shows type another) :
    shape = another := by
  obtain ⟨_, _, _, hasForm, unfolds⟩ := shows
  obtain ⟨_, _, _, hasFormAgain, unfoldsAgain⟩ := again
  cases hasForm.unique hasFormAgain
  cases (unfolds.unique unfoldsAgain).2
  rfl

/-- What a tagged object shows has the literal under the tag. -/
theorem Shows.discriminantOf?
    {shape : Shape Ty}
    (shows : checker.Shows type shape)
    (tagged : checker.arena.TaggedObject tag type value) :
    checker.arena.discriminantOf? tag shape = some value := by
  obtain ⟨_, _, _, hasForm, unfolds⟩ := shows
  obtain ⟨_, _, _, unfoldsTagged, has, -⟩ := hasForm.tagged tagged
  cases (unfolds.unique unfoldsTagged).2
  exact has

/-- Behind a form that leads to an object, the member of a union is this object. -/
theorem settles_memberShape
    {member : Ty}
    (behind :
      ∀ outcome, Settles (checker.structural 1 member) outcome →
        ∃ occurrence, outcome = .ok (.object occurrence shape))
    (settles : Settles (checker.memberShape member).run found) :
    found = some shape := by
  unfold memberShape at settles
  rcases settles.of_optionBind_cases fun answer => by
      split <;> infer_instance with
    ⟨answer, resolves, settles⟩ | ⟨resolves, _⟩
  · obtain ⟨_, ⟨⟩, resolves⟩ := resolves.of_optionLift
    obtain ⟨_, rfl⟩ := behind _ resolves
    exact settles_pure.mp settles
  · obtain ⟨_, ⟨⟩, _⟩ := resolves.of_optionLift

/-- The members of a union have the objects behind them. -/
theorem settles_memberShapes
    {members : List Ty}
    {shapes : List (Shape Ty)}
    (behind :
      List.Forall₂
        (fun member shape =>
          ∀ outcome, Settles (checker.structural 1 member) outcome →
            ∃ occurrence, outcome = .ok (.object occurrence shape))
        members shapes)
    (settles : Settles (members.mapM checker.memberShape).run found) :
    found = some shapes := by
  induction behind generalizing found with
  | nil => exact settles_pure.mp settles
  | @cons member shape rest shapes head _ inductionHypothesis =>
      rw [List.mapM_cons] at settles
      rcases settles.of_optionBind_cases fun _ => inferInstance with
        ⟨_, first, settles⟩ | ⟨first, _⟩
      · cases settles_memberShape head first
        rcases settles.of_optionBind_cases fun _ => inferInstance with
          ⟨_, others, settles⟩ | ⟨others, _⟩
        · cases inductionHypothesis others
          exact settles_pure.mp settles
        · cases inductionHypothesis others
      · cases settles_memberShape head first

/-- Behind the form of a type is an object of the shape, if anything is. -/
def Presents
    (checker : Checker)
    (type : Ty)
    (shape : Shape Ty) :
    Prop :=
  ∀ form outcome,
    checker.HasForm type form →
      Settles (checker.structural 1 form) outcome →
        ∃ occurrence, outcome = .ok (.object occurrence shape)

/-- A type presents what it shows. -/
theorem Shows.presents
    {shape : Shape Ty}
    (shows : checker.Shows type shape) :
    checker.Presents type shape := by
  intro form outcome hasForm settles
  obtain ⟨_, _, occurrence, shownForm, unfolds⟩ := shows
  cases hasForm.unique shownForm
  exact ⟨occurrence, settles_structural_object unfolds settles⟩

/--
A type that leads to a union is a union of objects, if there is an object behind
the form of each member.
-/
theorem objectUnion?_found
    {written : List Ty}
    {shapes : List (Shape Ty)}
    (leads :
      ∀ outcome, Settles (checker.structural 0 type) outcome →
        ∃ forms,
          List.Forall₂ checker.HasForm written forms ∧
            outcome = .ok (.ofUnion forms))
    (presents : List.Forall₂ checker.Presents written shapes)
    (settles : Settles (checker.objectUnion? type) found) :
    ∃ members, found = some { members, shapes } := by
  unfold objectUnion? at settles
  obtain ⟨answer, resolves, settles⟩ := settles.of_bind fun answer => by
    split <;> infer_instance
  obtain ⟨forms, hasForms, rfl⟩ := leads _ resolves
  obtain ⟨visited, visits, settles⟩ := settles_bind.mp settles
  have formsBehind :
      List.Forall₂
        (fun member shape =>
          ∀ outcome, Settles (checker.structural 1 member) outcome →
            ∃ occurrence, outcome = .ok (.object occurrence shape))
        forms shapes := by
    have turned :
        List.Forall₂ (fun form member => checker.HasForm member form)
          forms written :=
      hasForms.flip
    refine (forall₂_comp turned presents).imp fun form _ both outcome => ?_
    obtain ⟨_, hasForm, presented⟩ := both
    exact presented form outcome hasForm
  cases settles_memberShapes formsBehind visits
  exact ⟨forms, settles_pure.mp settles⟩

end Checker

namespace Arena

variable {arena : Arena}

/-- The first name of the first shape that tells shapes apart, and its literals. -/
def toldApart?
    (arena : Arena)
    (shapes : List (Shape Ty)) :
    Option (String × List Literal) :=
  shapes.head?.bind fun first =>
    first.names.findSome? fun name =>
      (arena.distinctLiterals? name [] shapes).map (name, ·)

/-- What tells the shapes apart takes the union of the objects apart. -/
theorem findSome?_discriminate?
    (union : ObjectUnion)
    (names : List String) :
    names.findSome? (arena.discriminate? union) =
      (names.findSome? fun name =>
        (arena.distinctLiterals? name [] union.shapes).map (name, ·)).map
        fun found =>
          { discriminator := found.1
            variants := List.zipWith Variant.mk found.2 union.members } := by
  rw [List.map_findSome?]
  congr 1
  funext name
  rw [Function.comp_apply, Option.map_map]
  rfl

/-- The name that tells shapes apart has its literals in them. -/
theorem distinctLiterals?_of_toldApart?
    {shapes : List (Shape Ty)}
    (apart : arena.toldApart? shapes = some (name, literals)) :
    arena.distinctLiterals? name [] shapes = some literals := by
  obtain ⟨first, _, search⟩ := Option.bind_eq_some_iff.mp apart
  obtain ⟨other, _, found⟩ := List.exists_of_findSome?_eq_some search
  obtain ⟨values, tells, same⟩ := Option.map_eq_some_iff.mp found
  cases same
  exact tells

/-- Different literals under a name tell shapes apart. -/
theorem distinctLiterals?_of_pairwise
    {shapes : List (Shape Ty)}
    {values seen : List Literal}
    (has :
      List.Forall₂
        (fun shape value => arena.discriminantOf? name shape = some value)
        shapes values)
    (distinct : values.Pairwise fun first second => first.equal second = false)
    (unseen : ∀ value ∈ values, ∀ other ∈ seen, other.equal value = false) :
    arena.distinctLiterals? name seen shapes = some values := by
  induction has generalizing seen with
  | nil => rfl
  | @cons shape value rest values found _ inductionHypothesis =>
      rw [List.pairwise_cons] at distinct
      rw [List.forall_mem_cons] at unseen
      have others :
          arena.distinctLiterals? name (value :: seen) rest = some values := by
        refine inductionHypothesis distinct.2 fun later inValues => ?_
        rw [List.forall_mem_cons]
        exact ⟨distinct.1 later inValues, unseen.2 later inValues⟩
      rw [distinctLiterals?, found]
      dsimp only
      rw [if_neg (by simpa using unseen.1), others]
      rfl

end Arena

namespace Checker

variable {checker : Checker} {type : Ty}

/--
A union of objects that a property tells apart is exhausted exactly when the labels
equal all the literals of the first property that does so.
-/
theorem checkExhaustive_toldApart
    {shapes : List (Shape Ty)}
    {labels literals : List Literal}
    (finds :
      ∀ found, Settles (checker.objectUnion? type) found →
        ∃ members, found = some { members, shapes })
    (apart : checker.arena.toldApart? shapes = some (name, literals))
    (settles : Settles (checker.checkExhaustive type labels) result) :
    result.discriminator = name ∧
      result.exhaustive =
        literals.all fun literal => labels.any (Literal.equal · literal) := by
  unfold checkExhaustive at settles
  obtain ⟨coverage, starts, settles⟩ := settles.of_bind fun coverage => by
    cases coverage <;> infer_instance
  unfold coverage? at starts
  obtain ⟨taken, takes, starts⟩ := starts.of_bind fun taken => by
    cases taken <;> infer_instance
  obtain ⟨found, looks, answer⟩ := discriminant?_settles.mp takes
  obtain ⟨members, rfl⟩ := finds found looks
  obtain ⟨first, isFirst, search⟩ := Option.bind_eq_some_iff.mp apart
  rw [Option.bind_some, isFirst, Option.bind_some,
    Arena.findSome?_discriminate?, search] at answer
  subst answer
  cases settles_pure.mp starts
  obtain ⟨residual, normalizes, settles⟩ := settles_bind.mp settles
  cases settles_pure.mp settles
  refine ⟨rfl, ?_⟩
  have tells := Arena.distinctLiterals?_of_toldApart? apart
  have lasting :
      ((Coverage.ofUnion
        { discriminator := name
          variants := List.zipWith Variant.mk literals members }).handleAll
        labels).Lasting checker := by
    unfold Coverage.Lasting
    rw [Coverage.variants_handleAll]
    exact lasting_of_discriminate? looks
      (by rw [Arena.discriminate?, tells]; rfl)
  obtain ⟨_, sameValues, -⟩ :=
    variants_spec
      (forall₂_comp (objectUnion?_shapes looks).2
        (Arena.distinctLiterals?_spec tells))
  change residual.isNever = _
  rw [Coverage.residual_isNever lasting normalizes,
    Coverage.unhandled_handleAll rfl, List.isEmpty_map]
  conv_rhs => rw [← sameValues, List.all_map]
  rw [Bool.eq_iff_iff]
  simp [Coverage.ofUnion]

/-- Types whose forms a union keeps side by side. -/
structure Separate
    (checker : Checker)
    (types : List Ty) :
    Prop where
  several : 2 ≤ types.length
  distinct :
    types.Pairwise fun first second =>
      ∀ form other,
        checker.HasForm first form →
          checker.HasForm second other →
            checker.arena.identical form other = false
  kept :
    ∀ type ∈ types, ∀ form, checker.HasForm type form → form.StaysMember

/-- Pairs of items that are apart have related items that are apart. -/
theorem pairwise_of_forall₂
    {related : α → β → Prop}
    {apart : β → β → Prop}
    (each : List.Forall₂ related items others)
    (pairs :
      items.Pairwise fun first second =>
        ∀ x y, related first x → related second y → apart x y) :
    others.Pairwise apart := by
  induction each with
  | nil => exact .nil
  | cons head rest inductionHypothesis =>
      rw [List.pairwise_cons] at pairs ⊢
      refine ⟨fun other inOthers => ?_, inductionHypothesis pairs.2⟩
      obtain ⟨item, inItems, relates⟩ := exists_related_left rest inOthers
      exact pairs.1 item inItems _ _ head relates

/-- Items related one by one stay so when one of them is replaced by another. -/
theorem forall₂_replace
    {related wanted : α → β → Prop}
    {first second : α}
    (implies : ∀ {x y}, related x y → wanted x y)
    (here : ∀ {y}, related first y → wanted second y)
    (each : List.Forall₂ related (early ++ first :: late) others) :
    List.Forall₂ wanted (early ++ second :: late) others := by
  induction early generalizing others with
  | nil =>
      cases each with
      | cons head rest => exact .cons (here head) (rest.imp fun _ _ => implies)
  | cons _ _ inductionHypothesis =>
      cases each with
      | cons head rest =>
          exact .cons (implies head) (inductionHypothesis rest)

namespace Separate

variable {types : List Ty}

/-- A part of such types that has several of them is of this kind, too. -/
theorem sublist
    (separate : checker.Separate types)
    {fewer : List Ty}
    (part : fewer.Sublist types)
    (several : 2 ≤ fewer.length) :
    checker.Separate fewer where
  several := several
  distinct := separate.distinct.sublist part
  kept type member := separate.kept type (part.subset member)

/-- Their forms join to a union of all of them. -/
theorem joined
    (separate : checker.Separate types)
    (hasForms : List.Forall₂ checker.HasForm types forms) :
    checker.arena.joinMembers (flattenUnion forms) = .ofUnion forms := by
  have kept : ∀ form ∈ forms, form.StaysMember := by
    intro form inForms
    obtain ⟨type, inTypes, hasForm⟩ := exists_related_left hasForms inForms
    exact separate.kept type inTypes form hasForm
  have distinct :
      forms.Pairwise fun first second =>
        checker.arena.identical first second = false :=
    pairwise_of_forall₂ hasForms separate.distinct
  have several : 2 ≤ forms.length := hasForms.length_eq ▸ separate.several
  rw [flattenUnion_of_flat fun form inForms => (kept form inForms).notUnion,
    joinMembers_of_plain fun form inForms => (kept form inForms).plain,
    foldl_appendUnique_of_pairwise distinct, List.nil_append]
  match forms with
  | first :: second :: rest => rfl
  | [_] => simp at several
  | [] => simp at several

/-- Behind a type that leads to their union are their forms. -/
theorem leads
    (separate : checker.Separate types)
    (unfolds : checker.arena.Unfolds names type (.union occurrence types))
    (settles :
      Settles (checker.evaluation.structuralWithin remaining depth type).run
        outcome) :
    ∃ forms,
      List.Forall₂ checker.HasForm types forms ∧ outcome = .ok (.ofUnion forms) := by
  obtain ⟨form, hasForm, leads⟩ := settles_structural_union unfolds settles
  obtain ⟨forms, hasForms, same⟩ := hasForm.of_union
  rw [separate.joined hasForms] at same
  subst same
  rcases leads with intersection | ⟨reference, -⟩ | ⟨-, found⟩
  · cases intersection
  · cases reference
  · exact ⟨forms, hasForms, found⟩

end Separate

section Rows

variable
  {types : List Ty}
  {values : List Literal}
  (tagged : List.Forall₂ (checker.arena.TaggedObject tag) types values)
  (distinct : values.Pairwise fun first second => first.equal second = false)

include tagged distinct in
/-- Objects with different tags are kept side by side. -/
theorem separate_of_tagged
    (several : 2 ≤ types.length) :
    checker.Separate types where
  several := several
  distinct := by
    refine pairwise_of_forall₂ tagged.flip (distinct.imp ?_)
    intro value other differ first second isTagged isOther form another hasForm
      hasAnother
    by_contra identical
    have equal :=
      (hasForm.tagged isTagged).equal_of_identical (hasAnother.tagged isOther)
        (by simpa using identical)
    rw [differ] at equal
    cases equal
  kept type member form hasForm := by
    obtain ⟨value, _, isTagged⟩ := exists_related_right tagged member
    exact (hasForm.tagged isTagged).kept

include tagged in
/-- Tagged objects with forms show shapes. -/
theorem exists_shapes
    (hasForms : List.Forall₂ checker.HasForm types forms) :
    ∃ shapes, List.Forall₂ checker.Shows types shapes := by
  induction hasForms generalizing values with
  | nil => exact ⟨[], .nil⟩
  | cons head _ inductionHypothesis =>
      cases tagged with
      | cons isTagged others =>
          obtain ⟨names, occurrence, shape, unfolds, -⟩ := head.tagged isTagged
          obtain ⟨shapes, shows⟩ := inductionHypothesis others
          exact ⟨shape :: shapes,
            .cons ⟨_, names, occurrence, head, unfolds⟩ shows⟩

include tagged distinct in
/-- Something tells the shapes of objects with different tags apart. -/
theorem exists_toldApart
    {shapes : List (Shape Ty)}
    (shows : List.Forall₂ checker.Shows types shapes)
    (nonempty : types ≠ []) :
    ∃ name literals,
      checker.arena.toldApart? shapes = some (name, literals) ∧
        (name = tag → literals = values) := by
  have has :
      List.Forall₂
        (fun shape value => checker.arena.discriminantOf? tag shape = some value)
        shapes values :=
    (forall₂_comp shows.flip tagged).imp fun shape value both => by
      obtain ⟨type, shows, isTagged⟩ := both
      exact Shows.discriminantOf? shows isTagged
  have tells : checker.arena.distinctLiterals? tag [] shapes = some values :=
    Arena.distinctLiterals?_of_pairwise has distinct (by simp)
  cases shows with
  | nil => exact absurd rfl nonempty
  | @cons _ first _ rest =>
      cases apart : checker.arena.toldApart? (first :: rest) with
      | some found =>
          obtain ⟨name, literals⟩ := found
          refine ⟨name, literals, rfl, fun same => ?_⟩
          have found := Arena.distinctLiterals?_of_toldApart? apart
          rw [same, tells] at found
          exact (Option.some.inj found).symm
      | none =>
          let union : ObjectUnion := { members := [], shapes := first :: rest }
          have misses :
              first.names.findSome? (checker.arena.discriminate? union) =
                none := by
            rw [Arena.findSome?_discriminate?]
            exact Option.map_eq_none_iff.mpr apart
          have missed :=
            (search_eq_none_iff (show union.shapes.head? = some first from rfl)).mp
              misses tag
          rw [Arena.discriminate?, tells] at missed
          cases missed

end Rows

section Grouped

variable
  {reference : Reference}
  {group before after : List Ty}
  {values : List Literal}
  (defined : checker.arena.definition reference = .union occurrence group)

include defined in
/-- A name for a union is not identical to an object, in either order. -/
theorem not_identical_object
    (tagged : checker.arena.TaggedObject tag type value) :
    checker.arena.identical type (.named reference) = false ∧
      checker.arena.identical (.named reference) type = false := by
  obtain ⟨_, _, _, unfolds, -⟩ := tagged
  exact not_identical_group defined unfolds rfl

variable
  (tagged :
    List.Forall₂ (checker.arena.TaggedObject tag) (before ++ group ++ after) values)
  (distinct : values.Pairwise fun first second => first.equal second = false)

include defined tagged distinct in
/-- The name is kept beside the objects that are left. -/
theorem separate_grouped
    (nonempty : group ≠ [])
    (others : before ++ after ≠ []) :
    checker.Separate (before ++ .named reference :: after) := by
  have isTagged :
      ∀ type, type ∈ before ++ after →
        ∃ value, checker.arena.TaggedObject tag type value := by
    intro type member
    obtain ⟨value, _, isTagged⟩ :=
      exists_related_right tagged
        (show type ∈ before ++ group ++ after by
          simp only [List.mem_append] at member ⊢
          tauto)
    exact ⟨value, isTagged⟩
  have inGroup := List.length_pos_iff.mpr nonempty
  have inOthers := List.length_pos_iff.mpr others
  simp only [List.length_append] at inOthers
  have row : checker.Separate (before ++ group ++ after) :=
    separate_of_tagged tagged distinct
      (by simp only [List.length_append]; omega)
  have apart :=
    List.pairwise_append.mp
      (row.distinct.sublist
        ((List.sublist_append_left before group).append_right after))
  refine ⟨by simp only [List.length_append, List.length_cons]; omega, ?_, ?_⟩
  · refine List.pairwise_append.mpr
      ⟨apart.1, List.pairwise_cons.mpr ⟨?_, apart.2.1⟩, ?_⟩
    · intro second inAfter form other hasForm hasOther
      obtain ⟨_, tagged⟩ := isTagged second (by simp [inAfter])
      rw [hasForm.eq_of_named]
      exact (not_identical_object defined (hasOther.tagged tagged)).2
    · intro first inBefore second inRest
      rcases List.mem_cons.mp inRest with rfl | inAfter
      · intro form other hasForm hasOther
        obtain ⟨_, tagged⟩ := isTagged first (by simp [inBefore])
        rw [hasOther.eq_of_named]
        exact (not_identical_object defined (hasForm.tagged tagged)).1
      · exact apart.2.2 first inBefore second inAfter
  · intro type member form hasForm
    by_cases isName : type = .named reference
    · subst isName
      rw [hasForm.eq_of_named]
      exact ⟨rfl, rfl, rfl, rfl⟩
    · refine row.kept type ?_ form hasForm
      simp only [List.mem_append, List.mem_cons] at member ⊢
      tauto

/-- A name for one object presents what the object shows. -/
theorem Shows.presents_group
    {shape : Shape Ty}
    (shows : checker.Shows type shape)
    (isTagged : checker.arena.TaggedObject tag type value)
    (defined : checker.arena.definition reference = .union occurrence [type]) :
    checker.Presents (.named reference) shape := by
  intro form outcome hasForm settles
  cases hasForm.eq_of_named
  obtain ⟨object, hasForm, leads⟩ :=
    settles_structural_alone (unfolds_group defined)
      (fun _ hasForm => (hasForm.tagged isTagged).kept) settles
  obtain ⟨_, _, occurrence, shownForm, unfolds⟩ := shows
  cases hasForm.unique shownForm
  rcases leads with intersection | ⟨_, _, settles⟩ | ⟨notReference, rfl⟩
  · cases unfolds <;> cases intersection
  · exact ⟨occurrence, settles_structural_object unfolds settles⟩
  · cases unfolds with
    | here => exact ⟨_, rfl⟩
    | name => cases notReference

include defined in
/-- What is kept side by side is behind a union of nothing but its name. -/
theorem leads_whole
    (separate : checker.Separate group)
    (settles :
      Settles
        (checker.structural 0 (.union written [.named reference])) outcome) :
    ∃ forms,
      List.Forall₂ checker.HasForm group forms ∧ outcome = .ok (.ofUnion forms) := by
  have nameKept :
      ∀ form, checker.HasForm (.named reference) form → form.StaysMember := by
    intro form hasForm
    cases hasForm.eq_of_named
    exact ⟨rfl, rfl, rfl, rfl⟩
  obtain ⟨_, hasForm, leads⟩ :=
    settles_structural_alone (.here rfl) nameKept settles
  cases hasForm.eq_of_named
  rcases leads with intersection | ⟨_, _, settles⟩ | ⟨notReference, _⟩
  · cases intersection
  · exact separate.leads (unfolds_group defined) settles
  · cases notReference

include defined in
/-- A union with a name for several objects among others is no union of objects. -/
theorem objectUnion?_group
    (separate : checker.Separate (before ++ .named reference :: after))
    (several : checker.Separate group)
    (settles :
      Settles
        (checker.objectUnion?
          (.union written (before ++ .named reference :: after)))
        found) :
    found = none := by
  cases found with
  | none => rfl
  | some union =>
      obtain ⟨⟨_, resolves⟩, shapes⟩ := objectUnion?_shapes settles
      obtain ⟨forms, hasForms, same⟩ := separate.leads (.here rfl) resolves
      obtain ⟨-, members⟩ := Ty.union.inj (Except.ok.inj same)
      have inForms : .named reference ∈ forms :=
        named_mem_forms hasForms (by simp)
      obtain ⟨_, _, settles⟩ :=
        exists_related_right shapes (members ▸ inForms)
      obtain ⟨_, resolves⟩ := memberShape_settles settles
      obtain ⟨_, _, same⟩ := several.leads (unfolds_group defined) resolves
      cases same

include defined in
/-- No labels exhaust a union with a name for several objects among others. -/
theorem checkExhaustive_group
    {labels : List Literal}
    (separate : checker.Separate (before ++ .named reference :: after))
    (several : checker.Separate group)
    (settles :
      Settles
        (checker.checkExhaustive
          (.union written (before ++ .named reference :: after)) labels)
        result) :
    result.exhaustive = false := by
  unfold checkExhaustive at settles
  obtain ⟨coverage, starts, settles⟩ := settles.of_bind fun coverage => by
    cases coverage <;> infer_instance
  unfold coverage? at starts
  obtain ⟨taken, takes, starts⟩ := starts.of_bind fun taken => by
    cases taken <;> infer_instance
  obtain ⟨found, looks, rfl⟩ := discriminant?_settles.mp takes
  cases objectUnion?_group defined separate several looks
  have uncovered : coverage = none := by
    rcases literalCoverage?_cases starts with
      none | ⟨_, _, resolves, taken, -⟩
    · exact none
    · obtain ⟨forms, hasForms, same⟩ := separate.leads (.here rfl) resolves
      cases same
      have inForms : .named reference ∈ forms :=
        named_mem_forms hasForms (by simp)
      change Coverage.literalVariants? forms = some _ at taken
      rw [literalVariants?_named inForms] at taken
      cases taken
  subst uncovered
  obtain ⟨residual, normalizes, settles⟩ := settles_bind.mp settles
  cases settles_pure.mp settles
  have hasForm :
      checker.HasForm
        (.union written (before ++ .named reference :: after)) residual :=
    ⟨_, _, settles_of_normalizeIn normalizes⟩
  obtain ⟨forms, hasForms, same⟩ := hasForm.of_union
  rw [separate.joined hasForms] at same
  subst same
  have length := hasForms.length_eq
  cases forms with
  | nil => simp at length
  | cons => rfl

/-- Checking exhaustiveness looks behind the type. -/
theorem structural_of_checkExhaustive
    {labels : List Literal}
    (settles : Settles (checker.checkExhaustive type labels) result) :
    ∃ outcome, Settles (checker.structural 0 type) outcome := by
  unfold checkExhaustive at settles
  obtain ⟨_, starts, _⟩ := settles.of_bind fun coverage => by
    cases coverage <;> infer_instance
  unfold coverage? at starts
  obtain ⟨_, takes, _⟩ := starts.of_bind fun taken => by
    cases taken <;> infer_instance
  obtain ⟨_, looks, _⟩ := discriminant?_settles.mp takes
  unfold objectUnion? at looks
  obtain ⟨outcome, resolves, _⟩ := looks.of_bind fun answer => by
    split <;> infer_instance
  exact ⟨outcome, resolves⟩

include defined tagged distinct in
/--
Grouping members of a union of objects under a name. The objects, written out or
under names of their own, have different literals under a required tag. Where the
tag is the property by which the union is taken apart, the union written out is
exhausted exactly when labels equal all the literals. With the name in place of the
group it is so, too, if the name stands for one object or for the whole union; it
is never exhausted if the name stands for several objects among others.
-/
theorem checkExhaustive_groupedObjects
    {labels : List Literal}
    (nonempty : group ≠ [])
    (several : 2 ≤ (before ++ group ++ after).length)
    (plainSettles :
      Settles
        (checker.checkExhaustive (.union written (before ++ group ++ after))
          labels)
        plain)
    (namedSettles :
      Settles
        (checker.checkExhaustive
          (.union rewritten (before ++ .named reference :: after)) labels)
        named) :
    (plain.discriminator = tag →
        (plain.exhaustive = true ↔
          ∀ value ∈ values, labels.any (Literal.equal · value) = true)) ∧
      (named.exhaustive = true ↔
        (before ++ after = [] ∨ group.length = 1) ∧
          plain.exhaustive = true) := by
  have row : checker.Separate (before ++ group ++ after) :=
    separate_of_tagged tagged distinct several
  obtain ⟨_, resolves⟩ := structural_of_checkExhaustive plainSettles
  obtain ⟨forms, hasForms, _⟩ := row.leads (.here rfl) resolves
  obtain ⟨shapes, shows⟩ := exists_shapes tagged hasForms
  obtain ⟨name, literals, apart, sameValues⟩ :=
    exists_toldApart tagged distinct shows (by simp [nonempty])
  have plainFinds :
      ∀ found,
        Settles
          (checker.objectUnion? (.union written (before ++ group ++ after)))
          found →
        ∃ members, found = some { members, shapes } :=
    fun found => objectUnion?_found
      (fun outcome => row.leads (.here rfl))
      (shows.imp fun _ _ => Shows.presents)
  obtain ⟨plainName, plainExhausted⟩ :=
    checkExhaustive_toldApart plainFinds apart plainSettles
  refine ⟨fun byTag => ?_, ?_⟩
  · rw [plainExhausted, sameValues (plainName.symm.trans byTag), List.all_eq_true]
  by_cases whole : before ++ after = []
  · obtain ⟨rfl, rfl⟩ := List.append_eq_nil_iff.mp whole
    rw [List.nil_append, List.append_nil] at row shows
    obtain ⟨_, exhausted⟩ :=
      checkExhaustive_toldApart
        (fun found => objectUnion?_found
          (fun outcome => leads_whole defined row)
          (shows.imp fun _ _ => Shows.presents))
        apart namedSettles
    simp [exhausted, plainExhausted]
  have inOthers := List.length_pos_iff.mpr whole
  have inGroup := List.length_pos_iff.mpr nonempty
  have others : checker.Separate (before ++ .named reference :: after) :=
    separate_grouped defined tagged distinct nonempty whole
  by_cases single : group.length = 1
  · obtain ⟨type, rfl⟩ := List.length_eq_one_iff.mp single
    rw [List.append_assoc, List.singleton_append] at shows
    obtain ⟨value, _, isTagged⟩ :=
      exists_related_right tagged
        (show type ∈ before ++ [type] ++ after by simp)
    obtain ⟨_, exhausted⟩ :=
      checkExhaustive_toldApart
        (fun found => objectUnion?_found
          (fun outcome => others.leads (.here rfl))
          (forall₂_replace
            Shows.presents
            (fun shows => shows.presents_group isTagged defined)
            shows))
        apart namedSettles
    simp [exhausted, plainExhausted]
  · have severalInGroup : checker.Separate group :=
      row.sublist
        ((List.sublist_append_right before group).trans
          (List.sublist_append_left _ after))
        (by omega)
    rw [checkExhaustive_group defined others severalInGroup namedSettles]
    simp [whole, single]

end Grouped

section Tags

/-- A checker that knows a name for one tagged object and a name for two. -/
def groups : Checker :=
  { arena :=
      { declarations :=
          [{ name := "One", definition := .ofUnion [tagged "a"] },
            { name := "Two", definition := .ofUnion [tagged "a", tagged "b"] }] }
    budget := 20 }

/-- The labels of three tags. -/
def threeTags : List Literal :=
  ["a", "b", "c"].map fun tag => .string (.ofString tag)

/-- A name for one of three objects is seen through. -/
theorem checkExhaustive_groupedObjects_one :
    ∃ plain named,
      Settles
          (groups.checkExhaustive
            (.ofUnion [tagged "a", tagged "b", tagged "c"]) threeTags)
          plain ∧
        Settles
          (groups.checkExhaustive
            (.ofUnion [.named ⟨0, 0, "One"⟩, tagged "b", tagged "c"]) threeTags)
          named ∧
        plain.exhaustive = true ∧
        named.exhaustive = true := by
  have isTagged (tag : String) :
      groups.arena.TaggedObject "tag" (tagged tag) (.string (.ofString tag)) :=
    ⟨0, none, _, .here rfl, rfl, by simp [Literal.equal]⟩
  have plainSettles :
      Settles
        (groups.checkExhaustive
          (.ofUnion ([] ++ [tagged "a"] ++ [tagged "b", tagged "c"])) threeTags)
        { exhaustive := true, residual := .never, discriminator := "tag" } :=
    ⟨[], by decide +kernel, Log.quiet_nil⟩
  have namedSettles :
      Settles
        (groups.checkExhaustive
          (.ofUnion ([] ++ .named ⟨0, 0, "One"⟩ :: [tagged "b", tagged "c"]))
          threeTags)
        { exhaustive := true, residual := .never, discriminator := "tag" } :=
    ⟨[], by decide +kernel, Log.quiet_nil⟩
  obtain ⟨covered, seenThrough⟩ :=
    checkExhaustive_groupedObjects rfl
      (.cons (isTagged "a") (.cons (isTagged "b") (.cons (isTagged "c") .nil)))
      (by decide) (by simp) (by decide) plainSettles namedSettles
  have exhausted := (covered rfl).mpr (by decide)
  exact ⟨_, _, plainSettles, namedSettles, exhausted,
    seenThrough.mpr ⟨.inr rfl, exhausted⟩⟩

/-- A name for two of three objects keeps the union from being taken apart. -/
theorem checkExhaustive_misses_objects :
    ((groups.checkExhaustive
        (.ofUnion [tagged "a", tagged "b", tagged "c"])
        threeTags).run' []).map Exhaustiveness.exhaustive =
      .ok true ∧
    ((groups.checkExhaustive
        (.ofUnion [.named ⟨0, 1, "Two"⟩, tagged "c"])
        threeTags).run' []).map Exhaustiveness.exhaustive =
      .ok false := by
  decide +kernel

end Tags

end Checker

end StructuralTyping
