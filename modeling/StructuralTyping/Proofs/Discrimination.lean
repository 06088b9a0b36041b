import StructuralTyping.Proofs.CoverageRuns
import StructuralTyping.Proofs.Reduction

namespace StructuralTyping

/-!
# Taking unions apart by a property

A union of objects is taken apart by the first property of its first object that
is required everywhere and has a different literal in each object. There is such
an object unless the depth bound was exceeded: a union that normalization leads
to has several members, and only at the bound a union is left as it was written.
-/

open Check

namespace Arena

variable {arena : Arena}

/-- The literals of a property differ, from each other and from those seen. -/
theorem distinctLiterals?_distinct
    {shapes : List (Shape Ty)}
    {values : List Literal}
    (found : arena.distinctLiterals? name seen shapes = some values) :
    values.Pairwise (fun first second => first.equal second = false) ∧
      ∀ value ∈ values, ∀ other ∈ seen, other.equal value = false := by
  induction shapes generalizing seen values with
  | nil =>
      cases found
      simp
  | cons shape rest inductionHypothesis =>
      unfold distinctLiterals? at found
      split at found
      · cases found
      next value has =>
      split at found
      · cases found
      next isNew =>
      obtain ⟨others, foundRest, rfl⟩ := Option.map_eq_some_iff.mp found
      obtain ⟨distinct, unseen⟩ := inductionHypothesis foundRest
      have differs : ∀ other ∈ seen, other.equal value = false := by
        simpa using isNew
      constructor
      · apply List.Pairwise.cons _ distinct
        intro other inOthers
        exact unseen other inOthers value List.mem_cons_self
      · intro other member
        rcases List.mem_cons.mp member with rfl | inOthers
        · exact differs
        · intro earlier inSeen
          exact unseen other inOthers earlier (.tail _ inSeen)

/-- The literal of a property is the one that its type leads to. -/
theorem resolve_of_discriminantOf?
    {shape : Shape Ty}
    (found : arena.discriminantOf? name shape = some value) :
    ∃ property occurrence,
      shape.property? name = some property ∧
        property.optional = false ∧
        arena.resolve property.type defaultHops =
          .resolved (.literal occurrence value) := by
  unfold discriminantOf? at found
  split at found
  · next property declared =>
    split at found
    · cases found
    · next required =>
      unfold literalOf? at found
      split at found
      · next occurrence _ resolves =>
        cases found
        exact ⟨property, occurrence, declared, by simpa using required, resolves⟩
      · cases found
  · cases found

end Arena

namespace Checker

variable {checker : Checker} {type : Ty}

/-- Every union that merging settles with has proper members. -/
theorem unionParts_of_normalizeMerged
    (settles :
      Settles (checker.evaluation.normalizeMerged depth type)
        (.union occurrence members)) :
    UnionParts checker.arena members := by
  have reduced {depth : Nat} {type result : Ty}
      (settles :
        Settles (checker.evaluation.normalizeAt depth type) result) :
      result.Every (Ty.Reduced checker.arena) :=
    (normalPass_reduces checker.normalMode _).normalize
      (settles_of_normalizeIn settles)
  unfold Evaluation.normalizeMerged at settles
  obtain ⟨normal, normalizes, settles⟩ := settles.of_bind fun normal => by
    split
    · apply @Appends.ofBind _ _ _ _ _ fun merged => ?_
      cases merged <;> infer_instance
    · infer_instance
  split at settles
  · obtain ⟨found, merges, settles⟩ := settles.of_bind fun merged => by
      cases merged <;> infer_instance
    cases found with
    | none =>
        cases settles_pure.mp settles
    | some merged =>
        cases settles_pure.mp settles
        unfold Evaluation.mergeMembers at merges
        split at merges
        · obtain ⟨answer, _, merges⟩ := merges.of_bind fun answer => by
            split <;> infer_instance
          split at merges
          · cases settles_pure.mp merges
          · obtain ⟨merged, normalizes, merges⟩ := settles_bind.mp merges
            cases settles_pure.mp merges
            exact (reduced normalizes).here
        · cases settles_pure.mp merges
  · cases settles_pure.mp settles
    exact (reduced normalizes).here

/-- Every union behind a type has proper members. -/
theorem unionParts_of_structuralWithin
    (settles :
      Settles (checker.evaluation.structuralWithin remaining depth type).run
        (.ok (.union occurrence members))) :
    UnionParts checker.arena members := by
  induction remaining generalizing depth type with
  | zero =>
      unfold Evaluation.structuralWithin at settles
      rcases settles.of_evaluateBind fun resolved => by
          cases resolved <;> (dsimp only; infer_instance) with
        ⟨resolved, resolves, settles⟩ | ⟨_, _, ⟨⟩⟩
      cases resolved with
      | union | intersection =>
          obtain ⟨merged, merges, ⟨_, settles⟩ | rfl⟩ :=
            merged_of_exposed (fun _ => Appends.ofExhausted) settles
          · exact (not_settles_exhausted settles).elim
          · exact unionParts_of_normalizeMerged merges
      | _ =>
          cases settles_pure.mp settles
  | succ remaining inductionHypothesis =>
      unfold Evaluation.structuralWithin at settles
      rcases settles.of_evaluateBind fun resolved => by
          cases resolved <;> (dsimp only; infer_instance) with
        ⟨resolved, resolves, settles⟩ | ⟨_, _, ⟨⟩⟩
      cases resolved with
      | union | intersection =>
          obtain ⟨merged, merges, ⟨_, settles⟩ | rfl⟩ :=
            merged_of_exposed (fun _ => inferInstance) settles
          · exact inductionHypothesis settles
          · exact unionParts_of_normalizeMerged merges
      | _ =>
          cases settles_pure.mp settles

/-- A union of objects has several of them unless the depth bound was met. -/
theorem objectUnion?_several
    (settles : Settles (checker.objectUnion? type) (some union)) :
    2 ≤ union.shapes.length := by
  obtain ⟨⟨occurrence, resolves⟩, shapes⟩ := objectUnion?_shapes settles
  rw [← shapes.length_eq]
  exact (unionParts_of_structuralWithin resolves).several

/-- Taking apart by a given property answers what the property tells. -/
theorem discriminantBy?_settles :
    Settles (checker.discriminantBy? type name) taken ↔
      ∃ found,
        Settles (checker.objectUnion? type) found ∧
          taken = found.bind (checker.arena.discriminate? · name) := by
  unfold discriminantBy?
  simp only [settles_bind, settles_pure]

/-- Taking apart by the first property answers what the search answers. -/
theorem discriminant?_settles :
    Settles (checker.discriminant? type) taken ↔
      ∃ found,
        Settles (checker.objectUnion? type) found ∧
          taken =
            found.bind fun union =>
              union.shapes.head?.bind fun first =>
                first.names.findSome? (checker.arena.discriminate? union) := by
  unfold discriminant?
  apply Iff.trans (@settles_bind _ _ _ _ (fun found => ?adds) _)
  case adds =>
    apply @Appends.toOnlyAdds _ _ ?_
    cases found <;> infer_instance
  apply exists_congr
  intro found
  apply and_congr_right
  intro finds
  cases found with
  | none =>
      exact settles_pure
  | some union =>
      have several := objectUnion?_several finds
      dsimp only [Option.bind_some]
      cases shapes : union.shapes with
      | nil =>
          rw [shapes] at several
          cases several
      | cons first rest =>
          exact settles_pure

end Checker

/-- Variants have the members in their order, each with its literal. -/
theorem variants_spec
    {related : Ty → Literal → Prop}
    {members : List Ty}
    {values : List Literal}
    (each : List.Forall₂ related members values) :
    (List.zipWith Variant.mk values members).map Variant.type = members ∧
      (List.zipWith Variant.mk values members).map Variant.value = values ∧
      ∀ variant ∈ List.zipWith Variant.mk values members,
        related variant.type variant.value := by
  induction each with
  | nil =>
      simp
  | cons head _ inductionHypothesis =>
      obtain ⟨types, sameValues, others⟩ := inductionHypothesis
      rw [List.zipWith_cons_cons, List.map_cons, List.map_cons, types,
        sameValues, List.forall_mem_cons]
      exact ⟨rfl, rfl, head, others⟩

namespace Checker

variable {checker : Checker} {type : Ty}

/--
A discriminated union takes a type apart: the type is a union that has the types
of the variants as its members, in this order. Their literals are pairwise
distinct, and the discriminator is a required property of the object behind each
member whose type leads to the literal of the variant.
-/
structure TakesApart
    (checker : Checker)
    (type : Ty)
    (taken : DiscriminatedUnion) :
    Prop where
  members :
    ∃ occurrence,
      Settles (checker.structural 0 type)
        (.ok (.union occurrence (taken.variants.map Variant.type)))
  distinct :
    taken.variants.Pairwise fun first second =>
      first.value.equal second.value = false
  selects :
    ∀ variant ∈ taken.variants,
      ∃ occurrence shape property literal,
        Settles (checker.structural 1 variant.type)
            (.ok (.object occurrence shape)) ∧
          shape.property? taken.discriminator = some property ∧
          property.optional = false ∧
          checker.arena.resolve property.type Arena.defaultHops =
            .resolved (.literal literal variant.value)

/-- What a property tells of a union of objects takes the type apart. -/
theorem takesApart_of_discriminate?
    {union : ObjectUnion}
    (finds : Settles (checker.objectUnion? type) (some union))
    (tells : checker.arena.discriminate? union name = some taken) :
    taken.discriminator = name ∧ checker.TakesApart type taken := by
  obtain ⟨values, literals, rfl⟩ := Option.map_eq_some_iff.mp tells
  obtain ⟨⟨occurrence, resolves⟩, shapes⟩ := objectUnion?_shapes finds
  obtain ⟨types, sameValues, each⟩ :=
    variants_spec (forall₂_comp shapes (Arena.distinctLiterals?_spec literals))
  refine ⟨rfl, ⟨occurrence, ?_⟩, ?_, ?_⟩
  · rwa [types]
  · have distinct := (Arena.distinctLiterals?_distinct literals).1
    rw [← sameValues] at distinct
    exact List.pairwise_map.mp distinct
  · intro variant member
    obtain ⟨shape, exposes, has⟩ := each variant member
    obtain ⟨occurrence, resolves⟩ := memberShape_settles exposes
    obtain ⟨property, literal, declared, required, leads⟩ :=
      Arena.resolve_of_discriminantOf? has
    exact ⟨occurrence, shape, property, literal, resolves, declared, required,
      leads⟩

/-- A property that tells the objects apart is one of the first object. -/
theorem mem_names_of_discriminate?
    {arena : Arena}
    {union : ObjectUnion}
    {first : Shape Ty}
    (isFirst : union.shapes.head? = some first)
    (tells : arena.discriminate? union name = some taken) :
    name ∈ first.names := by
  obtain ⟨values, literals, rfl⟩ := Option.map_eq_some_iff.mp tells
  obtain ⟨rest, shapes⟩ := List.head?_eq_some_iff.mp isFirst
  rw [shapes] at literals
  cases Arena.distinctLiterals?_spec literals with
  | cons has _ =>
      obtain ⟨property, _, declared, _⟩ := Arena.resolve_of_discriminantOf? has
      obtain ⟨inShape, rfl⟩ := Shape.mem_of_property? declared
      exact List.mem_map_of_mem inShape

/-- The search fails if and only if no property tells the objects apart. -/
theorem search_eq_none_iff
    {arena : Arena}
    {union : ObjectUnion}
    {first : Shape Ty}
    (isFirst : union.shapes.head? = some first) :
    first.names.findSome? (arena.discriminate? union) = none ↔
      ∀ name, arena.discriminate? union name = none := by
  rw [List.findSome?_eq_none_iff]
  constructor
  · intro misses name
    by_contra tells
    obtain ⟨taken, tells⟩ := Option.ne_none_iff_exists'.mp tells
    have missed := misses name (mem_names_of_discriminate? isFirst tells)
    rw [tells] at missed
    cases missed
  · intro misses name _
    exact misses name

/-- A union of objects has a first one unless the depth bound was met. -/
theorem exists_first
    (finds : Settles (checker.objectUnion? type) (some union)) :
    ∃ first, union.shapes.head? = some first := by
  have several := objectUnion?_several finds
  cases shapes : union.shapes with
  | nil =>
      rw [shapes] at several
      cases several
  | cons first rest =>
      exact ⟨first, rfl⟩

/-- Nothing takes a type apart if and only if no property does. -/
theorem discriminant?_none_iff :
    Settles (checker.discriminant? type) none ↔
      ∀ name, Settles (checker.discriminantBy? type name) none := by
  rw [discriminant?_settles]
  constructor
  · rintro ⟨found, finds, misses⟩ name
    apply discriminantBy?_settles.mpr
    refine ⟨found, finds, ?_⟩
    cases found with
    | none =>
        rfl
    | some union =>
        obtain ⟨first, isFirst⟩ := exists_first finds
        rw [Option.bind_some, isFirst, Option.bind_some] at misses
        exact ((search_eq_none_iff isFirst).mp misses.symm name).symm
  · intro misses
    obtain ⟨found, finds, -⟩ := discriminantBy?_settles.mp (misses "")
    refine ⟨found, finds, ?_⟩
    cases found with
    | none =>
        rfl
    | some union =>
        obtain ⟨first, isFirst⟩ := exists_first finds
        rw [Option.bind_some, isFirst, Option.bind_some]
        apply Eq.symm
        apply (search_eq_none_iff isFirst).mpr
        intro name
        obtain ⟨_, again, missed⟩ := discriminantBy?_settles.mp (misses name)
        cases finds.unique again
        exact missed.symm

/-- What takes a type apart is the first property of the first member to do so. -/
theorem discriminant?_some
    (settles : Settles (checker.discriminant? type) (some taken)) :
    Settles (checker.discriminantBy? type taken.discriminator) (some taken) ∧
      ∃ first rest occurrence shape earlier later,
        taken.variants.map Variant.type = first :: rest ∧
          Settles (checker.structural 1 first)
            (.ok (.object occurrence shape)) ∧
          shape.names = earlier ++ taken.discriminator :: later ∧
          ∀ name ∈ earlier,
            Settles (checker.discriminantBy? type name) none := by
  obtain ⟨found, finds, answer⟩ := discriminant?_settles.mp settles
  obtain ⟨union, rfl, search⟩ := Option.bind_eq_some_iff.mp answer.symm
  obtain ⟨shape, isFirst, hit⟩ := Option.bind_eq_some_iff.mp search
  obtain ⟨earlier, name, later, names, tells, misses⟩ :=
    List.findSome?_eq_some_iff.mp hit
  obtain ⟨rfl, apart⟩ := takesApart_of_discriminate? finds tells
  have settlesBy {name : String} {answer : Option DiscriminatedUnion}
      (tells : checker.arena.discriminate? union name = answer) :
      Settles (checker.discriminantBy? type name) answer :=
    discriminantBy?_settles.mpr ⟨some union, finds, tells.symm⟩
  refine ⟨settlesBy tells, ?_⟩
  obtain ⟨⟨_, resolves⟩, shapes⟩ := objectUnion?_shapes finds
  obtain ⟨_, variants⟩ := apart.members
  have types := resolves.unique variants
  simp only [Except.ok.injEq, Ty.union.injEq] at types
  obtain ⟨rest, isFirst⟩ := List.head?_eq_some_iff.mp isFirst
  rw [isFirst, types.2] at shapes
  obtain ⟨first, others, exposes, _, types⟩ :=
    List.forall₂_cons_right_iff.mp shapes
  obtain ⟨occurrence, behind⟩ := memberShape_settles exposes
  exact ⟨first, others, occurrence, shape, earlier, later, types, behind, names,
    fun name member => settlesBy (misses name member)⟩

/--
Taking a type apart is exact, and its two forms are consistent. As long as no
exceeded depth is reported, the type comes apart if and only if it does by some
property. The property is then the first one of the first member for which this
is so, and the answer is the one for that property. Whatever comes apart has the
members of the union as its variants, told apart by the literals of a property.
-/
theorem discriminant?_exact
    (checker : Checker)
    (type : Ty) :
    ((∃ taken, Settles (checker.discriminant? type) (some taken)) ↔
        ∃ name taken,
          Settles (checker.discriminantBy? type name) (some taken)) ∧
      (Settles (checker.discriminant? type) none ↔
        ∀ name, Settles (checker.discriminantBy? type name) none) ∧
      (∀ taken,
        Settles (checker.discriminant? type) (some taken) →
          Settles (checker.discriminantBy? type taken.discriminator)
              (some taken) ∧
            ∃ first rest occurrence shape earlier later,
              taken.variants.map Variant.type = first :: rest ∧
                Settles (checker.structural 1 first)
                  (.ok (.object occurrence shape)) ∧
                shape.names = earlier ++ taken.discriminator :: later ∧
                ∀ name ∈ earlier,
                  Settles (checker.discriminantBy? type name) none) ∧
      ∀ name taken,
        Settles (checker.discriminantBy? type name) (some taken) →
          taken.discriminator = name ∧ checker.TakesApart type taken := by
  refine ⟨⟨?first, ?given⟩, discriminant?_none_iff,
    fun taken => discriminant?_some, ?apart⟩
  case first =>
    rintro ⟨taken, settles⟩
    exact ⟨taken.discriminator, taken, (discriminant?_some settles).1⟩
  case given =>
    rintro ⟨name, taken, settles⟩
    obtain ⟨found, finds, -⟩ := discriminantBy?_settles.mp settles
    have answers := discriminant?_settles.mpr ⟨found, finds, rfl⟩
    by_contra fails
    have isNone := Option.eq_none_iff_forall_ne_some.mpr fun other same =>
      fails ⟨other, same ▸ answers⟩
    rw [isNone] at answers
    cases settles.unique (discriminant?_none_iff.mp answers name)
  case apart =>
    intro name taken settles
    obtain ⟨found, finds, answer⟩ := discriminantBy?_settles.mp settles
    obtain ⟨union, rfl, tells⟩ := Option.bind_eq_some_iff.mp answer.symm
    exact takesApart_of_discriminate? finds tells

/-- A literal under a name. -/
def namedTag : Arena :=
  { declarations :=
      [{ name := "Tag", definition := .ofLiteral (.string (.ofString "a")) }] }

/-- An object with an identifier and a tag. -/
def identified
    (tag : Ty) :
    Ty :=
  .ofShape
    { properties :=
        [{ name := "id", type := .string }, { name := "tag", type := tag }] }

/-- Two objects differ in their tags, one of which has a name. -/
theorem discriminant?_exact_namedTag :
    let checker : Checker := { arena := namedTag, budget := 8 }
    let members : List Ty :=
      [identified (.named ⟨0, 0, "Tag"⟩),
        identified (.ofLiteral (.string (.ofString "b")))]
    ∃ taken,
      Settles (checker.discriminant? (.ofUnion members)) (some taken) ∧
        taken.discriminator = "tag" ∧
        taken.variants.map Variant.type = members ∧
        checker.TakesApart (.ofUnion members) taken ∧
        Settles (checker.discriminantBy? (.ofUnion members) "id") none := by
  intro checker members
  have settles :
      Settles (checker.discriminant? (.ofUnion members))
        (some
          { discriminator := "tag"
            variants :=
              List.zipWith Variant.mk
                [.string (.ofString "a"), .string (.ofString "b")]
                members }) :=
    ⟨[], by decide +kernel, Log.quiet_nil⟩
  obtain ⟨_, _, first, apart⟩ :=
    discriminant?_exact checker (.ofUnion members)
  obtain ⟨tells, _⟩ := first _ settles
  exact ⟨_, settles, rfl, rfl, (apart _ _ tells).2,
    ⟨[], by decide +kernel, Log.quiet_nil⟩⟩

/--
Taking a type apart reads no object beyond the last one, as long as no exceeded
depth is reported: a union of objects has several of them, and the search among
their properties answers and adds no report of its own.
-/
theorem discriminant?_reads_object
    (checker : Checker)
    (type : Ty)
    (log added : Log)
    (run : checker.objectUnion? type log = .ok (found, log ++ added))
    (quiet : Log.Quiet added) :
    (∀ union, found = some union → 2 ≤ union.shapes.length) ∧
      ∃ taken, checker.discriminant? type log = .ok (taken, log ++ added) := by
  have several :
      ∀ union, found = some union → 2 ≤ union.shapes.length := by
    rintro union rfl
    exact objectUnion?_several (settles_of_run run quiet)
  refine ⟨several, ?_⟩
  unfold discriminant?
  change ∃ taken, (checker.objectUnion? type log).bind _ = .ok (taken, _)
  rw [run]
  cases found with
  | none =>
      exact ⟨none, rfl⟩
  | some union =>
      have objects := several union rfl
      dsimp only [Except.bind]
      cases shapes : union.shapes with
      | nil =>
          rw [shapes] at objects
          cases objects
      | cons first rest =>
          exact ⟨_, rfl⟩

/-- The two objects are looked at, and found to differ in their tags. -/
theorem discriminant?_reads_object_tagged :
    let checker : Checker := { budget := 8 }
    let type : Ty := .ofUnion [tagged "a", tagged "b"]
    (∃ union,
        checker.objectUnion? type [] = .ok (some union, []) ∧
          2 ≤ union.shapes.length) ∧
      ∃ taken, checker.discriminant? type [] = .ok (taken, []) := by
  intro checker type
  obtain ⟨found, run, isUnion⟩ :
      ∃ found,
        checker.objectUnion? type [] = .ok (found, [] ++ []) ∧
          found.isSome = true :=
    ⟨some
      { members := [tagged "a", tagged "b"]
        shapes :=
          ["a", "b"].map fun tag =>
            { properties :=
                [{ name := "tag", type := .ofLiteral (.string (.ofString tag)) }] } },
      by decide +kernel, rfl⟩
  obtain ⟨several, answers⟩ :=
    discriminant?_reads_object checker type [] [] run Log.quiet_nil
  obtain ⟨union, rfl⟩ := Option.isSome_iff_exists.mp isUnion
  exact ⟨⟨union, run, several union rfl⟩, answers⟩

/--
At a depth bound of one the empty union stays as it is: it is taken for a union
of objects that has none, and there is no first one to read.
-/
theorem discriminant?_reads_nothing :
    let checker : Checker := { options := { maxDepth := 1 }, budget := 8 }
    let type : Ty := .ofUnion []
    (∃ union added,
        checker.objectUnion? type [] = .ok (some union, added) ∧
          union.shapes = []) ∧
      checker.discriminant? type [] = .error (.outOfRange 0 0) ∧
      checker.coverage? type [] = .error (.outOfRange 0 0) ∧
      checker.checkExhaustive type [] [] = .error (.outOfRange 0 0) := by
  intro checker type
  exact ⟨⟨{ members := [], shapes := [] },
    [checker.depthDiagnostic .normalize .never], by decide +kernel, rfl⟩,
    by decide +kernel, by decide +kernel, by decide +kernel⟩

end Checker

end StructuralTyping
