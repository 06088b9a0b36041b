import StructuralTyping.Proofs.PlainRuns
import StructuralTyping.Proofs.TypingMeaning

namespace StructuralTyping

/-!
# Property access that ends early

An optional access strips `null` and `undefined` from the type of its operand as
it is written, and reads the property from what is left. Where that stands for
objects that declare the property, nothing is reported and the access has the
type of the reads together with `undefined`. A name in front of a union, or a
union inside of a union, hides its nullish members from this.
-/

open Check

namespace Arena

/--
Reading a property from a plain type yields a type: the type stands for an object
that declares the property, or for a union from whose members it is read.
-/
inductive Reads
    (arena : Arena)
    (name : String) :
    Ty →
    Ty →
    Prop
  | object
      {property : Property Ty}
      (expands : arena.Expands type (.object occurrence shape))
      (declared : shape.property? name = some property) :
      Reads arena name type
        (if property.optional then property.type.optional else property.type)
  | union
      {parts types : List Ty}
      (expands : arena.Expands type (.union occurrence parts))
      (length : types.length = parts.length)
      (each :
        ∀ part found, (part, found) ∈ parts.zip types →
          Reads arena name part found) :
      Reads arena name type (arena.plainForm (.ofUnion types))

end Arena

/-- A union of plain types, one for each of some others, is plain. -/
theorem Ty.plain_ofUnion
    {parts types : List Ty}
    (length : types.length = parts.length)
    (each :
      ∀ part type, (part, type) ∈ parts.zip types → type.Every Ty.Plain) :
    (Ty.ofUnion types).Every Ty.Plain := by
  have related :
      List.Forall₂ (fun _ type : Ty => type.Every Ty.Plain) parts types :=
    List.forall₂_iff_zip.mpr ⟨length.symm, each _ _⟩
  refine .node ⟨rfl, rfl⟩ fun type member => ?_
  obtain ⟨_, _, plain⟩ := exists_related_left related member
  exact plain

/-- What is left of a plain type without `null` and `undefined` is plain. -/
theorem Ty.plain_nonNullable
    {type : Ty}
    (plain : type.Every Ty.Plain) :
    type.nonNullable.Every Ty.Plain := by
  unfold Ty.nonNullable
  split
  · exact .leaf ⟨rfl, rfl⟩ rfl
  split
  · exact .node ⟨rfl, rfl⟩ fun member kept =>
      plain.inside (List.mem_filter.mp kept).1
  · exact plain

/-- Something is left of every type without `null` and `undefined`. -/
theorem Ty.isAbsent_nonNullable
    {type : Ty}
    (written : type.isAbsent = false) :
    type.nonNullable.isAbsent = false := by
  unfold Ty.nonNullable
  split
  · rfl
  split
  · rfl
  · exact written

namespace Arena

variable
  {arena : Arena}
  (definitions : ∀ reference, (arena.definition reference).Every Ty.Plain)

/-- A type without values stands for `never`. -/
theorem Expands.eq_never
    {expanded : Ty}
    (expands : arena.Expands type expanded)
    (isNever : type.isNever = true) :
    expanded = .never := by
  cases type with
  | primitive kind =>
      obtain rfl : kind = .never := by
        simpa [Ty.isNever, Ty.isPrimitive] using isNever
      exact expands.eq rfl rfl
  | union occurrence members =>
      cases List.isEmpty_iff.mp isNever
      cases expands with
      | shape leads whole =>
          cases leads.eq rfl
          cases whole
      | union leads =>
          cases leads.eq rfl
          rfl
      | again leads normal =>
          cases leads.eq rfl
          cases normal
  | _ => cases isNever

/-- What properties are read from has values. -/
theorem Reads.valued
    {found : Ty}
    (reads : arena.Reads name type found) :
    type.isNever = false := by
  refine Bool.eq_false_iff.mpr fun isNever => ?_
  cases reads with
  | object expands => cases expands.eq_never isNever
  | union expands => cases expands.eq_never isNever

omit definitions in
/-- The definitions of names are plain when the declarations are. -/
theorem plain_definition
    (declarations :
      ∀ declaration ∈ arena.declarations,
        declaration.definition.Every Ty.Plain)
    (reference : Reference) :
    (arena.definition reference).Every Ty.Plain := by
  by_cases defined : arena.definition reference = .absent
  · rw [defined]
    exact .leaf ⟨rfl, rfl⟩ rfl
  · exact forall_definition _ declarations reference defined

include definitions in
/-- Reading from plain types yields plain types. -/
theorem Reads.plain
    {found : Ty}
    (reads : arena.Reads name type found)
    (plain : type.Every Ty.Plain) :
    found.Every Ty.Plain := by
  induction reads with
  | @object type occurrence shape property expands declared =>
      have inside :
          property.type ∈ (Ty.object occurrence shape).parts :=
        List.mem_append_left _
          (List.mem_map_of_mem (List.mem_of_find?_eq_some declared))
      have ofProperty := (expands.plain definitions plain).inside inside
      split
      · exact Ty.plain_optional ofProperty
      · exact ofProperty
  | @union type occurrence parts types expands length each inductionHypothesis =>
      have ofUnion := expands.plain definitions plain
      have ofTypes :=
        Ty.plain_ofUnion length fun part found beside =>
          inductionHypothesis part found beside
            (ofUnion.inside (List.of_mem_zip beside).1)
      exact plain_plainForm ofTypes

/--
A type that stands for an object or a union stands for it in normal form as well,
unless it is an object as it was written.
-/
theorem Expands.plainForm
    (expands : arena.Expands type expanded)
    (plain : type.Every Ty.Plain)
    (written : expanded.isAbsent = false) :
    arena.Expands (arena.plainForm type) expanded ∨
      expanded = type ∧ type.isUnion = false := by
  cases type with
  | named reference => exact .inl expands
  | union occurrence members =>
      left
      have again := @plainForm_plainForm arena _ plain
      cases expands with
      | shape leads whole =>
          cases leads.eq rfl
          cases whole
      | union leads normal =>
          cases leads.eq rfl
          cases isUnion :
              (arena.plainForm (.union occurrence members)).isUnion with
          | false => exact .shape (.here written normal) isUnion
          | true =>
              cases form : arena.plainForm (.union occurrence members) with
              | union =>
                  rw [form] at again normal written
                  have expands := @Expands.union arena _ _ _ (.here rfl rfl)
                    (again.symm ▸ normal)
                  rwa [again] at expands
              | _ =>
                  rw [form] at isUnion
                  cases isUnion
      | again leads normal expands =>
          cases leads.eq rfl
          rwa [normal]
  | generic => cases plain.here.notApplication
  | _ => exact .inr ⟨expands.eq rfl rfl, rfl⟩

/-- An object in normal form declares the properties that it declared before. -/
theorem property?_plainProperties
    {shape : Shape Ty}
    {property : Property Ty}
    (declared : shape.property? name = some property) :
    Shape.property?
        { properties := arena.plainProperties shape.properties
          index := arena.plainIndex shape.index }
        name =
      some { property with type := arena.plainForm property.type } := by
  unfold Shape.property? at *
  rw [plainProperties_eq_map, List.find?_map]
  change
    Option.map _
        (shape.properties.find? fun property : Property Ty =>
          property.name == name) =
      _
  rw [declared]
  rfl

/-- Reading from the normal form of a type yields a type of one normal form. -/
theorem Reads.plainForm
    {found : Ty}
    (reads : arena.Reads name type found)
    (plain : type.Every Ty.Plain) :
    ∃ other,
      arena.Reads name (arena.plainForm type) other ∧
        arena.plainForm other = arena.plainForm found := by
  cases reads with
  | @object _ occurrence shape property expands declared =>
      rcases expands.plainForm plain rfl with again | ⟨rfl, -⟩
      · exact ⟨_, .object again declared, rfl⟩
      · have ofProperty : property.type.Every Ty.Plain :=
          plain.inside (List.mem_append_left _
            (List.mem_map_of_mem (List.mem_of_find?_eq_some declared)))
        have twice := @plainForm_plainForm arena _ ofProperty
        refine ⟨_, .object (.shape (.here rfl rfl) rfl)
          (property?_plainProperties declared), ?_⟩
        dsimp only
        split
        · rw [plainForm_optional ofProperty,
            plainForm_optional (plain_plainForm ofProperty), twice]
        · exact twice
  | union expands length each =>
      rcases expands.plainForm plain rfl with again | ⟨rfl, whole⟩
      · exact ⟨_, .union again length each, rfl⟩
      · cases whole

include definitions in
/--
A property is read from what a type stands for, be it one object or the members
of a union. Together with `undefined` the reads have one normal form.
-/
theorem Reads.of_members
    {types : List Ty}
    (plain : type.Every Ty.Plain)
    (expands : arena.Expands type expanded)
    (length : types.length = expanded.members.length)
    (reads :
      ∀ member found, (member, found) ∈ expanded.members.zip types →
        arena.Reads name member found) :
    ∃ found,
      arena.Reads name type found ∧
        arena.plainForm found.optional =
          arena.plainForm (.ofUnion (types ++ [.undefined])) := by
  have ofExpanded := expands.plain definitions plain
  have ofTypes : ∀ type ∈ types, type.Every Ty.Plain := by
    have ofUnion :=
      Ty.plain_ofUnion length fun member found beside =>
        (reads member found beside).plain definitions
          (ofExpanded.member (List.of_mem_zip beside).1)
    exact fun type member => ofUnion.inside member
  cases isUnion : expanded.isUnion with
  | true =>
      cases expanded with
      | union occurrence parts =>
          have ofUnion : (Ty.ofUnion types).Every Ty.Plain :=
            .node ⟨rfl, rfl⟩ ofTypes
          refine ⟨_, .union expands length reads, ?_⟩
          rw [plainForm_optional (plain_plainForm ofUnion),
            plainForm_plainForm ofUnion, plainForm_union_undefined ofTypes]
      | _ => cases isUnion
  | false =>
      rw [Ty.members_eq isUnion] at length reads
      obtain ⟨found, rfl⟩ := List.length_eq_one_iff.mp length
      have read := reads expanded found (List.mem_singleton_self _)
      refine ⟨found, ?_, ?_⟩
      · cases read with
        | object again declared =>
            cases again.eq expands.notReference isUnion
            exact .object expands declared
        | union again =>
            cases again.eq expands.notReference isUnion
            cases isUnion
      · rw [plainForm_optional (ofTypes found (List.mem_singleton_self _)),
          Ty.ofUnion, plainForm_union]
        simp [flattenUnion, Arena.plainForm]
        rfl

end Arena

namespace Checker

variable {checker : Checker}

/-- The members of an object are those that it was written with. -/
theorem apparent_yields
    (occurrence : Occurrence)
    (shape : Shape Ty) :
    Yields (checker.apparent (.object occurrence shape)) (some shape) := by
  unfold apparent
  cases checker.budget with
  | zero => exact .exhausted
  | succ budget => exact .pure _

section Reading

variable
  (definitions :
    ∀ reference, (checker.arena.definition reference).Every Ty.Plain)

include definitions

/-- Reading a property through names and unions yields the type of the reads. -/
theorem propertyWithin_yields
    {found : Ty}
    (reads : checker.arena.Reads name type found)
    (plain : type.Every Ty.Plain)
    (budget : Nat) :
    Yields (checker.propertyWithin budget type name) (some found) := by
  induction reads generalizing budget with
  | @object type occurrence shape property expands declared =>
      cases budget with
      | zero => exact .exhausted
      | succ budget =>
          have finds :
              readShape shape name =
                some
                  (if property.optional then property.type.optional
                  else property.type) := by
            rw [readShape, declared]
          unfold propertyWithin
          refine (structuralWithin_yields definitions expands plain _ 0).bind
            ?_ fun answer => ?_
          · refine (apparent_yields occurrence shape).bind ?_ fun members => by
              cases members <;> (dsimp only; infer_instance)
            dsimp only
            rw [finds]
            exact .pure _
          · refine @Appends.toOnlyAdds _ _ ?_
            split
            · infer_instance
            · refine @Appends.ofBind _ _ _ _
                (Appends.ofOptionMapM _ _ fun part => inferInstance)
                fun found => ?_
              cases found <;> (dsimp only; infer_instance)
            · infer_instance
            · refine @Appends.ofBind _ _ _ _ _ fun members => ?_
              cases members <;> (dsimp only; infer_instance)
  | @union type occurrence parts types expands length each inductionHypothesis =>
      cases budget with
      | zero => exact .exhausted
      | succ budget =>
          have ofUnion := expands.plain definitions plain
          have ofTypes :=
            Ty.plain_ofUnion length fun part found beside =>
              (each part found beside).plain definitions
                (ofUnion.inside (List.of_mem_zip beside).1)
          have visits :
              Yields
                (parts.mapM fun part =>
                  OptionT.mk (checker.propertyWithin budget part name)).run
                (some types) :=
            @Yields.optionMapM _ _ _ _ _
              (fun part =>
                inferInstanceAs
                  (Appends (checker.propertyWithin budget part name)))
              length fun part found beside =>
                inductionHypothesis part found beside
                  (ofUnion.inside (List.of_mem_zip beside).1) budget
          unfold propertyWithin
          refine (structuralWithin_yields definitions expands plain _ 0).bind
            ?_ fun answer => ?_
          · refine visits.bind ?_ fun found => by
              cases found <;> (dsimp only; infer_instance)
            exact (@normalizeIn_yields checker false _ ofTypes 0).bind (.pure _)
              fun _ => inferInstance
          · refine @Appends.toOnlyAdds _ _ ?_
            split
            · infer_instance
            · refine @Appends.ofBind _ _ _ _
                (Appends.ofOptionMapM _ _ fun part => inferInstance)
                fun found => ?_
              cases found <;> (dsimp only; infer_instance)
            · infer_instance
            · refine @Appends.ofBind _ _ _ _ _ fun members => ?_
              cases members <;> (dsimp only; infer_instance)

/--
An optional access to what stands for objects without its nullish members has
the type of the read together with `undefined`.
-/
theorem memberType_yields
    {found : Ty}
    (reads : checker.arena.Reads name type.nonNullable found)
    (plain : type.nonNullable.Every Ty.Plain) :
    Yields (checker.memberType type name true)
      (checker.arena.plainForm found.optional) := by
  obtain ⟨other, again, same⟩ := reads.plainForm plain
  have form := @plain_plainForm checker.arena _ plain
  have ofFound := reads.plain definitions plain
  have ofOther := again.plain definitions form
  have result :
      checker.arena.plainForm other.optional =
        checker.arena.plainForm found.optional := by
    rw [plainForm_optional ofOther, plainForm_optional ofFound, same]
  unfold memberType
  rw [if_pos rfl]
  refine (@normalizeIn_yields checker false _ plain 0).bind ?_ fun present => ?_
  · rw [again.valued, if_neg (by simp), ← result]
    have accesses :
        Yields
          (checker.readProperty (checker.arena.plainForm type.nonNullable) name)
          other := by
      unfold readProperty
      refine (propertyWithin_yields definitions again form _).bind (.pure _)
        fun found => ?_
      cases found <;> (dsimp only; infer_instance)
    exact accesses.bind
      (@normalizeIn_yields checker false _ (Ty.plain_optional ofOther) 0)
      fun _ => inferInstance
  · split <;> infer_instance

end Reading

section Access

variable
  {scope : Scope}
  {table : BindingTable}
  (bound : (scope.view table).lookup operand = some type)

include bound

/-- A name in scope has the type that it is bound to. -/
theorem typeOf_name
    (log : Log) :
    checker.typeOf scope (.name operand) table log =
      .ok ((type, table), log) := by
  unfold typeOf typeOfName
  change (StateT.run (get >>= _ : Narrowing Ty) table : Check _) log = _
  rw [StateT.run_bind, StateT.run_get, pure_bind]
  dsimp only
  rw [bound]
  rfl

/-- An access to a name in scope runs as the access to its type. -/
theorem typeOf_member_name
    (log : Log) :
    checker.typeOf scope (.member (.name operand) name chained) table log =
      (checker.memberType type name chained log).map fun result =>
        ((result.1, table), result.2) := by
  unfold typeOf
  change (checker.typeOf scope (.name operand) table log).bind _ = _
  rw [typeOf_name bound]
  change (checker.memberType type name chained log).bind _ = _
  cases checker.memberType type name chained log <;> rfl

end Access

/--
An optional access through a name whose type stands for objects, once its `null`
and `undefined` are stripped, reports nothing, and has the normal form of the
union of what is read from the objects and `undefined` as its type.
-/
theorem typeOf_chained
    {scope : Scope}
    {table after : BindingTable}
    {before added : Log}
    {types : List Ty}
    (declarations :
      ∀ declaration ∈ checker.arena.declarations,
        declaration.definition.Every Ty.Plain)
    (plain : type.Every Ty.Plain)
    (written : type.isAbsent = false)
    (bound : (scope.view table).lookup operand = some type)
    (expands :
      Settles (checker.structural 0 type.nonNullable) (.ok expanded))
    (length : types.length = expanded.members.length)
    (reads :
      ∀ member found, (member, found) ∈ expanded.members.zip types →
        checker.arena.Reads name member found)
    (run :
      checker.typeOf scope (.member (.name operand) name true) table before =
        .ok ((result, after), before ++ added))
    (quiet : Log.Quiet added) :
    added = [] ∧ after = table ∧
      result = checker.arena.plainForm (.ofUnion (types ++ [.undefined])) := by
  have definitions := Arena.plain_definition declarations
  have stripped := Ty.plain_nonNullable plain
  have present := Ty.isAbsent_nonNullable written
  obtain ⟨found, fromType, same⟩ :=
    Arena.Reads.of_members definitions stripped
      (expands_of_structural definitions stripped present expands) length reads
  have yields := memberType_yields definitions fromType stripped
  have appends :
      OnlyAdds (checker.memberType type name true) :=
    Appends.toOnlyAdds
  rw [typeOf_member_name bound, appends.shift before] at run
  obtain ⟨⟨answer, last⟩, shifted, ends⟩ := Except.map_eq_ok.mp run
  obtain ⟨⟨value, reported⟩, fresh, joins⟩ := Except.map_eq_ok.mp shifted
  simp only [Prod.mk.injEq] at ends joins
  obtain ⟨⟨rfl, rfl⟩, rfl⟩ := ends
  obtain ⟨rfl, sameLog⟩ := joins
  cases List.append_cancel_left sameLog
  obtain ⟨rfl, rfl⟩ := yields _ _ fresh quiet
  exact ⟨rfl, rfl, same⟩

section Points

/-- A point, and a point that may be missing. -/
def pointArena : Arena :=
  { declarations :=
      [{ name := "Point", definition := point .string false },
        { name := "Maybe"
          definition := .ofUnion [point .string false, .null] }] }
where
  /-- An object with one coordinate. -/
  point
      (type : Ty)
      (optional : Bool) :
      Ty :=
    .ofShape { properties := [{ name := "a", type, optional }] }

/-- A checker of points. -/
def pointChecker : Checker :=
  { arena := pointArena, budget := 20 }

/-- A point by its name, one whose coordinate may be missing, or none. -/
def somePoint : Ty :=
  .ofUnion
    [.named ⟨0, 0, "Point"⟩, pointArena.point .number true, .null]

/-- A scope in which `x` is bound. -/
def pointScope : Scope :=
  [[("x", 0)]]

/-- The table that binds `x` to a type. -/
def pointTable
    (type : Ty) :
    BindingTable :=
  [{ name := "x", declared := type }]

/-- The access to the coordinate of `x`, which may end early. -/
def coordinate : Expression :=
  .member (.name "x") "a" true

/-- The coordinates of all points are read through the name of some. -/
theorem typeOf_chained_points :
    pointChecker.typeOf pointScope coordinate (pointTable somePoint) [] =
        .ok
          ((.ofUnion [.string, .number, .undefined], pointTable somePoint),
            []) ∧
      Ty.ofUnion [.string, .number, .undefined] =
        pointArena.plainForm
          (.ofUnion [.string, .ofUnion [.number, .undefined], .undefined]) := by
  have plainPoint {type : Ty} (plain : type.Every Ty.Plain) (optional : Bool) :
      (pointArena.point type optional).Every Ty.Plain :=
    .node ⟨rfl, rfl⟩ (List.forall_mem_singleton.mpr plain)
  have leaf (kind : Primitive) : (Ty.primitive kind).Every Ty.Plain :=
    .leaf ⟨rfl, rfl⟩ rfl
  have declarations :
      ∀ declaration ∈ pointArena.declarations,
        declaration.definition.Every Ty.Plain :=
    List.forall_mem_cons.mpr ⟨plainPoint (leaf _) false,
      List.forall_mem_singleton.mpr (.node ⟨rfl, rfl⟩
        (List.forall_mem_cons.mpr ⟨plainPoint (leaf _) false,
          List.forall_mem_singleton.mpr (leaf _)⟩))⟩
  have plain : somePoint.Every Ty.Plain :=
    .node ⟨rfl, rfl⟩ (List.forall_mem_cons.mpr ⟨.leaf ⟨rfl, rfl⟩ rfl,
      List.forall_mem_cons.mpr ⟨plainPoint (leaf _) true,
        List.forall_mem_singleton.mpr (leaf _)⟩⟩)
  have expands :
      Settles (pointChecker.structural 0 somePoint.nonNullable)
        (.ok (.ofUnion
          [.named ⟨0, 0, "Point"⟩, pointArena.point .number true])) :=
    ⟨[], by decide +kernel, Log.quiet_nil⟩
  have reads :
      ∀ member found,
        (member, found) ∈
          [Ty.named ⟨0, 0, "Point"⟩, pointArena.point .number true].zip
            [.string, .ofUnion [.number, .undefined]] →
        pointArena.Reads "a" member found := by
    intro member found beside
    simp only [List.zip_cons_cons, List.zip_nil_left, List.mem_cons,
      Prod.mk.injEq, List.not_mem_nil, or_false] at beside
    have declared (type : Ty) (optional : Bool) :
        Shape.property? { properties := [{ name := "a", type, optional }] }
            "a" =
          some { name := "a", type, optional } :=
      rfl
    rcases beside with ⟨rfl, rfl⟩ | ⟨rfl, rfl⟩
    · exact .object (.shape (.name (.here rfl rfl)) rfl) (declared .string false)
    · exact .object (.shape (.here rfl rfl) rfl) (declared .number true)
  have length :
      [Ty.string, .ofUnion [.number, .undefined]].length =
        (Ty.ofUnion
          [.named ⟨0, 0, "Point"⟩,
            pointArena.point .number true]).members.length :=
    rfl
  have run :
      pointChecker.typeOf pointScope coordinate (pointTable somePoint) [] =
        .ok
          ((.ofUnion [.string, .number, .undefined], pointTable somePoint),
            []) := by
    decide +kernel
  exact ⟨run, (typeOf_chained declarations plain rfl rfl expands length reads
    run Log.quiet_nil).2.2⟩

/--
A name in front of the union hides its `null`: the coordinate is reported as
missing, although the name stands for a point or nothing.
-/
theorem typeOf_chained_misses_name :
    Settles (pointChecker.structural 0 (.named ⟨0, 1, "Maybe"⟩))
        (.ok (.ofUnion [pointArena.point .string false, .null])) ∧
      pointChecker.typeOf pointScope coordinate
          (pointTable (.named ⟨0, 1, "Maybe"⟩)) [] =
        .ok
          ((.unknown, pointTable (.named ⟨0, 1, "Maybe"⟩)),
            [{ stage := .narrow
               severity := .error
               code := .unknownProperty
               message :=
                "property \"a\" does not exist on type Maybe" }]) :=
  ⟨⟨[], by decide +kernel, Log.quiet_nil⟩, by decide +kernel⟩

end Points

end Checker

end StructuralTyping
