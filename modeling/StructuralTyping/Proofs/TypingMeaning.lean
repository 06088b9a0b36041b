import StructuralTyping.Proofs.Refinement
import StructuralTyping.Proofs.ScopeMeaning

namespace StructuralTyping

/-!
# Typing is sound

The static type of an expression holds whatever the expression evaluates to.
Operands that are only evaluated on one branch of a guard are typed with the
bindings narrowed for it, where the facts of the guard hold.
-/

open Check

open Stateful (Runs)

namespace Expression

variable (checker : Checker) (scope : Scope)

/--
No property read that typing looks at is answered by an index signature. The
operands of comparisons and tests are typed without effect on the type.
-/
def TypingDeclared
    (table : BindingTable) :
    Expression →
    Prop
  | typeof operand => operand.TypingDeclared table
  | member operand property _ =>
      operand.TypingDeclared table ∧
        ∀ type after,
          Runs (checker.typeOf scope operand) table type after →
          type.indexAnswers property = false
  | binary .and left right =>
      left.TypingDeclared table ∧
        left.GuardsDeclared checker (scope.view table) ∧
        ∀ facts,
          Settles (checker.refine (scope.view table) left true) facts →
          right.TypingDeclared (narrowedTable scope table facts)
  | binary .or left right =>
      left.TypingDeclared table ∧
        left.GuardsDeclared checker (scope.view table) ∧
        ∀ facts,
          Settles (checker.refine (scope.view table) left false) facts →
          right.TypingDeclared (narrowedTable scope table facts)
  | binary .coalesce left right =>
      left.TypingDeclared table ∧ right.TypingDeclared table
  | conditional test positive negative =>
      test.GuardsDeclared checker (scope.view table) ∧
        (∀ facts,
          Settles (checker.refine (scope.view table) test true) facts →
          positive.TypingDeclared (narrowedTable scope table facts)) ∧
        ∀ facts,
          Settles (checker.refine (scope.view table) test false) facts →
          negative.TypingDeclared (narrowedTable scope table facts)
  | _ => True

end Expression

namespace Checker

variable {checker : Checker} {scope : Scope} {table : BindingTable}

/-- A type of the fragment that holds what an expression evaluates to. -/
structure Types
    (arena : Arena)
    (view : View)
    (expression : Expression)
    (type : Ty) :
    Prop where
  admits : Fragment.narrowing.admits type = true
  belongs :
    ∀ environment : Environment,
      environment.NaNFree →
      view.Holds arena environment →
      ∀ value,
        Evaluates arena environment expression value →
        Belongs arena type value

/-- The facts of a guard are those about the view of the scope. -/
theorem refineScope_runs
    {test : Expression}
    (runs :
      Runs (checker.refineScope scope test branch) table facts after) :
    Settles (checker.refine (scope.view table) test branch) facts ∧
      after = table := by
  unfold refineScope at runs
  obtain ⟨_, _, reads, refines⟩ := runs.of_bind fun _ => inferInstance
  obtain ⟨rfl, rfl⟩ := reads.of_get
  exact refines.of_lift

/-- A body under facts runs with narrowed bindings, which are given back. -/
theorem withFacts_runs
    {body : Narrowing α}
    {facts : Facts}
    [Stateful.Accountable body]
    (runs : Runs (withFacts scope facts body) table value after) :
    ∃ inner,
      Runs body (narrowedTable scope table facts) value inner ∧
        after =
          BindingTable.restoreAll inner
            (BindingTable.pushFacts table scope facts).1 := by
  unfold withFacts at runs
  obtain ⟨_, _, reads, narrows⟩ := runs.of_bind fun _ => inferInstance
  obtain ⟨rfl, rfl⟩ := reads.of_get
  obtain ⟨_, _, pushes, continues⟩ := narrows.of_bind fun _ => inferInstance
  cases pushes.of_set
  obtain ⟨result, inner, bodyRuns, drops⟩ :=
    continues.of_bind fun _ => inferInstance
  obtain ⟨_, _, restores, returns⟩ := drops.of_bind fun _ => inferInstance
  cases restores.of_modify
  obtain ⟨rfl, rfl⟩ := returns.of_pure
  exact ⟨inner, bodyRuns, rfl⟩

/-- A body on a branch of a guard runs with the bindings narrowed for it. -/
theorem onBranch_runs
    {body : Narrowing α}
    {test : Expression}
    [Stateful.Accountable body]
    (runs :
      Runs (checker.onBranch scope test branch body) table value after) :
    ∃ facts inner,
      Settles (checker.refine (scope.view table) test branch) facts ∧
        Runs body (narrowedTable scope table facts) value inner ∧
        after =
          BindingTable.restoreAll inner
            (BindingTable.pushFacts table scope facts).1 := by
  unfold onBranch at runs
  obtain ⟨facts, _, refines, narrows⟩ := runs.of_bind fun _ => inferInstance
  obtain ⟨refined, rfl⟩ := refineScope_runs refines
  obtain ⟨inner, bodyRuns, rfl⟩ := withFacts_runs narrows
  exact ⟨facts, inner, refined, bodyRuns, rfl⟩

/-- A branch gives the table back when its body does. -/
theorem onBranch_restores
    {body : Narrowing α}
    {test : Expression}
    [Stateful.Accountable body]
    (named : ScopeNamed scope table)
    (restores :
      ∀ {table value after},
        ScopeNamed scope table →
        Runs body table value after →
        after = table)
    (runs :
      Runs (checker.onBranch scope test branch body) table value after) :
    after = table := by
  obtain ⟨facts, inner, _, bodyRuns, rfl⟩ := onBranch_runs runs
  cases restores (BindingTable.named_pushFacts named facts) bodyRuns
  simpa using BindingTable.restoreAll_pushFacts named facts []

/-- Typing gives the table back. -/
theorem typeOf_restores
    {expression : Expression}
    (named : ScopeNamed scope table)
    (runs : Runs (checker.typeOf scope expression) table type after) :
    after = table := by
  induction expression generalizing table type after with
  | name binding =>
      unfold typeOf typeOfName at runs
      obtain ⟨_, _, reads, looks⟩ := runs.of_bind fun _ => by
        split <;> infer_instance
      obtain ⟨rfl, rfl⟩ := reads.of_get
      split at looks
      · exact looks.of_pure.2
      · obtain ⟨_, _, reports, returns⟩ :=
          looks.of_bind fun _ => inferInstance
        obtain ⟨_, rfl⟩ := reports.of_lift
        exact returns.of_pure.2
  | typeof operand inductionHypothesis =>
      unfold typeOf at runs
      obtain ⟨_, _, operandRuns, tags⟩ := runs.of_bind fun _ => inferInstance
      exact tags.of_lift.2.trans (inductionHypothesis named operandRuns)
  | member operand property optional inductionHypothesis =>
      unfold typeOf at runs
      obtain ⟨_, _, operandRuns, accesses⟩ :=
        runs.of_bind fun _ => inferInstance
      exact accesses.of_lift.2.trans (inductionHypothesis named operandRuns)
  | binary operator left right leftHypothesis rightHypothesis =>
      have rightRestores {table type after} :=
        @rightHypothesis table type after
      cases operator with
      | and =>
          unfold typeOf at runs
          obtain ⟨_, _, leftRuns, continues⟩ :=
            runs.of_bind fun _ => inferInstance
          cases leftHypothesis named leftRuns
          obtain ⟨_, _, rightRuns, finishes⟩ :=
            continues.of_bind fun _ => inferInstance
          cases onBranch_restores named rightRestores rightRuns
          obtain ⟨_, _, narrows, normalizes⟩ :=
            finishes.of_bind fun _ => inferInstance
          exact normalizes.of_lift.2.trans narrows.of_lift.2
      | or =>
          unfold typeOf at runs
          obtain ⟨_, _, leftRuns, continues⟩ :=
            runs.of_bind fun _ => inferInstance
          cases leftHypothesis named leftRuns
          obtain ⟨_, _, rightRuns, finishes⟩ :=
            continues.of_bind fun _ => inferInstance
          cases onBranch_restores named rightRestores rightRuns
          obtain ⟨_, _, narrows, normalizes⟩ :=
            finishes.of_bind fun _ => inferInstance
          exact normalizes.of_lift.2.trans narrows.of_lift.2
      | coalesce =>
          unfold typeOf at runs
          obtain ⟨_, _, leftRuns, continues⟩ :=
            runs.of_bind fun _ => inferInstance
          cases leftHypothesis named leftRuns
          obtain ⟨_, _, normalizes, follows⟩ :=
            continues.of_bind fun _ => inferInstance
          obtain ⟨_, rfl⟩ := normalizes.of_lift
          obtain ⟨_, _, rightRuns, coalesces⟩ :=
            follows.of_bind fun _ => inferInstance
          exact coalesces.of_lift.2.trans (rightHypothesis named rightRuns)
      | _ =>
          obtain ⟨_, _, leftRuns, continues⟩ :=
            runs.of_bind fun _ => inferInstance
          cases leftHypothesis named leftRuns
          obtain ⟨_, _, rightRuns, returns⟩ :=
            continues.of_bind fun _ => inferInstance
          exact returns.of_pure.2.trans (rightHypothesis named rightRuns)
  | conditional test positive negative _ positiveHypothesis
      negativeHypothesis =>
      unfold typeOf at runs
      obtain ⟨_, _, firstRuns, continues⟩ :=
        runs.of_bind fun _ => inferInstance
      cases onBranch_restores named
        (fun named => positiveHypothesis named) firstRuns
      obtain ⟨_, _, secondRuns, normalizes⟩ :=
        continues.of_bind fun _ => inferInstance
      cases onBranch_restores named
        (fun named => negativeHypothesis named) secondRuns
      exact normalizes.of_lift.2
  | _ =>
      exact runs.of_pure.2

section Members

variable {type : Ty}

/-- Dropping the nullish members stays within the fragment. -/
theorem admits_nonNullable
    (admitted : Fragment.narrowing.admits type = true) :
    Fragment.narrowing.admits type.nonNullable = true := by
  unfold Ty.nonNullable
  split
  · rfl
  split
  · exact Fragment.admits_union.mpr fun member kept =>
      Fragment.admits_union.mp admitted member (List.mem_filter.mp kept).1
  · exact admitted

/-- Nothing is nullish in the types `null` and `undefined` only. -/
theorem isNullish_of_belongs
    {arena : Arena}
    (isNullish : type.isNullish = true)
    (belongs : Belongs arena type value) :
    value.isNullish = true := by
  rcases Bool.or_eq_true_iff.mp isNullish with isNull | isUndefined
  · cases eq_of_isPrimitive isNull
    cases holds_null.mp belongs
    rfl
  · cases eq_of_isPrimitive isUndefined
    cases holds_undefined.mp belongs
    rfl

/-- Dropping the nullish members keeps all other values. -/
theorem belongs_nonNullable
    {arena : Arena}
    (belongs : Belongs arena type value)
    (notNullish : value.isNullish = false) :
    Belongs arena type.nonNullable value := by
  have keeps :
      ∀ {member : Ty},
        Belongs arena member value → member.isNullish = false := by
    intro member belongs
    by_contra isNullish
    rw [isNullish_of_belongs (by simpa using isNullish) belongs] at notNullish
    cases notNullish
  unfold Ty.nonNullable
  rw [keeps belongs]
  simp only [Bool.false_eq_true, if_false]
  split
  · obtain ⟨member, inMembers, belongs⟩ := holds_union.mp belongs
    exact .union (List.mem_filter.mpr ⟨inMembers, by simp [keeps belongs]⟩)
      belongs
  · exact belongs

/-- Dropping the nullish members exposes no further positions. -/
theorem indexAnswers_nonNullable
    (undeclared : type.indexAnswers name = false) :
    type.nonNullable.indexAnswers name = false := by
  unfold Ty.nonNullable
  split
  · rfl
  split
  · by_contra indexed
    rw [Bool.not_eq_false, Ty.ofUnion, Ty.indexAnswers,
      Ty.indexAnswersAny_iff] at indexed
    obtain ⟨member, kept, indexed⟩ := indexed
    rw [Ty.indexAnswers, ← Bool.not_eq_true, Ty.indexAnswersAny_iff]
      at undeclared
    exact undeclared ⟨member, (List.mem_filter.mp kept).1, indexed⟩
  · exact undeclared

/-- The type of a read; one that is not declared may yield anything. -/
theorem readProperty_settles
    (admitted : Fragment.narrowing.admits type = true)
    (undeclared : type.indexAnswers property = false)
    (settles : Settles (checker.readProperty type property) found) :
    ReadBelongs checker.arena type property found := by
  unfold readProperty at settles
  obtain ⟨answer, reads, settles⟩ := settles.of_bind fun answer => by
    cases answer <;> (dsimp only; infer_instance)
  cases answer with
  | none =>
      obtain ⟨_, _, settles⟩ := settles_bind.mp settles
      cases settles_pure.mp settles
      exact ⟨rfl, fun _ _ _ _ => .primitive rfl, fun _ => .primitive rfl⟩
  | some found =>
      cases settles_pure.mp settles
      exact propertyOf_settles admitted undeclared reads

/--
The type of a property access holds what the access yields, and `undefined` if
a chain of accesses may have ended before.
-/
theorem memberType_settles
    {chained : Bool}
    (admitted : Fragment.narrowing.admits type = true)
    (undeclared : type.indexAnswers property = false)
    (settles : Settles (checker.memberType type property chained) result) :
    Fragment.narrowing.admits result = true ∧
      (∀ value found,
        Belongs checker.arena type value →
        value.Accesses property chained found →
        Belongs checker.arena result found) ∧
      (Belongs checker.arena type .undefined →
        Belongs checker.arena result .undefined) := by
  unfold memberType at settles
  cases chained with
  | false =>
      have reads := readProperty_settles admitted undeclared settles
      refine ⟨reads.admits, fun value found belongs accesses => ?_,
        reads.undefined⟩
      cases accesses with
      | reads exposes =>
          exact reads.belongs value found belongs exposes
      | shortCircuit isChained _ =>
          cases isChained
  | true =>
      obtain ⟨present, normalizes, settles⟩ := settles_bind.mp settles
      have normal :=
        normalize_settles (admits_nonNullable admitted) normalizes
      have inPresent :
          ∀ {value found},
            Belongs checker.arena type value →
            value.Reads property found →
            Belongs checker.arena present value :=
        fun belongs exposes =>
          (normal.holds _).mpr
            (belongs_nonNullable belongs exposes.not_isNullish)
      split at settles
      · next isNever =>
        cases settles_pure.mp settles
        refine ⟨rfl, fun value found belongs accesses => ?_,
          fun _ => .primitive rfl⟩
        cases accesses with
        | reads exposes =>
            exact (not_holds_of_isNever isNever
              (inPresent belongs exposes)).elim
        | shortCircuit _ _ =>
            exact .primitive rfl
      · obtain ⟨read, readSettles, settles⟩ := settles_bind.mp settles
        have presentUndeclared : present.indexAnswers property = false := by
          by_contra indexed
          have := normal.positions (by simpa using indexed)
          rw [indexAnswers_nonNullable undeclared] at this
          cases this
        have reads :=
          readProperty_settles normal.admits presentUndeclared readSettles
        have extended :=
          normalize_settles (Fragment.admits_optional reads.admits) settles
        have holdsUndefined : Belongs checker.arena result .undefined :=
          (extended.holds _).mpr (holds_optional.mpr (.inr rfl))
        refine ⟨extended.admits, fun value found belongs accesses => ?_,
          fun _ => holdsUndefined⟩
        cases accesses with
        | reads exposes =>
            exact (extended.holds found).mpr (holds_optional.mpr
              (.inl (reads.belongs value found (inPresent belongs exposes)
                exposes)))
        | shortCircuit _ _ =>
            exact holdsUndefined

end Members

/-- A chain of accesses that ends early evaluates to `undefined`. -/
theorem evaluates_of_shortCircuits
    {arena : Arena}
    {environment : Environment}
    (ends : ShortCircuits arena environment expression) :
    Evaluates arena environment expression .undefined := by
  cases ends with
  | here evaluates nullish =>
      exact .shortCircuit (.here evaluates nullish)
  | earlier ends =>
      exact .shortCircuit (.earlier ends)

/-- The type of an access is sound when that of its operand is. -/
theorem types_member
    {view : View}
    {operand : Expression}
    {chained : Bool}
    (operandTypes : Types checker.arena view operand operandType)
    (undeclared : operandType.indexAnswers property = false)
    (settles :
      Settles (checker.memberType operandType property chained) type) :
    Types checker.arena view (.member operand property chained) type := by
  obtain ⟨admitted, accessed, undefinedBelongs⟩ :=
    memberType_settles operandTypes.admits undeclared settles
  refine ⟨admitted, fun environment proper holds value evaluates => ?_⟩
  have operandBelongs {value} :=
    operandTypes.belongs environment proper holds value
  cases evaluates with
  | member operandEvaluates reads =>
      exact accessed _ _ (operandBelongs operandEvaluates) (.reads reads)
  | shortCircuit ends =>
      cases ends with
      | here operandEvaluates nullish =>
          exact accessed _ _ (operandBelongs operandEvaluates)
            (.shortCircuit rfl nullish)
      | earlier ends =>
          exact undefinedBelongs
            (operandBelongs (evaluates_of_shortCircuits ends))

/-- Every tag is one of those that values have. -/
theorem tag_mem_typeofTags
    (value : Value) :
    value.tag ∈ typeofTags := by
  cases value with
  | constant literal =>
      cases literal <;> simp [Value.tag, Literal.base, Primitive.name,
        typeofTags]
  | _ =>
      simp [Value.tag, typeofTags]

/-- The tags of members are those of their values. -/
theorem tag_mem_memberTags
    {members : List Ty}
    (admitted :
      ∀ member ∈ members, Fragment.narrowing.admits member = true)
    (flat : ∀ member ∈ members, member.isUnion = false)
    (settles : Settles (checker.memberTags members).run (some tags))
    (inMembers : member ∈ members)
    (belongs : Belongs checker.arena member value) :
    value.tag ∈ tags := by
  induction members generalizing tags with
  | nil =>
      cases inMembers
  | cons first rest inductionHypothesis =>
      have restSettles {tags} :=
        @inductionHypothesis tags
          (fun member inRest => admitted member (.tail _ inRest))
          (fun member inRest => flat member (.tail _ inRest))
      have firstAdmitted := admitted first (by simp)
      unfold memberTags at settles
      split at settles
      · next isNever =>
        rcases List.mem_cons.mp inMembers with rfl | inRest
        · exact (not_holds_of_isNever isNever belongs).elim
        · exact restSettles settles inRest
      · obtain ⟨expanded, expands, settles⟩ :=
          settles.of_optionBind fun expanded => by
            split <;> infer_instance
        obtain ⟨_, ⟨⟩, expands⟩ := expands.of_optionLift
        rw [expand_eq_pure firstAdmitted (flat first (by simp))] at expands
        cases settles_pure.mp expands
        rw [typeofTag_eq firstAdmitted] at settles
        split at settles
        · cases settles_pure.mp settles
        · next tag tagged =>
          obtain ⟨others, tail, settles⟩ :=
            settles.of_optionBind fun _ => inferInstance
          cases settles_pure.mp settles
          rcases List.mem_cons.mp inMembers with rfl | inRest
          · rw [tag_of_typeofTag belongs tagged]
            exact List.mem_cons_self
          · exact .tail _ (restSettles tail inRest)

/-- The type of the tag of a value holds the tag. -/
theorem types_typeof
    {view : View}
    {operand : Expression}
    (operandTypes : Types checker.arena view operand operandType)
    (settles : Settles (checker.typeofResult operandType) type) :
    Types checker.arena view (.typeof operand) type := by
  unfold typeofResult at settles
  obtain ⟨members, membersSettle, settles⟩ := settles_bind.mp settles
  obtain ⟨found, tagsSettle, normalizes⟩ := settles_bind.mp settles
  have parts := membersOf_settles operandTypes.admits membersSettle
  have normal := normalize_settles
    (Fragment.admits_union.mpr fun tagType inTags => by
      obtain ⟨tag, _, rfl⟩ := List.mem_map.mp inTags
      rfl) normalizes
  refine ⟨normal.admits, fun environment proper holds value evaluates => ?_⟩
  cases evaluates with
  | @typeof _ actual operandEvaluates =>
  obtain ⟨member, inMembers, belongs⟩ :=
    (parts.holds actual).mp
      (operandTypes.belongs environment proper holds _ operandEvaluates)
  have tagged : actual.tag ∈ found.getD typeofTags := by
    cases found with
    | none =>
        exact tag_mem_typeofTags actual
    | some tags =>
        exact tag_mem_memberTags parts.admits parts.flat tagsSettle inMembers
          belongs
  refine (normal.holds _).mpr
    (.union (List.mem_map_of_mem tagged) (.literal ?_))
  simp [Literal.equal]

/-- A value that is not nullish belongs to no nullish member. -/
theorem not_isNullishOrVoid
    {arena : Arena}
    {member : Ty}
    (belongs : Belongs arena member value)
    (notNullish : value.isNullish = false) :
    isNullishOrVoid member = false := by
  by_contra isNullish
  rw [Bool.not_eq_false, isNullishOrVoid, Bool.or_eq_true] at isNullish
  rcases isNullish with isNullish | isVoid
  · rw [isNullish_of_belongs isNullish belongs] at notNullish
    cases notNullish
  · cases eq_of_isPrimitive isVoid
    cases value <;> simp_all [Primitive.holds, Value.isNullish]

/-- The type of a coalesced expression holds the values of both operands. -/
theorem types_coalesce
    {view : View}
    {left right : Expression}
    (leftTypes : Types checker.arena view left leftType)
    (rightTypes : Types checker.arena view right rightType)
    (settles : Settles (checker.coalesced leftType rightType) type) :
    Types checker.arena view (.binary .coalesce left right) type := by
  unfold coalesced at settles
  obtain ⟨members, membersSettle, settles⟩ := settles_bind.mp settles
  have parts := membersOf_settles leftTypes.admits membersSettle
  generalize keptEq :
    (members.filter fun member => !isNullishOrVoid member) = kept at settles
  have leftKept :
      ∀ {environment : Environment} {value},
        environment.NaNFree →
        view.Holds checker.arena environment →
        Evaluates checker.arena environment left value →
        value.isNullish = false →
        ∃ member ∈ kept, Belongs checker.arena member value := by
    intro environment value proper holds evaluates notNullish
    obtain ⟨member, inMembers, belongs⟩ :=
      (parts.holds value).mp
        (leftTypes.belongs environment proper holds value evaluates)
    refine ⟨member, ?_, belongs⟩
    rw [← keptEq]
    refine List.mem_filter.mpr ⟨inMembers, ?_⟩
    simp [not_isNullishOrVoid belongs notNullish]
  dsimp only at settles
  split at settles
  · next sameLength =>
    cases settles_pure.mp settles
    refine ⟨leftTypes.admits,
      fun environment proper holds value evaluates => ?_⟩
    cases evaluates with
    | coalesceLeft leftEvaluates _ =>
        exact leftTypes.belongs environment proper holds value leftEvaluates
    | coalesceRight leftEvaluates nullish _ =>
        obtain ⟨member, inMembers, belongs⟩ :=
          (parts.holds _).mp
            (leftTypes.belongs environment proper holds _ leftEvaluates)
        -- A member that holds a nullish value and is kept holds all values.
        have kept : isNullishOrVoid member = false := by
          rw [← keptEq] at sameLength
          simpa using
            List.length_filter_eq_length_iff.mp sameLength member inMembers
        refine (parts.holds value).mpr ⟨member, inMembers, ?_⟩
        apply belongs_of_isAnyOrUnknown
        by_contra notTop
        rw [isNullishOrVoid_eq (parts.admits member inMembers)
          (parts.flat member inMembers) (by simpa using notTop) belongs,
          nullish] at kept
        cases kept
  split at settles
  · next isEmpty =>
    have normal := normalize_settles rightTypes.admits settles
    refine ⟨normal.admits,
      fun environment proper holds value evaluates => ?_⟩
    cases evaluates with
    | coalesceLeft leftEvaluates notNullish =>
        obtain ⟨member, inKept, _⟩ :=
          leftKept proper holds leftEvaluates notNullish
        rw [List.isEmpty_iff.mp isEmpty] at inKept
        cases inKept
    | coalesceRight _ _ rightEvaluates =>
        exact (normal.holds value).mpr
          (rightTypes.belongs environment proper holds value rightEvaluates)
  · have unionAdmitted :
        Fragment.narrowing.admits (.ofUnion (kept ++ [rightType])) = true := by
      refine Fragment.admits_union.mpr fun member inUnion => ?_
      rcases List.mem_append.mp inUnion with inKept | isRight
      · rw [← keptEq] at inKept
        exact parts.admits member (List.mem_filter.mp inKept).1
      · cases List.mem_singleton.mp isRight
        exact rightTypes.admits
    have normal := normalize_settles unionAdmitted settles
    refine ⟨normal.admits,
      fun environment proper holds value evaluates =>
        (normal.holds value).mpr ?_⟩
    cases evaluates with
    | coalesceLeft leftEvaluates notNullish =>
        obtain ⟨member, inKept, belongs⟩ :=
          leftKept proper holds leftEvaluates notNullish
        exact .union (by simp [inKept]) belongs
    | coalesceRight _ _ rightEvaluates =>
        exact .union (by simp)
          (rightTypes.belongs environment proper holds value rightEvaluates)

/-- A type that an expression only has on a path that is not taken may go. -/
theorem types_of_normal
    {view : View}
    {expression : Expression}
    {types : List Ty}
    (admitted : ∀ type ∈ types, Fragment.narrowing.admits type = true)
    (belongs :
      ∀ environment : Environment,
        environment.NaNFree →
        view.Holds checker.arena environment →
        ∀ value,
          Evaluates checker.arena environment expression value →
          ∃ type ∈ types, Belongs checker.arena type value)
    (settles : Settles (checker.normalize (.ofUnion types)) result) :
    Types checker.arena view expression result := by
  have normal :=
    normalize_settles (Fragment.admits_union.mpr admitted) settles
  refine ⟨normal.admits, fun environment proper holds value evaluates => ?_⟩
  obtain ⟨type, inTypes, belongs⟩ :=
    belongs environment proper holds value evaluates
  exact (normal.holds value).mpr (.union inTypes belongs)

/-- A truth value belongs to its type. -/
theorem types_boolean
    {arena : Arena}
    {view : View}
    {expression : Expression}
    (answers :
      ∀ {environment value},
        Evaluates arena environment expression value →
        ∃ answer, value = .ofBool answer) :
    Types arena view expression .boolean := by
  refine ⟨rfl, fun environment _ _ value evaluates => ?_⟩
  obtain ⟨answer, rfl⟩ := answers evaluates
  exact .primitive rfl

/-- Typing an expression on a branch types it where the facts hold. -/
theorem onBranch_types
    {test operand : Expression}
    (fits : ScopeFits scope table)
    (testSupported : test.supported true = true)
    (testDeclared : test.GuardsDeclared checker (scope.view table))
    (operandTypes :
      ∀ {facts type after},
        Settles (checker.refine (scope.view table) test branch) facts →
        ScopeFits scope (narrowedTable scope table facts) →
        Runs (checker.typeOf scope operand)
          (narrowedTable scope table facts) type after →
        Types checker.arena
          (scope.view (narrowedTable scope table facts)) operand type)
    (runs :
      Runs (checker.onBranch scope test branch (checker.typeOf scope operand))
        table type after) :
    Fragment.narrowing.admits type = true ∧
      ∀ environment : Environment,
        environment.NaNFree →
        (scope.view table).Holds checker.arena environment →
        TakesBranch checker.arena test branch environment →
        ∀ value,
          Evaluates checker.arena environment operand value →
          Belongs checker.arena type value := by
  obtain ⟨facts, inner, refined, typeRuns, rfl⟩ := onBranch_runs runs
  have proves := refine_settles fits.admitted testSupported testDeclared refined
  have types := operandTypes refined (fits.pushFacts proves.admitted) typeRuns
  refine ⟨types.admits, fun environment proper holds taken value => ?_⟩
  exact types.belongs environment proper
    (fits.holds_pushFacts holds
      (proves.hold environment proper holds taken)) value

section Operators

variable
  {left right : Expression}
  (fits : ScopeFits scope table)
  (leftSupported : left.supported true = true)
  (leftDeclared : left.GuardsDeclared checker (scope.view table))

include fits leftSupported leftDeclared

/-- A conjunction has the falsy values of its left operand, or its right one's. -/
theorem typeOf_and_runs
    (leftTypes :
      ∀ {type after},
        Runs (checker.typeOf scope left) table type after →
        Types checker.arena (scope.view table) left type)
    (rightTypes :
      ∀ {facts type after},
        Settles (checker.refine (scope.view table) left true) facts →
        ScopeFits scope (narrowedTable scope table facts) →
        Runs (checker.typeOf scope right)
          (narrowedTable scope table facts) type after →
        Types checker.arena
          (scope.view (narrowedTable scope table facts)) right type)
    (runs :
      Runs (checker.typeOf scope (.binary .and left right)) table type
        after) :
    Types checker.arena (scope.view table) (.binary .and left right)
      type := by
  unfold typeOf at runs
  obtain ⟨leftType, _, leftRuns, continues⟩ :=
    runs.of_bind fun _ => inferInstance
  have leftHolds := leftTypes leftRuns
  cases typeOf_restores fits.named leftRuns
  obtain ⟨rightType, _, rightRuns, finishes⟩ :=
    continues.of_bind fun _ => inferInstance
  cases onBranch_restores fits.named typeOf_restores rightRuns
  obtain ⟨rightAdmitted, rightHolds⟩ :=
    onBranch_types fits leftSupported leftDeclared rightTypes rightRuns
  obtain ⟨falsyType, _, falsyRuns, normalizes⟩ :=
    finishes.of_bind fun _ => inferInstance
  obtain ⟨falsySettles, rfl⟩ := falsyRuns.of_lift
  obtain ⟨settles, rfl⟩ := normalizes.of_lift
  obtain ⟨falsyAdmitted, keepsFalsy⟩ :=
    falsy_narrows leftHolds.admits falsySettles
  refine types_of_normal ?_ ?_ settles
  · simp [rightAdmitted, falsyAdmitted]
  · intro environment proper holds value evaluates
    cases evaluates with
    | andLeft leftEvaluates falsy =>
        exact ⟨falsyType, by simp, keepsFalsy value
          (leftEvaluates.nanFree proper)
          (leftHolds.belongs environment proper holds value leftEvaluates)
          falsy⟩
    | andRight leftEvaluates truthy rightEvaluates =>
        exact ⟨rightType, by simp, rightHolds environment proper holds
          ⟨_, leftEvaluates, truthy⟩ value rightEvaluates⟩

/-- A disjunction has the truthy values of its left operand, or its right one's. -/
theorem typeOf_or_runs
    (leftTypes :
      ∀ {type after},
        Runs (checker.typeOf scope left) table type after →
        Types checker.arena (scope.view table) left type)
    (rightTypes :
      ∀ {facts type after},
        Settles (checker.refine (scope.view table) left false) facts →
        ScopeFits scope (narrowedTable scope table facts) →
        Runs (checker.typeOf scope right)
          (narrowedTable scope table facts) type after →
        Types checker.arena
          (scope.view (narrowedTable scope table facts)) right type)
    (runs :
      Runs (checker.typeOf scope (.binary .or left right)) table type
        after) :
    Types checker.arena (scope.view table) (.binary .or left right)
      type := by
  unfold typeOf at runs
  obtain ⟨leftType, _, leftRuns, continues⟩ :=
    runs.of_bind fun _ => inferInstance
  have leftHolds := leftTypes leftRuns
  cases typeOf_restores fits.named leftRuns
  obtain ⟨rightType, _, rightRuns, finishes⟩ :=
    continues.of_bind fun _ => inferInstance
  cases onBranch_restores fits.named typeOf_restores rightRuns
  obtain ⟨rightAdmitted, rightHolds⟩ :=
    onBranch_types fits leftSupported leftDeclared rightTypes rightRuns
  obtain ⟨truthyType, _, truthyRuns, normalizes⟩ :=
    finishes.of_bind fun _ => inferInstance
  obtain ⟨truthySettles, rfl⟩ := truthyRuns.of_lift
  obtain ⟨settles, rfl⟩ := normalizes.of_lift
  obtain ⟨truthyAdmitted, keepsTruthy⟩ :=
    truthy_narrows leftHolds.admits truthySettles
  refine types_of_normal ?_ ?_ settles
  · simp [rightAdmitted, truthyAdmitted]
  · intro environment proper holds value evaluates
    cases evaluates with
    | orLeft leftEvaluates truthy =>
        exact ⟨truthyType, by simp, keepsTruthy value
          (leftEvaluates.nanFree proper)
          (leftHolds.belongs environment proper holds value leftEvaluates)
          truthy⟩
    | orRight leftEvaluates falsy rightEvaluates =>
        exact ⟨rightType, by simp, rightHolds environment proper holds
          ⟨_, leftEvaluates, falsy⟩ value rightEvaluates⟩

/-- A conditional has the values of the operand that is chosen. -/
theorem typeOf_conditional_runs
    {positive negative : Expression}
    (positiveTypes :
      ∀ {facts type after},
        Settles (checker.refine (scope.view table) left true) facts →
        ScopeFits scope (narrowedTable scope table facts) →
        Runs (checker.typeOf scope positive)
          (narrowedTable scope table facts) type after →
        Types checker.arena
          (scope.view (narrowedTable scope table facts)) positive type)
    (negativeTypes :
      ∀ {facts type after},
        Settles (checker.refine (scope.view table) left false) facts →
        ScopeFits scope (narrowedTable scope table facts) →
        Runs (checker.typeOf scope negative)
          (narrowedTable scope table facts) type after →
        Types checker.arena
          (scope.view (narrowedTable scope table facts)) negative type)
    (runs :
      Runs (checker.typeOf scope (.conditional left positive negative)) table
        type after) :
    Types checker.arena (scope.view table)
      (.conditional left positive negative) type := by
  unfold typeOf at runs
  obtain ⟨firstType, _, firstRuns, continues⟩ :=
    runs.of_bind fun _ => inferInstance
  cases onBranch_restores fits.named typeOf_restores firstRuns
  obtain ⟨firstAdmitted, firstHolds⟩ :=
    onBranch_types fits leftSupported leftDeclared positiveTypes firstRuns
  obtain ⟨secondType, _, secondRuns, normalizes⟩ :=
    continues.of_bind fun _ => inferInstance
  cases onBranch_restores fits.named typeOf_restores secondRuns
  obtain ⟨secondAdmitted, secondHolds⟩ :=
    onBranch_types fits leftSupported leftDeclared negativeTypes secondRuns
  obtain ⟨settles, rfl⟩ := normalizes.of_lift
  refine types_of_normal ?_ ?_ settles
  · simp [firstAdmitted, secondAdmitted]
  · intro environment proper holds value evaluates
    cases evaluates with
    | conditionalTrue testEvaluates truthy evaluates =>
        exact ⟨firstType, by simp, firstHolds environment proper holds
          ⟨_, testEvaluates, truthy⟩ value evaluates⟩
    | conditionalFalse testEvaluates falsy evaluates =>
        exact ⟨secondType, by simp, secondHolds environment proper holds
          ⟨_, testEvaluates, falsy⟩ value evaluates⟩

omit leftSupported leftDeclared in
/-- A coalesced expression has the values of its operands. -/
theorem typeOf_coalesce_runs
    (leftTypes :
      ∀ {type after},
        Runs (checker.typeOf scope left) table type after →
        Types checker.arena (scope.view table) left type)
    (rightTypes :
      ∀ {type after},
        Runs (checker.typeOf scope right) table type after →
        Types checker.arena (scope.view table) right type)
    (runs :
      Runs (checker.typeOf scope (.binary .coalesce left right)) table type
        after) :
    Types checker.arena (scope.view table) (.binary .coalesce left right)
      type := by
  unfold typeOf at runs
  obtain ⟨leftType, _, leftRuns, continues⟩ :=
    runs.of_bind fun _ => inferInstance
  have leftHolds := leftTypes leftRuns
  cases typeOf_restores fits.named leftRuns
  obtain ⟨normalized, _, normalizes, follows⟩ :=
    continues.of_bind fun _ => inferInstance
  obtain ⟨leftSettles, rfl⟩ := normalizes.of_lift
  obtain ⟨rightType, _, rightRuns, coalesces⟩ :=
    follows.of_bind fun _ => inferInstance
  have rightHolds := rightTypes rightRuns
  obtain ⟨settles, rfl⟩ := coalesces.of_lift
  have normal := normalize_settles leftHolds.admits leftSettles
  refine types_coalesce ⟨normal.admits, ?_⟩ rightHolds settles
  intro environment proper holds value evaluates
  exact (normal.holds value).mpr
    (leftHolds.belongs environment proper holds value evaluates)

end Operators

/-- The static type of an expression holds what the expression evaluates to. -/
theorem typeOf_runs
    {expression : Expression}
    (fits : ScopeFits scope table)
    (supported : expression.supported false = true)
    (declared : expression.TypingDeclared checker scope table)
    (runs : Runs (checker.typeOf scope expression) table type after) :
    Types checker.arena (scope.view table) expression type := by
  induction expression generalizing table type after with
  | name binding =>
      unfold typeOf typeOfName at runs
      obtain ⟨_, _, reads, looks⟩ := runs.of_bind fun _ => by
        split <;> infer_instance
      obtain ⟨rfl, rfl⟩ := reads.of_get
      split at looks
      · next shown =>
        obtain ⟨rfl, rfl⟩ := looks.of_pure
        refine ⟨fits.admitted.lookup shown,
          fun environment proper holds value evaluates => ?_⟩
        cases evaluates with
        | name valued =>
        exact holds.lookup shown valued
      · obtain ⟨_, _, reports, returns⟩ :=
          looks.of_bind fun _ => inferInstance
        obtain ⟨_, rfl⟩ := reports.of_lift
        obtain ⟨rfl, rfl⟩ := returns.of_pure
        exact ⟨rfl, fun _ _ _ _ _ => .primitive rfl⟩
  | constant constantType =>
      obtain ⟨rfl, rfl⟩ := runs.of_pure
      have admitted : Fragment.narrowing.admits constantType = true :=
        supported
      have given : constantType.orElse .unknown = constantType := by
        cases constantType <;> first | rfl | simp at admitted
      rw [given]
      refine ⟨admitted,
        fun environment proper holds value evaluates => ?_⟩
      cases evaluates with
      | constant belongs _ =>
      exact belongs
  | typeof operand inductionHypothesis =>
      unfold typeOf at runs
      obtain ⟨operandType, _, operandRuns, tags⟩ :=
        runs.of_bind fun _ => inferInstance
      have operandTypes :=
        inductionHypothesis fits supported declared operandRuns
      exact types_typeof operandTypes tags.of_lift.1
  | instanceOf operand instanceType _ =>
      obtain ⟨rfl, rfl⟩ := runs.of_pure
      refine types_boolean fun evaluates => ?_
      cases evaluates
      exact ⟨_, rfl⟩
  | isArray operand _ =>
      obtain ⟨rfl, rfl⟩ := runs.of_pure
      refine types_boolean fun evaluates => ?_
      cases evaluates
      exact ⟨_, rfl⟩
  | not operand _ =>
      obtain ⟨rfl, rfl⟩ := runs.of_pure
      refine types_boolean fun evaluates => ?_
      cases evaluates
      exact ⟨_, rfl⟩
  | member operand property optional inductionHypothesis =>
      unfold typeOf at runs
      obtain ⟨operandType, _, operandRuns, accesses⟩ :=
        runs.of_bind fun _ => inferInstance
      have operandTypes :=
        inductionHypothesis fits supported declared.1 operandRuns
      exact types_member operandTypes
        (declared.2 operandType _ operandRuns) accesses.of_lift.1
  | binary operator left right leftHypothesis rightHypothesis =>
      cases operator with
      | and =>
          rw [Expression.supported, Bool.and_eq_true] at supported
          exact typeOf_and_runs fits supported.1 declared.2.1
            (leftHypothesis fits (Expression.supported_of_guarding supported.1)
              declared.1)
            (fun refined narrowed =>
              rightHypothesis narrowed supported.2 (declared.2.2 _ refined))
            runs
      | or =>
          rw [Expression.supported, Bool.and_eq_true] at supported
          exact typeOf_or_runs fits supported.1 declared.2.1
            (leftHypothesis fits (Expression.supported_of_guarding supported.1)
              declared.1)
            (fun refined narrowed =>
              rightHypothesis narrowed supported.2 (declared.2.2 _ refined))
            runs
      | coalesce =>
          rw [Expression.supported, Bool.and_eq_true] at supported
          exact typeOf_coalesce_runs fits
            (leftHypothesis fits supported.1 declared.1)
            (rightHypothesis fits supported.2 declared.2) runs
      | _ =>
          obtain ⟨_, _, _, continues⟩ := runs.of_bind fun _ => inferInstance
          obtain ⟨_, _, _, returns⟩ :=
            continues.of_bind fun _ => inferInstance
          obtain ⟨rfl, rfl⟩ := returns.of_pure
          refine types_boolean fun evaluates => ?_
          cases evaluates
          exact ⟨_, rfl⟩
  | conditional test positive negative _ positiveHypothesis
      negativeHypothesis =>
      rw [Expression.supported, Bool.and_eq_true, Bool.and_eq_true]
        at supported
      obtain ⟨⟨testSupported, positiveSupported⟩, negativeSupported⟩ :=
        supported
      exact typeOf_conditional_runs fits testSupported declared.1
        (fun refined narrowed => positiveHypothesis narrowed positiveSupported
          (declared.2.1 _ refined))
        (fun refined narrowed => negativeHypothesis narrowed negativeSupported
          (declared.2.2 _ refined)) runs

/--
Typing is sound. In every scope over the fragment whose names refer to their
own bindings, and for every environment whose values belong to the current
types of the bindings, whatever an expression evaluates to belongs to its
static type. An exceeded depth bound, which gives up on a type, is ruled out.
-/
theorem typeOf_sound
    (checker : Checker)
    (scope : Scope)
    (table after : BindingTable)
    (environment : Environment)
    (expression : Expression)
    (value : Value)
    (type : Ty)
    (before added : Log)
    (named : ScopeNamed scope table)
    (scopeAdmitted : ScopeAdmitted scope table)
    (proper : environment.NaNFree)
    (scopeHolds : ScopeHolds checker.arena environment scope table)
    (supported : expression.supported false = true)
    (declared : expression.TypingDeclared checker scope table)
    (evaluates : Evaluates checker.arena environment expression value)
    (run :
      checker.typeOf scope expression table before =
        .ok ((type, after), before ++ added))
    (quiet : Log.Quiet added) :
    Belongs checker.arena type value := by
  have runs : Runs (checker.typeOf scope expression) table type after :=
    @settles_of_run _ _ (Stateful.Accountable.appends table).toOnlyAdds _ _ _ run quiet
  have types :=
    typeOf_runs ⟨named, scopeAdmitted.view⟩ supported declared runs
  exact types.belongs environment proper scopeHolds.view value evaluates

section Sized

/-- The expression `x && x.kind === "box" ? x.size : "none"`. -/
def sizeExpression : Expression :=
  .conditional boxGuard (.member (.name "x") "size" false)
    (.constant (.ofLiteral (.string (.ofString "none"))))

/-- The types that the expression has: the size, nothing, or the text. -/
def sizeType : Ty :=
  .ofUnion
    [.number, .undefined, .ofLiteral (.string (.ofString "none"))]

/-- The size of a box without one is `undefined`, which its type admits. -/
theorem typeOf_sound_size :
    Evaluates {} boxEnvironment sizeExpression .undefined ∧
      Belongs {} sizeType .undefined := by
  have box : Belongs {} boxType (.object [("kind", .ofString "box")]) := by
    refine holds_object.mpr ⟨rfl, fun property member => ?_⟩
    rcases List.mem_cons.mp member with rfl | member
    · exact .inr (.literal rfl)
    · cases List.mem_singleton.mp member
      exact rfl
  have guard : Evaluates {} boxEnvironment boxGuard (.ofBool true) := by
    have same :
        (Value.ofString "box").StrictEqual (.ofString "box") true :=
      .constant
    refine .andRight (.name rfl) rfl ?_
    exact .strictEqual (.member (.name rfl) (.exposed rfl))
      (.constant (.literal rfl) (.constant rfl)) same
  have evaluates :
      Evaluates {} boxEnvironment sizeExpression .undefined :=
    .conditionalTrue guard rfl (.member (.name rfl) (.missing rfl))
  let checker : Checker := { budget := 8 }
  have early :
      checker.refine (boxScope.2.view boxScope.1) (.name "x") true [] =
        .ok (.single "x" (.ofUnion [taggedType "dot" [], boxType]), []) := by
    decide +kernel
  have whole :
      checker.refine (boxScope.2.view boxScope.1) boxGuard true [] =
        .ok (.single "x" boxType, []) := by
    decide +kernel
  refine ⟨evaluates, typeOf_sound checker boxScope.2 boxScope.1 boxScope.1
    boxEnvironment sizeExpression .undefined sizeType [] [] ?_ ?_ ?_ ?_ rfl
    ⟨?_, ?_, fun _ _ => trivial⟩ evaluates (by decide +kernel)
    Log.quiet_nil⟩
  · intro name slot shown
    by_cases isX : name = "x"
    · subst isX
      cases shown
      exact ⟨_, rfl, rfl⟩
    · simp [boxScope, Scope.ofTypes, Scope.declare, Block.declare,
        Scope.lookup?, List.lookup_cons, beq_eq_false_iff_ne.mpr isX] at shown
  · intro name type shown
    obtain ⟨rfl, rfl⟩ := boxScope_lookup shown
    decide +kernel
  · intro name value valued
    unfold boxEnvironment at valued
    split at valued <;> cases valued
    refine .object fun entry member => ?_
    cases List.mem_singleton.mp member
    exact .constant rfl
  · intro name type shown
    obtain ⟨rfl, rfl⟩ := boxScope_lookup shown
    exact ⟨_, rfl, .union (by simp) box⟩
  · refine ⟨trivial, ?_⟩
    rintro facts ⟨added, run, _⟩
    cases early.symm.trans run
    refine ⟨?_, trivial⟩
    intro type known
    cases known
    decide +kernel
  · rintro facts ⟨added, run, _⟩
    cases whole.symm.trans run
    refine ⟨trivial, ?_⟩
    rintro type after ⟨added, run, _⟩
    cases run
    decide +kernel

end Sized

end Checker

end StructuralTyping
