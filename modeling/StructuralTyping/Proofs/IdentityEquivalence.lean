import Mathlib.Data.Finset.Card
import StructuralTyping.Proofs.Likeness

namespace StructuralTyping

/-!
# Identity is an equivalence

Two types are identical exactly when they look alike to every level, as long
as the depth bound does not decide the comparison. An open pair may be assumed
because it looks alike to one level less than what is compared now, and no
name is met again before a node is reached. Looking alike is an equivalence,
and so is identity.
-/

/-- Alike nodes are missing together. -/
theorem NodesAlike.isAbsent
    (alike : NodesAlike related first second) :
    first.isAbsent = second.isAbsent := by
  cases alike <;> rfl

namespace Arena

variable {arena : Arena}

section Unfolding

/-- A name with a definition is replaced by it. -/
theorem unfold_named
    (defined : arena.definition reference ≠ .absent) :
    arena.unfold? (.named reference) = some (arena.definition reference) := by
  simp only [ Arena.unfold?]

/-- Replacing a name by its definition leads to the same node, and nearer. -/
theorem Unfolds.step
    (unfolds : arena.Unfolds names type node)
    (replaced : arena.unfold? type = some unfolded) :
    arena.Unfolds (names - 1) unfolded node := by
  cases unfolds with
  | here notNamed =>
      cases type <;> cases notNamed <;> cases replaced <;> exact .here rfl
  | name defined unfolds =>
      rw [unfold_named defined] at replaced
      cases replaced
      exact unfolds

/-- A name is at least one name away from its node. -/
theorem Unfolds.pos
    (unfolds : arena.Unfolds names type node)
    (named : type.isNamed = true) :
    0 < names := by
  cases unfolds with
  | here notNamed => rw [named] at notNamed; cases notNamed
  | name => exact Nat.succ_pos _

/-- A type that leads to a node can be unfolded. -/
theorem Unfolds.exists_unfolded
    (unfolds : arena.Unfolds names type node) :
    ∃ unfolded, arena.unfold? type = some unfolded := by
  cases unfolds with
  | @here type notNamed => cases type <;> cases notNamed <;> exact ⟨_, rfl⟩
  | name defined => exact ⟨_, unfold_named defined⟩

/-- Only a missing type leads to a missing type. -/
theorem Unfolds.isAbsent
    (unfolds : arena.Unfolds names type node) :
    node.isAbsent = type.isAbsent := by
  induction unfolds with
  | here => rfl
  | name defined _ inductionHypothesis =>
      rw [inductionHypothesis]
      generalize arena.definition _ = definition at defined
      cases definition <;> first | rfl | exact absurd rfl defined

/-- Each stage of an unfolding is the definition of a declared name. -/
theorem Unfolds.exists_stage
    (unfolds : arena.Unfolds names type node)
    (before : stage < names) :
    ∃ id < arena.size, arena.Unfolds stage (arena.lookup id) node := by
  induction unfolds with
  | here => exact absurd before (Nat.not_lt_zero _)
  | @name reference names _ defined unfolds inductionHypothesis =>
      rcases Nat.lt_succ_iff_lt_or_eq.mp before with earlier | rfl
      · exact inductionHypothesis earlier
      · unfold definition at defined unfolds
        split at defined
        · next here =>
          rw [if_pos here] at unfolds
          refine ⟨reference.id, Nat.lt_of_not_le fun beyond => defined ?_,
            unfolds⟩
          unfold lookup
          rw [List.getElem?_eq_none beyond]
        · exact absurd rfl defined

/-- A type leads to its node through at most as many names as are declared. -/
theorem Unfolds.names_le_size
    (unfolds : arena.Unfolds names type node) :
    names ≤ arena.size := by
  choose! stage declared stages using
    fun stage (before : stage < names) => unfolds.exists_stage before
  have injective : Set.InjOn stage (Finset.range names) := by
    intro first inFirst second inSecond same
    rw [Finset.coe_range, Set.mem_Iio] at inFirst inSecond
    exact ((stages first inFirst).unique (same ▸ stages second inSecond)).1
  have within :
      Set.MapsTo stage (Finset.range names) (Finset.range arena.size) :=
    fun place inRange => by
      simpa using declared place (by simpa using inRange)
  simpa using Finset.card_le_card_of_injOn stage within injective

/-- A pair that is met between two types and the nodes they lead to. -/
structure Passes
    (arena : Arena)
    (firstNames : Nat)
    (firstNode : Ty)
    (secondNames : Nat)
    (secondNode : Ty)
    (pair : Ty × Ty) :
    Prop where
  first : ∃ fewer ≤ firstNames, arena.Unfolds fewer pair.1 firstNode
  second : ∃ fewer ≤ secondNames, arena.Unfolds fewer pair.2 secondNode

/-- What is met from nearer on is met from farther away. -/
theorem Passes.farther
    (passes : arena.Passes i x j y pair)
    (first : i ≤ others)
    (second : j ≤ another) :
    arena.Passes others x another y pair := by
  obtain ⟨⟨fewer, below, unfoldsFirst⟩, less, under, unfoldsSecond⟩ := passes
  exact ⟨⟨fewer, below.trans first, unfoldsFirst⟩,
    less, under.trans second, unfoldsSecond⟩

/--
Unfolding two types that lead to nodes closes at a pair met on the way,
exposes the nodes, or finds one of the types missing.
-/
theorem unfoldPair_cases
    (pairs : OpenPairs)
    (unfoldsFirst : arena.Unfolds i first x)
    (unfoldsSecond : arena.Unfolds j second y)
    (firstHops : i ≤ hops)
    (secondHops : j ≤ hops) :
    (arena.unfoldPair hops pairs first second = .closed ∧
      ∃ pair,
        arena.Passes i x j y pair ∧ (pair.1 = pair.2 ∨ pair ∈ pairs)) ∨
    (arena.unfoldPair hops pairs first second = .stuck ∧
      x.isAbsent ≠ y.isAbsent) ∨
    ∃ opened,
      arena.unfoldPair hops pairs first second = .exposed opened x y ∧
        x.isAbsent = false ∧
        ∀ pair ∈ opened, pair ∈ pairs ∨ arena.Passes i x j y pair := by
  induction hops using Nat.strongRecOn generalizing i j pairs first second with
  | _ hops shorter =>
  have here : arena.Passes i x j y (first, second) :=
    ⟨⟨i, Nat.le_refl i, unfoldsFirst⟩, j, Nat.le_refl j, unfoldsSecond⟩
  unfold unfoldPair
  split
  · next same =>
    simp only [Ty.sameNode, Bool.and_eq_true, decide_eq_true_eq] at same
    exact .inl ⟨rfl, _, here, .inl same.2⟩
  next differs =>
  split
  · next missing =>
    refine .inr (.inl ⟨rfl, fun both => differs ?_⟩)
    rw [unfoldsFirst.isAbsent, unfoldsSecond.isAbsent] at both
    rw [both, Bool.or_self] at missing
    rw [missing] at both
    cases Ty.eq_absent missing
    cases Ty.eq_absent both
    rfl
  next present =>
  split
  · next named =>
    split
    · next assumed =>
      exact .inl ⟨rfl, _, here, .inr (by simpa using assumed)⟩
    · obtain ⟨_, replacesFirst⟩ := unfoldsFirst.exists_unfolded
      obtain ⟨_, replacesSecond⟩ := unfoldsSecond.exists_unfolded
      have nextFirst := unfoldsFirst.step replacesFirst
      have nextSecond := unfoldsSecond.step replacesSecond
      have progress : i - 1 + (j - 1) < i + j := by
        rcases Bool.or_eq_true_iff.mp named with isNamed | isNamed
        · have := unfoldsFirst.pos isNamed
          omega
        · have := unfoldsSecond.pos isNamed
          omega
      obtain ⟨hops, rfl⟩ : ∃ rest, hops = rest + 1 :=
        Nat.exists_eq_succ_of_ne_zero (by omega)
      rw [replacesFirst, replacesSecond]
      have passesOn :
          ∀ {pair},
            arena.Passes (i - 1) x (j - 1) y pair →
            arena.Passes i x j y pair :=
        fun passes => passes.farther (Nat.sub_le i 1) (Nat.sub_le j 1)
      rcases shorter hops (Nat.lt_succ_self _) _ nextFirst nextSecond
          (by omega) (by omega) with
        ⟨closed, pair, passes, same⟩ | stuck | ⟨opened, exposed, isNode, met⟩
      · refine .inl ⟨closed, pair, passesOn passes,
          same.imp_right fun inPairs => ?_⟩
        rcases List.mem_cons.mp inPairs with rfl | inPairs
        -- The pair just opened is farther from the nodes than what it led to.
        · obtain ⟨⟨_, below, again⟩, _, under, alsoAgain⟩ := passes
          cases (again.unique unfoldsFirst).1
          cases (alsoAgain.unique unfoldsSecond).1
          omega
        · exact inPairs
      · exact .inr (.inl stuck)
      · refine .inr (.inr ⟨opened, exposed, isNode, fun pair inOpened => ?_⟩)
        rcases met pair inOpened with inPairs | passes
        · rcases List.mem_cons.mp inPairs with rfl | inPairs
          · exact .inr here
          · exact .inl inPairs
        · exact .inr (passesOn passes)
  · next notNamed =>
    simp only [Bool.or_eq_true, not_or, Bool.not_eq_true] at notNamed present
    obtain ⟨-, rfl⟩ := unfoldsFirst.of_notNamed notNamed.1
    obtain ⟨-, rfl⟩ := unfoldsSecond.of_notNamed notNamed.2
    exact .inr (.inr ⟨pairs, rfl, present.1, fun _ => .inl⟩)

/-- All hops are enough to lead a type to its node. -/
theorem Unfolds.names_le_pairHops
    (unfolds : arena.Unfolds names type node) :
    names ≤ arena.pairHops :=
  calc
    names ≤ arena.size := unfolds.names_le_size
    _ ≤ arena.size + 1 := Nat.le_succ _
    _ ≤ (arena.size + 1) * (arena.size + 1) := Nat.le_mul_self _

/-- Identical types lead to the same node, or to nodes that compare equal. -/
theorem equalNodes_of_identical
    (unfoldsFirst : arena.Unfolds i first x)
    (unfoldsSecond : arena.Unfolds j second y)
    (identical : arena.identical first second = true) :
    x = y ∨ ∃ equal, equalNodes equal x y = true := by
  unfold Arena.identical identicalWithin at identical
  rcases unfoldPair_cases [] unfoldsFirst unfoldsSecond
      unfoldsFirst.names_le_pairHops unfoldsSecond.names_le_pairHops with
    ⟨-, pair, passes, same⟩ | ⟨stuck, -⟩ | ⟨opened, exposed, -⟩
  · rcases same with same | assumed
    · obtain ⟨⟨_, -, passesFirst⟩, _, -, passesSecond⟩ := passes
      exact .inl ((same ▸ passesFirst).unique passesSecond).2
    · cases assumed
  · rw [stuck] at identical
    cases identical
  · rw [exposed] at identical
    exact .inr ⟨_, identical⟩

end Unfolding

section Likeness

/-- What leads to the same nodes looks equally alike. -/
theorem Alike.of_unfolds
    (alike : arena.Alike levels first second)
    (unfoldsFirst : arena.Unfolds i first x)
    (unfoldsSecond : arena.Unfolds j second y)
    (sameFirst : arena.Unfolds k other x)
    (sameSecond : arena.Unfolds l another y) :
    arena.Alike levels other another := by
  cases levels with
  | zero => trivial
  | succ levels =>
      obtain ⟨_, _, _, _, againFirst, againSecond, nodes⟩ := alike
      obtain ⟨-, rfl⟩ := unfoldsFirst.unique againFirst
      obtain ⟨-, rfl⟩ := unfoldsSecond.unique againSecond
      exact ⟨k, _, l, _, sameFirst, sameSecond, nodes⟩

/--
Identical types look alike, if the open pairs do. Level by level, a pair that
is opened on the way looks alike to the level before.
-/
theorem alike_of_identicalWithin
    (identifiable : arena.Identifiable)
    (identifiesFirst : arena.Identifies first)
    (identifiesSecond : arena.Identifies second)
    (assumed : ∀ pair ∈ pairs, arena.Alike levels pair.1 pair.2)
    (identical : arena.identicalWithin depth pairs first second = true) :
    arena.Alike levels first second := by
  induction levels generalizing depth pairs first second with
  | zero => trivial
  | succ levels inductionHypothesis =>
      obtain ⟨i, x, unfoldsFirst⟩ := identifiesFirst.unfolds
      obtain ⟨j, y, unfoldsSecond⟩ := identifiesSecond.unfolds
      have identifiesX := unfoldsFirst.identifies identifiable identifiesFirst
      have identifiesY :=
        unfoldsSecond.identifies identifiable identifiesSecond
      have shallower : arena.Alike levels first second :=
        inductionHypothesis identifiesFirst identifiesSecond
          (fun pair inPairs => (assumed pair inPairs).fewer) identical
      unfold identicalWithin at identical
      rcases unfoldPair_cases pairs unfoldsFirst unfoldsSecond
          unfoldsFirst.names_le_pairHops unfoldsSecond.names_le_pairHops with
        ⟨-, pair, passes, same⟩ | ⟨stuck, -⟩ | ⟨opened, exposed, -, met⟩
      · obtain ⟨⟨k, -, passesFirst⟩, l, -, passesSecond⟩ := passes
        rcases same with same | inPairs
        · rw [same] at passesFirst
          obtain ⟨-, rfl⟩ := passesFirst.unique passesSecond
          have copies :=
            alike_of_form identifiable identifiesX identifiesX rfl (levels + 1)
          exact copies.of_unfolds (.here unfoldsFirst.notNamed)
            (.here unfoldsFirst.notNamed) unfoldsFirst unfoldsSecond
        · exact (assumed pair inPairs).of_unfolds passesFirst passesSecond
            unfoldsFirst unfoldsSecond
      · rw [stuck] at identical
        cases identical
      · rw [exposed] at identical
        cases depth with
        | zero => cases identical
        | succ depth =>
            refine ⟨i, x, j, y, unfoldsFirst, unfoldsSecond, ?_⟩
            have openedAlike :
                ∀ pair ∈ opened, arena.Alike levels pair.1 pair.2 := by
              intro pair inOpened
              rcases met pair inOpened with inPairs | passes
              · exact (assumed pair inPairs).fewer
              · obtain ⟨⟨k, -, passesFirst⟩, l, -, passesSecond⟩ := passes
                exact shallower.of_unfolds unfoldsFirst unfoldsSecond
                  passesFirst passesSecond
            refine (alike_of_equalNodes identical).imp ?_ ?_
            · exact fun part inX other inY equal =>
                inductionHypothesis (identifiesX.part inX)
                  (identifiesY.part inY) openedAlike equal
            · exact fun part inX other inY equal =>
                inductionHypothesis (identifiesY.part inY)
                  (identifiesX.part inX) openedAlike equal

end Likeness

section Bound

/-- Structural identity that answers `beyond` at the depth bound. -/
def identicalUpTo
    (arena : Arena)
    (beyond : Bool) :
    (depth : Nat) →
    OpenPairs →
    Ty →
    Ty →
    Bool
  | depth, pairs, first, second =>
      match arena.unfoldPair arena.pairHops pairs first second with
      | .closed => true
      | .stuck => false
      | .exposed pairs first second =>
          match depth with
          | 0 => beyond
          | depth + 1 =>
              equalNodes (arena.identicalUpTo beyond depth pairs) first second

/-- Structural identity refuses at the depth bound. -/
theorem identicalUpTo_false
    (arena : Arena)
    (depth : Nat) :
    arena.identicalUpTo false depth = arena.identicalWithin depth := by
  induction depth with
  | zero =>
      funext pairs first second
      cases met : arena.unfoldPair arena.pairHops pairs first second <;>
        simp [identicalUpTo, identicalWithin, met]
  | succ depth inductionHypothesis =>
      funext pairs first second
      cases met : arena.unfoldPair arena.pairHops pairs first second <;>
        simp [identicalUpTo, identicalWithin, met, inductionHypothesis]

/--
The depth bound has no say in a comparison: the outcome is the same, whatever
is answered at the bound.
-/
def Decides
    (arena : Arena)
    (first second : Ty) :
    Prop :=
  ∀ beyond,
    arena.identicalUpTo beyond identityDepth [] first second =
      arena.identical first second

/-- Types that look alike are taken for identical down to the bound. -/
theorem identicalUpTo_of_alike
    (alike : arena.Alike (depth + 1) first second) :
    arena.identicalUpTo true depth pairs first second = true := by
  induction depth using Nat.strongRecOn generalizing pairs first second with
  | _ depth shallower =>
  obtain ⟨i, x, j, y, unfoldsFirst, unfoldsSecond, nodes⟩ := alike
  unfold identicalUpTo
  rcases unfoldPair_cases pairs unfoldsFirst unfoldsSecond
      unfoldsFirst.names_le_pairHops unfoldsSecond.names_le_pairHops with
    ⟨closed, -⟩ | ⟨-, differ⟩ | ⟨opened, exposed, isNode, -⟩
  · rw [closed]
  · exact absurd nodes.isAbsent differ
  · rw [exposed]
    cases depth with
    | zero => rfl
    | succ depth =>
        have parts {part other : Ty} :
            arena.Alike (depth + 1) part other →
              arena.identicalUpTo true depth opened part other = true :=
          shallower depth (Nat.lt_succ_self depth)
        exact equalNodes_of_alike isNode
          (nodes.imp (fun _ _ _ _ => parts) (fun _ _ _ _ => parts))

/-- Types are identical exactly when they look alike to every level. -/
theorem identical_iff_alike
    (identifiable : arena.Identifiable)
    (identifiesFirst : arena.Identifies first)
    (identifiesSecond : arena.Identifies second)
    (decides : arena.Decides first second) :
    arena.identical first second = true ↔
      ∀ levels, arena.Alike levels first second := by
  constructor
  · intro identical levels
    exact alike_of_identicalWithin identifiable identifiesFirst
      identifiesSecond (by simp) identical
  · intro alike
    rw [← decides true]
    exact identicalUpTo_of_alike (alike _)

/--
The bound has no say in a comparison that comes out the same when everything
beyond the bound is taken for identical.
-/
theorem decides_iff :
    arena.Decides first second ↔
      arena.identicalUpTo true identityDepth [] first second =
        arena.identical first second := by
  rw [Decides, Bool.forall_bool, identicalUpTo_false]
  exact and_iff_right rfl

/--
Identity is an equivalence through recursive names. Over an arena of tidy
definitions all of whose names lead to a type that is no name, and between
tidy types whose names do so too, copies are identical, identity does not
depend on the order of the types, and it passes on from type to type, as long
as the depth bound does not decide the comparison.
-/
theorem identical_equivalence
    (identifiable : arena.Identifiable) :
    (∀ type copy,
      arena.Identifies type →
      arena.Identifies copy →
      type.form = copy.form →
      arena.Decides type copy →
      arena.identical type copy = true) ∧
    (∀ first second,
      arena.Identifies first →
      arena.Identifies second →
      arena.identical first second = true →
      arena.Decides second first →
      arena.identical second first = true) ∧
    ∀ first second third,
      arena.Identifies first →
      arena.Identifies second →
      arena.Identifies third →
      arena.identical first second = true →
      arena.identical second third = true →
      arena.Decides first third →
      arena.identical first third = true := by
  have alike {first second : Ty}
      (identifiesFirst : arena.Identifies first)
      (identifiesSecond : arena.Identifies second)
      (identical : arena.identical first second = true)
      (levels : Nat) :
      arena.Alike levels first second :=
    alike_of_identicalWithin identifiable identifiesFirst identifiesSecond
      (by simp) identical
  refine ⟨?copies, ?order, ?through⟩
  case copies =>
    intro type copy identifies identifiesCopy sameForm decides
    refine (identical_iff_alike identifiable identifies identifiesCopy
      decides).mpr ?_
    exact alike_of_form identifiable identifies identifiesCopy sameForm
  case order =>
    intro first second identifiesFirst identifiesSecond identical decides
    refine (identical_iff_alike identifiable identifiesSecond identifiesFirst
      decides).mpr fun levels => ?_
    exact (alike identifiesFirst identifiesSecond identical levels).symm
      identifiable identifiesFirst identifiesSecond
  case through =>
    intro first second third identifiesFirst identifiesSecond identifiesThird
      early late decides
    refine (identical_iff_alike identifiable identifiesFirst identifiesThird
      decides).mpr fun levels => ?_
    exact (alike identifiesFirst identifiesSecond early levels).trans
      (alike identifiesSecond identifiesThird late levels)

end Bound

section Chains

/-- The reference to a kind of chain. -/
def chain
    (id : Nat)
    (name : String) :
    Ty :=
  .named { arena := 0, id, name }

/-- A link of a chain: an object whose next link is another or `null`. -/
def link
    (occurrence : Occurrence)
    (next : Ty) :
    Ty :=
  .object occurrence
    { properties := [{ name := "next", type := .ofUnion [next, .null] }] }

/-- Chains with links of one kind, and chains whose links take turns. -/
def chains : Arena :=
  { declarations :=
      [{ name := "Chain", definition := link none (chain 0 "Chain") },
        { name := "Even", definition := link none (chain 2 "Odd") },
        { name := "Odd", definition := link none (chain 1 "Even") }] }

/-- A link can be told apart when the next one is a name that resolves. -/
theorem identifies_link
    {arena : Arena}
    {id : Nat}
    (resolves : arena.resolve (chain id name) 1 = .resolved found) :
    arena.Identifies (link occurrence (chain id name)) := by
  have both {kind : Ty → Prop}
      (next : kind (chain id name))
      (null : kind .null) :
      ∀ member ∈ [chain id name, .null], kind member := by
    simp [next, null]
  constructor
  · refine .object (by simp [Shape.names]) ?_ (by simp) (by simp)
    exact List.forall_mem_singleton.mpr (.union (both .named .primitive))
  · refine .node (by simp [Ty.isNamed, link])
      (List.forall_mem_singleton.mpr ?_)
    exact .node (by simp [Ty.isNamed, Ty.ofUnion])
      (both (.leaf (fun _ => ⟨1, found, resolves⟩) rfl)
        (.leaf (by simp [Ty.isNamed]) rfl))

/-- A name that resolves can be told apart. -/
theorem identifies_chain
    {arena : Arena}
    {id : Nat}
    (resolves : arena.resolve (chain id name) 1 = .resolved found) :
    arena.Identifies (chain id name) :=
  ⟨.named, .leaf (fun _ => ⟨1, found, resolves⟩) rfl⟩

/--
Chains whose links take turns are identical to chains of one kind in either
order, hence to each other, and so are two links written alike.
-/
theorem identical_equivalence_chains :
    chains.Identifiable ∧
      chains.identical (link (some 1) (chain 1 "Even"))
        (link (some 2) (chain 1 "Even")) = true ∧
      chains.identical (chain 1 "Even") (chain 0 "Chain") = true ∧
      chains.identical (chain 0 "Chain") (chain 1 "Even") = true ∧
      chains.identical (chain 0 "Chain") (chain 2 "Odd") = true ∧
      chains.identical (chain 1 "Even") (chain 2 "Odd") = true := by
  have resolves :
      chains.resolve (chain 0 "Chain") 1 =
          .resolved (link none (chain 0 "Chain")) ∧
        chains.resolve (chain 1 "Even") 1 =
          .resolved (link none (chain 2 "Odd")) ∧
        chains.resolve (chain 2 "Odd") 1 =
          .resolved (link none (chain 1 "Even")) := by
    decide +kernel
  obtain ⟨ofChain, ofEven, ofOdd⟩ := resolves
  have identifiable : chains.Identifiable := by
    refine forall_definition chains.Identifies ?_
    exact List.forall_mem_cons.mpr ⟨identifies_link ofChain,
      List.forall_mem_cons.mpr ⟨identifies_link ofOdd,
        List.forall_mem_singleton.mpr (identifies_link ofEven)⟩⟩
  obtain ⟨copies, order, through⟩ := identical_equivalence identifiable
  have early :
      chains.identical (chain 1 "Even") (chain 0 "Chain") = true := by
    decide +kernel
  have late : chains.identical (chain 0 "Chain") (chain 2 "Odd") = true := by
    decide +kernel
  refine ⟨identifiable, ?_, early, ?_, late, ?_⟩
  · exact copies _ _ (identifies_link ofEven) (identifies_link ofEven) rfl
      (decides_iff.mpr (by decide +kernel))
  · exact order _ _ (identifies_chain ofEven) (identifies_chain ofChain) early
      (decides_iff.mpr (by decide +kernel))
  · exact through _ _ _ (identifies_chain ofEven) (identifies_chain ofChain)
      (identifies_chain ofOdd) early late
      (decides_iff.mpr (by decide +kernel))

end Chains

end Arena

end StructuralTyping
