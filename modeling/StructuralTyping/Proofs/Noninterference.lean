import Mathlib.Data.List.ReduceOption
import StructuralTyping.Proofs.FactsMeaning
import StructuralTyping.Proofs.ReportingNarrowing
import StructuralTyping.Proofs.ScopeMeaning

namespace StructuralTyping

/-!
# Facts about one binding

What a guard proves about a name depends on the type of this name alone. A view
that knows fewer names than another one, with the same types, gets the same facts
about the names it knows and none about the others. Two scopes that agree on one
name therefore agree on the fact about it, and narrowing a single binding finds
what refinement finds in every scope that shows this binding.
-/

open Check

namespace Check

/-- A visit to a list answers item by item. -/
theorem answers_mapM
    {visit : α → Check β}
    [each : ∀ item, Appends (visit item)]
    {items : List α}
    {values : List β} :
    Answers (items.mapM visit) values ↔
      List.Forall₂ (fun item value => Answers (visit item) value)
        items values := by
  induction items generalizing values with
  | nil =>
      rw [List.mapM_nil, answers_pure, List.forall₂_nil_left_iff]
  | cons item rest inductionHypothesis =>
      rw [List.mapM_cons, answers_bind, List.forall₂_cons_left_iff]
      simp only [answers_bind, answers_pure, inductionHypothesis,
        exists_and_left]

/-- A selecting visit keeps what the visits found. -/
theorem filterMapM_eq
    (visit : α → Check (Option β))
    (items : List α) :
    items.filterMapM visit =
      items.mapM visit >>= fun found => pure found.reduceOption := by
  induction items with
  | nil =>
      rfl
  | cons item rest inductionHypothesis =>
      rw [List.filterMapM_cons, List.mapM_cons, inductionHypothesis]
      simp only [bind_assoc, pure_bind]
      congr 1
      funext found
      cases found <;> simp [List.reduceOption]

/-- A computation that answers whenever another one does, with a related answer. -/
def Follows
    (relation : α → β → Prop)
    (leader : Check α)
    (follower : Check β) :
    Prop :=
  ∀ value,
    Answers leader value →
    ∃ other, Answers follower other ∧ relation value other

namespace Follows

variable {relation : α → β → Prop} {lastRelation : γ → δ → Prop}
  {leader : Check α} {follower : Check β}

theorem pure
    (related : relation value other) :
    Follows relation (pure value) (pure other) := by
  intro answer answers
  cases answers_pure.mp answers
  exact ⟨other, answers_pure.mpr rfl, related⟩

/-- Sequences follow each other part by part. -/
theorem bind
    {leaderNext : α → Check γ}
    {followerNext : β → Check δ}
    [∀ value, Appends (followerNext value)]
    (first : Follows relation leader follower)
    (next :
      ∀ value other,
        Answers leader value →
        Answers follower other →
        relation value other →
        Follows lastRelation (leaderNext value) (followerNext other)) :
    Follows lastRelation (leader >>= leaderNext)
      (follower >>= followerNext) := by
  intro answer answers
  obtain ⟨value, leads, answers⟩ := answers.of_bind
  obtain ⟨other, follows, related⟩ := first value leads
  obtain ⟨last, lastFollows, lastRelated⟩ :=
    next value other leads follows related answer answers
  exact ⟨last, answers_bind.mpr ⟨other, follows, lastFollows⟩, lastRelated⟩

end Follows

end Check

/-- The names that an expression reads. -/
def Expression.names :
    Expression →
    List String
  | .name binding => [binding]
  | .constant _ => []
  | .typeof operand => operand.names
  | .instanceOf operand _ => operand.names
  | .isArray operand => operand.names
  | .member operand _ _ => operand.names
  | .not operand => operand.names
  | .binary _ left right => left.names ++ right.names
  | .conditional test positive negative =>
      test.names ++ positive.names ++ negative.names

namespace Facts

/-- The entries come in the order of names, each name once. -/
def Ordered
    (facts : Facts) :
    Prop :=
  facts.entries.Pairwise fun first second => first.1 < second.1

theorem ordered_empty :
    Facts.Ordered {} :=
  .nil

theorem ordered_single :
    (Facts.single name type).Ordered :=
  List.pairwise_singleton _ _

theorem find?_single :
    (Facts.single name type).find? other =
      if other = name then some type else none := by
  unfold find? single
  by_cases same : other = name
  · simp [same]
  · simp [same, Ne.symm same]

/-- Facts with an entry in front. -/
theorem find?_cons
    {rest : List (String × Ty)} :
    Facts.find? ⟨(name, type) :: rest⟩ other =
      if other = name then some type else Facts.find? ⟨rest⟩ other := by
  unfold find?
  by_cases same : other = name
  · simp [same]
  · simp [same, Ne.symm same]

/-- Each entry of ordered facts is found under its name. -/
theorem Ordered.find?_of_mem
    {facts : Facts}
    (ordered : facts.Ordered)
    (member : (name, type) ∈ facts.entries) :
    facts.find? name = some type := by
  obtain ⟨entries⟩ := facts
  unfold Ordered at ordered
  induction entries with
  | nil =>
      cases member
  | cons first rest inductionHypothesis =>
      obtain ⟨before, ordered⟩ := List.pairwise_cons.mp ordered
      rw [find?_cons]
      rcases List.mem_cons.mp member with rfl | inRest
      · exact if_pos rfl
      · rw [if_neg]
        · exact inductionHypothesis ordered inRest
        · rintro rfl
          exact String.lt_irrefl _ (before (first.1, type) inRest)

/-- What is found once a fact was put in. -/
theorem find?_insert
    (facts : Facts) :
    (facts.insert name type).find? other =
      if other = name then some type else facts.find? other := by
  obtain ⟨entries⟩ := facts
  unfold insert
  induction entries with
  | nil =>
      exact find?_cons
  | cons first rest inductionHypothesis =>
      obtain ⟨key, kept⟩ := first
      dsimp only [insertEntry] at inductionHypothesis ⊢
      split
      · next same =>
        subst same
        rw [find?_cons, find?_cons]
        split <;> rfl
      split
      · rw [find?_cons]
      · next different _ =>
        rw [find?_cons, find?_cons, inductionHypothesis]
        by_cases isKey : other = key
        · rw [if_pos isKey, if_pos isKey, if_neg]
          exact fun same => different (same.symm.trans isKey)
        · rw [if_neg isKey, if_neg isKey]

/-- Putting a fact in keeps the order. -/
theorem Ordered.insert
    {facts : Facts}
    (ordered : facts.Ordered) :
    (facts.insert name type).Ordered := by
  obtain ⟨entries⟩ := facts
  unfold Ordered Facts.insert at *
  induction entries with
  | nil =>
      exact List.pairwise_singleton _ _
  | cons first rest inductionHypothesis =>
      obtain ⟨key, kept⟩ := first
      obtain ⟨before, restOrdered⟩ := List.pairwise_cons.mp ordered
      dsimp only [insertEntry] at inductionHypothesis ⊢
      split
      · next same =>
        subst same
        exact .cons before restOrdered
      split
      · next earlier =>
        refine .cons (fun entry member => ?_) (.cons before restOrdered)
        rcases List.mem_cons.mp member with rfl | inRest
        · exact earlier
        · exact String.lt_trans earlier (before entry inRest)
      · next different notEarlier =>
        refine .cons (fun entry member => ?_) (inductionHypothesis restOrdered)
        rcases mem_insertEntry member with rfl | inRest
        · rcases Std.lt_trichotomy name key with earlier | same | later
          · exact (notEarlier earlier).elim
          · exact (different same).elim
          · exact later
        · exact before entry inRest

/-- Facts with later ones on top stay in order. -/
theorem Ordered.overlay
    {facts : Facts}
    (ordered : facts.Ordered)
    (later : Facts) :
    (facts.overlay later).Ordered := by
  obtain ⟨added⟩ := later
  unfold Facts.overlay
  induction added generalizing facts with
  | nil =>
      exact ordered
  | cons first rest inductionHypothesis =>
      exact inductionHypothesis ordered.insert

/-- Of layered facts the later ones are found first. -/
theorem find?_overlay
    (facts : Facts)
    {later : Facts}
    (ordered : later.Ordered) :
    (facts.overlay later).find? name =
      (later.find? name).or (facts.find? name) := by
  obtain ⟨added⟩ := later
  unfold Facts.overlay
  induction added generalizing facts with
  | nil =>
      rfl
  | cons first rest inductionHypothesis =>
      obtain ⟨key, type⟩ := first
      obtain ⟨before, ordered⟩ := List.pairwise_cons.mp ordered
      rw [List.foldl_cons, inductionHypothesis _ ordered, find?_insert,
        find?_cons]
      by_cases same : name = key
      · subst same
        have behind : Facts.find? ⟨rest⟩ name = none := by
          cases found : Facts.find? ⟨rest⟩ name with
          | none =>
              rfl
          | some other =>
              exact (String.lt_irrefl name
                (before _ (mem_of_find? found))).elim
        simp [behind]
      · simp [same]

end Facts

namespace View

/-- The type of a name under facts: what they say, or else what was known. -/
theorem typeOf?_withFacts
    (view : View)
    {facts : Facts}
    (ordered : facts.Ordered) :
    (view.withFacts facts).typeOf? name =
      (facts.find? name).or (view.typeOf? name) := by
  unfold withFacts typeOf?
  dsimp only
  rw [Facts.find?_overlay _ ordered]
  cases facts.find? name <;> rfl

/-- A view that knows no more than another one, with the same types. -/
def Within
    (part whole : View) :
    Prop :=
  ∀ name type,
    part.typeOf? name = some type →
    whole.typeOf? name = some type

/-- Facts that say of the names a view knows what other facts say of them. -/
def Shares
    (view : View)
    (whole part : Facts) :
    Prop :=
  ∀ name, part.find? name = (view.typeOf? name).bind fun _ => whole.find? name

namespace Shares

variable {view : View} {whole part : Facts}

theorem empty :
    view.Shares {} {} := by
  intro name
  cases view.typeOf? name <;> rfl

/-- What is said of a name that the view does not know. -/
theorem of_unknown
    (shares : view.Shares whole part)
    (unknown : view.typeOf? name = none) :
    part.find? name = none := by
  rw [shares name, unknown]
  rfl

/-- What is said of a name that the view knows. -/
theorem of_known
    (shares : view.Shares whole part)
    (known : view.typeOf? name = some type) :
    part.find? name = whole.find? name := by
  rw [shares name, known]
  rfl

/-- Layers of facts are shared layer by layer. -/
theorem overlay
    {wholeLater partLater : Facts}
    (first : view.Shares whole part)
    (second : view.Shares wholeLater partLater)
    (wholeOrdered : wholeLater.Ordered)
    (partOrdered : partLater.Ordered) :
    view.Shares (whole.overlay wholeLater) (part.overlay partLater) := by
  intro name
  rw [Facts.find?_overlay _ wholeOrdered, Facts.find?_overlay _ partOrdered,
    first name, second name]
  cases view.typeOf? name <;> rfl

/-- Facts about known names only make no further names known. -/
theorem typeOf?_isSome
    (shares : view.Shares whole part)
    (ordered : part.Ordered) :
    ((view.withFacts part).typeOf? name).isSome =
      (view.typeOf? name).isSome := by
  rw [typeOf?_withFacts _ ordered]
  cases known : view.typeOf? name with
  | none =>
      rw [shares.of_unknown known]
      rfl
  | some type =>
      cases part.find? name <;> rfl

/-- Facts shared under shared facts are shared without them. -/
theorem of_withFacts
    {wholeLater partLater : Facts}
    (shares : view.Shares whole part)
    (ordered : part.Ordered)
    (later : (view.withFacts part).Shares wholeLater partLater) :
    view.Shares wholeLater partLater := by
  intro name
  have same :
      ((view.withFacts part).typeOf? name).isSome =
        (view.typeOf? name).isSome :=
    shares.typeOf?_isSome ordered
  rw [later name]
  cases known : view.typeOf? name with
  | none =>
      rw [known] at same
      rw [Option.isNone_iff_eq_none.mp (Option.isSome_eq_false_iff.mp same)]
  | some type =>
      rw [known] at same
      obtain ⟨other, found⟩ := Option.isSome_iff_exists.mp same
      rw [found]
      rfl

end Shares

/-- Shared facts keep a view within another one. -/
theorem Within.withFacts
    {part whole : View}
    {partFacts wholeFacts : Facts}
    (within : part.Within whole)
    (shares : part.Shares wholeFacts partFacts)
    (partOrdered : partFacts.Ordered)
    (wholeOrdered : wholeFacts.Ordered) :
    (part.withFacts partFacts).Within (whole.withFacts wholeFacts) := by
  intro name type known
  rw [typeOf?_withFacts _ partOrdered] at known
  rw [typeOf?_withFacts _ wholeOrdered]
  cases declared : part.typeOf? name with
  | none =>
      rw [shares.of_unknown declared, declared] at known
      cases known
  | some other =>
      rw [shares.of_known declared, declared] at known
      rw [within name other declared]
      exact known

end View

namespace Checker

variable {checker : Checker}

section Joins

/-- The type joined from those of a name on two paths, if it has both. -/
inductive JoinsTo
    (checker : Checker) :
    (first second joined : Option Ty) →
    Prop where
  | both
      (normalizes :
        Answers (checker.normalize (.ofUnion [first, second])) joined) :
      JoinsTo checker (some first) (some second) (some joined)
  | onlySecond : JoinsTo checker none second none
  | onlyFirst : JoinsTo checker first none none

/-- Only one type is joined from two. -/
theorem JoinsTo.unique
    (joins : JoinsTo checker first second joined)
    (others : JoinsTo checker first second other) :
    joined = other := by
  cases joins with
  | both normalizes =>
      cases others with
      | both again =>
          rw [normalizes.unique again]
  | onlySecond =>
      cases others <;> rfl
  | onlyFirst =>
      cases others <;> rfl

/-- An entry of the first facts, joined with the second ones. -/
def joinEntry
    (checker : Checker)
    (second : Facts)
    (entry : String × Ty) :
    Check (Option (String × Ty)) := do
  match second.find? entry.1 with
  | none => return none
  | some other =>
      return some (entry.1, ← checker.normalize (.ofUnion [entry.2, other]))

instance
    (second : Facts)
    (entry : String × Ty) :
    Appends (checker.joinEntry second entry) := by
  unfold joinEntry
  split <;> infer_instance

/-- Joining an entry finds its join under the same name. -/
theorem answers_joinEntry
    {entry : String × Ty} :
    Answers (checker.joinEntry second entry) found ↔
      ∃ joined,
        JoinsTo checker (some entry.2) (second.find? entry.1) joined ∧
          found = joined.map (Prod.mk entry.1) := by
  unfold joinEntry
  cases second.find? entry.1 with
  | none =>
      rw [answers_pure]
      constructor
      · rintro rfl
        exact ⟨none, .onlyFirst, rfl⟩
      · rintro ⟨_, ⟨⟩, rfl⟩
        rfl
  | some other =>
      rw [answers_bind]
      constructor
      · rintro ⟨joined, normalizes, same⟩
        exact ⟨some joined, .both normalizes, answers_pure.mp same⟩
      · rintro ⟨_, ⟨normalizes⟩, rfl⟩
        exact ⟨_, normalizes, answers_pure.mpr rfl⟩

/-- Joining facts looks up each entry of the first among the second. -/
theorem answers_joinFacts
    {first second facts : Facts} :
    Answers (checker.joinFacts first second) facts ↔
      ∃ found,
        List.Forall₂
            (fun entry found =>
              ∃ joined,
                JoinsTo checker (some entry.2) (second.find? entry.1) joined ∧
                  found = joined.map (Prod.mk entry.1))
            first.entries found ∧
          facts.entries = found.reduceOption := by
  have unfolded :
      checker.joinFacts first second =
        first.entries.mapM (checker.joinEntry second) >>= fun found =>
          pure { entries := found.reduceOption } := by
    unfold joinFacts
    rw [filterMapM_eq]
    simp only [bind_assoc, pure_bind]
    rfl
  rw [unfolded, answers_bind]
  simp only [answers_mapM, answers_pure, answers_joinEntry]
  constructor
  · rintro ⟨found, visited, rfl⟩
    exact ⟨found, visited, rfl⟩
  · rintro ⟨found, visited, same⟩
    exact ⟨found, visited, by cases facts; cases same; rfl⟩

/-- Joined facts are about names of the first facts. -/
theorem mem_reduceOption_joined
    {entries : List (String × Ty)}
    {found : List (Option (String × Ty))}
    {joins : String × Ty → Option Ty → Prop}
    (visited :
      List.Forall₂
        (fun entry found =>
          ∃ joined, joins entry joined ∧ found = joined.map (Prod.mk entry.1))
        entries found)
    (member : entry ∈ found.reduceOption) :
    ∃ other ∈ entries, other.1 = entry.1 := by
  obtain ⟨other, inEntries, joined, _, same⟩ :=
    exists_related_left visited (List.reduceOption_mem_iff.mp member)
  obtain ⟨type, _, rfl⟩ := Option.map_eq_some_iff.mp same.symm
  exact ⟨other, inEntries, rfl⟩

/-- Of joined facts, each name has the type joined from both. -/
theorem joinFacts_joins
    {first second facts : Facts}
    (ordered : first.Ordered)
    (answers : Answers (checker.joinFacts first second) facts) :
    facts.Ordered ∧
      ∀ name,
        JoinsTo checker (first.find? name) (second.find? name)
          (facts.find? name) := by
  obtain ⟨found, visited, same⟩ := answers_joinFacts.mp answers
  obtain ⟨entries⟩ := first
  obtain ⟨joinedEntries⟩ := facts
  obtain rfl : joinedEntries = found.reduceOption := same
  clear answers
  unfold Facts.Ordered at ordered ⊢
  dsimp only at ordered visited ⊢
  induction visited with
  | nil =>
      exact ⟨.nil, fun name => .onlySecond⟩
  | @cons entry _ rest others head visited inductionHypothesis =>
      obtain ⟨key, type⟩ := entry
      obtain ⟨joined, joins, rfl⟩ := head
      obtain ⟨before, restOrdered⟩ := List.pairwise_cons.mp ordered
      obtain ⟨othersOrdered, othersJoin⟩ := inductionHypothesis restOrdered
      have behind :
          ∀ entry ∈ others.reduceOption, key < entry.1 := by
        intro entry member
        obtain ⟨other, inRest, same⟩ := mem_reduceOption_joined visited member
        exact same ▸ before other inRest
      cases joined with
      | none =>
          rw [Option.map_none, List.reduceOption_cons_of_none]
          refine ⟨othersOrdered, fun name => ?_⟩
          rw [Facts.find?_cons]
          split
          · next same =>
            subst same
            have dropped : Facts.find? ⟨others.reduceOption⟩ name = none := by
              cases found : Facts.find? ⟨others.reduceOption⟩ name with
              | none =>
                  rfl
              | some other =>
                  exact (String.lt_irrefl name
                    (behind _ (Facts.mem_of_find? found))).elim
            rw [dropped]
            exact joins
          · exact othersJoin name
      | some joinedType =>
          rw [Option.map_some, List.reduceOption_cons_of_some]
          refine ⟨.cons behind othersOrdered, fun name => ?_⟩
          rw [Facts.find?_cons, Facts.find?_cons]
          split
          · next same =>
            subst same
            exact joins
          · exact othersJoin name

/-- Facts can be joined when the types of each name of the first facts can. -/
theorem exists_joinFacts
    {first second : Facts}
    (joins :
      ∀ entry ∈ first.entries,
        ∃ joined,
          JoinsTo checker (some entry.2) (second.find? entry.1) joined) :
    ∃ facts, Answers (checker.joinFacts first second) facts := by
  suffices visited :
      ∃ found,
        List.Forall₂
          (fun (entry : String × Ty) found =>
            ∃ joined,
              JoinsTo checker (some entry.2) (second.find? entry.1) joined ∧
                found = joined.map (Prod.mk entry.1))
          first.entries found by
    obtain ⟨found, visited⟩ := visited
    exact ⟨⟨found.reduceOption⟩, answers_joinFacts.mpr ⟨found, visited, rfl⟩⟩
  obtain ⟨entries⟩ := first
  dsimp only at joins ⊢
  induction entries with
  | nil =>
      exact ⟨[], .nil⟩
  | cons entry rest inductionHypothesis =>
      obtain ⟨joined, head⟩ := joins entry (by simp)
      obtain ⟨found, visited⟩ :=
        inductionHypothesis fun other member => joins other (.tail _ member)
      exact ⟨_, .cons ⟨joined, head, rfl⟩ visited⟩

end Joins

section Names

/-- Ordered facts about names of a list that a view knows. -/
structure About
    (view : View)
    (names : List String)
    (facts : Facts) :
    Prop where
  ordered : facts.Ordered
  known :
    ∀ {name},
      (facts.find? name).isSome →
      name ∈ names ∧ (view.typeOf? name).isSome

namespace About

variable {view : View} {names others : List String} {facts : Facts}

theorem empty :
    About view names {} :=
  ⟨Facts.ordered_empty, fun found => nomatch found⟩

/-- Facts about some names are about more names. -/
theorem weaken
    (about : About view names facts)
    (fewer : ∀ name ∈ names, name ∈ others) :
    About view others facts :=
  ⟨about.ordered, fun found =>
    ⟨fewer _ (about.known found).1, (about.known found).2⟩⟩

/-- Facts about known names make no further names known. -/
theorem isSome_withFacts
    (about : About view names facts)
    (found : ((view.withFacts facts).typeOf? name).isSome) :
    (view.typeOf? name).isSome := by
  rw [View.typeOf?_withFacts _ about.ordered, Option.isSome_or,
    Bool.or_eq_true] at found
  exact found.elim (fun found => (about.known found).2) id

/-- Layers of facts are about the names of both. -/
theorem overlay
    {later : Facts}
    (first : About view names facts)
    (second : About (view.withFacts facts) others later) :
    About view (names ++ others) (facts.overlay later) := by
  refine ⟨first.ordered.overlay later, fun found => ?_⟩
  rw [Facts.find?_overlay _ second.ordered, Option.isSome_or,
    Bool.or_eq_true] at found
  rcases found with inLater | inFacts
  · obtain ⟨member, known⟩ := second.known inLater
    exact ⟨List.mem_append_right _ member, first.isSome_withFacts known⟩
  · obtain ⟨member, known⟩ := first.known inFacts
    exact ⟨List.mem_append_left _ member, known⟩

/-- Joined facts are about the names of the first facts. -/
theorem join
    {second joined : Facts}
    (first : About view names facts)
    (joins : Answers (checker.joinFacts facts second) joined) :
    About view names joined := by
  obtain ⟨ordered, joinsAt⟩ := joinFacts_joins first.ordered joins
  refine ⟨ordered, fun {name} found => first.known ?_⟩
  have joinsHere := joinsAt name
  generalize joined.find? name = joinedType at joinsHere found
  generalize facts.find? name = type at joinsHere ⊢
  generalize second.find? name = other at joinsHere
  cases joinsHere with
  | both =>
      rfl
  | onlySecond =>
      cases found
  | onlyFirst =>
      cases found

end About

variable {view : View}

/-- Narrowing a name finds a fact about this name. -/
theorem refineName_about
    {narrow : Ty → Check Ty}
    (answers : Answers (refineName view name narrow) facts) :
    About view [name] facts := by
  unfold refineName at answers
  cases known : view.typeOf? name with
  | none =>
      rw [known] at answers
      cases answers_pure.mp answers
      exact .empty
  | some type =>
      rw [known] at answers
      obtain ⟨result, _, same⟩ := answers.of_bind
      cases answers_pure.mp same
      refine ⟨Facts.ordered_single, fun {other} found => ?_⟩
      rw [Facts.find?_single] at found
      split at found
      · next same =>
        subst same
        exact ⟨by simp, by rw [known]; rfl⟩
      · cases found

/-- Narrowing by a property finds a fact about the operand, if that is a name. -/
theorem refineProperty_about
    {optional : Bool}
    (answers :
      Answers (checker.refineProperty view operand property optional test)
        facts) :
    About view operand.names facts := by
  unfold refineProperty at answers
  cases operand with
  | name binding =>
      exact refineName_about answers
  | _ =>
      cases answers_pure.mp answers
      exact .empty

/-- Comparing a subject with a constant finds facts about the subject. -/
theorem refineEquality?_about
    (answers :
      Answers (checker.refineEquality? view subject value equal loose)
        (some facts)) :
    About view subject.names facts := by
  unfold refineEquality? at answers
  split at answers
  · split at answers
    · cases answers_pure.mp answers
    split at answers
    · obtain ⟨_, narrows, same⟩ := answers.of_bind
      cases answers_pure.mp same
      exact refineName_about narrows
    · obtain ⟨_, narrows, same⟩ := answers.of_bind
      cases answers_pure.mp same
      exact refineName_about narrows
    · obtain ⟨_, narrows, same⟩ := answers.of_bind
      cases answers_pure.mp same
      have about := refineProperty_about narrows
      exact about
    · cases answers_pure.mp answers
  · cases answers_pure.mp answers

/-- A comparison finds facts about its operands. -/
theorem refineComparison_about
    (answers :
      Answers (checker.refineComparison view left right equal loose) facts) :
    About view (left.names ++ right.names) facts := by
  unfold refineComparison at answers
  obtain ⟨found, early, answers⟩ := answers.of_bind
  cases found with
  | some found =>
      cases answers_pure.mp answers
      exact (refineEquality?_about early).weaken fun _ member =>
        List.mem_append_left _ member
  | none =>
      obtain ⟨found, late, same⟩ := answers.of_bind
      cases answers_pure.mp same
      cases found with
      | some found =>
          exact (refineEquality?_about late).weaken fun _ member =>
            List.mem_append_right _ member
      | none =>
          exact .empty

/-- A guard finds facts about names that it reads and that the view knows. -/
theorem refine_about
    {guard : Expression}
    {branch : Bool}
    (answers : Answers (checker.refine view guard branch) facts) :
    About view guard.names facts := by
  induction guard generalizing view branch facts with
  | name binding =>
      exact refineName_about answers
  | constant type =>
      cases answers_pure.mp answers
      exact .empty
  | typeof operand _ =>
      cases answers_pure.mp answers
      exact .empty
  | instanceOf operand instanceType _ =>
      cases operand with
      | name binding =>
          cases branch with
          | true =>
              exact refineName_about answers
          | false =>
              cases answers_pure.mp answers
              exact .empty
      | _ =>
          cases answers_pure.mp answers
          exact .empty
  | isArray operand _ =>
      cases operand with
      | name binding =>
          exact refineName_about answers
      | _ =>
          cases answers_pure.mp answers
          exact .empty
  | member operand property optional _ =>
      have about : About view operand.names facts :=
        refineProperty_about answers
      exact about
  | not operand inductionHypothesis =>
      exact inductionHypothesis answers
  | binary operator left right leftHypothesis rightHypothesis =>
      have leftAbout {branch facts}
          (answers : Answers (checker.refine view left branch) facts) :
          About view (left.names ++ right.names) facts :=
        (leftHypothesis answers).weaken fun _ member =>
          List.mem_append_left _ member
      cases operator with
      | and =>
          unfold refine at answers
          obtain ⟨positive, early, answers⟩ := answers.of_bind
          cases branch with
          | true =>
              obtain ⟨late, rightAnswers, same⟩ := answers.of_bind
              cases answers_pure.mp same
              exact (leftHypothesis early).overlay (rightHypothesis rightAnswers)
          | false =>
              obtain ⟨short, shortAnswers, answers⟩ := answers.of_bind
              obtain ⟨long, _, joins⟩ := answers.of_bind
              exact (leftAbout shortAnswers).join joins
      | or =>
          unfold refine at answers
          obtain ⟨negative, early, answers⟩ := answers.of_bind
          cases branch with
          | true =>
              obtain ⟨short, shortAnswers, answers⟩ := answers.of_bind
              obtain ⟨long, _, joins⟩ := answers.of_bind
              exact (leftAbout shortAnswers).join joins
          | false =>
              obtain ⟨late, rightAnswers, same⟩ := answers.of_bind
              cases answers_pure.mp same
              exact (leftHypothesis early).overlay (rightHypothesis rightAnswers)
      | coalesce =>
          unfold refine at answers
          cases branch with
          | true =>
              obtain ⟨never, _, answers⟩ := answers.of_bind
              cases never with
              | true =>
                  exact leftAbout answers
              | false =>
                  cases answers_pure.mp answers
                  exact .empty
          | false =>
              exact leftAbout answers
      | _ =>
          exact refineComparison_about answers
  | conditional test positive negative testHypothesis positiveHypothesis
      negativeHypothesis =>
      unfold refine at answers
      obtain ⟨onTrue, testAnswers, answers⟩ := answers.of_bind
      obtain ⟨onFalse, _, answers⟩ := answers.of_bind
      obtain ⟨first, firstAnswers, answers⟩ := answers.of_bind
      obtain ⟨second, _, joins⟩ := answers.of_bind
      have firstAbout :=
        (testHypothesis testAnswers).overlay (positiveHypothesis firstAnswers)
      exact (firstAbout.join joins).weaken fun _ member =>
        List.mem_append_left _ member

end Names

section Restriction

variable {part whole : View}

/-- Joining shared facts gives shared facts. -/
theorem joinFacts_follows
    {wholeFirst wholeSecond partFirst partSecond : Facts}
    (first : part.Shares wholeFirst partFirst)
    (second : part.Shares wholeSecond partSecond)
    (wholeOrdered : wholeFirst.Ordered)
    (partOrdered : partFirst.Ordered) :
    Follows part.Shares (checker.joinFacts wholeFirst wholeSecond)
      (checker.joinFacts partFirst partSecond) := by
  intro joined answers
  obtain ⟨_, wholeJoins⟩ := joinFacts_joins wholeOrdered answers
  have joinsAt {name type} (known : part.typeOf? name = some type) :
      JoinsTo checker (partFirst.find? name) (partSecond.find? name)
        (joined.find? name) := by
    rw [first.of_known known, second.of_known known]
    exact wholeJoins name
  have knownOf {name} (found : (partFirst.find? name).isSome) :
      ∃ type, part.typeOf? name = some type := by
    cases known : part.typeOf? name with
    | none =>
        rw [first.of_unknown known] at found
        cases found
    | some type =>
        exact ⟨type, rfl⟩
  obtain ⟨facts, partAnswers⟩ :
      ∃ facts, Answers (checker.joinFacts partFirst partSecond) facts :=
    exists_joinFacts fun entry member => by
        have found := partOrdered.find?_of_mem member
        obtain ⟨type, known⟩ := knownOf (by rw [found]; rfl)
        exact ⟨joined.find? entry.1, found ▸ joinsAt known⟩
  refine ⟨facts, partAnswers, fun name => ?_⟩
  have partJoins := (joinFacts_joins partOrdered partAnswers).2 name
  cases known : part.typeOf? name with
  | none =>
      rw [first.of_unknown known, second.of_unknown known] at partJoins
      exact partJoins.unique .onlySecond
  | some type =>
      exact partJoins.unique (joinsAt known)

/-- Narrowing the type of a name needs no other name. -/
theorem refineName_follows
    {narrow : Ty → Check Ty}
    [∀ type, Appends (narrow type)]
    (within : part.Within whole) :
    Follows part.Shares (refineName whole name narrow)
      (refineName part name narrow) := by
  intro facts answers
  unfold refineName at *
  cases known : part.typeOf? name with
  | some type =>
      rw [within name type known] at answers
      obtain ⟨result, narrows, same⟩ := answers.of_bind
      cases answers_pure.mp same
      refine ⟨.single name result,
        answers_bind.mpr ⟨result, narrows, answers_pure.mpr rfl⟩,
        fun other => ?_⟩
      rw [Facts.find?_single]
      split
      · next same =>
        rw [same, known]
        rfl
      · cases part.typeOf? other <;> rfl
  | none =>
      refine ⟨{}, answers_pure.mpr rfl, fun other => ?_⟩
      cases shown : part.typeOf? other with
      | none =>
          rfl
      | some type =>
          have different : other ≠ name := by
            rintro rfl
            rw [known] at shown
            cases shown
          cases narrowed : whole.typeOf? name with
          | none =>
              rw [narrowed] at answers
              cases answers_pure.mp answers
              rfl
          | some wholeType =>
              rw [narrowed] at answers
              obtain ⟨result, _, same⟩ := answers.of_bind
              cases answers_pure.mp same
              rw [Option.bind_some, Facts.find?_single, if_neg different]
              rfl

/-- Narrowing by a property needs no other name than that of the operand. -/
theorem refineProperty_follows
    {optional : Bool}
    {test : Ty → Check Ty}
    [∀ type, Appends (test type)]
    (within : part.Within whole) :
    Follows part.Shares
      (checker.refineProperty whole operand property optional test)
      (checker.refineProperty part operand property optional test) := by
  unfold refineProperty
  cases operand with
  | name binding =>
      exact refineName_follows within
  | _ =>
      exact .pure .empty

/-- Whether a subject is compared with a constant does not depend on the view. -/
theorem refineEquality?_follows
    (within : part.Within whole) :
    Follows (Option.Rel part.Shares)
      (checker.refineEquality? whole subject value equal loose)
      (checker.refineEquality? part subject value equal loose) := by
  have found {leader follower : Check Facts}
      (follows : Follows part.Shares leader follower) :
      Follows (Option.Rel part.Shares)
        (leader >>= fun facts => pure (some facts))
        (follower >>= fun facts => pure (some facts)) :=
    follows.bind fun _ _ _ _ shares => .pure (.some shares)
  unfold refineEquality?
  cases value with
  | constant type =>
      dsimp only
      split
      · exact .pure .none
      split
      · exact found (refineName_follows within)
      · exact found (refineName_follows within)
      · exact found (refineProperty_follows within)
      · exact .pure .none
  | _ =>
      exact .pure .none

/-- A comparison needs no names but those a view knows. -/
theorem refineComparison_follows
    (within : part.Within whole) :
    Follows part.Shares
      (checker.refineComparison whole left right equal loose)
      (checker.refineComparison part left right equal loose) := by
  unfold refineComparison
  refine @Follows.bind _ _ _ _ _ _ _ _ _ _
    (fun found => by cases found <;> (dsimp only; infer_instance))
    (refineEquality?_follows within) fun found shared _ _ shares => ?_
  cases shares with
  | some shares =>
      exact .pure shares
  | none =>
      refine (refineEquality?_follows within).bind
        fun found shared _ _ shares => .pure ?_
      cases shares with
      | some shares =>
          exact shares
      | none =>
          exact .empty

/-- An expression follows itself under facts that are shared. -/
theorem refine_follows_withFacts
    {partFacts wholeFacts : Facts}
    {expression : Expression}
    (follows :
      ∀ {part whole},
        part.Within whole →
        ∀ branch,
          Follows part.Shares (checker.refine whole expression branch)
            (checker.refine part expression branch))
    (within : part.Within whole)
    (shares : part.Shares wholeFacts partFacts)
    (wholeOrdered : wholeFacts.Ordered)
    (partOrdered : partFacts.Ordered)
    (branch : Bool) :
    Follows part.Shares
      (checker.refine (whole.withFacts wholeFacts) expression branch)
      (checker.refine (part.withFacts partFacts) expression branch) := by
  intro facts answers
  obtain ⟨later, partAnswers, laterShares⟩ :=
    follows (within.withFacts shares partOrdered wholeOrdered) branch facts
      answers
  exact ⟨later, partAnswers, shares.of_withFacts partOrdered laterShares⟩

/--
A guard says of the names that a smaller view knows what it says of them under
the larger one.
-/
theorem refine_follows
    {guard : Expression}
    (within : part.Within whole)
    (branch : Bool) :
    Follows part.Shares (checker.refine whole guard branch)
      (checker.refine part guard branch) := by
  have nothing {part : View} : Follows part.Shares (pure {}) (pure {}) :=
    .pure .empty
  induction guard generalizing part whole branch with
  | name binding =>
      exact refineName_follows within
  | constant type =>
      exact nothing
  | typeof operand _ =>
      exact nothing
  | instanceOf operand instanceType _ =>
      cases operand with
      | name binding =>
          cases branch with
          | true =>
              exact refineName_follows within
          | false =>
              exact nothing
      | _ =>
          exact nothing
  | isArray operand _ =>
      cases operand with
      | name binding =>
          exact refineName_follows within
      | _ =>
          exact nothing
  | member operand property optional _ =>
      unfold refine
      exact refineProperty_follows within
  | not operand inductionHypothesis =>
      exact inductionHypothesis within (!branch)
  | binary operator left right leftHypothesis rightHypothesis =>
      cases operator with
      | and =>
          unfold refine
          refine (leftHypothesis within true).bind
            fun _ _ wholeLeft partLeft shares => ?_
          have later :=
            refine_follows_withFacts rightHypothesis within shares
              (refine_about wholeLeft).ordered (refine_about partLeft).ordered
          cases branch with
          | true =>
              exact (later true).bind
                fun _ _ wholeRight partRight laterShares =>
                  .pure (shares.overlay laterShares
                    (refine_about wholeRight).ordered
                    (refine_about partRight).ordered)
          | false =>
              refine (leftHypothesis within false).bind
                fun _ _ wholeShort partShort shortShares => ?_
              exact (later false).bind
                fun _ _ wholeLong partLong longShares =>
                  joinFacts_follows shortShares
                    (shares.overlay longShares (refine_about wholeLong).ordered
                      (refine_about partLong).ordered)
                    (refine_about wholeShort).ordered
                    (refine_about partShort).ordered
      | or =>
          unfold refine
          refine (leftHypothesis within false).bind
            fun _ _ wholeLeft partLeft shares => ?_
          have later :=
            refine_follows_withFacts rightHypothesis within shares
              (refine_about wholeLeft).ordered (refine_about partLeft).ordered
          cases branch with
          | true =>
              refine (leftHypothesis within true).bind
                fun _ _ wholeShort partShort shortShares => ?_
              exact (later true).bind
                fun _ _ wholeLong partLong longShares =>
                  joinFacts_follows shortShares
                    (shares.overlay longShares (refine_about wholeLong).ordered
                      (refine_about partLong).ordered)
                    (refine_about wholeShort).ordered
                    (refine_about partShort).ordered
          | false =>
              exact (later false).bind
                fun _ _ wholeRight partRight laterShares =>
                  .pure (shares.overlay laterShares
                    (refine_about wholeRight).ordered
                    (refine_about partRight).ordered)
      | coalesce =>
          unfold refine
          cases branch with
          | true =>
              -- The right operand is judged alone, without any view.
              have same :
                  Follows Eq (checker.neverTruthy right)
                    (checker.neverTruthy right) :=
                fun never answers => ⟨never, answers, rfl⟩
              refine same.bind ?_
              rintro never _ _ _ rfl
              cases never with
              | true =>
                  exact leftHypothesis within true
              | false =>
                  exact nothing
          | false =>
              exact leftHypothesis within false
      | _ =>
          exact refineComparison_follows within
  | conditional test positive negative testHypothesis positiveHypothesis
      negativeHypothesis =>
      unfold refine
      refine (testHypothesis within true).bind
        fun _ _ wholeTrue partTrue trueShares => ?_
      refine (testHypothesis within false).bind
        fun _ _ wholeFalse partFalse falseShares => ?_
      refine
        (refine_follows_withFacts positiveHypothesis within trueShares
          (refine_about wholeTrue).ordered (refine_about partTrue).ordered
          branch).bind
        fun _ _ wholeFirst partFirst firstShares => ?_
      refine
        (refine_follows_withFacts negativeHypothesis within falseShares
          (refine_about wholeFalse).ordered (refine_about partFalse).ordered
          branch).bind
        fun _ _ wholeSecond partSecond secondShares => ?_
      exact joinFacts_follows
        (trueShares.overlay firstShares (refine_about wholeFirst).ordered
          (refine_about partFirst).ordered)
        (falseShares.overlay secondShares (refine_about wholeSecond).ordered
          (refine_about partSecond).ordered)
        ((refine_about wholeTrue).ordered.overlay _)
        ((refine_about partTrue).ordered.overlay _)

end Restriction

section Scopes

variable {guard : Expression} {branch : Bool} {scope : Scope}
  {table : BindingTable} {facts : Facts}

/-- Refinement in a scope reads the table and leaves it as it is. -/
theorem answers_refineScope :
    Answers (checker.refineScope scope guard branch table) (facts, after) ↔
      Answers (checker.refine (scope.view table) guard branch) facts ∧
        after = table := by
  change
    Answers
        (checker.refine (scope.view table) guard branch >>=
          fun facts => pure (facts, table))
        (facts, after) ↔ _
  rw [answers_bind]
  simp only [answers_pure, Prod.mk.injEq]
  constructor
  · rintro ⟨_, answers, rfl, rfl⟩
    exact ⟨answers, rfl⟩
  · rintro ⟨answers, rfl⟩
    exact ⟨facts, answers, rfl, rfl⟩

/-- The type that the view of one binding knows. -/
theorem typeOf?_bindingView
    (binding : Binding) :
    binding.view.typeOf? binding.name = some binding.current := by
  simp [View.typeOf?, Binding.view, Facts.find?]

/-- The view of one binding is within each view that knows its type. -/
theorem bindingView_within
    {binding : Binding}
    {view : View}
    (known : view.typeOf? binding.name = some binding.current) :
    binding.view.Within view := by
  intro name type shown
  by_cases same : name = binding.name
  · subst same
    rw [typeOf?_bindingView] at shown
    cases shown
    exact known
  · simp [View.typeOf?, Binding.view, Facts.find?, same] at shown

/-- The fact about a name is the one found by a view of this name alone. -/
theorem refine_bindingView
    (binding : Binding)
    {view : View}
    (known : view.typeOf? binding.name = some binding.current)
    (answers : Answers (checker.refine view guard branch) facts) :
    ∃ alone,
      Answers (checker.refine binding.view guard branch) alone ∧
        alone.find? binding.name = facts.find? binding.name := by
  obtain ⟨alone, aloneAnswers, shares⟩ :=
    refine_follows (bindingView_within known) branch facts answers
  exact ⟨alone, aloneAnswers, shares.of_known (typeOf?_bindingView binding)⟩

/--
A fact about a name depends on the type of its binding alone: it is the same in
all scopes with this type, whatever else they show. A name with a fact is read
by the guard and bound. So narrowing a binding, with all other names hidden,
finds the fact of every scope that shows this binding.
-/
theorem refineScope_facts_of_binding
    (refines :
      Answers (checker.refineScope scope guard branch table)
        (facts, after)) :
    (∀ {otherScope : Scope} {otherTable otherFacts otherAfter name},
        Answers (checker.refineScope otherScope guard branch otherTable)
            (otherFacts, otherAfter) →
          (scope.view table).lookup name =
            (otherScope.view otherTable).lookup name →
          facts.find? name = otherFacts.find? name) ∧
      (∀ {name type},
        facts.find? name = some type →
          name ∈ guard.names ∧
            ∃ slot binding,
              scope.lookup? name = some slot ∧
                table[slot]? = some binding) ∧
      ∀ {slot binding type},
        scope.lookup? binding.name = some slot →
          table[slot]? = some binding →
          (Answers (checker.narrow binding guard branch) type ↔
            type = (facts.find? binding.name).getD binding.current) := by
  obtain ⟨answers, _⟩ := answers_refineScope.mp refines
  refine ⟨?same, ?bound, ?narrowed⟩
  case same =>
    intro otherScope otherTable otherFacts otherAfter name otherRefines agree
    obtain ⟨otherAnswers, _⟩ := answers_refineScope.mp otherRefines
    change
      (scope.view table).typeOf? name =
        (otherScope.view otherTable).typeOf? name at agree
    cases known : (scope.view table).typeOf? name with
    | none =>
        have missing {view : View} {facts : Facts}
            (answers : Answers (checker.refine view guard branch) facts)
            (unknown : view.typeOf? name = none) :
            facts.find? name = none := by
          cases found : facts.find? name with
          | none =>
              rfl
          | some type =>
              have seen := ((refine_about answers).known (by rw [found]; rfl)).2
              rw [unknown] at seen
              cases seen
        rw [missing answers known, missing otherAnswers (agree ▸ known)]
    | some type =>
        let binding : Binding := { name, declared := type }
        obtain ⟨alone, aloneAnswers, shared⟩ :=
          refine_bindingView binding known answers
        obtain ⟨again, againAnswers, otherShared⟩ :=
          refine_bindingView binding (agree ▸ known) otherAnswers
        cases aloneAnswers.unique againAnswers
        exact shared.symm.trans otherShared
  case bound =>
    intro name type found
    obtain ⟨member, known⟩ := (refine_about answers).known (by rw [found]; rfl)
    obtain ⟨shown, lookup⟩ := Option.isSome_iff_exists.mp known
    obtain ⟨slot, binding, shows, present, _⟩ := Scope.view_lookup.mp lookup
    exact ⟨member, slot, binding, shows, present⟩
  case narrowed =>
    intro slot binding type shows present
    have known : (scope.view table).typeOf? binding.name =
        some binding.current :=
      Scope.view_lookup.mpr ⟨slot, binding, shows, present, rfl⟩
    obtain ⟨alone, aloneAnswers, shared⟩ := refine_bindingView _ known answers
    unfold narrow
    rw [answers_bind, ← shared]
    simp only [answers_pure]
    constructor
    · rintro ⟨found, foundAnswers, rfl⟩
      rw [foundAnswers.unique aloneAnswers]
    · rintro rfl
      exact ⟨alone, aloneAnswers, rfl⟩

/-- The guard `typeof x === "string" && y`. -/
def taggedAndPresent : Expression :=
  .binary .and
    (.binary .strictEqual (.typeof (.name "x"))
      (.constant (.ofLiteral (.string (.ofString "string")))))
    (.name "y")

/-- The fact about `x` is the same with `y` nullable and with `y` missing. -/
theorem refineScope_facts_of_binding_twoNames :
    let checker : Checker := { budget := 8 }
    let value : Ty := .ofUnion [.string, .number]
    let both := Scope.ofTypes [("x", value), ("y", .ofUnion [.null, .boolean])]
    let single := Scope.ofTypes [("x", value)]
    ∃ facts otherFacts,
      Answers (checker.refineScope both.2 taggedAndPresent true both.1)
          (facts, both.1) ∧
        Answers (checker.refineScope single.2 taggedAndPresent true single.1)
          (otherFacts, single.1) ∧
        facts.find? "x" = otherFacts.find? "x" ∧
        facts.names = ["x", "y"] ∧
        Answers
          (checker.narrow { name := "x", declared := value } taggedAndPresent
            true)
          .string := by
  let checker : Checker := { budget := 8 }
  let value : Ty := .ofUnion [.string, .number]
  let both := Scope.ofTypes [("x", value), ("y", .ofUnion [.null, .boolean])]
  let single := Scope.ofTypes [("x", value)]
  have refines :
      Answers (checker.refineScope both.2 taggedAndPresent true both.1)
        (⟨[("x", .string), ("y", .ofLiteral (.boolean true))]⟩, both.1) :=
    ⟨[], [], by decide +kernel⟩
  have singleRefines :
      Answers (checker.refineScope single.2 taggedAndPresent true single.1)
        (.single "x" .string, single.1) :=
    ⟨[], [], by decide +kernel⟩
  obtain ⟨same, _, narrowed⟩ := refineScope_facts_of_binding refines
  refine ⟨_, _, refines, singleRefines, same singleRefines rfl, rfl, ?_⟩
  exact (@narrowed 0 { name := "x", declared := value } .string rfl rfl).mpr
    (by decide +kernel)

end Scopes

end Checker

end StructuralTyping
