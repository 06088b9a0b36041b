import StructuralTyping.Proofs.CopiedRuns

namespace StructuralTyping

/-!
# What joining keeps

Joining drops what looks like a type before it, so it keeps one of every few types
that look alike, and which one depends on the order. A union joined from types that
are what it should offer, taken for the same when they look alike, looks the same
in whatever order they come.
-/

namespace Arena

variable {arena : Arena} {contents others : List Ty}

/-- The types that joining gives a union of: what normal members consist of. -/
structure Contents
    (arena : Arena)
    (contents : List Ty) :
    Prop where
  presents : ∀ content ∈ contents, arena.Presents content
  single : ∀ content ∈ contents, content.isUnion = false
  inhabited : ∀ content ∈ contents, content.isNever = false
  decides :
    .any ∉ contents →
    .unknown ∉ contents →
    ∀ {first second},
      arena.JoinCompares contents first second → arena.Decides first second

/-- A primitive is among some types when one of them is that primitive. -/
theorem any_isPrimitive_iff :
    contents.any (Ty.isPrimitive · kind) = true ↔ .primitive kind ∈ contents := by
  rw [List.any_eq_true]
  constructor
  · rintro ⟨content, inContents, isKind⟩
    cases content with
    | primitive found =>
        have same : found = kind := by simpa [Ty.isPrimitive] using isKind
        exact same ▸ inContents
    | _ => cases isKind
  · intro inContents
    exact ⟨_, inContents, by simp [Ty.isPrimitive]⟩

/-- Types without values make no difference to a union. -/
theorem joinMembers_inhabited
    {types : List Ty} :
    arena.joinMembers (inhabited types) = arena.joinMembers types := by
  have again : inhabited (inhabited types) = inhabited types := by
    simp [inhabited]
  rw [joinMembers_eq, joinMembers_eq, again]

namespace Contents

variable (holds : arena.Contents contents)
include holds

/-- None of the contents is dropped. -/
theorem inhabited_eq :
    StructuralTyping.inhabited contents = contents := by
  apply List.filter_eq_self.mpr
  intro content inContents
  rw [holds.inhabited content inContents]
  rfl

/-- Joining gives `any` when that is among the contents. -/
theorem join_any
    (hasAny : .any ∈ contents) :
    arena.joinMembers contents = .any := by
  rw [joinMembers_eq, holds.inhabited_eq,
    if_pos (any_isPrimitive_iff.mpr hasAny)]

/-- Joining gives `unknown` when that is among the contents and `any` is not. -/
theorem join_unknown
    (noAny : .any ∉ contents)
    (hasUnknown : .unknown ∈ contents) :
    arena.joinMembers contents = .unknown := by
  rw [joinMembers_eq, holds.inhabited_eq,
    if_neg (any_isPrimitive_iff.not.mpr noAny),
    if_pos (any_isPrimitive_iff.mpr hasUnknown)]

/-- Otherwise joining keeps those of the contents that differ. -/
theorem join_distinct
    (noAny : .any ∉ contents)
    (noUnknown : .unknown ∉ contents) :
    arena.joinMembers contents =
      .ofDistinct (contents.foldl arena.appendUnique []) := by
  rw [joinMembers_eq, holds.inhabited_eq,
    if_neg (any_isPrimitive_iff.not.mpr noAny),
    if_neg (any_isPrimitive_iff.not.mpr noUnknown)]

end Contents

/-- Joining keeps types that differ, and one that looks like each of the types. -/
theorem foldl_appendUnique_same
    (identifiable : arena.Identifiable)
    (identifies : ∀ content ∈ contents, arena.Identifies content)
    (decides :
      ∀ {first second},
        arena.JoinCompares contents first second →
        arena.Decides first second) :
    (contents.foldl arena.appendUnique []).Pairwise
        (fun first second => ¬ arena.Same first second) ∧
      ∀ content ∈ contents,
        ∃ kept ∈ contents.foldl arena.appendUnique [],
          arena.Same kept content := by
  induction contents using List.reverseRecOn with
  | nil => exact ⟨.nil, nofun⟩
  | append_singleton contents content inductionHypothesis =>
      have identifiesBefore (other : Ty) (inContents : other ∈ contents) :=
        identifies other (List.mem_append_left _ inContents)
      have identifiesLast : arena.Identifies content :=
        identifies content (List.mem_append_right _ (by simp))
      obtain ⟨differ, covered⟩ := inductionHypothesis identifiesBefore <| by
        rintro first second ⟨earlier, later, before, after, split, rest⟩
        exact decides ⟨earlier, later ++ [content], before, after,
          by rw [split, List.append_assoc, List.cons_append], rest⟩
      have identifiesKept (kept : Ty)
          (isKept : kept ∈ contents.foldl arena.appendUnique []) :=
        identifiesBefore kept
          ((foldl_appendUnique_sublist contents []).mem isKept)
      rw [List.foldl_append]
      simp only [List.foldl_cons, List.foldl_nil, appendUnique]
      split
      · next found =>
        obtain ⟨kept, isKept, identical⟩ := List.any_eq_true.mp found
        refine ⟨differ, List.forall_mem_append.mpr ⟨covered, ?_⟩⟩
        refine List.forall_mem_singleton.mpr ⟨kept, isKept, fun levels => ?_⟩
        exact alike_of_identicalWithin identifiable (identifiesKept kept isKept)
          identifiesLast (by simp) identical
      · next missing =>
        have misses :
            ∀ kept ∈ contents.foldl arena.appendUnique [],
              arena.identical kept content = false := by
          simpa using missing
        have differsLast (kept : Ty)
            (isKept : kept ∈ contents.foldl arena.appendUnique []) :
            ¬ arena.Same kept content := by
          obtain ⟨before, after, split⟩ := List.append_of_mem isKept
          have decided : arena.Decides kept content :=
            decides ⟨contents, [], before, after, rfl, split,
              fun other inBefore => misses other (by simp [split, inBefore])⟩
          intro same
          have identical :=
            (identical_iff_alike identifiable (identifiesKept kept isKept)
              identifiesLast decided).mpr same
          rw [misses kept isKept] at identical
          cases identical
        constructor
        · apply List.pairwise_append.mpr
          refine ⟨differ, List.pairwise_singleton _ _, ?_⟩
          intro kept isKept last isLast
          cases List.mem_singleton.mp isLast
          exact differsLast kept isKept
        · refine List.forall_mem_append.mpr ⟨?_, ?_⟩
          · intro other inContents
            obtain ⟨kept, isKept, same⟩ := covered other inContents
            exact ⟨kept, List.mem_append_left _ isKept, same⟩
          · refine List.forall_mem_singleton.mpr ⟨content, by simp, ?_⟩
            exact Same.of_form identifiable identifiesLast rfl

/-- A union of types that are no unions has these types as members. -/
theorem members_ofDistinct
    {types : List Ty}
    (single : ∀ type ∈ types, type.isUnion = false)
    (inhabits : ∀ type ∈ types, type.isNever = false) :
    inhabited (Ty.ofDistinct types).members = types := by
  rcases types with _ | ⟨type, _ | ⟨other, rest⟩⟩
  · rfl
  · have alone : type.isUnion = false := single type List.mem_cons_self
    rw [show Ty.ofDistinct [type] = type from rfl,
      Ty.members_eq alone]
    simp [inhabited, inhabits]
  · apply List.filter_eq_self.mpr
    intro member inMembers
    rw [inhabits member inMembers]
    rfl

/-- What is kept of the contents is among them. -/
theorem mem_of_kept
    {content : Ty}
    (isKept : content ∈ contents.foldl arena.appendUnique []) :
    content ∈ contents :=
  (foldl_appendUnique_sublist contents []).mem isKept

/-- What is in a joined union is among the types that were joined. -/
theorem mem_of_mem_joinMembers
    {types : List Ty}
    (single : ∀ type ∈ inhabited types, type.isUnion = false)
    (inUnion : content ∈ inhabited (arena.joinMembers types).members) :
    content ∈ inhabited types := by
  rw [joinMembers_eq] at inUnion
  split at inUnion
  · next isAny =>
    have same : content = .any := List.mem_singleton.mp inUnion
    exact same ▸ any_isPrimitive_iff.mp isAny
  split at inUnion
  · next isUnknown =>
    have same : content = .unknown := List.mem_singleton.mp inUnion
    exact same ▸ any_isPrimitive_iff.mp isUnknown
  · have inhabits : ∀ type ∈ inhabited types, type.isNever = false := by
      intro type inTypes
      simpa using (List.mem_filter.mp inTypes).2
    rw [members_ofDistinct
      (fun type isKept => single type (mem_of_kept isKept))
      (fun type isKept => inhabits type (mem_of_kept isKept))] at inUnion
    exact mem_of_kept inUnion

/-- The contents of a union are what it should offer, as far as that shows. -/
structure Represents
    (arena : Arena)
    (contents : List Ty)
    (offers : Ty → Prop) :
    Prop where
  any : .any ∈ contents ↔ offers .any
  unknown : .any ∉ contents → (.unknown ∈ contents ↔ offers .unknown)
  offered :
    .any ∉ contents →
    .unknown ∉ contents →
    ∀ content ∈ contents, offers content
  covers :
    .any ∉ contents →
    .unknown ∉ contents →
    ∀ {offer},
      offers offer →
      ∃ content ∈ contents, arena.Same content offer

/-- Where some contents are kept, one of them looks like an offer. -/
theorem Represents.kept
    {offers : Ty → Prop}
    (represents : arena.Represents contents offers)
    (identifiable : arena.Identifiable)
    (holds : arena.Contents contents)
    (noAny : .any ∉ contents)
    (noUnknown : .unknown ∉ contents)
    (isOffer : offers offer) :
    ∃ kept ∈ contents.foldl arena.appendUnique [], arena.Same kept offer := by
  obtain ⟨_, covers⟩ :=
    foldl_appendUnique_same identifiable
      (fun content inContents => (holds.presents content inContents).identifies)
      (holds.decides noAny noUnknown)
  obtain ⟨content, inContents, sameOffer⟩ :=
    represents.covers noAny noUnknown isOffer
  obtain ⟨kept, isKept, sameContent⟩ := covers content inContents
  exact ⟨kept, isKept, sameContent.trans sameOffer⟩

/-- Where some contents are kept, a type looks like one if a copy is offered. -/
theorem Represents.kept_of_copy
    {offers : Ty → Prop}
    {type copy : Ty}
    (represents : arena.Represents contents offers)
    (identifiable : arena.Identifiable)
    (holds : arena.Contents contents)
    (noAny : .any ∉ contents)
    (noUnknown : .unknown ∉ contents)
    (isOffer : offers copy)
    (identifies : arena.Identifies type)
    (same : type.form = copy.form) :
    ∃ kept ∈ contents.foldl arena.appendUnique [], arena.Same type kept := by
  obtain ⟨kept, isKept, sameCopy⟩ :=
    represents.kept identifiable holds noAny noUnknown isOffer
  have identifiesKept :=
    (holds.presents kept (mem_of_kept isKept)).identifies
  have sameType : arena.Same copy type :=
    Same.of_form identifiable (identifies.copy same) same.symm
  exact ⟨kept, isKept,
    (sameCopy.trans sameType).symm identifiable identifiesKept identifies⟩

/-- A union joined from contents that represent some offers represents them. -/
theorem Represents.join
    {offers : Ty → Prop}
    (represents : arena.Represents contents offers)
    (identifiable : arena.Identifiable)
    (holds : arena.Contents contents) :
    arena.Represents (inhabited (arena.joinMembers contents).members) offers := by
  by_cases hasAny : .any ∈ contents
  · rw [holds.join_any hasAny]
    have isAny : .any ∈ inhabited (Ty.primitive .any).members := by decide
    constructor
    · exact ⟨fun _ => represents.any.mp hasAny, fun _ => isAny⟩
    · exact fun noAny => absurd isAny noAny
    · exact fun noAny => absurd isAny noAny
    · exact fun noAny => absurd isAny noAny
  by_cases hasUnknown : .unknown ∈ contents
  · rw [holds.join_unknown hasAny hasUnknown]
    have noAny : .any ∉ inhabited (Ty.primitive .unknown).members := by decide
    have isUnknown :
        .unknown ∈ inhabited (Ty.primitive .unknown).members := by
      decide
    constructor
    · exact ⟨fun isAny => absurd isAny noAny,
        fun offers => absurd (represents.any.mpr offers) hasAny⟩
    · exact fun _ =>
        ⟨fun _ => (represents.unknown hasAny).mp hasUnknown, fun _ => isUnknown⟩
    · exact fun _ noUnknown => absurd isUnknown noUnknown
    · exact fun _ noUnknown => absurd isUnknown noUnknown
  rw [holds.join_distinct hasAny hasUnknown,
    members_ofDistinct
      (fun content isKept => holds.single content (mem_of_kept isKept))
      (fun content isKept => holds.inhabited content (mem_of_kept isKept))]
  constructor
  · exact ⟨fun isKept => absurd (mem_of_kept isKept) hasAny,
      fun offers => absurd (represents.any.mpr offers) hasAny⟩
  · exact fun _ =>
      ⟨fun isKept => absurd (mem_of_kept isKept) hasUnknown,
        fun offers => absurd ((represents.unknown hasAny).mpr offers) hasUnknown⟩
  · intro _ _ content isKept
    exact represents.offered hasAny hasUnknown content (mem_of_kept isKept)
  · exact fun _ _ =>
      represents.kept identifiable holds hasAny hasUnknown

/-- At most one type is kept when all of them look like one. -/
theorem length_le_one_of_same
    {kept : List Ty}
    (identifiable : arena.Identifiable)
    (identifies : ∀ type ∈ kept, arena.Identifies type)
    (identifiesOther : arena.Identifies other)
    (differ : kept.Pairwise fun first second => ¬ arena.Same first second)
    (same : ∀ type ∈ kept, arena.Same type other) :
    kept.length ≤ 1 := by
  rcases kept with _ | ⟨first, _ | ⟨second, rest⟩⟩
  · exact Nat.zero_le 1
  · exact Nat.le_refl 1
  · have inKept : second ∈ first :: second :: rest := by simp
    have differs : ¬ arena.Same first second :=
      (List.pairwise_cons.mp differ).1 second List.mem_cons_self
    have sameSecond : arena.Same other second :=
      (same second inKept).symm identifiable (identifies second inKept)
        identifiesOther
    exact absurd ((same first List.mem_cons_self).trans sameSecond) differs

/-- Unions of types that differ look alike when the types do, in any order. -/
theorem ofDistinct_same
    {kept others : List Ty}
    (identifiable : arena.Identifiable)
    (identifies : ∀ type ∈ kept, arena.Identifies type)
    (identifiesOthers : ∀ type ∈ others, arena.Identifies type)
    (differ : kept.Pairwise fun first second => ¬ arena.Same first second)
    (othersDiffer :
      others.Pairwise fun first second => ¬ arena.Same first second)
    (forth : ∀ type ∈ kept, ∃ other ∈ others, arena.Same type other)
    (back : ∀ other ∈ others, ∃ type ∈ kept, arena.Same other type) :
    arena.Same (.ofDistinct kept) (.ofDistinct others) := by
  have turn {first second : Ty}
      (inKept : first ∈ kept)
      (inOthers : second ∈ others)
      (same : arena.Same first second) :
      arena.Same second first :=
    same.symm identifiable (identifies first inKept)
      (identifiesOthers second inOthers)
  rcases kept with _ | ⟨first, _ | ⟨second, rest⟩⟩
  · rcases others with _ | ⟨other, rest⟩
    · exact Same.of_form identifiable identifies_primitive rfl
    · obtain ⟨_, inNone, _⟩ := back other List.mem_cons_self
      cases inNone
  · obtain ⟨other, inOthers, same⟩ := forth first List.mem_cons_self
    have short : others.length ≤ 1 := by
      apply length_le_one_of_same identifiable identifiesOthers
        (identifies first List.mem_cons_self) othersDiffer
      intro type inOthers
      obtain ⟨only, isOnly, same⟩ := back type inOthers
      exact List.mem_singleton.mp isOnly ▸ same
    obtain ⟨only, rfl⟩ :=
      List.length_eq_one_iff.mp
        (Nat.le_antisymm short (List.length_pos_of_mem inOthers))
    exact List.mem_singleton.mp inOthers ▸ same
  · rcases others with _ | ⟨other, _ | ⟨another, restOthers⟩⟩
    · obtain ⟨_, inNone, _⟩ := forth first List.mem_cons_self
      cases inNone
    · have short : (first :: second :: rest).length ≤ 1 := by
        apply length_le_one_of_same identifiable identifies
          (identifiesOthers other List.mem_cons_self) differ
        intro type inKept
        obtain ⟨only, isOnly, same⟩ := forth type inKept
        exact List.mem_singleton.mp isOnly ▸ same
      simp at short
    · intro levels
      cases levels with
      | zero => trivial
      | succ levels =>
          refine ⟨0, _, 0, _, .here rfl, .here rfl, .union ⟨?_, ?_⟩⟩
          · intro type inKept
            obtain ⟨other, inOthers, same⟩ := forth type inKept
            exact ⟨other, inOthers, turn inKept inOthers same levels⟩
          · intro other inOthers
            obtain ⟨type, inKept, same⟩ := back other inOthers
            have turned :=
              same.symm identifiable (identifiesOthers other inOthers)
                (identifies type inKept)
            exact ⟨type, inKept, turned levels⟩

/-- Contents that represent copies of the same offers are joined to look alike. -/
theorem Represents.join_same
    {offers offersOther : Ty → Prop}
    (represents : arena.Represents contents offers)
    (representsOther : arena.Represents others offersOther)
    (identifiable : arena.Identifiable)
    (holds : arena.Contents contents)
    (holdsOther : arena.Contents others)
    (forth :
      ∀ {offer},
        offers offer →
        ∃ copy, offersOther copy ∧ offer.form = copy.form)
    (back :
      ∀ {offer},
        offersOther offer →
        ∃ copy, offers copy ∧ offer.form = copy.form) :
    arena.Same (arena.joinMembers contents) (arena.joinMembers others) := by
  have primitives (kind : Primitive) :
      offers (.primitive kind) ↔ offersOther (.primitive kind) := by
    constructor
    · intro isOffer
      obtain ⟨copy, isOther, same⟩ := forth isOffer
      cases Ty.copied_of_form same with
      | primitive => exact isOther
    · intro isOther
      obtain ⟨copy, isOffer, same⟩ := back isOther
      cases Ty.copied_of_form same with
      | primitive => exact isOffer
  have sameAny : .any ∈ contents ↔ .any ∈ others :=
    (represents.any.trans (primitives .any)).trans representsOther.any.symm
  by_cases hasAny : .any ∈ contents
  · rw [holds.join_any hasAny, holdsOther.join_any (sameAny.mp hasAny)]
    exact Same.of_form identifiable identifies_primitive rfl
  have noAny : .any ∉ others := sameAny.not.mp hasAny
  have sameUnknown : .unknown ∈ contents ↔ .unknown ∈ others :=
    ((represents.unknown hasAny).trans (primitives .unknown)).trans
      (representsOther.unknown noAny).symm
  by_cases hasUnknown : .unknown ∈ contents
  · rw [holds.join_unknown hasAny hasUnknown,
      holdsOther.join_unknown noAny (sameUnknown.mp hasUnknown)]
    exact Same.of_form identifiable identifies_primitive rfl
  have noUnknown : .unknown ∉ others := sameUnknown.not.mp hasUnknown
  have identifies (content : Ty) (inContents : content ∈ contents) :=
    (holds.presents content inContents).identifies
  have identifiesOther (other : Ty) (inOthers : other ∈ others) :=
    (holdsOther.presents other inOthers).identifies
  have differ :=
    (foldl_appendUnique_same identifiable identifies
      (holds.decides hasAny hasUnknown)).1
  have othersDiffer :=
    (foldl_appendUnique_same identifiable identifiesOther
      (holdsOther.decides noAny noUnknown)).1
  rw [holds.join_distinct hasAny hasUnknown,
    holdsOther.join_distinct noAny noUnknown]
  apply ofDistinct_same identifiable _ _ differ othersDiffer
  · intro type isKept
    have inContents := mem_of_kept isKept
    obtain ⟨copy, isOther, same⟩ :=
      forth (represents.offered hasAny hasUnknown type inContents)
    exact representsOther.kept_of_copy identifiable holdsOther noAny noUnknown
      isOther (identifies type inContents) same
  · intro other isKept
    have inOthers := mem_of_kept isKept
    obtain ⟨copy, isOffer, same⟩ :=
      back (representsOther.offered noAny noUnknown other inOthers)
    exact represents.kept_of_copy identifiable holds hasAny hasUnknown isOffer
      (identifiesOther other inOthers) same
  · exact fun type isKept => identifies type (mem_of_kept isKept)
  · exact fun other isKept => identifiesOther other (mem_of_kept isKept)

end Arena

end StructuralTyping
