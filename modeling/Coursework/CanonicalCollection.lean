import Coursework.CanonicalItemSets

/-!
# The canonical collection

For a grammar file the construction ends with the canonical collection if the items
of set 0 belong to the closure of the start item and sets are shared only where the
closures agree.
-/

namespace Coursework.Grammar

open DottedItem

/-- The start item of the augmented grammar. -/
def startItem (start : Char) : DottedItem Char :=
  ⟨'\'', [], [start]⟩

theorem plain_of_isUpper {c : Char} (isUpper : c.isUpper = true) : Plain [c] := by
  constructor
  · intro member
    rw [List.mem_singleton] at member
    rw [← member] at isUpper
    cases isUpper
  · intro member
    exact ne_null_of_isUpper isUpper (List.mem_singleton.mp member).symm

/-- The items in the closure of the start item are plain. -/
theorem plain_closure {grammar : Char → List (List Char)} {start : Char}
    (plainSides : PlainSides grammar) (isUpper : start.isUpper = true) {item : DottedItem Char}
    (member : item ∈ closure (sides grammar) {startItem start}) : PlainItem item := by
  have closed : IsClosed (sides grammar) {item | PlainItem item} := by
    intro item _ symbol rest _ rhs isSide
    have plain := plainSides symbol rhs isSide
    exact ⟨ne_null_of_isUpper plain.2, by simp [Plain], plain.1⟩
  have isPlain : PlainItem (startItem start) :=
    ⟨by simp [startItem], by simp [Plain, startItem], plain_of_isUpper isUpper⟩
  have below : closure (sides grammar) {startItem start} ⊆ {item | PlainItem item} :=
    (closure _).closure_min (Set.singleton_subset_iff.mpr isPlain) (isClosed_iff.mpr closed)
  exact below member

/-- For every grammar file with fewer than 127 item sets the construction gives the
canonical collection if right sides are plain, set 0 starts within the closure of the start
item, and sets are shared only where the closures agree. -/
theorem canonical_collection {lines : List (List Char)} {tables : Tables} {start : Char}
    {others : List Char} (isRead : Tables.read lines = some tables)
    (isStart : tables.nonTerminal = start :: others)
    (few : Builder.FewSets tables.augmented tables.seeds)
    (plain : ∀ lhs, ∀ rhs ∈ tables.augmented lhs, Plain rhs)
    (seeded : ∀ seed ∈ tables.seeds, ∃ item ∈ closure (sides tables.augmented) {startItem start},
      seed = textOf item)
    (alike : Builder.AlikeRun tables.augmented tables.seeds) :
    Builder.EndsCanonical tables.augmented tables.seeds start := by
  have listed := Tables.listed_read isRead
  have isUpper : start.isUpper = true := listed.upper start (by simp [isStart])
  have plainSides : PlainSides tables.augmented := by
    intro symbol rhs member
    exact ⟨plain symbol rhs member, listed.upper _ (listed.sides _ (List.ne_nil_of_mem member))⟩
  have plainSeeds : ∀ seed ∈ tables.seeds, ∃ item, PlainItem item ∧ seed = textOf item := by
    intro seed member
    obtain ⟨item, inClosure, isSeed⟩ := seeded seed member
    exact ⟨item, plain_closure plainSides isUpper inClosure, isSeed⟩
  obtain ⟨grammar, describes⟩ := AugmentedGrammar.exists_read isRead
  have isLookup : grammar.lookup = tables.augmented := funext describes.lookup
  have startSeed : textOf (startItem start) ∈ tables.seeds :=
    (describes.start start others isStart).2
  have sameClosure : closure (sides tables.augmented)
      {item | PlainItem item ∧ textOf item ∈ tables.seeds} =
        closure (sides tables.augmented) {startItem start} := by
    apply closure_eq_of_between
    · rw [Set.singleton_subset_iff]
      exact ⟨plain_closure plainSides isUpper ((closure _).le_closure _ rfl), startSeed⟩
    · rintro item ⟨plainItem, member⟩
      obtain ⟨other, inClosure, same⟩ := seeded _ member
      exact textOf_injective plainItem same ▸ inClosure
  have numbers : ∀ builder, Visits Builder.finished (Builder.step tables.augmented asChar)
      (Builder.initial tables.seeds) builder → builder.finished = false → builder.NumberFits :=
    fun builder visits unfinished _ _ _ _ => (few builder visits unfinished).le
  obtain ⟨enough, builder, visits, isFinished, ends⟩ : ∃ enough builder,
      Visits Builder.finished (Builder.step tables.augmented asChar)
        (Builder.initial tables.seeds) builder ∧ builder.finished = true ∧
      ∀ fuel, enough ≤ fuel →
        Builder.construct tables.augmented asChar tables.seeds fuel = .ok builder := by
    rw [← isLookup, ← describes.seeds] at numbers ⊢
    exact Builder.construct_ends numbers
  have positive : 0 < builder.size := by
    rw [← isLookup, ← describes.seeds] at visits numbers
    exact (Builder.bounded_of_visits (Builder.visits_exactly numbers visits).1).positive
  have canon := Builder.canon_of_visits plainSides plainSeeds few alike visits
  have passed : builder.size ≤ builder.itemid := by simpa [Builder.finished] using isFinished
  have closed : ∀ n < builder.size,
      IsClosed (sides tables.augmented) (builder.lr0items n).items :=
    fun n below => canon.closed n (.inl (Nat.lt_of_lt_of_le below passed))
  refine ⟨enough, builder, ends, fun n _ => canon.plain n, closed, ?_, ?_⟩
  · rw [← closure_eq_of_isClosed (closed 0 positive), canon.origin, sameClosure]
    rfl
  · intro n below symbol nonempty
    have before := Nat.lt_of_lt_of_le below passed
    obtain ⟨target, isGoto⟩ := canon.served n before symbol nonempty
    have inRange := canon.tracked.target_lt isGoto
    refine ⟨target, inRange, isGoto, ?_⟩
    rw [← closure_eq_of_isClosed (closed target inRange)]
    exact canon.past n before symbol target isGoto

/-- A test for few sets none of which is shared. -/
def Builder.smallUnshared (builder : Builder) : Bool :=
  decide (builder.size < 127) &&
    match builder.phase, builder.current.productions[builder.i]? with
    | .scanning, some item => (builder.globalGoto item).isNone
    | _, _ => true

theorem Builder.reusesAlike_of_unshared {builder : Builder} {grammar : Char → List (List Char)}
    (tested : builder.smallUnshared = true) : builder.ReusesAlike grammar := by
  rintro item ⟨isPhase, found, -⟩ _ target isGlobal
  simp [smallUnshared, isPhase, found, isGlobal] at tested

/-- `S -> aB` and `B -> b`. -/
def nestedFile : List (List Char) :=
  ["a".toList, "b".toList, "S->aB".toList, "B->b".toList]

theorem canonical_collection_nestedFile : ∃ tables, Tables.read nestedFile = some tables ∧
    Builder.EndsCanonical tables.augmented tables.seeds 'S' := by
  let tables := (Tables.read nestedFile).getD .empty
  have isRead : Tables.read nestedFile = some tables := rfl
  have passed : testAll Builder.finished (Builder.step tables.augmented asChar)
      Builder.smallUnshared 60 (Builder.initial tables.seeds) = true := by decide +kernel
  have tested : ∀ builder, Visits Builder.finished (Builder.step tables.augmented asChar)
      (Builder.initial tables.seeds) builder → builder.finished = false →
      builder.smallUnshared = true :=
    fun builder visits unfinished => test_of_testAll passed visits unfinished
  have isStart : tables.nonTerminal = 'S' :: ['B'] := by decide +kernel
  refine ⟨tables, isRead, canonical_collection isRead isStart ?_ ?_ ?_ ?_⟩
  · intro builder visits unfinished
    have small := tested builder visits unfinished
    simp only [Builder.smallUnshared, Bool.and_eq_true, decide_eq_true_eq] at small
    exact small.1
  · intro lhs rhs member
    have listed : ∀ lhs ∈ ['S', 'B'], ∀ rhs ∈ tables.augmented lhs, '.' ∉ rhs ∧ '\x00' ∉ rhs := by
      decide +kernel
    have inFile := (Tables.listed_read isRead).sides lhs (List.ne_nil_of_mem member)
    exact listed lhs (isStart ▸ inFile) rhs member
  · intro seed member
    have only : tables.seeds = [textOf (startItem 'S')] := by decide +kernel
    rw [only, List.mem_singleton] at member
    exact ⟨startItem 'S', (closure _).le_closure _ rfl, member⟩
  · intro builder visits unfinished
    exact Builder.reusesAlike_of_unshared (tested builder visits unfinished)

/-- The goto of the set 2 for `x` is the set 5, which has an item of `C`. -/
def Builder.mixesItems (builder : Builder) : Bool :=
  decide (builder.size = 11 ∧ (builder.lr0items 2).gotos 'x' = some 5 ∧
    (builder.lr0items 2).productions = [('S', "a.A".toList), ('A', ".xy".toList)] ∧
    ('C', "x.yz".toList) ∈ (builder.lr0items 5).productions)

theorem Builder.not_canonical_of_mixesItems {builder : Builder}
    {grammar : Char → List (List Char)} {start : Char} (mixes : builder.mixesItems = true)
    (noSides : grammar 'y' = []) : ¬ builder.Canonical grammar start := by
  intro canonical
  obtain ⟨size, isGoto, isSet, member⟩ := of_decide_eq_true mixes
  have foreign : (⟨'C', ['x'], ['y', 'z']⟩ : DottedItem Char) ∈ (builder.lr0items 5).items :=
    ⟨⟨by simp, by simp [Plain], by simp [Plain]⟩, member⟩
  have inSet : (⟨'A', [], ['x', 'y']⟩ : DottedItem Char) ∈ (builder.lr0items 2).items := by
    refine ⟨⟨by simp, by simp [Plain], by simp [Plain]⟩, ?_⟩
    rw [isSet]
    decide
  have only : kernel (builder.lr0items 2).items 'x' ⊆ {⟨'A', ['x'], ['y']⟩} := by
    rintro _ ⟨item, ⟨plain, isText⟩, rest, isNext, rfl⟩
    rw [isSet, List.mem_cons, List.mem_singleton] at isText
    rcases isText with isText | isText
    · have same : item = ⟨'S', ['a'], ['A']⟩ := textOf_injective plain isText
      rw [same] at isNext
      cases isNext
    · have same : item = ⟨'A', [], ['x', 'y']⟩ := textOf_injective plain isText
      subst same
      cases isNext
      rfl
  have closed : IsClosed (sides grammar) {⟨'A', ['x'], ['y']⟩} := by
    rintro _ rfl symbol rest isNext rhs isSide
    cases isNext
    rw [sides, noSides] at isSide
    cases isSide
  obtain ⟨target, -, isTarget, isClosure⟩ :=
    canonical.gotos 2 (by omega) 'x' ⟨_, _, inSet, _, rfl, rfl⟩
  have isFive : 5 = target := Int.ofNat.inj (Option.some.inj (isGoto.symm.trans isTarget))
  subst isFive
  rw [isClosure] at foreign
  have among := (closure (sides grammar)).closure_min only (isClosed_iff.mpr closed) foreign
  cases among

/-- The set for `A->x.y` is shared and gets an item that does not belong to it. -/
theorem sharedItem_not_canonical : ∃ tables, Tables.read sharedItem = some tables ∧
    ¬ Builder.EndsCanonical tables.augmented tables.seeds 'S' := by
  obtain ⟨tables, isRead⟩ : ∃ tables, Tables.read sharedItem = some tables :=
    Option.isSome_iff_exists.mp (by decide)
  refine ⟨tables, isRead, ?_⟩
  have noSides : (Tables.read sharedItem).map (fun tables => tables.augmented 'y') = some [] := by
    decide +kernel
  have mixed : (Tables.read sharedItem).map (fun tables =>
      (Builder.construct tables.augmented asChar tables.seeds 150).toOption.map
        Builder.mixesItems) = some (some true) := by decide +kernel
  rw [isRead, Option.map_some, Option.some.injEq] at noSides
  rw [isRead, Option.map_some, Option.some.injEq] at mixed
  rintro ⟨enough, builder, ends, canonical⟩
  have mixes := Builder.tested_of_construct ends mixed
  exact Builder.not_canonical_of_mixesItems mixes noSides canonical

end Coursework.Grammar
