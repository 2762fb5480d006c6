import Coursework.ItemTexts

/-!
# Item sets and closures

The item sets of the construction, compared with the closures and kernels of LR(0)
items.  A set is shared through one item: where `globalGoto` has an entry for the
item that is scanned first, the set of that entry is taken, whatever else the two
sets have.  If in every such step the kernels have the same closure, then a goto
leads to a set that has the right closure, or to a new set that has only moved
items, and at the end of the scan to the right one.
-/

namespace Coursework.Grammar

open DottedItem

namespace Builder

variable {grammar : Char → List (List Char)} {builder after : Builder}

/-- The sets are closed, set 0 is the closure of the start item, and the goto for a symbol
is the closure of the items with the dot moved over it. -/
structure Canonical (grammar : Char → List (List Char)) (start : Char) (builder : Builder) :
    Prop where
  plain : ∀ n < builder.size, (builder.lr0items n).AllPlain
  closed : ∀ n < builder.size, IsClosed (sides grammar) (builder.lr0items n).items
  start : (builder.lr0items 0).items = closure (sides grammar) {⟨'\'', [], [start]⟩}
  gotos : ∀ n < builder.size, ∀ symbol, (kernel (builder.lr0items n).items symbol).Nonempty →
    ∃ target < builder.size, (builder.lr0items n).gotos symbol = some (target : Int) ∧
      (builder.lr0items target).items =
        closure (sides grammar) (kernel (builder.lr0items n).items symbol)

/-- A set is taken from `globalGoto` only where its items and the moved items have the same
closure. -/
def ReusesAlike (grammar : Char → List (List Char)) (builder : Builder) : Prop :=
  ∀ item, builder.Scans item → builder.current.gotos (lookahead item.2) = none →
    ∀ target, builder.globalGoto item = some target →
      closure (sides grammar) (builder.lr0items target).items =
        closure (sides grammar) (kernel builder.current.items (lookahead item.2))

/-- A goto of the current set leads to a set with the right closure, or to a set that was
made for it. -/
def LeadsRight (grammar : Char → List (List Char)) (builder : Builder) (symbol : Char)
    (target : Nat) : Prop :=
  closure (sides grammar) (builder.lr0items target).items =
      closure (sides grammar) (kernel builder.current.items symbol) ∨
    (builder.itemid < target ∧
      (∀ n < builder.itemid, ∀ other, (builder.lr0items n).gotos other ≠ some (target : Int)) ∧
      (builder.lr0items target).items ⊆ kernel builder.current.items symbol)

structure Canon (grammar : Char → List (List Char)) (seeds : Set (DottedItem Char))
    (builder : Builder) : Prop where
  tracked : builder.Tracked
  plain : ∀ n, (builder.lr0items n).AllPlain
  closed : ∀ n, n < builder.itemid ∨ (n = builder.itemid ∧ builder.phase = .scanning) →
    IsClosed (sides grammar) (builder.lr0items n).items
  closing : builder.phase = .closing → ∀ j < builder.i, ∀ item, PlainItem item →
    builder.current.productions[j]? = some (textOf item) →
    ∀ symbol rest, item.rest = symbol :: rest → ∀ rhs ∈ grammar symbol,
      ⟨symbol, [], rhs⟩ ∈ builder.current.items
  origin : closure (sides grammar) (builder.lr0items 0).items = closure (sides grammar) seeds
  keyed : ∀ n symbol, ∀ target : Nat, (builder.lr0items n).gotos symbol = some (target : Int) →
    ∃ item, builder.globalGoto item = some target ∧ lookahead item.2 = symbol
  unique : ∀ first second n, builder.globalGoto first = some n →
    builder.globalGoto second = some n → first = second
  past : ∀ n < builder.itemid, ∀ symbol, ∀ target : Nat,
    (builder.lr0items n).gotos symbol = some (target : Int) →
    closure (sides grammar) (builder.lr0items target).items =
      closure (sides grammar) (kernel (builder.lr0items n).items symbol)
  served : ∀ n < builder.itemid, ∀ symbol, (kernel (builder.lr0items n).items symbol).Nonempty →
    ∃ target : Nat, (builder.lr0items n).gotos symbol = some (target : Int)
  present : builder.phase = .scanning → ∀ symbol, ∀ target : Nat,
    builder.current.gotos symbol = some (target : Int) → builder.LeadsRight grammar symbol target

/-- The item that is scanned, and its move. -/
theorem Scans.dotted (plain : builder.current.AllPlain) {item : Item}
    (isScanned : builder.Scans item) :
    ∃ dotted rest, PlainItem dotted ∧ item = textOf dotted ∧
      dotted.rest = lookahead item.2 :: rest ∧ dotted ∈ builder.current.items ∧
      PlainItem ⟨dotted.lhs, dotted.done ++ [lookahead item.2], rest⟩ ∧
      item.moved = textOf ⟨dotted.lhs, dotted.done ++ [lookahead item.2], rest⟩ := by
  obtain ⟨-, found, isSymbol⟩ := isScanned
  have member := List.mem_of_getElem? found
  obtain ⟨dotted, plainDotted, rfl⟩ := plain item member
  rw [lookahead_textOf plainDotted] at isSymbol ⊢
  cases isNext : dotted.rest with
  | nil => exact (isSymbol (by rw [isNext]; rfl)).elim
  | cons symbol rest =>
      exact ⟨dotted, rest, plainDotted, rfl, isNext, ⟨plainDotted, member⟩,
        plainDotted.moved isNext, moved_textOf plainDotted isNext⟩

namespace Canon

variable {seeds : Set (DottedItem Char)}

theorem start {texts : List Item} (plain : ∀ item ∈ texts, ∃ dotted, PlainItem dotted ∧
      item = textOf dotted) :
    (initial texts).Canon grammar {item | PlainItem item ∧ textOf item ∈ texts} := by
  have noGotos := (Tracked.start texts).waiting
  constructor
  · exact .start texts
  · intro n item member
    simp only [initial] at member
    split at member
    · exact plain item member
    · cases member
  · rintro n (before | ⟨-, isScanning⟩)
    · cases before
    · cases isScanning
  · intro _ j before
    cases before
  · rfl
  · intro n symbol target isGoto
    simp only [initial] at isGoto
    split at isGoto <;> cases isGoto
  · intro first second n isEntry
    cases isEntry
  · intro n before
    cases before
  · intro n before
    cases before
  · intro isScanning
    cases isScanning

/-- A goto back leads to a set that has the moved item. -/
theorem moved_mem (canon : builder.Canon grammar seeds) {item : Item} {n : Nat}
    (isScanned : builder.Scans item)
    (isGoto : builder.current.gotos (lookahead item.2) = some (n : Int))
    (back : n ≤ builder.itemid) : (builder.lr0items n).contains item.moved = true := by
  obtain ⟨dotted, rest, plain, isItem, isNext, member, plainMoved, isMoved⟩ :=
    isScanned.dotted (canon.plain _)
  have isClosed : IsClosed (sides grammar) (builder.lr0items n).items := by
    apply canon.closed
    rcases Nat.lt_or_eq_of_le back with before | same
    · exact .inl before
    · exact .inr ⟨same, isScanned.1⟩
  have right : closure (sides grammar) (builder.lr0items n).items =
      closure (sides grammar) (kernel builder.current.items (lookahead item.2)) := by
    rcases canon.present isScanned.1 _ n isGoto with right | ⟨later, -⟩
    · exact right
    · omega
  rw [isMoved, ItemSet.contains_iff (canon.plain n) plainMoved,
    ← closure_eq_of_isClosed isClosed, right]
  exact (closure _).le_closure _ ⟨dotted, member, rest, isNext, rfl⟩

theorem addsInTime (canon : builder.Canon grammar seeds) : builder.AddsInTime :=
  fun _ isScanned _ isGoto before => .inl (canon.moved_mem isScanned isGoto before.le)

/-- The closure of the current set stays while productions are added. -/
theorem close (canon : builder.Canon grammar seeds) (isPhase : builder.phase = .closing)
    (plainSides : PlainSides grammar) {item : Item}
    (found : builder.current.productions[builder.i]? = some item)
    (tracked : (builder.updateSet builder.itemid
      (builder.current.addClosure grammar (lookahead item.2))).next.Tracked) :
    (builder.updateSet builder.itemid
      (builder.current.addClosure grammar (lookahead item.2))).next.Canon grammar seeds := by
  obtain ⟨dotted, plain, rfl⟩ := canon.plain _ item (List.mem_of_getElem? found)
  have allPlain : builder.current.AllPlain := canon.plain builder.itemid
  have member : dotted ∈ builder.current.items := ⟨plain, List.mem_of_getElem? found⟩
  have within := ItemSet.addClosure_subset allPlain plainSides member
  have isItems : (builder.current.addClosure grammar (lookahead (textOf dotted).2)).items = _ :=
    ItemSet.items_addClosure allPlain plainSides
  have inSet : builder.i < builder.current.productions.length :=
    (List.getElem?_eq_some_iff.mp found).1
  have places : ∀ j < builder.i + 1,
      (builder.current.addClosure grammar (lookahead (textOf dotted).2)).productions[j]? =
        builder.current.productions[j]? :=
    fun j before => ItemSet.getElem?_addClosure (by omega)
  have plainAfter : (builder.current.addClosure grammar (lookahead (textOf dotted).2)).AllPlain :=
    allPlain.addClosure plainSides
  have sameGotos : (builder.current.addClosure grammar (lookahead (textOf dotted).2)).gotos =
      builder.current.gotos := ItemSet.gotos_addClosure
  generalize builder.current.addClosure grammar (lookahead (textOf dotted).2) = set' at *
  have here : (builder.updateSet builder.itemid set').next.lr0items builder.itemid = set' := by
    simp
  have elsewhere : ∀ n, n ≠ builder.itemid →
      (builder.updateSet builder.itemid set').next.lr0items n = builder.lr0items n := by
    intro n distinct
    simp [distinct]
  have grows : builder.current.items ⊆ set'.items := by
    rw [isItems]
    exact Set.subset_union_left
  have closures : ∀ n, closure (sides grammar)
      ((builder.updateSet builder.itemid set').next.lr0items n).items =
        closure (sides grammar) (builder.lr0items n).items := by
    intro n
    by_cases same : n = builder.itemid
    · subst same
      rw [here]
      exact closure_eq_of_between grows within
    · rw [elsewhere n same]
  refine ⟨tracked, ?_, ?_, ?_, (closures 0).trans canon.origin, ?_, canon.unique, ?_, ?_, ?_⟩
  · intro n
    by_cases same : n = builder.itemid
    · rw [same, here]
      exact plainAfter
    · rw [elsewhere n same]
      exact canon.plain n
  · rintro n (before | ⟨-, isScanning⟩)
    · rw [elsewhere n (Nat.ne_of_lt before)]
      exact canon.closed n (.inl before)
    · cases isPhase.symm.trans isScanning
  · intro _ j before other plainOther isOther symbol rest isNext rhs isSide
    have isCurrent : (builder.updateSet builder.itemid set').next.current = set' := here
    rw [isCurrent] at isOther ⊢
    rw [places j before] at isOther
    rcases Nat.lt_succ_iff_lt_or_eq.mp before with earlier | isLast
    · exact grows (canon.closing isPhase j earlier other plainOther isOther symbol rest isNext rhs
        isSide)
    · have isLast : j = builder.i := isLast
      rw [isLast, found] at isOther
      cases textOf_injective plain (Option.some.inj isOther)
      rw [isItems, lookahead_textOf plain, isNext]
      exact .inr ⟨rhs, isSide, rfl⟩
  · intro n symbol target isGoto
    by_cases same : n = builder.itemid
    · rw [same, here, sameGotos] at isGoto
      exact canon.keyed builder.itemid symbol target isGoto
    · rw [elsewhere n same] at isGoto
      exact canon.keyed n symbol target isGoto
  · intro n before symbol target isGoto
    rw [elsewhere n (Nat.ne_of_lt before)] at isGoto ⊢
    rw [closures]
    exact canon.past n before symbol target isGoto
  · intro n before symbol
    rw [elsewhere n (Nat.ne_of_lt before)]
    exact canon.served n before symbol
  · intro isScanning
    cases isPhase.symm.trans isScanning

/-- The goto of the item that is scanned is assigned. -/
theorem assign (canon : builder.Canon grammar seeds) {item : Item} {target : Nat}
    (isScanned : builder.Scans item) (isEntry : builder.globalGoto item = some target)
    (right : builder.LeadsRight grammar (lookahead item.2) target)
    (tracked : (builder.setGoto (lookahead item.2) target).next.Tracked) :
    (builder.setGoto (lookahead item.2) target).next.Canon grammar seeds := by
  have productions : ∀ n,
      ((builder.setGoto (lookahead item.2) target).next.lr0items n).productions =
        (builder.lr0items n).productions := by
    intro n
    by_cases same : n = builder.itemid
    · simp [same, Builder.setGoto, current, ItemSet.setGoto]
    · simp [same, Builder.setGoto]
  have items : ∀ n, ((builder.setGoto (lookahead item.2) target).next.lr0items n).items =
      (builder.lr0items n).items := by
    intro n
    simp only [ItemSet.items, productions]
  have elsewhere : ∀ n, n ≠ builder.itemid →
      ((builder.setGoto (lookahead item.2) target).next.lr0items n).gotos =
        (builder.lr0items n).gotos := by
    intro n distinct
    simp [distinct, Builder.setGoto]
  have here : ((builder.setGoto (lookahead item.2) target).next.lr0items builder.itemid).gotos =
      Function.update builder.current.gotos (lookahead item.2) (some (target : Int)) := by
    simp [Builder.setGoto, ItemSet.setGoto]
  have leads : ∀ symbol, ∀ other : Nat, builder.LeadsRight grammar symbol other →
      (builder.setGoto (lookahead item.2) target).next.LeadsRight grammar symbol other := by
    rintro symbol other (same | ⟨later, unused, within⟩)
    · left
      rw [current, items, items]
      exact same
    · right
      refine ⟨later, ?_, ?_⟩
      · intro n before
        rw [elsewhere n (Nat.ne_of_lt before)]
        exact unused n before
      · rw [current, items, items]
        exact within
  constructor
  · exact tracked
  · intro n
    rw [ItemSet.AllPlain, productions]
    exact canon.plain n
  · intro n isSettled
    rw [items]
    exact canon.closed n isSettled
  · intro isClosing
    cases isScanned.1.symm.trans isClosing
  · rw [items]
    exact canon.origin
  · intro n symbol other isGoto
    by_cases same : n = builder.itemid
    · rw [same, here, Function.update_apply] at isGoto
      split at isGoto
      · next isLookahead =>
          have isTarget : target = other := Int.ofNat.inj (Option.some.inj isGoto)
          exact ⟨item, isTarget ▸ isEntry, isLookahead.symm⟩
      · exact canon.keyed builder.itemid symbol other isGoto
    · rw [elsewhere n same] at isGoto
      exact canon.keyed n symbol other isGoto
  · exact canon.unique
  · intro n before symbol other isGoto
    rw [elsewhere n (Nat.ne_of_lt before)] at isGoto
    rw [items, items]
    exact canon.past n before symbol other isGoto
  · intro n before symbol
    rw [items, elsewhere n (Nat.ne_of_lt before)]
    exact canon.served n before symbol
  · intro _ symbol other isGoto
    apply leads
    have isGoto : Function.update builder.current.gotos (lookahead item.2) (some (target : Int))
        symbol = some (other : Int) := (congrFun here symbol).symm.trans isGoto
    rw [Function.update_apply] at isGoto
    split at isGoto
    · next isLookahead =>
        have isTarget : target = other := Int.ofNat.inj (Option.some.inj isGoto)
        exact isTarget ▸ isLookahead ▸ right
    · exact canon.present isScanned.1 symbol other isGoto

/-- A new set for an item. -/
theorem push (canon : builder.Canon grammar seeds) (unfinished : builder.itemid < builder.size)
    {item : Item} (isScanned : builder.Scans item) (isNew : builder.globalGoto item = none) :
    ((builder.pushBack (ItemSet.new.push item.moved)).setGlobalGoto item builder.size).Canon
      grammar seeds := by
  obtain ⟨dotted, rest, -, -, -, -, plainMoved, isMoved⟩ := isScanned.dotted (canon.plain _)
  have tracked := canon.tracked
  have old : ∀ n, n ≠ builder.size →
      ((builder.pushBack (ItemSet.new.push item.moved)).setGlobalGoto item builder.size).lr0items
        n = builder.lr0items n := by
    intro n distinct
    simp [distinct]
  have new : ((builder.pushBack (ItemSet.new.push item.moved)).setGlobalGoto item
      builder.size).lr0items builder.size = ItemSet.new.push item.moved := by
    simp
  have isCurrent : ((builder.pushBack (ItemSet.new.push item.moved)).setGlobalGoto item
      builder.size).current = builder.current := old _ (Nat.ne_of_lt unfinished)
  have below : ∀ {n symbol} {target : Nat},
      (builder.lr0items n).gotos symbol = some (target : Int) → target ≠ builder.size :=
    fun isGoto => Nat.ne_of_lt (tracked.target_lt isGoto)
  constructor
  · exact tracked.push unfinished item
  · intro n
    by_cases same : n = builder.size
    · rw [same, new]
      intro other member
      rw [List.mem_singleton.mp member]
      exact ⟨_, plainMoved, isMoved⟩
    · rw [old n same]
      exact canon.plain n
  · intro n isSettled
    have distinct : n ≠ builder.size := by
      rcases isSettled with before | ⟨same, -⟩
      · exact Nat.ne_of_lt (Nat.lt_trans before unfinished)
      · exact same ▸ Nat.ne_of_lt unfinished
    rw [old n distinct]
    exact canon.closed n isSettled
  · intro isClosing
    cases isScanned.1.symm.trans isClosing
  · rw [old 0 (by omega)]
    exact canon.origin
  · intro n symbol target isGoto
    have distinct : n ≠ builder.size := by
      rintro rfl
      rw [new] at isGoto
      cases isGoto
    rw [old n distinct] at isGoto
    obtain ⟨key, isKey, isLookahead⟩ := canon.keyed n symbol target isGoto
    refine ⟨key, ?_, isLookahead⟩
    simp only [setGlobalGoto_globalGoto, pushBack_globalGoto, Function.update_apply]
    split
    · next isItem =>
        rw [isItem, isNew] at isKey
        cases isKey
    · exact isKey
  · intro first second n isFirst isSecond
    simp only [setGlobalGoto_globalGoto, pushBack_globalGoto, Function.update_apply]
      at isFirst isSecond
    split at isFirst <;> split at isSecond
    · next one two => exact one.trans two.symm
    · cases isFirst
      exact absurd (tracked.keys second _ isSecond).1 (lt_irrefl _)
    · cases isSecond
      exact absurd (tracked.keys first _ isFirst).1 (lt_irrefl _)
    · exact canon.unique first second n isFirst isSecond
  · intro n before symbol target isGoto
    have distinct : n ≠ builder.size := Nat.ne_of_lt (Nat.lt_trans before unfinished)
    rw [old n distinct] at isGoto ⊢
    rw [old target (below isGoto)]
    exact canon.past n before symbol target isGoto
  · intro n before symbol
    rw [old n (Nat.ne_of_lt (Nat.lt_trans before unfinished))]
    exact canon.served n before symbol
  · intro isPhase symbol target isGoto
    rw [isCurrent] at isGoto
    rcases canon.present isPhase symbol target isGoto with same | ⟨later, unused, within⟩
    · left
      rw [isCurrent, old target (below isGoto)]
      exact same
    · right
      refine ⟨later, ?_, ?_⟩
      · intro n before
        rw [old n (Nat.ne_of_lt (Nat.lt_trans before unfinished))]
        exact unused n before
      · rw [isCurrent, old target (below isGoto)]
        exact within

/-- The moved item is added to a set that comes later. -/
theorem extend (canon : builder.Canon grammar seeds) {item : Item} {n : Nat}
    (isScanned : builder.Scans item)
    (isGoto : builder.current.gotos (lookahead item.2) = some (n : Int))
    (later : builder.itemid < n)
    (tracked : (builder.updateSet n ((builder.lr0items n).add item.moved)).next.Tracked) :
    (builder.updateSet n ((builder.lr0items n).add item.moved)).next.Canon grammar seeds := by
  obtain ⟨dotted, rest, plain, isItem, isNext, member, plainMoved, isMoved⟩ :=
    isScanned.dotted (canon.plain _)
  have inKernel : ⟨dotted.lhs, dotted.done ++ [lookahead item.2], rest⟩ ∈
      kernel builder.current.items (lookahead item.2) := ⟨dotted, member, rest, isNext, rfl⟩
  rw [isMoved] at tracked ⊢
  have plainAfter := (canon.plain n).add plainMoved
  have isItems := ItemSet.items_add (canon.plain n) plainMoved
  have sameGotos : ((builder.lr0items n).add (textOf ⟨dotted.lhs,
      dotted.done ++ [lookahead item.2], rest⟩)).gotos = (builder.lr0items n).gotos :=
    ItemSet.gotos_add
  generalize (builder.lr0items n).add (textOf ⟨dotted.lhs, dotted.done ++ [lookahead item.2],
    rest⟩) = set' at *
  have here : (builder.updateSet n set').next.lr0items n = set' := by
    simp
  have elsewhere : ∀ m, m ≠ n →
      (builder.updateSet n set').next.lr0items m = builder.lr0items m := by
    intro m distinct
    simp [distinct]
  have isCurrent : (builder.updateSet n set').next.current = builder.current :=
    elsewhere _ (Nat.ne_of_lt later)
  have gotos : ∀ m, ((builder.updateSet n set').next.lr0items m).gotos =
      (builder.lr0items m).gotos := by
    intro m
    by_cases same : m = n
    · rw [same, here, sameGotos]
    · rw [elsewhere m same]
  -- a set that others refer to gets nothing that its closure lacks
  have absorbed : closure (sides grammar) (builder.lr0items n).items =
      closure (sides grammar) (kernel builder.current.items (lookahead item.2)) →
        closure (sides grammar) set'.items =
          closure (sides grammar) (builder.lr0items n).items := by
    intro same
    rw [isItems]
    apply closure_eq_of_between (Set.subset_insert _ _)
    apply Set.insert_subset _ ((closure _).le_closure _)
    rw [same]
    exact (closure _).le_closure _ inKernel
  refine ⟨tracked, ?_, ?_, ?_, ?_, ?_, canon.unique, ?_, ?_, ?_⟩
  · intro m
    by_cases same : m = n
    · rw [same, here]
      exact plainAfter
    · rw [elsewhere m same]
      exact canon.plain m
  · intro m isSettled
    have distinct : m ≠ n := by
      rcases isSettled with before | ⟨same, -⟩
      · exact Nat.ne_of_lt (Nat.lt_trans before later)
      · exact same ▸ Nat.ne_of_lt later
    rw [elsewhere m distinct]
    exact canon.closed m isSettled
  · intro isClosing
    cases isScanned.1.symm.trans isClosing
  · rw [elsewhere 0 (by omega)]
    exact canon.origin
  · intro m symbol target isOther
    rw [gotos] at isOther
    exact canon.keyed m symbol target isOther
  · intro m before symbol target isOther
    rw [gotos] at isOther
    rw [elsewhere m (Nat.ne_of_lt (Nat.lt_trans before later))]
    by_cases same : target = n
    · subst same
      rcases canon.present isScanned.1 _ target isGoto with equal | ⟨-, unused, -⟩
      · rw [here, absorbed equal]
        exact canon.past m before symbol target isOther
      · exact (unused m before symbol isOther).elim
    · rw [elsewhere target same]
      exact canon.past m before symbol target isOther
  · intro m before symbol
    rw [elsewhere m (Nat.ne_of_lt (Nat.lt_trans before later))]
    exact canon.served m before symbol
  · intro isPhase symbol target isOther
    rw [isCurrent] at isOther
    have leads := canon.present isPhase symbol target isOther
    by_cases same : target = n
    · subst same
      obtain ⟨first, isFirst, ofFirst⟩ := canon.keyed _ _ _ isOther
      obtain ⟨second, isSecond, ofSecond⟩ := canon.keyed _ _ _ isGoto
      have sameSymbol : symbol = lookahead item.2 := by
        rw [← ofFirst, ← ofSecond, canon.unique first second target isFirst isSecond]
      subst sameSymbol
      unfold LeadsRight
      rw [here, isCurrent]
      rcases leads with equal | ⟨-, unused, within⟩
      · exact .inl ((absorbed equal).trans equal)
      · right
        refine ⟨later, ?_, ?_⟩
        · intro m before
          rw [gotos]
          exact unused m before
        · rw [isItems]
          exact Set.insert_subset inKernel within
    · unfold LeadsRight
      rw [elsewhere target same, isCurrent]
      rcases leads with equal | ⟨after, unused, within⟩
      · exact .inl equal
      · refine .inr ⟨after, ?_, within⟩
        intro m before
        rw [gotos]
        exact unused m before

/-- At the end of the scan every item is accounted for. -/
theorem moved_scanned (canon : builder.Canon grammar seeds) (isPhase : builder.phase = .scanning)
    (atEnd : builder.current.productions[builder.i]? = none) {item : DottedItem Char}
    (member : item ∈ builder.current.items) {symbol : Char} {rest : List Char}
    (isNext : item.rest = symbol :: rest) :
    ∃ target : Nat, builder.current.gotos symbol = some (target : Int) ∧
      ⟨item.lhs, item.done ++ [symbol], rest⟩ ∈ (builder.lr0items target).items := by
  obtain ⟨plain, isText⟩ := member
  obtain ⟨j, isIndex⟩ := List.getElem?_of_mem isText
  have isLookahead : lookahead (textOf item).2 = symbol := by
    rw [lookahead_textOf plain, isNext]
    rfl
  have isSymbol : symbol ≠ '\x00' := by
    have plainRest := plain.rest.2
    rw [isNext, List.mem_cons, not_or] at plainRest
    exact Ne.symm plainRest.1
  have inSet := (List.getElem?_eq_some_iff.mp isIndex).1
  have length := List.getElem?_eq_none_iff.mp atEnd
  obtain ⟨target, isGoto, contained⟩ := canon.tracked.scanned isPhase j
    (Nat.lt_of_lt_of_le inSet length) (textOf item) isIndex (isLookahead.symm ▸ isSymbol)
  rw [isLookahead] at isGoto
  rw [moved_textOf plain isNext,
    ItemSet.contains_iff (canon.plain target) (plain.moved isNext)] at contained
  exact ⟨target, isGoto, contained⟩

theorem served_current (canon : builder.Canon grammar seeds) (isPhase : builder.phase = .scanning)
    (atEnd : builder.current.productions[builder.i]? = none) {symbol : Char}
    (nonempty : (kernel builder.current.items symbol).Nonempty) :
    ∃ target : Nat, builder.current.gotos symbol = some (target : Int) := by
  obtain ⟨_, item, member, rest, isNext, rfl⟩ := nonempty
  obtain ⟨target, isGoto, -⟩ := canon.moved_scanned isPhase atEnd member isNext
  exact ⟨target, isGoto⟩

/-- At the end of the scan the kernels are complete. -/
theorem complete (canon : builder.Canon grammar seeds) (isPhase : builder.phase = .scanning)
    (atEnd : builder.current.productions[builder.i]? = none) {symbol : Char} {target : Nat}
    (isGoto : builder.current.gotos symbol = some (target : Int)) :
    closure (sides grammar) (builder.lr0items target).items =
      closure (sides grammar) (kernel builder.current.items symbol) := by
  rcases canon.present isPhase symbol target isGoto with same | ⟨-, -, within⟩
  · exact same
  · have whole : kernel builder.current.items symbol ⊆ (builder.lr0items target).items := by
      rintro _ ⟨item, member, rest, isNext, rfl⟩
      obtain ⟨other, isOther, moved⟩ := canon.moved_scanned isPhase atEnd member isNext
      have same : other = target := Int.ofNat.inj (Option.some.inj (isOther.symm.trans isGoto))
      exact same ▸ moved
    rw [Set.Subset.antisymm within whole]

theorem step (canon : builder.Canon grammar seeds) (plainSides : PlainSides grammar)
    (unfinished : builder.finished = false) (alike : builder.ReusesAlike grammar)
    (isStep : Step grammar exactly builder after) : after.Canon grammar seeds := by
  have inRange : builder.itemid < builder.size := by simpa [finished] using unfinished
  have tracked := canon.tracked.step unfinished canon.addsInTime isStep
  cases isStep with
  | close isPhase found => exact canon.close isPhase plainSides found tracked
  | closed isPhase found =>
      refine ⟨tracked, canon.plain, ?_, ?_, canon.origin, canon.keyed, canon.unique, canon.past,
        canon.served, ?_⟩
      · rintro n (before | ⟨rfl, -⟩)
        · exact canon.closed n (.inl before)
        · rintro item ⟨plain, member⟩ symbol rest isNext rhs isSide
          obtain ⟨j, isIndex⟩ := List.getElem?_of_mem member
          have inSet := (List.getElem?_eq_some_iff.mp isIndex).1
          have length := List.getElem?_eq_none_iff.mp found
          exact canon.closing isPhase j (Nat.lt_of_lt_of_le inSet length) item plain isIndex symbol
            rest isNext rhs isSide
      · intro isClosing
        cases isClosing
      · intro _ symbol target isGoto
        have noGoto := canon.tracked.waiting builder.itemid (.inr ⟨rfl, isPhase⟩) symbol
        cases noGoto.symm.trans isGoto
  | skip isPhase found isNull =>
      refine ⟨tracked, canon.plain, canon.closed, ?_, canon.origin, canon.keyed, canon.unique,
        canon.past, canon.served, canon.present⟩
      intro isClosing
      cases isPhase.symm.trans isClosing
  | @create item isPhase found isSymbol noGoto noGlobal =>
      have isScanned : builder.Scans item := ⟨isPhase, found, isSymbol⟩
      have isCurrent : ((builder.pushBack (ItemSet.new.push item.moved)).setGlobalGoto item
          builder.size).current = builder.current := by
        simp [current, Nat.ne_of_lt inRange]
      apply (canon.push inRange isScanned noGlobal).assign _ _ _ tracked
      · exact ⟨isPhase, isCurrent.symm ▸ found, isSymbol⟩
      · simp
      · obtain ⟨dotted, rest, -, -, isNext, member, plainMoved, isMoved⟩ :=
          isScanned.dotted (canon.plain _)
        refine .inr ⟨inRange, ?_, ?_⟩
        · intro n before other isGoto
          have distinct : n ≠ builder.size := Nat.ne_of_lt (Nat.lt_trans before inRange)
          simp only [setGlobalGoto_lr0items, pushBack_lr0items, Function.update_of_ne distinct]
            at isGoto
          exact absurd (canon.tracked.target_lt isGoto) (lt_irrefl _)
        · rintro other ⟨plainOther, isOther⟩
          simp only [setGlobalGoto_lr0items, pushBack_lr0items, Function.update_self] at isOther
          rw [isMoved] at isOther
          rw [isCurrent, textOf_injective plainOther (List.mem_singleton.mp isOther)]
          exact ⟨dotted, member, rest, isNext, rfl⟩
  | @reuse item target isPhase found isSymbol noGoto isGlobal =>
      have isScanned : builder.Scans item := ⟨isPhase, found, isSymbol⟩
      exact canon.assign isScanned isGlobal
        (.inl (alike item isScanned noGoto target isGlobal)) tracked
  | @extend item n isPhase found isSymbol isGoto below =>
      have isScanned : builder.Scans item := ⟨isPhase, found, isSymbol⟩
      by_cases back : n ≤ builder.itemid
      · have same : (builder.lr0items n).add item.moved = builder.lr0items n := by
          rw [ItemSet.add, if_pos (canon.moved_mem isScanned isGoto back)]
        have unchanged : builder.updateSet n (builder.lr0items n) = builder := by
          simp [updateSet]
        rw [same, unchanged] at tracked ⊢
        refine ⟨tracked, canon.plain, canon.closed, ?_, canon.origin, canon.keyed, canon.unique,
          canon.past, canon.served, canon.present⟩
        intro isClosing
        cases isPhase.symm.trans isClosing
      · exact canon.extend isScanned isGoto (by omega) tracked
  | scanned isPhase found =>
      refine ⟨tracked, canon.plain, ?_, ?_, canon.origin, canon.keyed, canon.unique, ?_, ?_, ?_⟩
      · rintro n (before | ⟨-, isScanning⟩)
        · rcases Nat.lt_succ_iff_lt_or_eq.mp before with earlier | same
          · exact canon.closed n (.inl earlier)
          · exact canon.closed n (.inr ⟨same, isPhase⟩)
        · cases isScanning
      · intro _ j before
        cases before
      · intro n before symbol target isGoto
        rcases Nat.lt_succ_iff_lt_or_eq.mp before with earlier | rfl
        · exact canon.past n earlier symbol target isGoto
        · exact canon.complete isPhase found isGoto
      · intro n before symbol nonempty
        rcases Nat.lt_succ_iff_lt_or_eq.mp before with earlier | rfl
        · exact canon.served n earlier symbol nonempty
        · exact canon.served_current isPhase found nonempty
      · intro isScanning
        cases isScanning

end Canon

/-- The steps of a run take sets from `globalGoto` only where the closures agree. -/
def AlikeRun (grammar : Char → List (List Char)) (seeds : List Item) : Prop :=
  ∀ builder, Visits finished (step grammar asChar) (initial seeds) builder →
    builder.finished = false → builder.ReusesAlike grammar

/-- The construction has fewer than 127 item sets. -/
def FewSets (grammar : Char → List (List Char)) (seeds : List Item) : Prop :=
  ∀ builder, Visits finished (step grammar asChar) (initial seeds) builder →
    builder.finished = false → builder.size < 127

/-- The construction ends with the canonical collection. -/
def EndsCanonical (grammar : Char → List (List Char)) (seeds : List Item) (start : Char) : Prop :=
  ∃ enough builder,
    (∀ fuel, enough ≤ fuel → construct grammar asChar seeds fuel = .ok builder) ∧
      builder.Canonical grammar start

theorem canon_of_visits {texts : List Item} (plainSides : PlainSides grammar)
    (plain : ∀ item ∈ texts, ∃ dotted, PlainItem dotted ∧ item = textOf dotted)
    (few : FewSets grammar texts) (alike : AlikeRun grammar texts)
    (visits : Visits finished (step grammar asChar) (initial texts) builder) :
    builder.Canon grammar {item | PlainItem item ∧ textOf item ∈ texts} := by
  induction visits with
  | start => exact .start plain
  | next visits unfinished isStep ih =>
      have numbers : ∀ builder, Visits finished (step grammar asChar) (initial texts) builder →
          builder.finished = false → builder.NumberFits :=
        fun builder visits unfinished _ _ _ _ => (few builder visits unfinished).le
      have keys := (visits_exactly numbers visits).2
      rw [step_exactly keys (numbers _ visits unfinished)] at isStep
      exact ih.step plainSides unfinished (alike _ visits unfinished) (step_cases isStep)

end Builder

end Coursework.Grammar
