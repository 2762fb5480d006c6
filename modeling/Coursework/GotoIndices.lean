import Coursework.ItemSetBounds

/-!
# Goto indices

After the construction every stored goto should be an index of a set that has the
moved items.  Two things get in the way: an index above 127 does not fit into the
byte that stores it, and an item can be added to a set that was processed before,
whose goto for the next symbol is then left as it is.  A run in which neither
happens stores sound gotos.
-/

namespace Coursework.Grammar

theorem asChar_eq {n : Nat} (fits : n ≤ 127) : asChar n = n := by
  unfold asChar
  rw [Int.bmod_def]
  omega

namespace ItemSet

variable {set : ItemSet} {item other : Item}

theorem contains_add (contained : set.contains other = true) :
    (set.add item).contains other = true := by
  obtain ⟨existing, member, same⟩ := List.any_eq_true.mp contained
  exact List.any_eq_true.mpr ⟨existing, mem_add_of_mem member, same⟩

theorem contains_add_self : (set.add item).contains item = true := by
  unfold add
  split
  · assumption
  · exact contains_of_mem (List.mem_append_right _ (List.mem_singleton_self item))

theorem contains_addClosure {grammar : Char → List (List Char)} {symbol : Char}
    (contained : set.contains other = true) :
    (set.addClosure grammar symbol).contains other = true :=
  addClosure_induction (fun set => set.contains other = true) contained
    fun _ contained _ _ _ => contains_add contained

/-- The items that were in the set keep their places. -/
theorem getElem?_add {j : Nat} (below : j < set.productions.length) :
    (set.add item).productions[j]? = set.productions[j]? := by
  unfold add
  split
  · rfl
  · exact List.getElem?_append_left below

end ItemSet

namespace Builder

variable {grammar : Char → List (List Char)} {builder after : Builder}

/-- Every value stored is an index, and the set there has the moved items. -/
def GotosSound (builder : Builder) : Prop :=
  ∀ n < builder.size, ∀ symbol value, (builder.lr0items n).gotos symbol = some value →
    ∃ target < builder.size, value = (target : Int) ∧
      ∀ item ∈ (builder.lr0items n).productions, lookahead item.2 = symbol →
        (builder.lr0items target).contains item.moved = true

/-- The item that a step scans for its goto. -/
def Scans (builder : Builder) (item : Item) : Prop :=
  builder.phase = .scanning ∧ builder.current.productions[builder.i]? = some item ∧
    lookahead item.2 ≠ '\x00'

/-- The number of a set that a step creates fits into a byte. -/
def NumberFits (builder : Builder) : Prop :=
  ∀ item, builder.Scans item → builder.current.gotos (lookahead item.2) = none →
    builder.globalGoto item = none → builder.size ≤ 127

/-- If a step adds an item to a set that was processed before, then the goto of that set
needs nothing for this item. -/
def AddsInTime (builder : Builder) : Prop :=
  ∀ item, builder.Scans item → ∀ n : Nat,
    builder.current.gotos (lookahead item.2) = some (n : Int) → n < builder.itemid →
    (builder.lr0items n).contains item.moved = true ∨
      ∀ target : Nat, (builder.lr0items n).gotos (lookahead item.moved.2) = some (target : Int) →
        (builder.lr0items target).contains item.moved.moved = true

/-! ## Small numbers -/

/-- The numbers in `globalGoto` fit into a byte. -/
def KeysFit (builder : Builder) : Prop :=
  ∀ item n, builder.globalGoto item = some n → n ≤ 127

theorem step_exactly (keys : builder.KeysFit) (number : builder.NumberFits) :
    step grammar asChar builder = step grammar exactly builder := by
  unfold step
  split
  · rfl
  · next item found isPhase =>
      have same : builder.scanItem asChar item = builder.scanItem exactly item := by
        by_cases isNull : lookahead item.2 = '\x00'
        · simp only [scanItem, if_pos isNull]
        · simp only [scanItem, if_neg isNull]
          cases isGoto : builder.current.gotos (lookahead item.2) with
          | none =>
              cases isGlobal : builder.globalGoto item with
              | none =>
                  have fits := number item ⟨isPhase, found, isNull⟩ isGoto isGlobal
                  simp only [asChar_eq fits, exactly]
              | some target => simp only [asChar_eq (keys item target isGlobal), exactly]
          | some value => rfl
      rw [same]
  · rfl
  · rfl

theorem KeysFit.step (keys : builder.KeysFit) (number : builder.NumberFits)
    {narrow : Nat → Int} (isStep : Step grammar narrow builder after) : after.KeysFit := by
  cases isStep with
  | @create item isPhase found isSymbol noGoto noGlobal =>
      have fits := number item ⟨isPhase, found, isSymbol⟩ noGoto noGlobal
      intro other n isEntry
      simp only [next_globalGoto, setGlobalGoto_globalGoto, Function.update_apply] at isEntry
      split at isEntry
      · cases isEntry
        exact fits
      · exact keys other n isEntry
  | _ => exact keys

theorem visits_exactly {seeds : List Item}
    (numbers : ∀ builder, Visits finished (step grammar asChar) (initial seeds) builder →
      builder.finished = false → builder.NumberFits)
    (visits : Visits finished (step grammar asChar) (initial seeds) builder) :
    Visits finished (step grammar exactly) (initial seeds) builder ∧ builder.KeysFit := by
  induction visits with
  | start => exact ⟨.start, fun item n isEntry => by cases isEntry⟩
  | next visits unfinished isStep ih =>
      have number := numbers _ visits unfinished
      refine ⟨.next ih.1 unfinished ?_, ih.2.step number (step_cases isStep)⟩
      rw [← step_exactly ih.2 number]
      exact isStep

/-! ## What the gotos account for -/

/-- Gotos of processed sets account for the items that they have, and the goto of the set
that is scanned for the items before the index. -/
structure Tracked (builder : Builder) : Prop where
  stored : ∀ n symbol value, (builder.lr0items n).gotos symbol = some value →
    symbol ≠ '\x00' ∧ ∃ target < builder.size, value = (target : Int)
  waiting : ∀ n, builder.itemid < n ∨ (n = builder.itemid ∧ builder.phase = .closing) →
    ∀ symbol, (builder.lr0items n).gotos symbol = none
  keys : ∀ item n, builder.globalGoto item = some n →
    n < builder.size ∧ (builder.lr0items n).contains item.moved = true
  scanned : builder.phase = .scanning → ∀ j < builder.i, ∀ item,
    builder.current.productions[j]? = some item → lookahead item.2 ≠ '\x00' →
    ∃ target : Nat, builder.current.gotos (lookahead item.2) = some (target : Int) ∧
      (builder.lr0items target).contains item.moved = true
  past : ∀ n < builder.itemid, ∀ item ∈ (builder.lr0items n).productions, ∀ target : Nat,
    (builder.lr0items n).gotos (lookahead item.2) = some (target : Int) →
    (builder.lr0items target).contains item.moved = true

namespace Tracked

theorem start (seeds : List Item) : (initial seeds).Tracked := by
  have noGotos : ∀ n symbol, ((initial seeds).lr0items n).gotos symbol = none := by
    intro n symbol
    simp only [initial]
    split <;> rfl
  constructor
  · intro n symbol value isStored
    rw [noGotos] at isStored
    cases isStored
  · exact fun n _ => noGotos n
  · intro item n isEntry
    cases isEntry
  · intro isPhase
    cases isPhase
  · intro n below
    cases below

theorem target_lt (tracked : builder.Tracked) {n target : Nat} {symbol : Char}
    (isGoto : (builder.lr0items n).gotos symbol = some (target : Int)) : target < builder.size := by
  obtain ⟨-, other, below, same⟩ := tracked.stored n symbol _ isGoto
  have : target = other := by exact_mod_cast same
  omega

theorem close (tracked : builder.Tracked) (isPhase : builder.phase = .closing) (item : Item) :
    (builder.updateSet builder.itemid
      (builder.current.addClosure grammar (lookahead item.2))).next.Tracked := by
  have gotos : ∀ n, ((builder.updateSet builder.itemid
      (builder.current.addClosure grammar (lookahead item.2))).lr0items n).gotos =
        (builder.lr0items n).gotos := by
    intro n
    by_cases same : n = builder.itemid
    · simp [same, current]
    · simp [same]
  have contains : ∀ n other, (builder.lr0items n).contains other = true →
      ((builder.updateSet builder.itemid
        (builder.current.addClosure grammar (lookahead item.2))).lr0items n).contains other =
          true := by
    intro n other contained
    by_cases same : n = builder.itemid
    · subst same
      simpa [current] using ItemSet.contains_addClosure contained
    · simpa [same] using contained
  constructor
  · intro n symbol value isStored
    exact tracked.stored n symbol value (gotos n ▸ isStored)
  · intro n isWaiting symbol
    rw [next_lr0items, gotos]
    exact tracked.waiting n isWaiting symbol
  · intro other n isEntry
    obtain ⟨below, contained⟩ := tracked.keys other n isEntry
    exact ⟨below, contains n _ contained⟩
  · intro isScanning
    rw [next_phase, updateSet_phase, isPhase] at isScanning
    cases isScanning
  · intro n below other member target isGoto
    rw [next_lr0items, gotos] at isGoto
    apply contains
    have distinct : n ≠ builder.itemid := Nat.ne_of_lt below
    apply tracked.past n below other _ target isGoto
    simpa [distinct] using member

/-- The goto of the item that is scanned is assigned. -/
theorem assign (tracked : builder.Tracked) {item : Item} {target : Nat}
    (isScanned : builder.Scans item)
    (noGoto : builder.current.gotos (lookahead item.2) = none) (below : target < builder.size)
    (contained : (builder.lr0items target).contains item.moved = true) :
    (builder.setGoto (lookahead item.2) target).next.Tracked := by
  obtain ⟨isPhase, found, isSymbol⟩ := isScanned
  have productions : ∀ n, ((builder.setGoto (lookahead item.2) target).lr0items n).productions =
      (builder.lr0items n).productions := by
    intro n
    by_cases same : n = builder.itemid
    · simp [same, Builder.setGoto, current, ItemSet.setGoto]
    · simp [same, Builder.setGoto]
  have contains : ∀ n other, ((builder.setGoto (lookahead item.2) target).lr0items n).contains
      other = (builder.lr0items n).contains other := by
    intro n other
    simp only [ItemSet.contains, productions]
  have elsewhere : ∀ n, n ≠ builder.itemid →
      ((builder.setGoto (lookahead item.2) target).lr0items n).gotos =
        (builder.lr0items n).gotos := by
    intro n distinct
    simp [distinct, Builder.setGoto]
  have here : ((builder.setGoto (lookahead item.2) target).lr0items builder.itemid).gotos =
      Function.update builder.current.gotos (lookahead item.2) (some (target : Int)) := by
    simp [Builder.setGoto, ItemSet.setGoto]
  constructor
  · intro n symbol value isStored
    rw [next_lr0items] at isStored
    by_cases same : n = builder.itemid
    · rw [same, here, Function.update_apply] at isStored
      split at isStored
      · next isLookahead =>
          cases isStored
          exact ⟨isLookahead ▸ isSymbol, target, below, rfl⟩
      · exact tracked.stored _ symbol value isStored
    · rw [elsewhere n same] at isStored
      exact tracked.stored n symbol value isStored
  · intro n isWaiting symbol
    rcases isWaiting with later | ⟨-, isClosing⟩
    · rw [next_lr0items, elsewhere n (Nat.ne_of_gt later)]
      exact tracked.waiting n (.inl later) symbol
    · rw [next_phase] at isClosing
      cases isPhase.symm.trans isClosing
  · intro other n isEntry
    obtain ⟨inRange, isContained⟩ := tracked.keys other n isEntry
    exact ⟨inRange, (contains n _).trans isContained⟩
  · intro _ j before other isOther isOtherSymbol
    have isOther : builder.current.productions[j]? = some other := by
      rw [← isOther]
      exact (congrArg (·[j]?) (productions builder.itemid)).symm
    rcases Nat.lt_succ_iff_lt_or_eq.mp before with earlier | isLast
    · obtain ⟨former, isGoto, isContained⟩ :=
        tracked.scanned isPhase j earlier other isOther isOtherSymbol
      refine ⟨former, ?_, (contains former _).trans isContained⟩
      have distinct : lookahead other.2 ≠ lookahead item.2 := by
        intro same
        rw [same, noGoto] at isGoto
        cases isGoto
      exact (congrFun here _).trans ((Function.update_of_ne distinct _ _).trans isGoto)
    · have isLast : j = builder.i := isLast
      rw [isLast, found] at isOther
      cases isOther
      refine ⟨target, ?_, (contains target _).trans contained⟩
      exact (congrFun here _).trans (Function.update_self _ _ _)
  · intro n before other member former isGoto
    have distinct : n ≠ builder.itemid := Nat.ne_of_lt before
    rw [next_lr0items, elsewhere n distinct] at isGoto
    rw [next_lr0items, productions] at member
    exact (contains former _).trans (tracked.past n before other member former isGoto)

/-- A new set for an item. -/
theorem push (tracked : builder.Tracked) (unfinished : builder.itemid < builder.size)
    (item : Item) : ((builder.pushBack (ItemSet.new.push item.moved)).setGlobalGoto item
      builder.size).Tracked := by
  have old : ∀ n, n ≠ builder.size →
      (builder.pushBack (ItemSet.new.push item.moved)).lr0items n = builder.lr0items n := by
    intro n distinct
    simp [distinct]
  have new : (builder.pushBack (ItemSet.new.push item.moved)).lr0items builder.size =
      ItemSet.new.push item.moved := by
    simp
  have isCurrent := old builder.itemid (Nat.ne_of_lt unfinished)
  constructor
  · intro n symbol value isStored
    rw [setGlobalGoto_lr0items] at isStored
    by_cases same : n = builder.size
    · rw [same, new] at isStored
      cases isStored
    · rw [old n same] at isStored
      obtain ⟨isSymbol, target, below, isTarget⟩ := tracked.stored n symbol value isStored
      exact ⟨isSymbol, target, Nat.lt_succ_of_lt below, isTarget⟩
  · intro n isWaiting symbol
    rw [setGlobalGoto_lr0items]
    by_cases same : n = builder.size
    · rw [same, new]
      rfl
    · rw [old n same]
      exact tracked.waiting n isWaiting symbol
  · intro other n isEntry
    simp only [setGlobalGoto_globalGoto, Function.update_apply] at isEntry
    rw [setGlobalGoto_lr0items]
    split at isEntry
    · next isItem =>
        cases isEntry
        rw [new, isItem]
        exact ⟨Nat.lt_succ_self _, ItemSet.contains_of_mem (List.mem_singleton_self _)⟩
    · obtain ⟨below, contained⟩ := tracked.keys other n isEntry
      rw [old n (Nat.ne_of_lt below)]
      exact ⟨Nat.lt_succ_of_lt below, contained⟩
  · intro isPhase j before other isOther isSymbol
    simp only [current, setGlobalGoto_lr0items, setGlobalGoto_itemid, pushBack_itemid, isCurrent]
      at isOther ⊢
    obtain ⟨target, isGoto, contained⟩ := tracked.scanned isPhase j before other isOther isSymbol
    refine ⟨target, isGoto, ?_⟩
    rw [old target (Nat.ne_of_lt (tracked.target_lt isGoto))]
    exact contained
  · intro n before other member target isGoto
    have distinct : n ≠ builder.size := Nat.ne_of_lt (Nat.lt_trans before unfinished)
    rw [setGlobalGoto_lr0items, old n distinct] at member isGoto
    rw [setGlobalGoto_lr0items, old target (Nat.ne_of_lt (tracked.target_lt isGoto))]
    exact tracked.past n before other member target isGoto

/-- The moved item is added to the set of the goto. -/
theorem extend (tracked : builder.Tracked) {item : Item} {n : Nat}
    (isScanned : builder.Scans item)
    (isGoto : builder.current.gotos (lookahead item.2) = some (n : Int))
    (inTime : builder.AddsInTime) :
    (builder.updateSet n ((builder.lr0items n).add item.moved)).next.Tracked := by
  have timely := inTime item isScanned n isGoto
  obtain ⟨isPhase, found, isSymbol⟩ := isScanned
  have gotos : ∀ m, ((builder.updateSet n ((builder.lr0items n).add item.moved)).lr0items m).gotos =
      (builder.lr0items m).gotos := by
    intro m
    by_cases same : m = n
    · simp [same]
    · simp [same]
  have contains : ∀ m other, (builder.lr0items m).contains other = true →
      ((builder.updateSet n ((builder.lr0items n).add item.moved)).lr0items m).contains other =
        true := by
    intro m other contained
    by_cases same : m = n
    · subst same
      simpa using ItemSet.contains_add contained
    · simpa [same] using contained
  have inSet : builder.i < builder.current.productions.length :=
    (List.getElem?_eq_some_iff.mp found).1
  constructor
  · intro m symbol value isStored
    exact tracked.stored m symbol value (gotos m ▸ isStored)
  · intro m isWaiting symbol
    rw [next_lr0items, gotos]
    exact tracked.waiting m isWaiting symbol
  · intro other m isEntry
    obtain ⟨below, contained⟩ := tracked.keys other m isEntry
    exact ⟨below, contains m _ contained⟩
  · intro _ j before other isOther isOtherSymbol
    have before : j < builder.i + 1 := before
    have isOther : builder.current.productions[j]? = some other := by
      simp only [current, next_lr0items, next_itemid, updateSet_itemid, updateSet_lr0items]
        at isOther
      by_cases same : builder.itemid = n
      · subst same
        rw [Function.update_self] at isOther
        exact (ItemSet.getElem?_add (Nat.lt_of_lt_of_le before inSet)).symm.trans isOther
      · rw [Function.update_of_ne same] at isOther
        exact isOther
    rcases Nat.lt_succ_iff_lt_or_eq.mp before with earlier | rfl
    · obtain ⟨target, isFormer, contained⟩ :=
        tracked.scanned isPhase j earlier other isOther isOtherSymbol
      exact ⟨target, (congrFun (gotos builder.itemid) _).trans isFormer, contains target _ contained⟩
    · rw [found] at isOther
      cases isOther
      refine ⟨n, (congrFun (gotos builder.itemid) _).trans isGoto, ?_⟩
      simpa using ItemSet.contains_add_self
  · intro m before other member target isFormer
    have before : m < builder.itemid := before
    rw [next_lr0items, gotos] at isFormer
    apply contains
    rw [next_lr0items, updateSet_lr0items] at member
    by_cases same : m = n
    · subst same
      rw [Function.update_self] at member
      rcases ItemSet.mem_add member with old | ⟨missing, rfl⟩
      · exact tracked.past m before other old target isFormer
      · rcases timely before with contained | needless
        · rw [missing] at contained
          cases contained
        · exact needless target isFormer
    · rw [Function.update_of_ne same] at member
      exact tracked.past m before other member target isFormer

theorem step (tracked : builder.Tracked) (unfinished : builder.finished = false)
    (inTime : builder.AddsInTime) (isStep : Step grammar exactly builder after) :
    after.Tracked := by
  have inRange : builder.itemid < builder.size := by simpa [finished] using unfinished
  cases isStep with
  | close isPhase found => exact tracked.close isPhase _
  | closed isPhase found =>
      refine ⟨tracked.stored, ?_, tracked.keys, ?_, tracked.past⟩
      · intro n isWaiting
        rcases isWaiting with later | ⟨-, isClosing⟩
        · exact tracked.waiting n (.inl later)
        · cases isClosing
      · intro _ j before
        cases before
  | @skip item isPhase found isNull =>
      refine ⟨tracked.stored, tracked.waiting, tracked.keys, ?_, tracked.past⟩
      intro _ j before other isOther isSymbol
      rcases Nat.lt_succ_iff_lt_or_eq.mp before with earlier | rfl
      · exact tracked.scanned isPhase j earlier other isOther isSymbol
      · cases found.symm.trans isOther
        exact (isSymbol isNull).elim
  | @create item isPhase found isSymbol noGoto noGlobal =>
      have isCurrent : ((builder.pushBack (ItemSet.new.push item.moved)).setGlobalGoto item
          builder.size).current = builder.current := by
        simp [current, Nat.ne_of_lt inRange]
      apply (tracked.push inRange item).assign
      · exact ⟨isPhase, isCurrent.symm ▸ found, isSymbol⟩
      · rw [isCurrent]
        exact noGoto
      · exact Nat.lt_succ_self builder.size
      · simpa using ItemSet.contains_of_mem (List.mem_singleton_self item.moved)
  | reuse isPhase found isSymbol noGoto isGlobal =>
      obtain ⟨below, contained⟩ := tracked.keys _ _ isGlobal
      exact tracked.assign ⟨isPhase, found, isSymbol⟩ noGoto below contained
  | extend isPhase found isSymbol isGoto below =>
      exact tracked.extend ⟨isPhase, found, isSymbol⟩ isGoto inTime
  | scanned isPhase found =>
      refine ⟨tracked.stored, ?_, tracked.keys, ?_, ?_⟩
      · intro n isWaiting
        have later : builder.itemid < n := by
          rcases isWaiting with later | ⟨same, -⟩
          · exact Nat.lt_of_succ_lt later
          · exact same ▸ Nat.lt_succ_self _
        exact tracked.waiting n (.inl later)
      · intro isScanning
        cases isScanning
      · intro n before item member target isGoto
        rcases Nat.lt_succ_iff_lt_or_eq.mp before with earlier | rfl
        · exact tracked.past n earlier item member target isGoto
        · obtain ⟨j, isIndex⟩ := List.getElem?_of_mem member
          have atEnd := List.getElem?_eq_none_iff.mp found
          have inSet := (List.getElem?_eq_some_iff.mp isIndex).1
          have isSymbol := (tracked.stored _ _ _ isGoto).1
          obtain ⟨other, isOther, contained⟩ :=
            tracked.scanned isPhase j (Nat.lt_of_lt_of_le inSet atEnd) item isIndex isSymbol
          have same : some (other : Int) = some (target : Int) := isOther.symm.trans isGoto
          have same : other = target := Int.ofNat.inj (Option.some.inj same)
          exact same ▸ contained

end Tracked

theorem Tracked.gotosSound (tracked : builder.Tracked) (isFinished : builder.finished = true) :
    builder.GotosSound := by
  have passed : builder.size ≤ builder.itemid := by simpa [finished] using isFinished
  intro n below symbol value isStored
  obtain ⟨-, target, inRange, rfl⟩ := tracked.stored n symbol value isStored
  refine ⟨target, inRange, rfl, ?_⟩
  rintro item member rfl
  exact tracked.past n (Nat.lt_of_lt_of_le below passed) item member target isStored

/-- The steps of a run store numbers that fit and add items in time. -/
def OrderlyRun (grammar : Char → List (List Char)) (seeds : List Item) : Prop :=
  ∀ builder, Visits finished (step grammar asChar) (initial seeds) builder →
    builder.finished = false → builder.NumberFits ∧ builder.AddsInTime

/-- The construction ends with sound gotos. -/
def EndsSound (grammar : Char → List (List Char)) (seeds : List Item) : Prop :=
  ∃ enough builder,
    (∀ fuel, enough ≤ fuel → construct grammar asChar seeds fuel = .ok builder) ∧
      builder.GotosSound

theorem tracked_of_visits {seeds : List Item} (orderly : OrderlyRun grammar seeds)
    (visits : Visits finished (step grammar asChar) (initial seeds) builder) : builder.Tracked := by
  induction visits with
  | start => exact .start seeds
  | next visits unfinished isStep ih =>
      obtain ⟨number, inTime⟩ := orderly _ visits unfinished
      have keys := (visits_exactly (fun _ visits unfinished =>
        (orderly _ visits unfinished).1) visits).2
      rw [step_exactly keys number] at isStep
      exact ih.step unfinished inTime (step_cases isStep)

/-- With numbers that fit the construction ends as with exact numbers. -/
theorem construct_ends {grammar : AugmentedGrammar}
    (numbers : ∀ builder, Visits finished (step grammar.lookup asChar) (initial grammar.seeds)
      builder → builder.finished = false → builder.NumberFits) :
    ∃ enough builder,
      Visits finished (step grammar.lookup asChar) (initial grammar.seeds) builder ∧
      builder.finished = true ∧
      ∀ fuel, enough ≤ fuel → construct grammar.lookup asChar grammar.seeds fuel = .ok builder := by
  have progress : ∀ builder, Visits finished (step grammar.lookup asChar)
      (initial grammar.seeds) builder → builder.finished = false →
      ∃ after, step grammar.lookup asChar builder = .ok after ∧
        after.remaining grammar < builder.remaining grammar := by
    intro builder visits unfinished
    obtain ⟨exact, keys⟩ := visits_exactly numbers visits
    have bounded := bounded_of_visits exact
    obtain ⟨after, isStep⟩ := step_ok (bounded.stored builder.itemid)
    refine ⟨after, isStep, ?_⟩
    rw [step_exactly keys (numbers builder visits unfinished)] at isStep
    exact remaining_lt bounded unfinished (step_cases isStep)
  obtain ⟨builder, visits, isFinished, ends⟩ := loop_ends Stop.fuel progress
  exact ⟨(initial grammar.seeds).remaining grammar + 1, builder, visits, isFinished, ends⟩

/-- A test for what the next step stores and adds. -/
def inOrder (builder : Builder) : Bool :=
  match builder.phase, builder.current.productions[builder.i]? with
  | .scanning, some item =>
      lookahead item.2 == '\x00' ||
        match builder.current.gotos (lookahead item.2) with
        | none => (builder.globalGoto item).isSome || decide (builder.size ≤ 127)
        | some value => decide ((builder.itemid : Int) ≤ value)
  | _, _ => true

theorem inOrder_sound (ordered : builder.inOrder = true) :
    builder.NumberFits ∧ builder.AddsInTime := by
  constructor
  · rintro item ⟨isPhase, found, isSymbol⟩ noGoto noGlobal
    simpa [inOrder, isPhase, found, isSymbol, noGoto, noGlobal] using ordered
  · rintro item ⟨isPhase, found, isSymbol⟩ n isGoto before
    simp only [inOrder, isPhase, found, isGoto, beq_eq_false_iff_ne.mpr isSymbol,
      Bool.false_or, decide_eq_true_eq] at ordered
    omega

end Builder

/-- For every grammar file, gotos are sound after a run that stores only numbers that fit
and adds no item to a processed set whose goto it would change. -/
theorem gotos_sound {lines : List (List Char)} {tables : Tables}
    (isRead : Tables.read lines = some tables)
    (orderly : Builder.OrderlyRun tables.augmented tables.seeds) :
    Builder.EndsSound tables.augmented tables.seeds := by
  obtain ⟨grammar, describes⟩ := AugmentedGrammar.exists_read isRead
  have isLookup : grammar.lookup = tables.augmented := funext describes.lookup
  rw [← isLookup, ← describes.seeds] at orderly ⊢
  obtain ⟨enough, builder, visits, isFinished, ends⟩ := Builder.construct_ends
    fun builder visits unfinished => (orderly builder visits unfinished).1
  exact ⟨enough, builder, ends, (Builder.tracked_of_visits orderly visits).gotosSound isFinished⟩

/-- `S -> aS` and `S -> b`. -/
def rightLinear : List (List Char) :=
  ["a".toList, "b".toList, "S->aS".toList, "S->b".toList]

theorem gotos_sound_rightLinear : ∃ tables, Tables.read rightLinear = some tables ∧
    Builder.EndsSound tables.augmented tables.seeds := by
  let tables := (Tables.read rightLinear).getD .empty
  have isRead : Tables.read rightLinear = some tables := rfl
  have passed : testAll Builder.finished (Builder.step tables.augmented asChar) Builder.inOrder 60
      (Builder.initial tables.seeds) = true := by decide +kernel
  exact ⟨tables, isRead, gotos_sound isRead fun builder visits unfinished =>
    Builder.inOrder_sound (test_of_testAll passed visits unfinished)⟩

/-- `S -> aA`, `S -> ccbA` and `S -> ccbC` with `A -> xy` and `C -> xyz`. -/
def sharedItem : List (List Char) :=
  ["a".toList, "b".toList, "c".toList, "x".toList, "y".toList, "z".toList, "S->aA".toList,
    "S->ccbA".toList, "S->ccbC".toList, "A->xy".toList, "C->xyz".toList]

/-- The set 5 has the item `C->x.yz`, and its goto 7 for `y` lacks `C->xy.z`. -/
def Builder.lacksItem (builder : Builder) : Bool :=
  decide (builder.size = 11 ∧ (builder.lr0items 5).gotos 'y' = some 7 ∧
    ('C', "x.yz".toList) ∈ (builder.lr0items 5).productions ∧
    (builder.lr0items 7).contains ('C', "xy.z".toList) = false)

theorem Builder.not_sound_of_lacksItem {builder : Builder} (lacks : builder.lacksItem = true) :
    ¬ builder.GotosSound := by
  intro sound
  obtain ⟨size, isGoto, member, missing⟩ := of_decide_eq_true lacks
  obtain ⟨target, -, isTarget, moved⟩ := sound 5 (by omega) 'y' 7 isGoto
  have isSeven : target = 7 := (Int.ofNat.inj isTarget).symm
  have contained := moved _ member (by decide)
  rw [isSeven] at contained
  exact Bool.false_ne_true (missing.symm.trans contained)

/-- A test of the result of a run holds of the result for all larger amounts of fuel. -/
theorem Builder.tested_of_construct {grammar : Char → List (List Char)} {seeds : List Item}
    {fuel enough : Nat} {builder : Builder} {test : Builder → Bool}
    (ends : ∀ fuel, enough ≤ fuel → construct grammar asChar seeds fuel = .ok builder)
    (tested : (construct grammar asChar seeds fuel).toOption.map test = some true) :
    test builder = true := by
  cases isResult : construct grammar asChar seeds fuel with
  | error error =>
      rw [isResult] at tested
      cases tested
  | ok last =>
      rw [isResult] at tested
      have same := (ends (max enough fuel) (Nat.le_max_left _ _)).symm.trans
        (loop_mono isResult (Nat.le_max_right _ _))
      cases same
      exact Option.some.inj tested

/-- The item `C->x.yz` is added to the set 5 after the set has been processed. -/
theorem sharedItem_unsound : ∃ tables, Tables.read sharedItem = some tables ∧
    ¬ Builder.EndsSound tables.augmented tables.seeds := by
  obtain ⟨tables, isRead⟩ : ∃ tables, Tables.read sharedItem = some tables :=
    Option.isSome_iff_exists.mp (by decide)
  refine ⟨tables, isRead, ?_⟩
  have late : (Tables.read sharedItem).map (fun tables =>
      (Builder.construct tables.augmented asChar tables.seeds 150).toOption.map
        Builder.lacksItem) = some (some true) := by decide +kernel
  rw [isRead, Option.map_some, Option.some.injEq] at late
  rintro ⟨enough, builder, ends, sound⟩
  exact Builder.not_sound_of_lacksItem (Builder.tested_of_construct ends late) sound

end Coursework.Grammar
