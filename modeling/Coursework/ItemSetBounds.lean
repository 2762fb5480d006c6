import Coursework.ItemSets
import Mathlib.Data.Finset.Card

/-!
# The construction of item sets ends

Every set but the first is created for an entry of `globalGoto`, and the entries are
items of the grammar, so that their number is bounded.  A set grows only by items
that it does not contain.  The number of sets that are left, then the loop that is
running and the number of items that are left make up a measure that goes down in
every step.
-/

namespace Coursework.Grammar

/-! ## Dotted right sides -/

theorem afterDot_append {done : List Char} (noDot : '.' ∉ done) (rest : List Char) :
    afterDot (done ++ '.' :: rest) = some rest := by
  induction done with
  | nil => rfl
  | cons c done ih =>
      rw [List.mem_cons, not_or] at noDot
      rw [List.cons_append, afterDot]
      · exact ih noDot.2
      · intro isDot
        exact noDot.1 isDot.symm

theorem lookahead_append {done : List Char} (noDot : '.' ∉ done) (rest : List Char) :
    lookahead (done ++ '.' :: rest) = rest.headD '\x00' := by
  rw [lookahead, afterDot_append noDot, Option.getD_some]

theorem advance_append {done : List Char} (noDot : '.' ∉ done) (c : Char) (rest : List Char) :
    advance (done ++ '.' :: c :: rest) = done ++ c :: '.' :: rest := by
  induction done with
  | nil => rfl
  | cons d done ih =>
      rw [List.mem_cons, not_or] at noDot
      rw [List.cons_append, advance]
      · rw [ih noDot.2, List.cons_append]
      · intro c rest isDot
        exact (noDot.1 isDot.symm).elim

namespace AugmentedGrammar

variable {grammar : AugmentedGrammar} {item : Item}

/-- An item whose first dot has been inserted into a production. -/
def Known (grammar : AugmentedGrammar) (item : Item) : Prop :=
  ∃ production ∈ grammar.allProductions, ∃ done rest, production.2 = done ++ rest ∧
    '.' ∉ done ∧ item = (production.1, done ++ '.' :: rest)

theorem Known.mem_dotted (known : grammar.Known item) : item ∈ grammar.dotted := by
  obtain ⟨production, member, done, rest, isWhole, -, rfl⟩ := known
  rw [dotted, List.mem_toFinset, List.mem_flatMap]
  refine ⟨production, member, List.mem_map.mpr ⟨done.length, ?_, ?_⟩⟩
  · rw [List.mem_range, isWhole, List.length_append]
    omega
  · simp [isWhole]

/-- A literal dot stays where it is. -/
theorem Known.moved (known : grammar.Known item) (isSymbol : lookahead item.2 ≠ '\x00') :
    grammar.Known item.moved := by
  obtain ⟨production, member, done, rest, isWhole, noDot, rfl⟩ := known
  rw [lookahead_append noDot] at isSymbol
  cases rest with
  | nil => exact (isSymbol rfl).elim
  | cons c rest =>
      refine ⟨production, member, ?_⟩
      rw [Item.moved, advance_append noDot]
      by_cases isDot : c = '.'
      · exact ⟨done, c :: rest, isWhole, noDot, by rw [isDot]⟩
      · refine ⟨done ++ [c], rest, by simp [isWhole], ?_, by simp⟩
        simp [noDot, Ne.symm isDot]

theorem known_start {production : Char × List Char} (member : production ∈ grammar.allProductions) :
    grammar.Known (production.1, '.' :: production.2) :=
  ⟨production, member, [], production.2, rfl, List.not_mem_nil, rfl⟩

theorem known_lookup {lhs : Char} {rhs : List Char} (member : rhs ∈ grammar.lookup lhs) :
    grammar.Known (lhs, '.' :: rhs) := by
  obtain ⟨production, isProduction, found⟩ := List.mem_filterMap.mp member
  split at found
  · next isLhs =>
      cases found
      rw [← isLhs]
      exact known_start (List.mem_cons_of_mem _ isProduction)
  · cases found

end AugmentedGrammar

/-! ## The steps -/

namespace Builder

/-- What a step can do. -/
inductive Step (grammar : Char → List (List Char)) (narrow : Nat → Int) (builder : Builder) :
    Builder → Prop
  | close {item : Item} : builder.phase = .closing →
      builder.current.productions[builder.i]? = some item →
      Step grammar narrow builder (builder.updateSet builder.itemid
        (builder.current.addClosure grammar (lookahead item.2))).next
  | closed : builder.phase = .closing → builder.current.productions[builder.i]? = none →
      Step grammar narrow builder { builder with phase := .scanning, i := 0 }
  | skip {item : Item} : builder.phase = .scanning →
      builder.current.productions[builder.i]? = some item → lookahead item.2 = '\x00' →
      Step grammar narrow builder builder.next
  | create {item : Item} : builder.phase = .scanning →
      builder.current.productions[builder.i]? = some item → lookahead item.2 ≠ '\x00' →
      builder.current.gotos (lookahead item.2) = none → builder.globalGoto item = none →
      Step grammar narrow builder
        (((builder.pushBack (ItemSet.new.push item.moved)).setGoto (lookahead item.2)
          (narrow builder.size)).setGlobalGoto item builder.size).next
  | reuse {item : Item} {target : Nat} : builder.phase = .scanning →
      builder.current.productions[builder.i]? = some item → lookahead item.2 ≠ '\x00' →
      builder.current.gotos (lookahead item.2) = none → builder.globalGoto item = some target →
      Step grammar narrow builder (builder.setGoto (lookahead item.2) (narrow target)).next
  | extend {item : Item} {n : Nat} : builder.phase = .scanning →
      builder.current.productions[builder.i]? = some item → lookahead item.2 ≠ '\x00' →
      builder.current.gotos (lookahead item.2) = some n → n < builder.size →
      Step grammar narrow builder
        (builder.updateSet n ((builder.lr0items n).add item.moved)).next
  | scanned : builder.phase = .scanning → builder.current.productions[builder.i]? = none →
      Step grammar narrow builder
        { builder with itemid := builder.itemid + 1, phase := .closing, i := 0 }

variable {grammar : Char → List (List Char)} {narrow : Nat → Int} {builder after : Builder}

theorem step_cases (isStep : step grammar narrow builder = .ok after) :
    Step grammar narrow builder after := by
  cases isPhase : builder.phase with
  | closing =>
      cases found : builder.current.productions[builder.i]? with
      | none =>
          simp only [step, found, isPhase, Except.ok.injEq] at isStep
          exact isStep ▸ .closed isPhase found
      | some item =>
          simp only [step, found, isPhase, Except.ok.injEq] at isStep
          exact isStep ▸ .close isPhase found
  | scanning =>
      cases found : builder.current.productions[builder.i]? with
      | none =>
          simp only [step, found, isPhase, Except.ok.injEq] at isStep
          exact isStep ▸ .scanned isPhase found
      | some item =>
          simp only [step, found, isPhase, bind, Except.bind] at isStep
          split at isStep
          · cases isStep
          · next middle isMiddle =>
              cases isStep
              by_cases isNull : lookahead item.2 = '\x00'
              · simp only [scanItem, if_pos isNull, Except.ok.injEq] at isMiddle
                exact isMiddle ▸ .skip isPhase found isNull
              · simp only [scanItem, if_neg isNull] at isMiddle
                cases isGoto : builder.current.gotos (lookahead item.2) with
                | none =>
                    cases isGlobal : builder.globalGoto item with
                    | none =>
                        simp only [isGoto, isGlobal, Except.ok.injEq] at isMiddle
                        exact isMiddle ▸ .create isPhase found isNull isGoto isGlobal
                    | some target =>
                        simp only [isGoto, isGlobal, Except.ok.injEq] at isMiddle
                        exact isMiddle ▸ .reuse isPhase found isNull isGoto isGlobal
                | some nextItem =>
                    simp only [isGoto] at isMiddle
                    split at isMiddle
                    · next inRange =>
                        obtain ⟨n, rfl⟩ := Int.eq_ofNat_of_zero_le inRange.1
                        cases isMiddle
                        exact .extend isPhase found isNull isGoto (by omega)
                    · cases isMiddle

/-- A step fails only at a goto that is no index. -/
theorem step_ok (stored : ∀ symbol value, builder.current.gotos symbol = some value →
      ∃ n < builder.size, value = (n : Int)) :
    ∃ after, step grammar narrow builder = .ok after := by
  cases isPhase : builder.phase with
  | closing =>
      cases found : builder.current.productions[builder.i]? with
      | none => simp [step, found, isPhase]
      | some item => simp [step, found, isPhase]
  | scanning =>
      cases found : builder.current.productions[builder.i]? with
      | none => simp [step, found, isPhase]
      | some item =>
          have scans : ∃ middle, builder.scanItem narrow item = .ok middle := by
            by_cases isNull : lookahead item.2 = '\x00'
            · simp [scanItem, isNull]
            · cases isGoto : builder.current.gotos (lookahead item.2) with
              | none =>
                  cases isGlobal : builder.globalGoto item with
                  | none => simp [scanItem, isNull, isGoto, isGlobal]
                  | some target => simp [scanItem, isNull, isGoto, isGlobal]
              | some nextItem =>
                  obtain ⟨n, below, rfl⟩ := stored _ _ isGoto
                  simp [scanItem, isNull, isGoto, below]
          obtain ⟨middle, isMiddle⟩ := scans
          simp [step, found, isPhase, isMiddle, bind, Except.bind]

end Builder

/-! ## Items are added once -/

/-- The items after the given ones are new and distinct. -/
def Grown (base items : List Item) : Prop :=
  ∃ added, items = base ++ added ∧ added.Nodup ∧ ∀ item ∈ added, item ∉ base

theorem Grown.length_le {base items : List Item} {bound : Finset Item} (grown : Grown base items)
    (within : ∀ item ∈ items, item ∈ bound) : items.length ≤ base.length + bound.card := by
  obtain ⟨added, rfl, distinct, -⟩ := grown
  have subset : added.toFinset ⊆ bound := by
    intro item member
    exact within item (List.mem_append_right _ (List.mem_toFinset.mp member))
  rw [List.length_append, ← List.toFinset_card_of_nodup distinct]
  exact Nat.add_le_add_left (Finset.card_le_card subset) _

namespace ItemSet

variable {set : ItemSet} {item other : Item}

theorem contains_of_mem (member : item ∈ set.productions) : set.contains item = true :=
  List.any_eq_true.mpr ⟨item, member, by simp⟩

theorem mem_add : other ∈ (set.add item).productions →
    other ∈ set.productions ∨ (set.contains item = false ∧ other = item) := by
  unfold add
  split
  · exact .inl
  · next missing =>
      intro member
      rcases List.mem_append.mp member with old | new
      · exact .inl old
      · exact .inr ⟨by simpa using missing, List.mem_singleton.mp new⟩

theorem mem_add_of_mem (member : other ∈ set.productions) : other ∈ (set.add item).productions := by
  unfold add
  split
  · exact member
  · exact List.mem_append_left _ member

theorem grown_add {base : List Item} (grown : Grown base set.productions) :
    Grown base (set.add item).productions := by
  unfold add
  split
  · exact grown
  · next missing =>
      have isNew : item ∉ set.productions := fun member => missing (contains_of_mem member)
      obtain ⟨added, isAdded, distinct, outside⟩ := grown
      rw [isAdded, List.mem_append, not_or] at isNew
      refine ⟨added ++ [item], by simp [push, isAdded], ?_, ?_⟩
      · rw [List.nodup_append]
        refine ⟨distinct, List.nodup_singleton item, ?_⟩
        intro x inAdded y isItem same
        rw [List.mem_singleton] at isItem
        exact isNew.2 (isItem ▸ same ▸ inAdded)
      · intro x member
        rcases List.mem_append.mp member with old | new
        · exact outside x old
        · exact List.mem_singleton.mp new ▸ isNew.1

@[simp]
theorem gotos_add : (set.add item).gotos = set.gotos := by
  unfold add push
  split <;> rfl

theorem gotos_foldl (lhs : Char) (sides : List (List Char)) :
    (sides.foldl (fun set rhs => set.add (lhs, '.' :: rhs)) set).gotos = set.gotos := by
  induction sides generalizing set with
  | nil => rfl
  | cons rhs sides ih => rw [List.foldl_cons, ih, gotos_add]

@[simp]
theorem gotos_addClosure {grammar : Char → List (List Char)} {symbol : Char} :
    (set.addClosure grammar symbol).gotos = set.gotos := by
  unfold addClosure
  split
  · exact gotos_foldl symbol _
  · rfl

/-- What is kept when a production is added is kept by the closure. -/
theorem addClosure_induction (Good : ItemSet → Prop) {grammar : Char → List (List Char)}
    {symbol : Char} (good : Good set)
    (kept : ∀ set, Good set → ∀ rhs ∈ grammar symbol, symbol.isUpper = true →
      Good (set.add (symbol, '.' :: rhs))) :
    Good (set.addClosure grammar symbol) := by
  unfold addClosure
  split
  · next isUpper =>
      refine List.foldlRecOn (grammar symbol) _ good ?_
      intro set good rhs member
      exact kept set good rhs member isUpper
  · exact good

theorem grown_addClosure {grammar : Char → List (List Char)} {symbol : Char} {base : List Item}
    (grown : Grown base set.productions) :
    Grown base (set.addClosure grammar symbol).productions :=
  addClosure_induction (fun set => Grown base set.productions) grown
    fun _ grown _ _ _ => grown_add grown

theorem mem_addClosure {grammar : Char → List (List Char)} {symbol : Char}
    (member : other ∈ (set.addClosure grammar symbol).productions) :
    other ∈ set.productions ∨
      ∃ rhs ∈ grammar symbol, symbol.isUpper = true ∧ other = (symbol, '.' :: rhs) := by
  revert member
  refine addClosure_induction (fun after => other ∈ after.productions → other ∈ set.productions ∨
    ∃ rhs ∈ grammar symbol, symbol.isUpper = true ∧ other = (symbol, '.' :: rhs)) .inl ?_
  intro after ih rhs isSide isUpper member
  rcases mem_add member with old | ⟨-, isNew⟩
  · exact ih old
  · exact .inr ⟨rhs, isSide, isUpper, isNew⟩

end ItemSet

/-! ## The bounds -/

/-- The items of the set that it starts with. -/
def AugmentedGrammar.base (grammar : AugmentedGrammar) (n : Nat) : List Item :=
  if n = 0 then grammar.seeds else []

namespace Builder

/-- The items come from the grammar and are added once, and there is a set for every entry
of `globalGoto`. -/
structure Bounded (grammar : AugmentedGrammar) (builder : Builder) : Prop where
  positive : 0 < builder.size
  known : ∀ n, ∀ item ∈ (builder.lr0items n).productions, grammar.Known item
  grown : ∀ n, Grown (grammar.base n) (builder.lr0items n).productions
  keys : ∀ item n, builder.globalGoto item = some n → n < builder.size
  counted : builder.size ≤
    1 + (grammar.dotted.filter fun item => (builder.globalGoto item).isSome).card
  stored : ∀ n symbol value, (builder.lr0items n).gotos symbol = some value →
    ∃ target < builder.size, value = (target : Int)

variable {grammar : AugmentedGrammar} {builder after : Builder}

theorem bounded_initial : (initial grammar.seeds).Bounded grammar where
  positive := Nat.one_pos
  known := by
    intro n item member
    simp only [initial] at member
    split at member
    · obtain ⟨production, isProduction, rfl⟩ := grammar.seeded item member
      exact AugmentedGrammar.known_start isProduction
    · cases member
  grown := by
    intro n
    refine ⟨[], ?_, List.nodup_nil, by simp⟩
    simp only [initial, AugmentedGrammar.base, List.append_nil]
    split <;> rfl
  keys := by simp [initial]
  counted := by simp [initial]
  stored := by
    intro n symbol value isStored
    simp only [initial] at isStored
    split at isStored <;> cases isStored

namespace Bounded

theorem updateSet (bounded : builder.Bounded grammar) {n : Nat} {set : ItemSet}
    (known : ∀ item ∈ set.productions, grammar.Known item)
    (grown : Grown (grammar.base n) set.productions)
    (stored : ∀ symbol value, set.gotos symbol = some value →
      ∃ target < builder.size, value = (target : Int)) :
    (builder.updateSet n set).Bounded grammar where
  positive := bounded.positive
  known := by
    intro m
    by_cases same : m = n
    · simpa [same] using known
    · simpa [same] using bounded.known m
  grown := by
    intro m
    by_cases same : m = n
    · simpa [same] using grown
    · simpa [same] using bounded.grown m
  keys := bounded.keys
  counted := bounded.counted
  stored := by
    intro m
    by_cases same : m = n
    · simpa [same] using stored
    · simpa [same] using bounded.stored m

theorem of_counters (bounded : builder.Bounded grammar) (itemid i : Nat) (phase : Phase) :
    Bounded grammar { builder with itemid := itemid, phase := phase, i := i } :=
  ⟨bounded.positive, bounded.known, bounded.grown, bounded.keys, bounded.counted, bounded.stored⟩

theorem next (bounded : builder.Bounded grammar) : builder.next.Bounded grammar :=
  bounded.of_counters _ _ _

theorem setGoto (bounded : builder.Bounded grammar) {symbol : Char} {target : Nat}
    (below : target < builder.size) : (builder.setGoto symbol target).Bounded grammar := by
  unfold Builder.setGoto
  refine bounded.updateSet (bounded.known builder.itemid) (bounded.grown builder.itemid) ?_
  intro other value isStored
  simp only [ItemSet.setGoto, Function.update_apply] at isStored
  split at isStored
  · cases isStored
    exact ⟨target, below, rfl⟩
  · exact bounded.stored _ _ _ isStored

/-- A new set with a new entry of `globalGoto`. -/
theorem create (bounded : builder.Bounded grammar) {item : Item} {symbol : Char}
    (known : grammar.Known item) (isSymbol : lookahead item.2 ≠ '\x00')
    (isNew : builder.globalGoto item = none) :
    (((builder.pushBack (ItemSet.new.push item.moved)).setGoto symbol
      (builder.size : Int)).setGlobalGoto item builder.size).Bounded grammar := by
  have pushed : ∀ keys : Item → Option Nat, (∀ item n, keys item = some n → n < builder.size + 1) →
      builder.size ≤ (grammar.dotted.filter fun item => (keys item).isSome).card →
      Bounded grammar
        { builder.pushBack (ItemSet.new.push item.moved) with globalGoto := keys } := by
    intro keys inRange counted
    have positive := bounded.positive
    constructor
    · exact Nat.succ_pos _
    · intro n
      by_cases same : n = builder.size
      · simpa [same, ItemSet.new, ItemSet.push] using known.moved isSymbol
      · simpa [same] using bounded.known n
    · intro n
      by_cases same : n = builder.size
      · refine ⟨[item.moved], ?_, List.nodup_singleton _, ?_⟩
        · simp [same, AugmentedGrammar.base, positive.ne', ItemSet.new, ItemSet.push]
        · simp [same, AugmentedGrammar.base, positive.ne']
      · simpa [same] using bounded.grown n
    · exact inRange
    · simp only [pushBack_size]
      omega
    · intro n symbol value isStored
      by_cases same : n = builder.size
      · simp [same, ItemSet.new, ItemSet.push] at isStored
      · simp only [pushBack_lr0items, Function.update_of_ne same] at isStored
        obtain ⟨target, below, isTarget⟩ := bounded.stored n symbol value isStored
        exact ⟨target, Nat.lt_succ_of_lt below, isTarget⟩
  have bound := pushed (Function.update builder.globalGoto item (some builder.size)) ?_ ?_
  · exact bound.setGoto (Nat.lt_succ_self builder.size)
  · intro other n isEntry
    rw [Function.update_apply] at isEntry
    split at isEntry
    · cases isEntry
      exact Nat.lt_succ_self _
    · exact Nat.lt_succ_of_lt (bounded.keys other n isEntry)
  · have more : insert item (grammar.dotted.filter fun item => (builder.globalGoto item).isSome) ⊆
        grammar.dotted.filter fun other =>
          (Function.update builder.globalGoto item (some builder.size) other).isSome := by
      intro other member
      rw [Finset.mem_insert, Finset.mem_filter] at member
      rw [Finset.mem_filter]
      rcases member with rfl | ⟨inDotted, isEntry⟩
      · exact ⟨known.mem_dotted, by simp⟩
      · refine ⟨inDotted, ?_⟩
        rw [Function.update_apply]
        split
        · rfl
        · exact isEntry
    have card := Finset.card_le_card more
    rw [Finset.card_insert_of_notMem (by simp [isNew])] at card
    have counted := bounded.counted
    omega

theorem step (bounded : builder.Bounded grammar)
    (isStep : Step grammar.lookup exactly builder after) : after.Bounded grammar := by
  cases isStep with
  | @close item isPhase found =>
      apply Bounded.next
      refine bounded.updateSet ?_ (ItemSet.grown_addClosure (bounded.grown builder.itemid)) ?_
      · intro other member
        rcases ItemSet.mem_addClosure member with old | ⟨rhs, isSide, -, rfl⟩
        · exact bounded.known builder.itemid other old
        · exact AugmentedGrammar.known_lookup isSide
      · rw [ItemSet.gotos_addClosure]
        exact bounded.stored builder.itemid
  | closed isPhase found => exact bounded.of_counters _ _ _
  | skip isPhase found isNull => exact bounded.next
  | @create item isPhase found isSymbol noGoto noGlobal =>
      have known := bounded.known builder.itemid item (List.mem_of_getElem? found)
      exact (bounded.create known isSymbol noGlobal).next
  | reuse isPhase found isSymbol noGoto isGlobal =>
      exact (bounded.setGoto (bounded.keys _ _ isGlobal)).next
  | @extend item n isPhase found isSymbol isGoto below =>
      have known := bounded.known builder.itemid item (List.mem_of_getElem? found)
      apply Bounded.next
      refine bounded.updateSet ?_ (ItemSet.grown_add (bounded.grown n)) ?_
      · intro other isAdded
        rcases ItemSet.mem_add isAdded with old | ⟨-, rfl⟩
        · exact bounded.known n other old
        · exact known.moved isSymbol
      · rw [ItemSet.gotos_add]
        exact bounded.stored n
  | scanned isPhase found => exact bounded.of_counters _ _ _

theorem size_le (bounded : builder.Bounded grammar) :
    builder.size ≤ 1 + grammar.dotted.card :=
  bounded.counted.trans (Nat.add_le_add_left (Finset.card_filter_le _ _) 1)

theorem length_le (bounded : builder.Bounded grammar) (n : Nat) :
    (builder.lr0items n).productions.length ≤ grammar.seeds.length + grammar.dotted.card := by
  have within := (bounded.grown n).length_le fun item member =>
    (bounded.known n item member).mem_dotted
  refine within.trans (Nat.add_le_add_right ?_ _)
  unfold AugmentedGrammar.base
  split
  · exact le_refl _
  · exact Nat.zero_le _

end Bounded

/-- A bound for the number of items of a set. -/
def itemBound (grammar : AugmentedGrammar) : Nat :=
  grammar.seeds.length + grammar.dotted.card

/-- The sets that are left, the loop, and the items that are left. -/
def remaining (grammar : AugmentedGrammar) (builder : Builder) : Nat :=
  (1 + grammar.dotted.card - builder.itemid) * (2 * itemBound grammar + 2) +
    (match builder.phase with
    | .closing => itemBound grammar + 1
    | .scanning => 0) + (itemBound grammar - builder.i)

theorem remaining_lt (bounded : builder.Bounded grammar) (unfinished : builder.finished = false)
    (isStep : Step grammar.lookup exactly builder after) :
    after.remaining grammar < builder.remaining grammar := by
  have size := bounded.size_le
  have inRange : builder.itemid < builder.size := by
    simpa [finished] using unfinished
  have items : builder.current.productions.length ≤ itemBound grammar :=
    bounded.length_le builder.itemid
  have below : ∀ item, builder.current.productions[builder.i]? = some item →
      builder.i < itemBound grammar := by
    intro item found
    obtain ⟨isIndex, -⟩ := List.getElem?_eq_some_iff.mp found
    omega
  have more : ∀ item, builder.current.productions[builder.i]? = some item →
      ∀ other : Builder, other.itemid = builder.itemid → other.phase = builder.phase →
        other.i = builder.i + 1 → other.remaining grammar < builder.remaining grammar := by
    intro item found other sameId samePhase isNext
    have isBelow := below item found
    simp only [remaining, sameId, samePhase, isNext]
    omega
  cases isStep with
  | close isPhase found => exact more _ found _ rfl rfl rfl
  | closed isPhase found =>
      simp only [remaining, isPhase]
      omega
  | skip isPhase found isNull => exact more _ found _ rfl rfl rfl
  | create isPhase found isSymbol noGoto noGlobal => exact more _ found _ rfl rfl rfl
  | reuse isPhase found isSymbol noGoto isGlobal => exact more _ found _ rfl rfl rfl
  | extend isPhase found isSymbol isGoto inSets => exact more _ found _ rfl rfl rfl
  | scanned isPhase found =>
      have left : 1 + grammar.dotted.card - builder.itemid =
          (1 + grammar.dotted.card - (builder.itemid + 1)) + 1 := by omega
      simp only [remaining, isPhase]
      rw [left, Nat.add_mul, Nat.one_mul]
      omega

theorem bounded_of_visits
    (visits : Visits finished (step grammar.lookup exactly) (initial grammar.seeds) builder) :
    builder.Bounded grammar :=
  visits.invariant bounded_initial fun _ _ _ bounded _ isStep => bounded.step (step_cases isStep)

end Builder

/-- The construction ends for every augmented grammar, the number of item sets is bounded
by the number of dotted productions, and only the items that set 0 had in the beginning can
be in a set twice. -/
theorem construction_ends (grammar : AugmentedGrammar) :
    ∃ enough builder,
      (∀ fuel, enough ≤ fuel →
        Builder.construct grammar.lookup exactly grammar.seeds fuel = .ok builder) ∧
      builder.size ≤ 1 + grammar.dotted.card ∧
      (∃ added, (builder.lr0items 0).productions = grammar.seeds ++ added ∧ added.Nodup ∧
        ∀ item ∈ added, item ∉ grammar.seeds) ∧
      ∀ n, 0 < n → n < builder.size → (builder.lr0items n).productions.Nodup := by
  have progress : ∀ builder, Visits Builder.finished (Builder.step grammar.lookup exactly)
      (Builder.initial grammar.seeds) builder → builder.finished = false →
      ∃ after, Builder.step grammar.lookup exactly builder = .ok after ∧
        after.remaining grammar < builder.remaining grammar := by
    intro builder visits unfinished
    have bounded := Builder.bounded_of_visits visits
    have steps : ∃ after, Builder.step grammar.lookup exactly builder = .ok after :=
      Builder.step_ok (bounded.stored builder.itemid)
    obtain ⟨after, isStep⟩ := steps
    exact ⟨after, isStep, Builder.remaining_lt bounded unfinished (Builder.step_cases isStep)⟩
  obtain ⟨builder, visits, -, ends⟩ := loop_ends Stop.fuel progress
  have bounded := Builder.bounded_of_visits visits
  refine ⟨(Builder.initial grammar.seeds).remaining grammar + 1, builder, ?_, bounded.size_le,
    bounded.grown 0, ?_⟩
  · intro fuel enough
    exact ends fuel enough
  · intro n positive _
    obtain ⟨added, isAdded, distinct, -⟩ := bounded.grown n
    rw [isAdded, AugmentedGrammar.base, if_neg positive.ne', List.nil_append]
    exact distinct

end Coursework.Grammar
