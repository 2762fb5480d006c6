import Coursework.GrammarTables
import Coursework.LoopRuns

/-!
# Item sets

`add_closure`, `getLR0Items` and the loop of `main` around it in `FFLR.cpp`, with
the class `LR0Item`.  The two loops of `getLR0Items` are a state machine that
closes the set `itemid` and then scans it; it tests in every step whether the
index `i` is below the current size of the set.  The key of `globalGoto` is the
text `lhs->rhs` of an item, which determines the item.

The values of `gotos` have the type `char`: `narrow` is the conversion of an index
to a stored value and back.
-/

namespace Coursework.Grammar

/-- The index of the first dot gives the rest after it; without one the position wraps
around to 0. -/
def afterDot : List Char → Option (List Char)
  | '.' :: rest => some rest
  | _ :: rest => afterDot rest
  | [] => none

/-- `rhs[rhs.find('.') + 1]`. -/
def lookahead (rhs : List Char) : Char :=
  ((afterDot rhs).getD rhs).headD '\x00'

/-- Swap the first dot with the character after it. -/
def advance : List Char → List Char
  | '.' :: c :: rest => c :: '.' :: rest
  | c :: rest => c :: advance rest
  | [] => []

/-- The item with the dot moved over the next character. -/
def Item.moved (item : Item) : Item :=
  (item.1, advance item.2)

/-- The text `lhs->rhs` up to the first null character, as `strcmp` reads it. -/
def Item.text (item : Item) : List Char :=
  (item.1 :: '-' :: '>' :: item.2).takeWhile (· ≠ '\x00')

/-- `LR0Item`. -/
structure ItemSet where
  productions : List Item
  gotos : Char → Option Int

namespace ItemSet

def new : ItemSet := ⟨[], fun _ => none⟩

def push (set : ItemSet) (item : Item) : ItemSet :=
  { set with productions := set.productions ++ [item] }

def contains (set : ItemSet) (item : Item) : Bool :=
  set.productions.any fun existing => Item.text item == Item.text existing

/-- Push an item that is not contained. -/
def add (set : ItemSet) (item : Item) : ItemSet :=
  if set.contains item then set else set.push item

def setGoto (set : ItemSet) (symbol : Char) (value : Int) : ItemSet :=
  { set with gotos := Function.update set.gotos symbol (some value) }

/-- `add_closure`. -/
def addClosure (grammar : Char → List (List Char)) (lookahead : Char) (set : ItemSet) : ItemSet :=
  if lookahead.isUpper then
    (grammar lookahead).foldl (fun set rhs => set.add (lookahead, '.' :: rhs)) set
  else set

end ItemSet

/-- The loop of `getLR0Items` that is running. -/
inductive Phase
  | closing
  | scanning
  deriving DecidableEq

/-- `lr0items`, of which the first `size` entries exist, `globalGoto`, and the counters. -/
structure Builder where
  size : Nat
  lr0items : Nat → ItemSet
  globalGoto : Item → Option Nat
  itemid : Nat
  phase : Phase
  i : Nat

namespace Builder

/-- The set that is processed. -/
def current (builder : Builder) : ItemSet :=
  builder.lr0items builder.itemid

@[simps]
def updateSet (builder : Builder) (n : Nat) (set : ItemSet) : Builder :=
  { builder with lr0items := Function.update builder.lr0items n set }

/-- `lr0items.push_back`. -/
@[simps]
def pushBack (builder : Builder) (set : ItemSet) : Builder :=
  { builder with
    size := builder.size + 1
    lr0items := Function.update builder.lr0items builder.size set }

@[simps]
def setGlobalGoto (builder : Builder) (item : Item) (n : Nat) : Builder :=
  { builder with globalGoto := Function.update builder.globalGoto item (some n) }

/-- Assign the goto of the current set. -/
def setGoto (builder : Builder) (symbol : Char) (value : Int) : Builder :=
  builder.updateSet builder.itemid (builder.current.setGoto symbol value)

@[simps]
def next (builder : Builder) : Builder :=
  { builder with i := builder.i + 1 }

/-- The body of the second loop of `getLR0Items`. -/
def scanItem (narrow : Nat → Int) (builder : Builder) (item : Item) : Except Stop Builder :=
  let symbol := lookahead item.2
  if symbol = '\x00' then .ok builder
  else
    match builder.current.gotos symbol with
    | none =>
        match builder.globalGoto item with
        | none =>
            .ok (((builder.pushBack (ItemSet.new.push item.moved)).setGoto symbol
              (narrow builder.size)).setGlobalGoto item builder.size)
        | some target => .ok (builder.setGoto symbol (narrow target))
    | some nextItem =>
        if 0 ≤ nextItem ∧ nextItem < builder.size then
          .ok (builder.updateSet nextItem.toNat ((builder.lr0items nextItem.toNat).add item.moved))
        else .error .range

/-- A step of `getLR0Items`, and `++itemid` after it. -/
def step (grammar : Char → List (List Char)) (narrow : Nat → Int) (builder : Builder) :
    Except Stop Builder :=
  match builder.current.productions[builder.i]?, builder.phase with
  | some item, .closing =>
      .ok (builder.updateSet builder.itemid
        (builder.current.addClosure grammar (lookahead item.2))).next
  | some item, .scanning => do
      let after ← builder.scanItem narrow item
      .ok after.next
  | none, .closing => .ok { builder with phase := .scanning, i := 0 }
  | none, .scanning =>
      .ok { builder with itemid := builder.itemid + 1, phase := .closing, i := 0 }

/-- The condition of the loop of `main` fails. -/
def finished (builder : Builder) : Bool :=
  decide (builder.size ≤ builder.itemid)

/-- The loop of `main` finds the items of the set 0. -/
def initial (seeds : List Item) : Builder where
  size := 1
  lr0items := fun n => if n = 0 then ⟨seeds, fun _ => none⟩ else ItemSet.new
  globalGoto := fun _ => none
  itemid := 0
  phase := .closing
  i := 0

/-- The loop of `main` over `getLR0Items`. -/
def construct (grammar : Char → List (List Char)) (narrow : Nat → Int) (seeds : List Item)
    (fuel : Nat) : Except Stop Builder :=
  loop finished (step grammar narrow) .fuel fuel (initial seeds)

end Builder

/-- An index is stored as it is. -/
def exactly (n : Nat) : Int := n

/-- An index is stored in a signed byte. -/
def asChar (n : Nat) : Int := (n : Int).bmod 256

/-- An augmented grammar: a start symbol, finitely many productions, and the items that
reading it has put into the set 0. -/
structure AugmentedGrammar where
  start : Char
  productions : List (Char × List Char)
  seeds : List Item
  seeded : ∀ seed ∈ seeds, ∃ production ∈ ('\'', [start]) :: productions,
    seed = (production.1, '.' :: production.2)

namespace AugmentedGrammar

/-- `grammar[lookahead]`. -/
def lookup (grammar : AugmentedGrammar) (lhs : Char) : List (List Char) :=
  grammar.productions.filterMap fun production =>
    if production.1 = lhs then some production.2 else none

/-- The augmented production and all others. -/
def allProductions (grammar : AugmentedGrammar) : List (Char × List Char) :=
  ('\'', [grammar.start]) :: grammar.productions

/-- The texts `lhs->rhs` with a dot inserted. -/
def dotted (grammar : AugmentedGrammar) : Finset Item :=
  (grammar.allProductions.flatMap fun production =>
    (List.range (production.2.length + 1)).map fun n =>
      (production.1, production.2.take n ++ '.' :: production.2.drop n)).toFinset

/-- The grammar that the tables of a file hold. -/
structure Describes (grammar : AugmentedGrammar) (tables : Tables) : Prop where
  seeds : grammar.seeds = tables.seeds
  lookup : ∀ lhs, grammar.lookup lhs = tables.augmented lhs
  start : ∀ lhs rest, tables.nonTerminal = lhs :: rest →
    grammar.start = lhs ∧ ('\'', ['.', lhs]) ∈ tables.seeds
  fresh : tables.nonTerminal = [] → tables.seeds = []

theorem exists_addProduction {tables after : Tables} {grammar : AugmentedGrammar} {val : Char}
    {line : List Char} (describes : grammar.Describes tables)
    (nonempty : tables.nonTerminal ≠ [])
    (isAfter : tables.addProduction val line = some after) :
    ∃ grammar : AugmentedGrammar, grammar.Describes after := by
  unfold Tables.addProduction at isAfter
  split at isAfter
  · cases isAfter
  · cases isAfter
    set rhs := Tables.rightSide line with isRhs
    set seeds := if tables.isTerminal (rhs.getD 0 '\x00') then tables.seeds
      else tables.seeds ++ [(val, '.' :: rhs)] with isNewSeeds
    have seeded : ∀ seed ∈ seeds,
        ∃ production ∈ ('\'', [grammar.start]) :: (grammar.productions ++ [(val, rhs)]),
          seed = (production.1, '.' :: production.2) := by
      have old : ∀ seed ∈ tables.seeds,
          ∃ production ∈ ('\'', [grammar.start]) :: (grammar.productions ++ [(val, rhs)]),
            seed = (production.1, '.' :: production.2) := by
        intro seed member
        obtain ⟨production, isProduction, isSeed⟩ := grammar.seeded seed (describes.seeds ▸ member)
        exact ⟨production, List.mem_append_left [(val, rhs)] isProduction, isSeed⟩
      intro seed member
      rw [isNewSeeds] at member
      split at member
      · exact old seed member
      · rcases List.mem_append.mp member with isOld | isNew
        · exact old seed isOld
        · exact ⟨(val, rhs), by simp, List.mem_singleton.mp isNew⟩
    refine ⟨⟨grammar.start, grammar.productions ++ [(val, rhs)], seeds, seeded⟩, rfl, ?_, ?_,
      fun isEmpty => (nonempty isEmpty).elim⟩
    · intro lhs
      have append : lookup ⟨grammar.start, grammar.productions ++ [(val, rhs)], seeds, seeded⟩ lhs =
          grammar.lookup lhs ++ if val = lhs then [rhs] else [] := by
        rw [lookup, lookup, List.filterMap_append]
        by_cases same : val = lhs <;> simp [same]
      rw [append, describes.lookup]
      by_cases same : val = lhs
      · simp [same]
      · simp [same, Function.update_of_ne (Ne.symm same)]
    · intro lhs rest isCons
      obtain ⟨same, member⟩ := describes.start lhs rest isCons
      refine ⟨same, ?_⟩
      simp only [isNewSeeds]
      split
      · exact member
      · exact List.mem_append_left _ member

theorem exists_readLine {tables after : Tables} {grammar : AugmentedGrammar} {line : List Char}
    (describes : grammar.Describes tables) (isAfter : tables.readLine line = some after) :
    ∃ grammar : AugmentedGrammar, grammar.Describes after := by
  set listed := if (line.getD 0 '\x00').isLower || !(line.getD 0 '\x00').isAlpha then
    { tables with terminal := tables.terminal ++ [line.getD 0 '\x00'] } else tables with isListed
  have ofListed : grammar.Describes listed := by
    rw [isListed]
    split
    · exact ⟨describes.seeds, describes.lookup, describes.start, describes.fresh⟩
    · exact describes
  simp only [Tables.readLine, ← isListed] at isAfter
  split at isAfter
  · split at isAfter
    · next isFirst =>
        set val := line.getD 0 '\x00'
        have noSeeds := ofListed.fresh isFirst
        have described : Describes ⟨val, grammar.productions, [('\'', ['.', val])], by simp⟩
            { listed with nonTerminal := [val], seeds := listed.seeds ++ [('\'', ['.', val])] } := by
          refine ⟨by simp [noSeeds], ofListed.lookup, ?_, by simp⟩
          intro lhs rest isCons
          cases isCons
          simp
        exact exists_addProduction described (by simp) isAfter
    · next notFirst =>
        split at isAfter
        · exact exists_addProduction ofListed notFirst isAfter
        · set val := line.getD 0 '\x00'
          have described : grammar.Describes
              { listed with nonTerminal := listed.nonTerminal ++ [val] } := by
            refine ⟨ofListed.seeds, ofListed.lookup, ?_, by simp⟩
            intro lhs rest isCons
            obtain ⟨first, others, isFirst⟩ := List.exists_cons_of_ne_nil notFirst
            rw [isFirst] at isCons
            cases isCons
            exact ofListed.start lhs others isFirst
          exact exists_addProduction described (by simp) isAfter
  · exact ⟨grammar, Option.some.inj isAfter ▸ ofListed⟩

/-- Every file that is read gives an augmented grammar. -/
theorem exists_read {lines : List (List Char)} {tables : Tables}
    (isRead : Tables.read lines = some tables) :
    ∃ grammar : AugmentedGrammar, grammar.Describes tables := by
  induction lines using List.reverseRecOn generalizing tables with
  | nil =>
      cases isRead
      exact ⟨⟨'S', [], [], by simp⟩, rfl, fun _ => rfl, by simp [Tables.empty], fun _ => rfl⟩
  | append_singleton done line ih =>
      rw [Tables.read, List.foldlM_append] at isRead
      obtain ⟨before, isBefore, isLast⟩ := Option.bind_eq_some_iff.mp isRead
      obtain ⟨grammar, describes⟩ := ih isBefore
      simp only [List.foldlM_cons, List.foldlM_nil] at isLast
      obtain ⟨after, isAfter, isTables⟩ := Option.bind_eq_some_iff.mp isLast
      cases isTables
      exact exists_readLine describes isAfter

end AugmentedGrammar

end Coursework.Grammar
