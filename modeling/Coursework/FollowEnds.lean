import Coursework.FollowRounds
import Coursework.ScanBounds

/-!
# The end of the first and follow sets

When `first()` and `follow()` of `FFLR.cpp` end without an index past a string.
`first()` never ends with an empty alternative before another one, where its scan does
not advance.  `follow()` decides about the end while it goes through the string of the
nonterminal before the last one, so that it never ends when this string is empty; it
may end before it comes to the string of the last nonterminal.
-/

namespace Coursework.Grammar

namespace Tables

variable {tables : Tables} {expr rest : List Char} {lhs : Char}

/-! ## Empty alternatives -/

/-- The scan of `first()` does not get past an empty alternative. -/
theorem firstAlternatives_stuck {inner fuel j : Nat} (isRest : expr.drop j = rest)
    (stuck : ¬ Scannable rest) (innerEnough : expr.length + 2 ≤ inner) (progress : Progress) :
    tables.firstAlternatives lhs expr inner fuel j false progress = .error .fuel := by
  induction fuel generalizing rest j progress with
  | zero => rfl
  | succ fuel ih =>
      have member : '|' ∈ rest := by
        by_contra absent
        exact stuck (scannable_of_not_mem absent)
      obtain ⟨text, after, rfl, inText⟩ := List.eq_append_cons_of_mem member
      rw [scannable_bar inText, not_and] at stuck
      cases text with
      | nil =>
          have below := lt_of_drop isRest
          obtain ⟨less, rfl⟩ : ∃ less, inner = less + 1 := ⟨inner - 1, by omega⟩
          have stays : skipAlternative expr (less + 1) j '|' = .ok j := by
            rw [skipAlternative, if_neg (by simp)]
          rw [firstAlternatives, if_pos below, if_neg Bool.false_ne_true, charAt_of_drop isRest]
          simp only [bind, Except.bind, stays]
          rw [if_neg (by omega), charAt_of_drop isRest]
          exact ih isRest (by rw [scannable_bar inText]; simp) _
      | cons c text =>
          rw [List.cons_append] at isRest
          have below := lt_of_drop isRest
          have length := length_of_drop below.le isRest
          have notBar : c ≠ '|' := by
            rintro rfl
            simp at inText
          have stuckAfter := stuck (List.cons_ne_nil c text)
          obtain ⟨d, tail, rfl⟩ : ∃ d tail, after = d :: tail := by
            apply List.exists_cons_of_ne_nil
            rintro rfl
            exact stuckAfter (scannable_of_not_mem List.not_mem_nil)
          simp only [List.length_cons, List.length_append] at length
          have skipped : skipAlternative expr inner j c = .ok (j + (c :: text).length + 1) :=
            skipAlternative_bar notBar isRest inText (by simp; omega)
          have afterDrop : expr.drop (j + (c :: text).length + 1) = d :: tail := by
            rw [Nat.add_assoc, ← List.drop_drop, isRest, ← List.drop_drop]
            simp
          rw [firstAlternatives, if_pos below, if_neg Bool.false_ne_true, charAt_of_drop isRest]
          simp only [bind, Except.bind, skipped]
          rw [if_neg (Nat.not_le.mpr (lt_of_drop afterDrop)), charAt_of_drop afterDrop]
          exact ih afterDrop stuckAfter _

/-- The loop of `first()` comes to every string. -/
theorem firstLoop_stuck {inner fuel i k : Nat} {progress : Progress} (fits : tables.Fits inner)
    (unquoted : '\'' ∉ tables.nonTerminal) (inRange : k < tables.nonTerminal.length)
    (stuck : ¬ Scannable (tables.production (tables.nonTerminal.getD k '\x00')))
    (before : ∀ m < k, Scannable (tables.production (tables.nonTerminal.getD m '\x00')))
    (le : i ≤ k) (up : progress.changes = true) :
    tables.firstLoop true inner fuel i progress = .error .fuel := by
  induction fuel generalizing i progress with
  | zero => rfl
  | succ fuel ih =>
      have within : i < tables.nonTerminal.length := by omega
      have member := getD_mem within
      have enough := fits _ member
      have notQuote : tables.nonTerminal.getD i '\x00' ≠ '\'' := by
        intro isQuote
        rw [isQuote] at member
        exact unquoted member
      rw [firstLoop, Nat.mod_eq_of_lt within]
      simp only [notQuote, and_false, if_false]
      rcases Nat.eq_or_lt_of_le le with rfl | earlier
      · obtain ⟨less, isLess⟩ : ∃ less, inner = less + 1 := ⟨inner - 1, by omega⟩
        have noPass : ∀ progress, tables.firstAlternatives (tables.nonTerminal.getD i '\x00')
            (tables.production (tables.nonTerminal.getD i '\x00')) inner inner 0 true progress =
            .error .fuel := by
          intro progress
          obtain ⟨c, rest, isCons⟩ : ∃ c rest,
              tables.production (tables.nonTerminal.getD i '\x00') = c :: rest := by
            apply List.exists_cons_of_ne_nil
            intro isEmpty
            rw [isEmpty] at stuck
            exact stuck (scannable_of_not_mem List.not_mem_nil)
          rw [isCons] at stuck enough ⊢
          nth_rewrite 2 [isLess]
          rw [firstAlternatives, if_pos (by simp), if_pos rfl, charAt_of_drop List.drop_zero]
          exact firstAlternatives_stuck List.drop_zero stuck (by omega) _
        rw [noPass]
        rfl
      · have next : (i + 1) % tables.nonTerminal.length = i + 1 := Nat.mod_eq_of_lt (by omega)
        rw [firstAlternatives_eq (before i earlier) enough]
        simp only [bind, Except.bind, next]
        have stillUp : (tables.pass (tables.nonTerminal.getD i '\x00') progress).changes = true := by
          by_contra down
          have unchanged := (foldl_unchanged progress _).mp (Bool.not_eq_true _ ▸ down)
          rw [up] at unchanged
          cases unchanged.1
        have notZero : i + 1 ≠ 0 := by omega
        simp only [notZero, if_false, stillUp, Bool.true_eq_false, and_false]
        exact ih earlier stillUp

/-! ## Pairs that add nothing -/

/-- A terminal that a nonterminal leads to along first characters of alternatives. -/
inductive Leads (tables : Tables) : Char → Char → Prop
  | terminal {lhs c : Char} : lhs ∈ tables.nonTerminal → c ∈ leading (tables.production lhs) →
      tables.isTerminal c = true → Leads tables lhs c
  | nonterminal {lhs c a : Char} : lhs ∈ tables.nonTerminal →
      c ∈ leading (tables.production lhs) → tables.isTerminal c = false →
      Leads tables c a → Leads tables lhs a

open Classical in
theorem mem_iff_leads {firstMap : CharSets}
    (least : IsLeast {sets | tables.FirstClosed sets} firstMap) {c a : Char} :
    a ∈ firstMap c ↔ tables.Leads c a := by
  have closed := firstClosed_iff.mp least.1
  constructor
  · intro member
    have isClosed : tables.FirstClosed fun c => (firstMap c).filter (tables.Leads c) := by
      apply firstClosed_iff.mpr
      intro lhs listed c isLeading
      have contributes := closed lhs listed c isLeading
      unfold Contributes at contributes ⊢
      cases isTerminal : tables.isTerminal c with
      | true =>
          rw [if_pos isTerminal] at contributes
          rw [if_pos rfl, Finset.mem_filter]
          exact ⟨contributes, .terminal listed isLeading isTerminal⟩
      | false =>
          rw [isTerminal, if_neg Bool.false_ne_true] at contributes
          rw [if_neg Bool.false_ne_true]
          intro a isIn
          rw [Finset.mem_filter] at isIn ⊢
          exact ⟨contributes isIn.1, .nonterminal listed isLeading isTerminal isIn.2⟩
    exact (Finset.mem_filter.mp (least.2 isClosed c member)).2
  · intro leads
    induction leads with
    | terminal listed isLeading isTerminal =>
        have contributes := closed _ listed _ isLeading
        rw [Contributes, if_pos isTerminal] at contributes
        exact contributes
    | nonterminal listed isLeading notTerminal leads ih =>
        have contributes := closed _ listed _ isLeading
        rw [Contributes, notTerminal, if_neg Bool.false_ne_true] at contributes
        exact contributes ih

/-- A pair that adds nothing while all follow sets are empty. -/
def Harmless (tables : Tables) (pair : Char × Char) : Prop :=
  tables.isTerminal pair.1 = true ∨
    if tables.isTerminal pair.2 then pair.2 = 'e' else ∀ a, tables.Leads pair.2 a → a = 'e'

theorem harmless_iff {firstMap : CharSets}
    (least : IsLeast {sets | tables.FirstClosed sets} firstMap) (pair : Char × Char) :
    tables.contribution firstMap lhs (fun _ => ∅) pair ⊆ ∅ ↔ tables.Harmless pair := by
  unfold contribution Harmless
  cases isTerminal : tables.isTerminal pair.1 with
  | true => simp
  | false =>
      have noEnd : ofEnd lhs (fun _ => ∅) pair.2 = ∅ := by
        unfold ofEnd
        split <;> rfl
      rw [if_neg Bool.false_ne_true, noEnd, Finset.empty_union, ofNext]
      simp only [Bool.false_eq_true, false_or, Finset.erase_empty, ite_self, Finset.union_empty]
      cases tables.isTerminal pair.2 with
      | true =>
          simp only [if_true, Finset.subset_empty]
          rw [Finset.erase_eq_empty_iff]
          simp
      | false =>
          simp only [Bool.false_eq_true, if_false, Finset.subset_empty,
            Finset.eq_empty_iff_forall_notMem, Finset.mem_erase, not_and, mem_iff_leads least]
          exact forall_congr' fun a => ⟨not_imp_not.mp, not_imp_not.mpr⟩

/-! ## Passes that fail -/

section Loop

variable {firstMap : CharSets} {inner fuel i k : Nat} {progress : Progress}

/-- The loop does not end before the turn of the nonterminal that decides. -/
theorem followLoop_bad (fits : tables.Fits inner) (unquoted : '\'' ∉ tables.nonTerminal)
    (inRange : k < tables.nonTerminal.length)
    (early : k < tables.nonTerminal.length - 1 ∨ k = 0)
    (bad : ¬ tables.PassesWithin (tables.nonTerminal.getD k '\x00')) (le : i ≤ k)
    (result : CharSets) : tables.followLoop firstMap inner fuel i progress ≠ .ok result := by
  induction fuel generalizing i progress with
  | zero => exact nofun
  | succ fuel ih =>
      by_cases within : tables.PassesWithin (tables.nonTerminal.getD i '\x00')
      · have distinct : i ≠ k := by
          rintro rfl
          exact bad within
        have next : (i + 1) % tables.nonTerminal.length = i + 1 := Nat.mod_eq_of_lt (by omega)
        rw [followLoop_turn fits unquoted (by omega) within]
        simp only
        rw [if_neg, next]
        · exact ih (by omega)
        · rw [followTurn_complete_iff, next]
          rintro ⟨atEnd, -⟩
          omega
      · rw [followLoop_beyond fits unquoted (by omega) within]
        exact nofun

/-- The loop does not end when the string that decides is empty. -/
theorem followLoop_undecided (fits : tables.Fits inner) (unquoted : '\'' ∉ tables.nonTerminal)
    (inRange : i < tables.nonTerminal.length) (undecided : tables.production tables.deciding = [])
    (result : CharSets) : tables.followLoop firstMap inner fuel i progress ≠ .ok result := by
  induction fuel generalizing i progress with
  | zero => rintro ⟨⟩
  | succ fuel ih =>
      by_cases within : tables.PassesWithin (tables.nonTerminal.getD i '\x00')
      · rw [followLoop_turn fits unquoted inRange within]
        simp only
        rw [if_neg]
        · exact ih (Nat.mod_lt _ (by omega))
        · rw [followTurn_complete_iff]
          rintro ⟨atEnd, pair, isPair, -⟩
          rw [deciding_of_turn inRange atEnd, pairList, undecided] at isPair
          cases isPair
      · rw [followLoop_beyond fits unquoted inRange within]
        rintro ⟨⟩

/-! ## The last string -/

/-- From turn `i` to the turn that decides, no pair adds to the sets. -/
structure Quiet (tables : Tables) (firstMap : CharSets) (i : Nat) (sets : CharSets) : Prop where
  before : ∀ k, i ≤ k → k < tables.nonTerminal.length - 2 →
    ∀ pair ∈ tables.pairList (tables.nonTerminal.getD k '\x00'),
      tables.contribution firstMap (tables.nonTerminal.getD k '\x00') sets pair ⊆ sets pair.1
  first : ∀ pair ∈ (tables.pairList tables.deciding).head?,
    tables.contribution firstMap tables.deciding sets pair ⊆ sets pair.1

theorem quiet_iff {sets : CharSets} (before : i < tables.nonTerminal.length - 2) (changes : Bool) :
    tables.Quiet firstMap i sets ↔
      (tables.followTurn firstMap i sets changes).state = sets ∧
        tables.Quiet firstMap (i + 1) sets := by
  rw [followTurn_state, foldl_addFollow_eq_iff]
  constructor
  · intro quiet
    refine ⟨quiet.before i (le_refl i) before, ⟨?_, quiet.first⟩⟩
    intro k later
    exact quiet.before k (by omega)
  · rintro ⟨here, quiet⟩
    refine ⟨?_, quiet.first⟩
    intro k later
    rcases Nat.eq_or_lt_of_le later with rfl | later
    · exact fun _ => here
    · exact quiet.before k later

/-- The turn that decides ends the loop if nothing has been added. -/
theorem decided_iff {sets : CharSets} {changes : Bool}
    (several : 2 ≤ tables.nonTerminal.length) (decided : tables.pairList tables.deciding ≠ []) :
    (tables.followTurn firstMap (tables.nonTerminal.length - 2) sets changes).complete = true ↔
      changes = false ∧ tables.Quiet firstMap (tables.nonTerminal.length - 2) sets := by
  have next : (tables.nonTerminal.length - 2 + 1) % tables.nonTerminal.length =
      tables.nonTerminal.length - 1 := by
    rw [Nat.mod_eq_of_lt (by omega)]
    omega
  obtain ⟨pair, rest, isList⟩ := List.exists_cons_of_ne_nil decided
  have unchanged := (tables.addFollow_records firstMap tables.deciding).unchanged
    ⟨sets, changes⟩ pair
  rw [addFollow_eq_iff] at unchanged
  rw [followTurn_complete_iff, next]
  change (_ ∧ ∃ pair ∈ (tables.pairList tables.deciding).head?,
    (tables.addFollow firstMap tables.deciding ⟨sets, changes⟩ pair).changes = false) ↔ _
  simp only [isList, List.head?_cons, Option.mem_some_iff, exists_eq_left', true_and, unchanged]
  apply and_congr_right
  intro _
  constructor
  · intro here
    refine ⟨fun k later before => by omega, ?_⟩
    rintro other isFirst
    rw [isList, List.head?_cons, Option.mem_some_iff] at isFirst
    exact isFirst ▸ here
  · intro quiet
    apply quiet.first
    rw [isList]
    rfl

/-- When the last string is bad the loop has to end in the first round. -/
theorem followLoop_quiet_iff (fits : tables.Fits inner) (unquoted : '\'' ∉ tables.nonTerminal)
    (several : 2 ≤ tables.nonTerminal.length)
    (within : ∀ k < tables.nonTerminal.length - 1,
      tables.PassesWithin (tables.nonTerminal.getD k '\x00'))
    (decided : tables.pairList tables.deciding ≠ [])
    (bad : ¬ tables.PassesWithin
      (tables.nonTerminal.getD (tables.nonTerminal.length - 1) '\x00'))
    (le : i ≤ tables.nonTerminal.length - 2) (enough : tables.nonTerminal.length ≤ fuel + i)
    (result : CharSets) :
    tables.followLoop firstMap inner fuel i progress = .ok result ↔
      (progress.changes = false ∧ tables.Quiet firstMap i progress.sets) ∧
        (tables.followTurn firstMap (tables.nonTerminal.length - 2) progress.sets false).state =
          result := by
  induction fuel generalizing i progress with
  | zero => omega
  | succ fuel ih =>
      have next : (i + 1) % tables.nonTerminal.length = i + 1 := Nat.mod_eq_of_lt (by omega)
      have flag : RoundRobin.cleared tables.nonTerminal.length i progress.changes =
          progress.changes := by
        rw [RoundRobin.cleared, next, if_neg (by omega)]
      rw [followLoop_turn fits unquoted (by omega) (within i (by omega))]
      simp only [flag, next]
      rcases Nat.eq_or_lt_of_le le with rfl | before
      · rw [← decided_iff several decided]
        split
        · next complete =>
            have down := ((decided_iff several decided).mp complete).1
            rw [down] at complete ⊢
            rw [Except.ok.injEq]
            exact (and_iff_right complete).symm
        · next incomplete =>
            obtain ⟨less, rfl⟩ : ∃ less, fuel = less + 1 := ⟨fuel - 1, by omega⟩
            have isLast : tables.nonTerminal.length - 2 + 1 = tables.nonTerminal.length - 1 := by
              omega
            rw [isLast, followLoop_beyond fits unquoted (by omega) bad]
            simp only [reduceCtorEq, false_iff, not_and]
            exact fun complete => (incomplete complete).elim
      · rw [if_neg]
        · have growing := (tables.addFollow_records firstMap
            (tables.nonTerminal.getD i '\x00')).foldl_unchanged progress
            (tables.pairList (tables.nonTerminal.getD i '\x00'))
          rw [ih (by omega) (by omega), quiet_iff before progress.changes]
          simp only [followTurn_changes, followTurn_state] at growing ⊢
          rw [growing]
          constructor
          · rintro ⟨⟨⟨down, same⟩, quiet⟩, isResult⟩
            rw [same] at quiet isResult
            exact ⟨⟨down, same, quiet⟩, isResult⟩
          · rintro ⟨⟨down, same, quiet⟩, isResult⟩
            rw [same]
            exact ⟨⟨⟨down, rfl⟩, quiet⟩, isResult⟩
        · rw [followTurn_complete_iff, next]
          rintro ⟨atEnd, -⟩
          omega

end Loop

/-! ## Grammar files -/

/-- No pair adds anything up to the first pair that decides. -/
structure Idle (tables : Tables) : Prop where
  before : ∀ lhs ∈ tables.nonTerminal.dropLast.dropLast, ∀ pair ∈ tables.pairList lhs,
    tables.Harmless pair
  first : ∀ pair ∈ (tables.pairList tables.deciding).head?, tables.Harmless pair

/-- The condition on the strings of productions under which both functions end. -/
structure EndsWithin (tables : Tables) : Prop where
  scannable : tables.AllScannable
  decided : tables.production tables.deciding ≠ []
  within : ∀ lhs ∈ tables.nonTerminal.dropLast, tables.FollowWithin (tables.production lhs)
  last : ∀ lhs, tables.nonTerminal.getLast? = some lhs →
    tables.FollowWithin (tables.production lhs) ∨ 2 ≤ tables.nonTerminal.length ∧ tables.Idle

/-- `first()` and then `follow()` end, with no index past a terminating position. -/
def ComputationEnds (tables : Tables) : Prop :=
  ∃ enough firstMap followMap, ∀ fuel, enough ≤ fuel →
    tables.first fuel = .ok firstMap ∧ tables.follow firstMap fuel = .ok followMap

theorem follow_ok_iff {firstMap followMap : CharSets} {fuel : Nat} :
    tables.follow firstMap fuel = .ok followMap ↔ ∃ result,
      tables.followLoop firstMap fuel fuel 0 ⟨fun _ => ∅, false⟩ = .ok result ∧
        Function.update result (tables.nonTerminal.getD 0 '\x00')
          (insert '$' (result (tables.nonTerminal.getD 0 '\x00'))) = followMap := by
  rw [follow]
  cases tables.followLoop firstMap fuel fuel 0 ⟨fun _ => ∅, false⟩ with
  | error stop => simp [bind, Except.bind]
  | ok result => simp [bind, Except.bind, pure, Except.pure]

theorem exists_index {lhs : Char} {list : List Char} (member : lhs ∈ list) :
    ∃ k < list.length, list.getD k '\x00' = lhs := by
  obtain ⟨k, inRange, isLhs⟩ := List.getElem_of_mem member
  refine ⟨k, inRange, ?_⟩
  rw [List.getD_eq_getElem?_getD, List.getElem?_eq_getElem inRange]
  exact isLhs

/-- A `first()` that ends has scanned every string. -/
theorem scannable_of_first {firstMap : CharSets} (unquoted : '\'' ∉ tables.nonTerminal)
    {enough : Nat} (ends : ∀ fuel, enough ≤ fuel → tables.first fuel = .ok firstMap) :
    tables.AllScannable := by
  by_contra stuck
  rw [AllScannable] at stuck
  push Not at stuck
  obtain ⟨lhs, member, notScannable⟩ := stuck
  obtain ⟨inner, fits⟩ := tables.exists_fits
  have some : ∃ k, k < tables.nonTerminal.length ∧
      ¬ Scannable (tables.production (tables.nonTerminal.getD k '\x00')) := by
    obtain ⟨k, inRange, isLhs⟩ := exists_index member
    exact ⟨k, inRange, isLhs ▸ notScannable⟩
  classical
  have least := Nat.find_spec some
  have before : ∀ m < Nat.find some,
      Scannable (tables.production (tables.nonTerminal.getD m '\x00')) := by
    intro m below
    have earlier := Nat.find_min some below
    rw [not_and, not_not] at earlier
    exact earlier (by omega)
  have result := ends (max enough inner) (by omega)
  rw [first, firstLoop_stuck (fits _ (by omega)) unquoted least.1 least.2 before (Nat.zero_le _)
    rfl] at result
  cases result

theorem passesWithin_iff (scannable : tables.AllScannable) (member : lhs ∈ tables.nonTerminal) :
    tables.PassesWithin lhs ↔ tables.FollowWithin (tables.production lhs) :=
  followWithin_iff (scannable lhs member)

theorem getD_dropLast {list : List Char} {k : Nat} (below : k < list.length - 1) :
    list.dropLast.getD k '\x00' = list.getD k '\x00' := by
  rw [List.getD_eq_getElem?_getD, List.getD_eq_getElem?_getD, List.getElem?_dropLast,
    if_pos below]

theorem getD_mem_list {list : List Char} {k : Nat} (inRange : k < list.length) :
    list.getD k '\x00' ∈ list := by
  simp [inRange]

theorem getD_dropLast_mem {list : List Char} {k : Nat} (below : k < list.length - 1) :
    list.getD k '\x00' ∈ list.dropLast := by
  rw [← getD_dropLast below]
  exact getD_mem_list (by rw [List.length_dropLast]; exact below)

theorem exists_index_dropLast {lhs : Char} {list : List Char} (member : lhs ∈ list.dropLast) :
    ∃ k < list.length - 1, list.getD k '\x00' = lhs := by
  obtain ⟨k, inRange, isLhs⟩ := exists_index member
  rw [List.length_dropLast] at inRange
  exact ⟨k, inRange, (getD_dropLast inRange).symm.trans isLhs⟩

theorem getLast?_eq_getD {list : List Char} (nonempty : list ≠ []) :
    list.getLast? = some (list.getD (list.length - 1) '\x00') := by
  have positive := List.length_pos_of_ne_nil nonempty
  rw [List.getLast?_eq_getElem?, List.getD_eq_getElem?_getD,
    List.getElem?_eq_getElem (by omega)]
  rfl

/-- The pairs up to the one that decides add nothing to empty sets. -/
theorem quiet_empty_iff {firstMap : CharSets}
    (least : IsLeast {sets | tables.FirstClosed sets} firstMap) :
    tables.Quiet firstMap 0 (fun _ => ∅) ↔ tables.Idle := by
  constructor
  · intro quiet
    refine ⟨?_, fun pair isFirst => (harmless_iff least pair).mp (quiet.first pair isFirst)⟩
    intro lhs member pair isPair
    obtain ⟨k, below, isLhs⟩ := exists_index_dropLast member
    rw [List.length_dropLast] at below
    rw [getD_dropLast (by omega)] at isLhs
    subst isLhs
    exact (harmless_iff least pair).mp (quiet.before k (Nat.zero_le k) (by omega) pair isPair)
  · intro idle
    refine ⟨?_, fun pair isFirst => (harmless_iff least pair).mpr (idle.first pair isFirst)⟩
    intro k _ below pair isPair
    apply (harmless_iff least pair).mpr
    apply idle.before _ _ pair isPair
    rw [← getD_dropLast (by omega)]
    exact getD_dropLast_mem (by rw [List.length_dropLast]; omega)

theorem pairList_ne_nil (nonempty : tables.production lhs ≠ [])
    (within : tables.PassesWithin lhs) : tables.pairList lhs ≠ [] := by
  obtain ⟨list, isList⟩ := Option.isSome_iff_exists.mp within
  rw [pairList, isList, Option.getD_some]
  exact pairs_ne_nil nonempty isList

theorem endsWithin_of_ends (nonempty : tables.nonTerminal ≠ [])
    (unquoted : '\'' ∉ tables.nonTerminal) (ends : tables.ComputationEnds) :
    tables.EndsWithin := by
  obtain ⟨enough, firstMap, followMap, ends⟩ := ends
  have positive := List.length_pos_of_ne_nil nonempty
  have scannable := scannable_of_first unquoted fun fuel le => (ends fuel le).1
  obtain ⟨inner, fits⟩ := tables.exists_fits
  obtain ⟨enoughFirst, result, firstEnds, rounds⟩ := first_ends scannable nonempty unquoted true true
  set fuel := max (max enough inner) (max enoughFirst tables.nonTerminal.length) with isFuel
  have isFirst : firstMap = result := by
    have same := (ends fuel (by omega)).1.symm.trans (firstEnds fuel (by omega))
    exact Except.ok.inj same
  have least : IsLeast {sets | tables.FirstClosed sets} firstMap :=
    isFirst ▸ rounds_least nonempty (rounds enoughFirst (le_refl _))
  obtain ⟨loopResult, isResult, -⟩ := follow_ok_iff.mp (ends fuel (by omega)).2
  have fits := fits fuel (by omega)
  have decided : tables.production tables.deciding ≠ [] := by
    intro undecided
    exact followLoop_undecided fits unquoted positive undecided loopResult isResult
  have early : ∀ k, k < tables.nonTerminal.length → k < tables.nonTerminal.length - 1 ∨ k = 0 →
      tables.PassesWithin (tables.nonTerminal.getD k '\x00') := by
    intro k inRange early
    by_contra bad
    exact followLoop_bad fits unquoted inRange early bad (Nat.zero_le k) loopResult isResult
  refine ⟨scannable, decided, ?_, ?_⟩
  · intro lhs member
    obtain ⟨k, below, rfl⟩ := exists_index_dropLast member
    exact (passesWithin_iff scannable (List.mem_of_mem_dropLast member)).mp
      (early k (by omega) (.inl below))
  · intro lhs isLast
    rw [getLast?_eq_getD nonempty, Option.some.injEq] at isLast
    subst isLast
    have member := getD_mem_list (show tables.nonTerminal.length - 1 <
      tables.nonTerminal.length by omega)
    by_cases within : tables.PassesWithin
        (tables.nonTerminal.getD (tables.nonTerminal.length - 1) '\x00')
    · exact .inl ((passesWithin_iff scannable member).mp within)
    · right
      have several : 2 ≤ tables.nonTerminal.length := by
        by_contra single
        exact within (early _ (by omega) (.inr (by omega)))
      have hasPair : tables.pairList tables.deciding ≠ [] := by
        exact pairList_ne_nil decided
          (early (tables.nonTerminal.length - 2) (by omega) (.inl (by omega)))
      have quiet := (followLoop_quiet_iff fits unquoted several
        (fun k below => early k (by omega) (.inl below)) hasPair within (Nat.zero_le _)
        (by omega) loopResult).mp isResult
      exact ⟨several, (quiet_empty_iff least).mp quiet.1.2⟩

theorem EndsWithin.ends (condition : tables.EndsWithin) (nonempty : tables.nonTerminal ≠ [])
    (unquoted : '\'' ∉ tables.nonTerminal) : tables.ComputationEnds := by
  have positive := List.length_pos_of_ne_nil nonempty
  have scannable := condition.scannable
  obtain ⟨inner, fits⟩ := tables.exists_fits
  obtain ⟨enoughFirst, firstMap, firstEnds, rounds⟩ :=
    first_ends scannable nonempty unquoted true true
  have least := rounds_least nonempty (rounds enoughFirst (le_refl _))
  have early : ∀ k < tables.nonTerminal.length - 1,
      tables.PassesWithin (tables.nonTerminal.getD k '\x00') := by
    intro k below
    have member := getD_dropLast_mem below
    exact (passesWithin_iff scannable (List.mem_of_mem_dropLast member)).mpr
      (condition.within _ member)
  have loopEnds : ∃ enough result, ∀ fuel, enough ≤ fuel →
      tables.followLoop firstMap fuel fuel 0 ⟨fun _ => ∅, false⟩ = .ok result := by
    by_cases lastWithin : tables.PassesWithin
        (tables.nonTerminal.getD (tables.nonTerminal.length - 1) '\x00')
    · have within : ∀ lhs ∈ tables.nonTerminal, tables.PassesWithin lhs := by
        intro lhs member
        obtain ⟨k, inRange, rfl⟩ := exists_index member
        rcases Nat.lt_or_ge k (tables.nonTerminal.length - 1) with before | isLast
        · exact early k before
        · have here : k = tables.nonTerminal.length - 1 := by omega
          rw [here]
          exact lastWithin
      have isListed : tables.deciding ∈ tables.nonTerminal :=
        getD_mem_list (show tables.nonTerminal.length - 2 < tables.nonTerminal.length by omega)
      obtain ⟨enough, result, ends⟩ := followRounds_end firstMap nonempty
        (pairList_ne_nil condition.decided (within _ isListed))
      refine ⟨max enough inner, result, ?_⟩
      intro fuel le
      rw [followLoop_eq within (fits fuel (by omega)) unquoted positive]
      simp only [ends fuel (by omega)]
    · obtain ⟨several, idle⟩ : 2 ≤ tables.nonTerminal.length ∧ tables.Idle := by
        apply (condition.last _ (getLast?_eq_getD nonempty)).resolve_left
        rw [← passesWithin_iff scannable (getD_mem_list (by omega))]
        exact lastWithin
      have hasPair := pairList_ne_nil condition.decided
        (early (tables.nonTerminal.length - 2) (by omega))
      refine ⟨max tables.nonTerminal.length inner,
        (tables.followTurn firstMap (tables.nonTerminal.length - 2) (fun _ => ∅) false).state, ?_⟩
      intro fuel le
      apply (followLoop_quiet_iff (fits fuel (by omega)) unquoted several early hasPair lastWithin
        (Nat.zero_le _) (by omega) _).mpr
      exact ⟨⟨rfl, (quiet_empty_iff least).mpr idle⟩, rfl⟩
  obtain ⟨enough, result, ends⟩ := loopEnds
  refine ⟨max enoughFirst enough, firstMap,
    Function.update result (tables.nonTerminal.getD 0 '\x00')
      (insert '$' (result (tables.nonTerminal.getD 0 '\x00'))), ?_⟩
  intro fuel le
  exact ⟨firstEnds fuel (by omega), follow_ok_iff.mpr ⟨result, ends fuel (by omega), rfl⟩⟩

end Tables

/-- `first()` and `follow()` end for a grammar file, with no index past the terminating
position of a string, exactly if its strings meet the condition. -/
theorem computation_ends_iff {lines : List (List Char)} {tables : Tables}
    (isRead : Tables.read lines = some tables) (nonempty : tables.nonTerminal ≠ []) :
    tables.ComputationEnds ↔ tables.EndsWithin := by
  have unquoted : '\'' ∉ tables.nonTerminal := by
    intro member
    cases (Tables.listed_read isRead).upper _ member
  exact ⟨Tables.endsWithin_of_ends nonempty unquoted, fun condition =>
    condition.ends nonempty unquoted⟩

/-- `S -> aS` and `S -> b`. -/
def endingFile : List (List Char) :=
  ["a".toList, "b".toList, "S->aS".toList, "S->b".toList]

theorem computation_ends_iff_endingFile : ∃ tables, Tables.read endingFile = some tables ∧
    tables.ComputationEnds := by
  obtain ⟨tables, isRead⟩ : ∃ tables, Tables.read endingFile = some tables := ⟨_, rfl⟩
  have facts : tables.nonTerminal = ['S'] ∧ tables.terminal = ['a', 'b'] ∧
      tables.production 'S' = ['a', 'S', '|', 'b'] := by
    cases isRead
    decide
  obtain ⟨isList, isTerminal, isProduction⟩ := facts
  refine ⟨tables, isRead, (computation_ends_iff isRead (by simp [isList])).mpr ?_⟩
  have isAlternatives : Tables.alternatives ['a', 'S', '|', 'b'] = [['a', 'S'], ['b']] := by decide
  refine ⟨?_, ?_, ?_, ?_⟩
  · intro lhs member
    rw [isList, List.mem_singleton] at member
    rw [member, isProduction, Tables.Scannable, isAlternatives]
    decide
  · rw [Tables.deciding, isList]
    change tables.production 'S' ≠ []
    rw [isProduction]
    decide
  · intro lhs member
    rw [isList] at member
    cases member
  · intro lhs isLast
    rw [isList, List.getLast?_singleton, Option.some.injEq] at isLast
    subst isLast
    rw [isProduction]
    refine .inl ⟨rfl, ?_⟩
    rw [isAlternatives]
    intro impossible
    exact absurd impossible (by decide)

/-- `S -> aS`, an empty right side, and `S -> a`. -/
def emptyAlternative : List (List Char) :=
  ["a".toList, "S->aS".toList, "S->".toList, "S->a".toList]

/-- The scan of `first()` stays at the empty right side. -/
theorem computation_stuck : ∃ tables, Tables.read emptyAlternative = some tables ∧
    tables.nonTerminal ≠ [] ∧ ¬ tables.ComputationEnds := by
  obtain ⟨tables, isRead⟩ : ∃ tables, Tables.read emptyAlternative = some tables := ⟨_, rfl⟩
  have facts : tables.nonTerminal = ['S'] ∧
      tables.production 'S' = ['a', 'S', '|', '|', 'a'] := by
    cases isRead
    decide
  obtain ⟨isList, isProduction⟩ := facts
  have nonempty : tables.nonTerminal ≠ [] := by simp [isList]
  refine ⟨tables, isRead, nonempty, ?_⟩
  intro ends
  have scannable := (Tables.endsWithin_of_ends nonempty (by simp [isList]) ends).scannable 'S'
    (by simp [isList])
  rw [isProduction] at scannable
  exact scannable [] (by decide) rfl

end Coursework.Grammar
