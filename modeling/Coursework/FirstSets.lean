import Coursework.GrammarTables
import Coursework.RoundRobin
import Mathlib.Algebra.Order.BigOperators.Group.Finset
import Mathlib.Algebra.Order.BigOperators.Group.List
import Mathlib.Order.Bounds.Basic

/-!
# First sets

`first()` of `FFLR.cpp` and of `Firstfollow.cpp`: the two loops differ in the
initial value of the flag and in a test for the quote character.  A pass over the
string of a nonterminal adds what the first characters of its alternatives
contribute, in their order, if only the last alternative is empty; over another
empty alternative the scan does not advance.
-/

namespace Coursework.Grammar

/-- A set of characters for every character. -/
abbrev CharSets := Char → Finset Char

/-- The sets, and the flag for a change. -/
structure Progress where
  sets : CharSets
  changes : Bool

/-- Insert characters that are not found into the set of `lhs`. -/
def Progress.add (progress : Progress) (lhs : Char) (chars : Finset Char) : Progress where
  sets := Function.update progress.sets lhs (progress.sets lhs ∪ chars)
  changes := progress.changes || decide (¬ chars ⊆ progress.sets lhs)

namespace Tables

/-- What the first character of an alternative contributes. -/
def addFirst (tables : Tables) (lhs : Char) (progress : Progress) (first : Char) : Progress :=
  progress.add lhs (if tables.isTerminal first then {first} else progress.sets first)

/-- The loop that looks for the next `'|'`. -/
def skipAlternative (expr : List Char) : Nat → Nat → Char → Except Stop Nat
  | 0, _, _ => .error .fuel
  | fuel + 1, j, temp =>
      if temp ≠ '|' ∧ j ≤ expr.length then do
        let temp ← charAt expr j
        skipAlternative expr fuel (j + 1) temp
      else .ok j

/-- The loop over the productions of `lhs`. -/
def firstAlternatives (tables : Tables) (lhs : Char) (expr : List Char) (inner : Nat) :
    Nat → Nat → Bool → Progress → Except Stop Progress
  | 0, _, _, _ => .error .fuel
  | fuel + 1, j, firstChar, progress =>
      if j < expr.length then
        if firstChar then do
          let first ← charAt expr 0
          tables.firstAlternatives lhs expr inner fuel j false (tables.addFirst lhs progress first)
        else do
          let temp ← charAt expr j
          let j ← skipAlternative expr inner j temp
          if expr.length ≤ j then tables.firstAlternatives lhs expr inner fuel j false progress
          else do
            let first ← charAt expr j
            tables.firstAlternatives lhs expr inner fuel j false
              (tables.addFirst lhs progress first)
      else .ok progress

/-- The outer loop, which passes over a quote if `skipsQuote`. -/
def firstLoop (tables : Tables) (skipsQuote : Bool) (inner : Nat) :
    Nat → Nat → Progress → Except Stop CharSets
  | 0, _, _ => .error .fuel
  | fuel + 1, i, progress =>
      let size := tables.nonTerminal.length
      let lhs := tables.nonTerminal.getD (i % size) '\x00'
      let i := (i + 1) % size
      let progress := if i = 0 then { progress with changes := false } else progress
      if skipsQuote = true ∧ lhs = '\'' then tables.firstLoop skipsQuote inner fuel i progress
      else do
        let progress ← tables.firstAlternatives lhs (tables.production lhs) inner inner 0 true
          progress
        if i = size - 1 ∧ progress.changes = false then .ok progress.sets
        else tables.firstLoop skipsQuote inner fuel i progress

/-- `first()` of `FFLR.cpp`. -/
def first (tables : Tables) (fuel : Nat) : Except Stop CharSets :=
  tables.firstLoop true fuel fuel 0 ⟨fun _ => ∅, true⟩

/-- `first()` of `Firstfollow.cpp`. -/
def firstOfFirstfollow (tables : Tables) (fuel : Nat) : Except Stop CharSets :=
  tables.firstLoop false fuel fuel 0 ⟨fun _ => ∅, false⟩

end Tables

/-! ## The scan over one string -/

theorem charAt_of_drop {expr rest : List Char} {c : Char} {j : Nat}
    (isRest : expr.drop j = c :: rest) : charAt expr j = .ok c := by
  have below : j < expr.length := by
    by_contra beyond
    rw [List.drop_eq_nil_of_le (by omega)] at isRest
    cases isRest
  rw [List.drop_eq_getElem_cons below] at isRest
  rw [charAt, if_pos (by omega), ← (List.cons.inj isRest).1]
  simp [below]

theorem drop_succ {expr rest : List Char} {c : Char} {j : Nat}
    (isRest : expr.drop j = c :: rest) : expr.drop (j + 1) = rest := by
  rw [← List.tail_drop, isRest, List.tail_cons]

theorem length_of_drop {expr rest : List Char} {j : Nat} (le : j ≤ expr.length)
    (isRest : expr.drop j = rest) : expr.length = j + rest.length := by
  rw [← isRest, List.length_drop]
  omega

namespace Tables

theorem skipAlternative_bar {expr text rest : List Char} {fuel j : Nat} {temp : Char}
    (notBar : temp ≠ '|') (isRest : expr.drop j = text ++ '|' :: rest) (inText : '|' ∉ text)
    (enough : text.length + 1 < fuel) :
    skipAlternative expr fuel j temp = .ok (j + text.length + 1) := by
  have le : j ≤ expr.length := by
    by_contra beyond
    rw [List.drop_eq_nil_of_le (by omega)] at isRest
    simp at isRest
  induction text generalizing fuel j temp with
  | nil =>
      obtain ⟨fuel, rfl⟩ : ∃ less, fuel = less + 2 := ⟨fuel - 2, by simp at enough; omega⟩
      rw [List.nil_append] at isRest
      rw [skipAlternative, if_pos ⟨notBar, le⟩, charAt_of_drop isRest]
      simp [skipAlternative, bind, Except.bind]
  | cons c text ih =>
      obtain ⟨fuel, rfl⟩ : ∃ less, fuel = less + 1 := ⟨fuel - 1, by omega⟩
      rw [List.cons_append] at isRest
      have after := drop_succ isRest
      rw [List.mem_cons, not_or] at inText
      have bound : text.length + 1 < fuel := by simpa using enough
      have within : j + 1 ≤ expr.length := by
        have := length_of_drop le isRest
        simp at this
        omega
      have step := ih (Ne.symm inText.1) after inText.2 bound within
      rw [skipAlternative, if_pos ⟨notBar, le⟩, charAt_of_drop isRest]
      simp only [bind, Except.bind, step, List.length_cons]
      congr 1
      omega

theorem skipAlternative_end {expr : List Char} {fuel j : Nat} {temp : Char}
    (notBar : temp ≠ '|') (le : j ≤ expr.length) (none : '|' ∉ expr.drop j)
    (enough : expr.length - j + 1 < fuel) :
    skipAlternative expr fuel j temp = .ok (expr.length + 1) := by
  induction remaining : expr.length - j generalizing fuel j temp with
  | zero =>
      have atEnd : j = expr.length := by omega
      subst atEnd
      obtain ⟨fuel, rfl⟩ : ∃ less, fuel = less + 2 := ⟨fuel - 2, by omega⟩
      rw [skipAlternative, if_pos ⟨notBar, le⟩]
      simp [charAt, skipAlternative, bind, Except.bind]
  | succ remaining ih =>
      obtain ⟨fuel, rfl⟩ : ∃ less, fuel = less + 1 := ⟨fuel - 1, by omega⟩
      have below : j < expr.length := by omega
      have isRest := List.drop_eq_getElem_cons below
      rw [isRest, List.mem_cons, not_or] at none
      have step : skipAlternative expr fuel (j + 1) expr[j] = .ok (expr.length + 1) :=
        ih (Ne.symm none.1) (by omega) none.2 (by omega) (by omega)
      rw [skipAlternative, if_pos ⟨notBar, le⟩, charAt_of_drop isRest]
      simp only [bind, Except.bind, step]

/-- The first characters of the alternatives that have one. -/
def leading (expr : List Char) : List Char :=
  (alternatives expr).filterMap List.head?

/-- No alternative but the last one is empty. -/
def Scannable (expr : List Char) : Prop :=
  ∀ alternative ∈ (alternatives expr).dropLast, alternative ≠ []

theorem alternatives_of_not_mem {expr : List Char} (nonempty : expr ≠ []) (none : '|' ∉ expr) :
    alternatives expr = [expr] := by
  rw [alternatives, if_neg nonempty, List.splitOn_eq_singleton none]

theorem alternatives_bar {text rest : List Char} (inText : '|' ∉ text) :
    alternatives (text ++ '|' :: rest) = text :: rest.splitOn '|' := by
  rw [alternatives, if_neg (by simp), List.splitOn_append_cons_self_of_not_mem inText]

theorem leading_of_not_mem {c : Char} {rest : List Char} (none : '|' ∉ c :: rest) :
    leading (c :: rest) = [c] := by
  rw [leading, alternatives_of_not_mem (List.cons_ne_nil c rest) none]
  rfl

theorem leading_bar {text rest : List Char} (inText : '|' ∉ text) :
    leading (text ++ '|' :: rest) = text.head?.toList ++ leading rest := by
  have tail : (rest.splitOn '|').filterMap List.head? = leading rest := by
    cases rest with
    | nil => rfl
    | cons c rest => rw [leading, alternatives, if_neg (List.cons_ne_nil c rest)]
  rw [leading, alternatives_bar inText, List.filterMap_cons, tail]
  cases text with
  | nil => rfl
  | cons c text => rfl

theorem scannable_of_not_mem {expr : List Char} (none : '|' ∉ expr) : Scannable expr := by
  intro alternative member
  by_cases nonempty : expr = []
  · simp [nonempty, alternatives] at member
  · simp [alternatives_of_not_mem nonempty none] at member

theorem scannable_bar {text rest : List Char} (inText : '|' ∉ text) :
    Scannable (text ++ '|' :: rest) ↔ text ≠ [] ∧ Scannable rest := by
  have tail : (text :: rest.splitOn '|').dropLast = text :: (rest.splitOn '|').dropLast :=
    List.dropLast_cons_of_ne_nil (List.splitOn_ne_nil '|' rest)
  have same : (rest.splitOn '|').dropLast = (alternatives rest).dropLast := by
    cases rest with
    | nil => rfl
    | cons c rest => rw [alternatives, if_neg (List.cons_ne_nil c rest)]
  rw [Scannable, alternatives_bar inText, tail, same]
  simp [Scannable]

/-- A string that can be scanned starts with the first character of an alternative. -/
theorem leading_cons {c : Char} {rest : List Char} (scannable : Scannable (c :: rest)) :
    leading (c :: rest) = c :: (leading (c :: rest)).tail := by
  by_cases member : '|' ∈ c :: rest
  · obtain ⟨text, after, split, inText⟩ := List.eq_append_cons_of_mem member
    rw [split] at scannable ⊢
    obtain ⟨nonempty, -⟩ := (scannable_bar inText).mp scannable
    rw [leading_bar inText]
    cases text with
    | nil => exact (nonempty rfl).elim
    | cons d text =>
        cases split
        rfl
  · rw [leading_of_not_mem member]
    rfl

theorem firstAlternatives_rest {tables : Tables} {lhs : Char} {expr rest : List Char}
    {inner fuel j : Nat} (isRest : expr.drop j = rest) (nonempty : rest ≠ [])
    (scannable : Scannable rest) (innerEnough : expr.length + 2 ≤ inner)
    (enough : rest.length + 1 < fuel) (progress : Progress) :
    tables.firstAlternatives lhs expr inner fuel j false progress =
      .ok ((leading rest).tail.foldl (tables.addFirst lhs) progress) := by
  induction size : rest.length using Nat.strongRecOn generalizing rest j fuel progress with
  | _ size ih =>
      obtain ⟨fuel, rfl⟩ : ∃ less, fuel = less + 2 := ⟨fuel - 2, by omega⟩
      obtain ⟨c, tail, rfl⟩ := List.exists_cons_of_ne_nil nonempty
      have below : j < expr.length := by
        by_contra beyond
        rw [List.drop_eq_nil_of_le (by omega)] at isRest
        cases isRest
      have length := length_of_drop (by omega) isRest
      rw [firstAlternatives, if_pos below, if_neg (by simp), charAt_of_drop isRest]
      by_cases member : '|' ∈ c :: tail
      · obtain ⟨text, after, split, inText⟩ := List.eq_append_cons_of_mem member
        rw [split] at scannable isRest length ⊢
        obtain ⟨textNonempty, afterScannable⟩ := (scannable_bar inText).mp scannable
        obtain ⟨d, text, rfl⟩ := List.exists_cons_of_ne_nil textNonempty
        obtain ⟨rfl, -⟩ := List.cons.inj split
        simp only [List.length_append, List.length_cons] at length
        have notBar : c ≠ '|' := by
          rintro rfl
          simp at inText
        have skipped : skipAlternative expr inner j c = .ok (j + (c :: text).length + 1) :=
          skipAlternative_bar notBar isRest inText (by simp; omega)
        simp only [bind, Except.bind, skipped]
        have afterDrop : expr.drop (j + (c :: text).length + 1) = after := by
          rw [Nat.add_assoc, ← List.drop_drop, isRest, ← List.drop_drop]
          simp
        rw [leading_bar inText]
        cases after with
        | nil =>
            rw [if_pos (by simp at length ⊢; omega), firstAlternatives,
              if_neg (by simp at length ⊢; omega)]
            rfl
        | cons e after =>
            rw [if_neg (by simp at length ⊢; omega), charAt_of_drop afterDrop]
            have lengths := congrArg List.length split
            simp only [List.length_append, List.length_cons] at lengths size enough
            have recursive : tables.firstAlternatives lhs expr inner (fuel + 1)
                (j + (c :: text).length + 1) false (tables.addFirst lhs progress e) =
                .ok ((leading (e :: after)).tail.foldl (tables.addFirst lhs)
                  (tables.addFirst lhs progress e)) :=
              ih (e :: after).length (by simp; omega) afterDrop (List.cons_ne_nil e after)
                afterScannable (by simp; omega) _ rfl
            simp only [recursive]
            rw [leading_cons afterScannable]
            rfl
      · have notBar : c ≠ '|' := by
          rintro rfl
          simp at member
        have skipped : skipAlternative expr inner j c = .ok (expr.length + 1) :=
          skipAlternative_end notBar (by omega) (by rw [isRest]; exact member) (by omega)
        simp only [bind, Except.bind, skipped]
        rw [if_pos (by omega), firstAlternatives, if_neg (by omega), leading_of_not_mem member]
        rfl

/-- A pass over the productions of `lhs`. -/
def pass (tables : Tables) (lhs : Char) (progress : Progress) : Progress :=
  (leading (tables.production lhs)).foldl (tables.addFirst lhs) progress

theorem firstAlternatives_eq {tables : Tables} {lhs : Char} {inner : Nat}
    (scannable : Scannable (tables.production lhs))
    (enough : (tables.production lhs).length + 3 ≤ inner) (progress : Progress) :
    tables.firstAlternatives lhs (tables.production lhs) inner inner 0 true progress =
      .ok (tables.pass lhs progress) := by
  obtain ⟨fuel, isFuel⟩ : ∃ less, inner = less + 1 := ⟨inner - 1, by omega⟩
  nth_rewrite 2 [isFuel]
  rw [pass, firstAlternatives]
  cases isExpr : tables.production lhs with
  | nil => rfl
  | cons c rest =>
      rw [isExpr] at scannable enough
      rw [if_pos (by simp), if_pos rfl, charAt_of_drop List.drop_zero]
      simp only [bind, Except.bind]
      rw [firstAlternatives_rest List.drop_zero (List.cons_ne_nil c rest) scannable (by omega)
        (by omega), leading_cons scannable]
      rfl

/-! ## The loop over the nonterminals -/

/-- The body of the outer loop. -/
def turn (tables : Tables) (i : Nat) (sets : CharSets) (changes : Bool) :
    RoundRobin.Turn CharSets :=
  let size := tables.nonTerminal.length
  let progress := tables.pass (tables.nonTerminal.getD i '\x00') ⟨sets, changes⟩
  { state := progress.sets
    changes := progress.changes
    complete := decide ((i + 1) % size = size - 1 ∧ progress.changes = false) }

/-- Every string of productions can be scanned. -/
def AllScannable (tables : Tables) : Prop :=
  ∀ lhs ∈ tables.nonTerminal, Scannable (tables.production lhs)

/-- No string of productions is longer. -/
def Fits (tables : Tables) (length : Nat) : Prop :=
  ∀ lhs ∈ tables.nonTerminal, (tables.production lhs).length + 3 ≤ length

theorem exists_fits (tables : Tables) : ∃ enough, ∀ length, enough ≤ length →
    tables.Fits length := by
  refine ⟨(tables.nonTerminal.map fun lhs => (tables.production lhs).length + 3).sum, ?_⟩
  intro length le lhs member
  have listed : (tables.production lhs).length + 3 ∈
      tables.nonTerminal.map fun lhs => (tables.production lhs).length + 3 :=
    List.mem_map_of_mem member
  exact (List.single_le_sum (fun _ _ => Nat.zero_le _) _ listed).trans le

theorem getD_mem {tables : Tables} {i : Nat} (inRange : i < tables.nonTerminal.length) :
    tables.nonTerminal.getD i '\x00' ∈ tables.nonTerminal := by
  simp [inRange]

theorem firstLoop_eq {tables : Tables} {skipsQuote : Bool} {inner fuel i : Nat}
    {progress : Progress} (scannable : tables.AllScannable) (fits : tables.Fits inner)
    (unquoted : '\'' ∉ tables.nonTerminal) (inRange : i < tables.nonTerminal.length) :
    tables.firstLoop skipsQuote inner fuel i progress =
      match RoundRobin.rounds tables.nonTerminal.length tables.turn fuel i progress.changes
        progress.sets with
      | some result => .ok result
      | none => .error .fuel := by
  induction fuel generalizing i progress with
  | zero => rfl
  | succ fuel ih =>
      have member := getD_mem inRange
      have notQuote : tables.nonTerminal.getD i '\x00' ≠ '\'' := by
        intro isQuote
        rw [isQuote] at member
        exact unquoted member
      have nextRange : (i + 1) % tables.nonTerminal.length < tables.nonTerminal.length :=
        Nat.mod_lt _ (by omega)
      have start : (if (i + 1) % tables.nonTerminal.length = 0 then
          { progress with changes := false } else progress) =
          ⟨progress.sets, RoundRobin.cleared tables.nonTerminal.length i progress.changes⟩ := by
        unfold RoundRobin.cleared
        split <;> rfl
      rw [firstLoop, RoundRobin.rounds, Nat.mod_eq_of_lt inRange]
      simp only [notQuote, and_false, if_false, start]
      rw [firstAlternatives_eq (scannable _ member) (fits _ member)]
      simp only [bind, Except.bind, turn, decide_eq_true_eq]
      split
      · rfl
      · exact ih nextRange

/-- The characters that can be in a first set. -/
def firstUniverse (tables : Tables) : Finset Char :=
  (tables.nonTerminal.flatMap fun lhs => leading (tables.production lhs)).toFinset

/-- The sizes of the sets of the nonterminals. -/
def setSizes (tables : Tables) (sets : CharSets) : Nat :=
  ∑ lhs ∈ tables.nonTerminal.toFinset, (sets lhs).card

end Tables

theorem Progress.sets_add_self (progress : Progress) (lhs : Char) (chars : Finset Char) :
    (progress.add lhs chars).sets lhs = progress.sets lhs ∪ chars :=
  Function.update_self ..

theorem Progress.sets_add_of_ne (progress : Progress) {lhs other : Char} (chars : Finset Char)
    (distinct : other ≠ lhs) : (progress.add lhs chars).sets other = progress.sets other :=
  Function.update_of_ne distinct ..

theorem Progress.le_add (progress : Progress) (lhs : Char) (chars : Finset Char) :
    progress.sets ≤ (progress.add lhs chars).sets := by
  intro other
  by_cases same : other = lhs
  · subst same
    rw [Progress.sets_add_self]
    exact Finset.subset_union_left
  · rw [Progress.sets_add_of_ne progress chars same]

theorem Progress.add_sets_eq_iff (progress : Progress) (lhs : Char) (chars : Finset Char) :
    (progress.add lhs chars).sets = progress.sets ↔ chars ⊆ progress.sets lhs := by
  simp only [Progress.add, Function.update_eq_self_iff, Finset.union_eq_left]

theorem Progress.add_unchanged (progress : Progress) (lhs : Char) (chars : Finset Char) :
    (progress.add lhs chars).changes = false ↔
      progress.changes = false ∧ (progress.add lhs chars).sets = progress.sets := by
  rw [Progress.add_sets_eq_iff]
  simp [Progress.add]

/-- Steps that insert characters and raise the flag for a change. -/
structure Progress.Records {Label : Type} (step : Progress → Label → Progress) : Prop where
  le : ∀ progress label, progress.sets ≤ (step progress label).sets
  unchanged : ∀ progress label, (step progress label).changes = false ↔
    progress.changes = false ∧ (step progress label).sets = progress.sets

namespace Progress.Records

variable {Label : Type} {step : Progress → Label → Progress}

theorem le_foldl (records : Records step) (progress : Progress) (labels : List Label) :
    progress.sets ≤ (labels.foldl step progress).sets := by
  induction labels generalizing progress with
  | nil => exact le_refl _
  | cons label labels ih => exact (records.le progress label).trans (ih _)

/-- Where a sequence of steps changes nothing, none of them does. -/
theorem foldl_cons_eq_iff (records : Records step) (progress : Progress) (label : Label)
    (labels : List Label) :
    ((label :: labels).foldl step progress).sets = progress.sets ↔
      (step progress label).sets = progress.sets ∧
        (labels.foldl step (step progress label)).sets = (step progress label).sets := by
  constructor
  · intro same
    have first : (step progress label).sets = progress.sets := by
      apply le_antisymm
      · exact (records.le_foldl _ labels).trans (le_of_eq same)
      · exact records.le progress label
    exact ⟨first, same.trans first.symm⟩
  · rintro ⟨first, rest⟩
    exact rest.trans first

theorem foldl_unchanged (records : Records step) (progress : Progress) (labels : List Label) :
    (labels.foldl step progress).changes = false ↔
      progress.changes = false ∧ (labels.foldl step progress).sets = progress.sets := by
  induction labels generalizing progress with
  | nil => simp
  | cons label labels ih =>
      rw [records.foldl_cons_eq_iff, List.foldl_cons, ih, records.unchanged, and_assoc]

end Progress.Records

namespace Tables

variable {tables : Tables} {lhs : Char}

theorem addFirst_records (tables : Tables) (lhs : Char) :
    Progress.Records (tables.addFirst lhs) :=
  ⟨fun progress _ => progress.le_add lhs _, fun progress _ => progress.add_unchanged lhs _⟩

theorem le_foldl (progress : Progress) (chars : List Char) :
    progress.sets ≤ (chars.foldl (tables.addFirst lhs) progress).sets :=
  (tables.addFirst_records lhs).le_foldl progress chars

theorem foldl_unchanged (progress : Progress) (chars : List Char) :
    (chars.foldl (tables.addFirst lhs) progress).changes = false ↔
      progress.changes = false ∧
        (chars.foldl (tables.addFirst lhs) progress).sets = progress.sets :=
  (tables.addFirst_records lhs).foldl_unchanged progress chars

theorem foldl_sets (sets : CharSets) (changes other : Bool) (chars : List Char) :
    (chars.foldl (tables.addFirst lhs) ⟨sets, changes⟩).sets =
      (chars.foldl (tables.addFirst lhs) ⟨sets, other⟩).sets := by
  induction chars generalizing sets changes other with
  | nil => rfl
  | cons c chars ih => exact ih _ _ _

/-- Only the set of the nonterminal changes. -/
theorem foldl_of_ne (progress : Progress) (chars : List Char) {other : Char}
    (distinct : other ≠ lhs) :
    (chars.foldl (tables.addFirst lhs) progress).sets other = progress.sets other := by
  induction chars generalizing progress with
  | nil => rfl
  | cons c chars ih =>
      rw [List.foldl_cons, ih]
      exact Progress.sets_add_of_ne progress _ distinct

/-- What a character contributes is in the set. -/
def Contributes (tables : Tables) (sets : CharSets) (lhs first : Char) : Prop :=
  if tables.isTerminal first then first ∈ sets lhs else sets first ⊆ sets lhs

theorem addFirst_eq_iff (progress : Progress) (first : Char) :
    (tables.addFirst lhs progress first).sets = progress.sets ↔
      tables.Contributes progress.sets lhs first := by
  rw [addFirst, Progress.add_sets_eq_iff, Contributes]
  split <;> simp

theorem foldl_eq_iff (progress : Progress) (chars : List Char) :
    (chars.foldl (tables.addFirst lhs) progress).sets = progress.sets ↔
      ∀ c ∈ chars, tables.Contributes progress.sets lhs c := by
  induction chars generalizing progress with
  | nil => simp
  | cons c chars ih =>
      rw [(tables.addFirst_records lhs).foldl_cons_eq_iff, ih, List.forall_mem_cons,
        ← addFirst_eq_iff]
      apply and_congr_right
      intro first
      rw [first]

/-- Sets that have all contributions stay above. -/
theorem foldl_le {bound : CharSets} (progress : Progress) {chars : List Char}
    (closed : ∀ c ∈ chars, tables.Contributes bound lhs c) (below : progress.sets ≤ bound) :
    (chars.foldl (tables.addFirst lhs) progress).sets ≤ bound := by
  induction chars generalizing progress with
  | nil => exact below
  | cons c chars ih =>
      rw [List.forall_mem_cons] at closed
      apply ih _ closed.2
      intro other
      unfold addFirst
      by_cases same : other = lhs
      · subst same
        rw [Progress.sets_add_self]
        apply Finset.union_subset (below other)
        have contributes := closed.1
        unfold Contributes at contributes
        split at contributes
        · next isTerminal =>
            rw [if_pos isTerminal, Finset.singleton_subset_iff]
            exact contributes
        · next notTerminal =>
            rw [if_neg notTerminal]
            exact (below c).trans contributes
      · rw [Progress.sets_add_of_ne progress _ same]
        exact below other

/-- A family of sets that has every contribution of every alternative. -/
def FirstClosed (tables : Tables) (sets : CharSets) : Prop :=
  ∀ lhs ∈ tables.nonTerminal, ∀ alternative ∈ alternatives (tables.production lhs),
    ∀ c rest, alternative = c :: rest → tables.Contributes sets lhs c

theorem firstClosed_iff {sets : CharSets} : tables.FirstClosed sets ↔
    ∀ lhs ∈ tables.nonTerminal, ∀ c ∈ leading (tables.production lhs),
      tables.Contributes sets lhs c := by
  unfold FirstClosed leading
  constructor
  · intro closed lhs member c isLeading
    obtain ⟨alternative, isAlternative, head⟩ := List.mem_filterMap.mp isLeading
    obtain ⟨rest, rfl⟩ := List.head?_eq_some_iff.mp head
    exact closed lhs member _ isAlternative c rest rfl
  · rintro closed lhs member _ isAlternative c rest rfl
    exact closed lhs member c (List.mem_filterMap.mpr ⟨_, isAlternative, rfl⟩)

/-! ## Least sets -/

/-- The sets stay within the characters that lead an alternative. -/
def WithinUniverse (tables : Tables) (sets : CharSets) : Prop :=
  sets ≤ fun _ => tables.firstUniverse

theorem leading_mem_universe {c : Char} (member : lhs ∈ tables.nonTerminal)
    (isLeading : c ∈ leading (tables.production lhs)) : c ∈ tables.firstUniverse := by
  rw [firstUniverse, List.mem_toFinset, List.mem_flatMap]
  exact ⟨lhs, member, isLeading⟩

theorem turn_growing (tables : Tables) :
    RoundRobin.Growing tables.nonTerminal.length tables.turn tables.setSizes
      (tables.nonTerminal.toFinset.card * tables.firstUniverse.card) tables.WithinUniverse := by
  constructor
  · intro i sets changes inRange within
    apply foldl_le _ _ within
    intro c isLeading
    unfold Contributes
    split
    · exact leading_mem_universe (getD_mem inRange) isLeading
    · exact Finset.Subset.refl _
  · intro i sets changes inRange within
    exact foldl_unchanged ⟨sets, changes⟩ _
  · intro i sets changes inRange within changed
    have below : sets ≤ (tables.turn i sets changes).state := le_foldl ⟨sets, changes⟩ _
    set lhs := tables.nonTerminal.getD i '\x00' with isLhs
    have differs : sets lhs ≠ (tables.turn i sets changes).state lhs := by
      intro same
      apply changed
      funext other
      by_cases here : other = lhs
      · rw [here, same]
      · exact foldl_of_ne ⟨sets, changes⟩ _ here
    apply Finset.sum_lt_sum
    · intro other _
      exact Finset.card_le_card (below other)
    · refine ⟨lhs, List.mem_toFinset.mpr (getD_mem inRange), ?_⟩
      exact Finset.card_lt_card (lt_of_le_of_ne (below lhs) differs)
  · intro sets within
    apply Finset.sum_le_card_nsmul
    intro other _
    exact Finset.card_le_card (within other)

theorem turn_complete_iff (i : Nat) (sets : CharSets) (changes : Bool) :
    (tables.turn i sets changes).complete = true ↔
      (i + 1) % tables.nonTerminal.length = tables.nonTerminal.length - 1 ∧
        (tables.turn i sets changes).changes = false := by
  simp [turn]

theorem turn_uniform (i : Nat) (sets : CharSets) (changes : Bool) :
    (tables.turn i sets changes).state = (tables.turn i sets false).state :=
  foldl_sets sets changes false _

/-- The rounds from any flag end. -/
theorem rounds_end (nonempty : tables.nonTerminal ≠ []) (changes : Bool) :
    ∃ enough result, ∀ fuel, enough ≤ fuel →
      RoundRobin.rounds tables.nonTerminal.length tables.turn fuel 0 changes (fun _ => ∅) =
        some result := by
  have positive := List.length_pos_of_ne_nil nonempty
  have within : tables.WithinUniverse fun _ => ∅ := fun _ => Finset.empty_subset _
  obtain ⟨enough, result, ends⟩ := RoundRobin.rounds_ends tables.turn_growing
    (fun i sets flag _ _ atEnd down => (turn_complete_iff i sets flag).mpr ⟨atEnd, down⟩)
    positive within changes
  exact ⟨enough, result, fun fuel le => RoundRobin.rounds_mono ends le⟩

/-- With the flag up in the beginning the rounds end in the least closed family. -/
theorem rounds_least {fuel : Nat} {result : CharSets} (nonempty : tables.nonTerminal ≠ [])
    (ends : RoundRobin.rounds tables.nonTerminal.length tables.turn fuel 0 true (fun _ => ∅) =
      some result) : IsLeast {sets | tables.FirstClosed sets} result := by
  have positive := List.length_pos_of_ne_nil nonempty
  have within : tables.WithinUniverse fun _ => ∅ := fun _ => Finset.empty_subset _
  constructor
  · apply firstClosed_iff.mpr
    intro lhs member
    have stable := RoundRobin.rounds_stable tables.turn_growing turn_uniform
      (fun i sets flag _ complete => (turn_complete_iff i sets flag).mp complete) positive within
      (fun up => by cases up) ends
    obtain ⟨k, below, isLhs⟩ := List.getElem_of_mem member
    have fixed := stable k below
    have found : tables.nonTerminal.getD k '\x00' = lhs := by simp [below, isLhs]
    simp only [turn, pass, found] at fixed
    exact (foldl_eq_iff _ _).mp fixed
  · intro sets isClosed
    have closed := firstClosed_iff.mp isClosed
    refine RoundRobin.rounds_invariant (· ≤ sets) ?_ positive
      (fun _ => Finset.empty_subset _) ends
    intro i current flag inRange below
    exact foldl_le _ (closed _ (getD_mem inRange)) below

/-- Every alternative of every nonterminal has a character. -/
def NoEmptyAlternative (tables : Tables) : Prop :=
  ∀ lhs ∈ tables.nonTerminal, ∀ alternative ∈ alternatives (tables.production lhs),
    alternative ≠ []

theorem NoEmptyAlternative.scannable (full : tables.NoEmptyAlternative) :
    tables.AllScannable :=
  fun lhs member alternative isAlternative =>
    full lhs member alternative (List.mem_of_mem_dropLast isAlternative)

theorem first_ends (scannable : tables.AllScannable) (nonempty : tables.nonTerminal ≠ [])
    (unquoted : '\'' ∉ tables.nonTerminal) (skipsQuote changes : Bool) :
    ∃ enough result,
      (∀ fuel, enough ≤ fuel →
        tables.firstLoop skipsQuote fuel fuel 0 ⟨fun _ => ∅, changes⟩ = .ok result) ∧
      ∀ fuel, enough ≤ fuel → RoundRobin.rounds tables.nonTerminal.length tables.turn fuel 0
        changes (fun _ => ∅) = some result := by
  obtain ⟨inner, fits⟩ := tables.exists_fits
  obtain ⟨outer, result, ends⟩ := rounds_end nonempty changes
  refine ⟨max inner outer, result, ?_, ?_⟩
  · intro fuel le
    rw [firstLoop_eq scannable (fits fuel (by omega)) unquoted
      (List.length_pos_of_ne_nil nonempty)]
    simp only [ends fuel (by omega)]
  · intro fuel le
    exact ends fuel (by omega)

end Tables

/-- `first()` of `FFLR.cpp` ends in the least sets that have what the first character of
every alternative contributes. -/
theorem first_least_fixpoint {tables : Tables} (nonempty : tables.nonTerminal ≠ [])
    (unquoted : '\'' ∉ tables.nonTerminal) (full : tables.NoEmptyAlternative) :
    ∃ enough result, (∀ fuel, enough ≤ fuel → tables.first fuel = .ok result) ∧
      IsLeast {sets | tables.FirstClosed sets} result := by
  obtain ⟨enough, result, ends, rounds⟩ :=
    Tables.first_ends full.scannable nonempty unquoted true true
  exact ⟨enough, result, ends, Tables.rounds_least nonempty (rounds enough (le_refl enough))⟩

/-- Two nonterminals of which the first only refers to the second one. -/
def chained : Tables where
  terminal := ['a']
  nonTerminal := ['S', 'A']
  production := fun lhs => if lhs = 'S' then ['A'] else if lhs = 'A' then ['a'] else []
  augmented := fun _ => []
  seeds := []

theorem chained_full : chained.NoEmptyAlternative := by
  intro lhs member
  simp only [chained, List.mem_cons, List.not_mem_nil, or_false] at member
  rcases member with rfl | rfl <;> decide

theorem first_least_fixpoint_chained :
    ∃ result : CharSets, (∃ fuel, chained.first fuel = .ok result) ∧ 'a' ∈ result 'S' := by
  obtain ⟨enough, result, ends, least⟩ :=
    first_least_fixpoint (by decide) (by decide) chained_full
  refine ⟨result, ⟨enough, ends enough (le_refl enough)⟩, ?_⟩
  have ofA : chained.Contributes result 'A' 'a' :=
    least.1 'A' (by decide) ['a'] (by decide) 'a' [] rfl
  have ofS : chained.Contributes result 'S' 'A' :=
    least.1 'S' (by decide) ['A'] (by decide) 'A' [] rfl
  exact ofS ofA

end Coursework.Grammar
