import Mathlib.Data.Fintype.Card
import Mathlib.Data.Finset.Card
import Mathlib.Algebra.BigOperators.Group.Finset.Basic
import Mathlib.Algebra.Order.BigOperators.Group.Finset

/-!
# Families that change one entry at a time

The places of all processes in a program are a family of entries that a step
changes at one index.  This file follows summaries of such a family through a
change: the number of entries that pass a test, the sum of a measure over the
entries, and the unique entry that holds a lock.
-/

namespace Coursework

variable {Index Entry : Type*} [Fintype Index]

/-- The number of indices whose entry passes the test. -/
def countWhere (test : Entry → Bool) (entries : Index → Entry) : Nat :=
  (Finset.univ.filter fun index => test (entries index) = true).card

theorem countWhere_congr {test : Entry → Bool} {first second : Index → Entry}
    (agree : ∀ index, test (first index) = test (second index)) :
    countWhere test first = countWhere test second := by
  simp [countWhere, agree]

theorem countWhere_eq_zero {test : Entry → Bool} {entries : Index → Entry} :
    countWhere test entries = 0 ↔ ∀ index, test (entries index) = false := by
  simp [countWhere, Finset.filter_eq_empty_iff]

theorem countWhere_pos {test : Entry → Bool} {entries : Index → Entry}
    (index : Index) (passes : test (entries index) = true) :
    0 < countWhere test entries :=
  Finset.card_pos.mpr ⟨index, by simp [passes]⟩

variable [DecidableEq Index]

/-- Replacing one entry exchanges its contribution to the count. -/
theorem countWhere_update (test : Entry → Bool) (entries : Index → Entry)
    (index : Index) (entry : Entry) :
    countWhere test (Function.update entries index entry) +
        (test (entries index)).toNat =
      countWhere test entries + (test entry).toNat := by
  have others : ∀ family : Index → Entry,
      countWhere test family = ((Finset.univ.erase index).filter
        fun other => test (family other) = true).card + (test (family index)).toNat := by
    intro family
    rw [countWhere, ← Finset.insert_erase (Finset.mem_univ index), Finset.filter_insert]
    cases passes : test (family index) with
    | true => simp
    | false => simp
  have unchanged : ((Finset.univ.erase index).filter
        fun other => test (Function.update entries index entry other) = true) =
      (Finset.univ.erase index).filter fun other => test (entries other) = true := by
    apply Finset.filter_congr
    intro other member
    rw [Function.update_of_ne (Finset.ne_of_mem_erase member)]
  rw [others (Function.update entries index entry), others entries, unchanged,
    Function.update_self]
  omega

/-- The sum of a measure over all entries. -/
def total (measure : Entry → Nat) (entries : Index → Entry) : Nat :=
  ∑ index, measure (entries index)

/-- Replacing one entry exchanges its contribution to the sum. -/
theorem total_update (measure : Entry → Nat) (entries : Index → Entry)
    (index : Index) (entry : Entry) :
    total measure (Function.update entries index entry) + measure (entries index) =
      total measure entries + measure entry := by
  have member := Finset.mem_univ index
  have others : ∑ other ∈ Finset.univ.erase index,
      measure (Function.update entries index entry other) =
      ∑ other ∈ Finset.univ.erase index, measure (entries other) := by
    apply Finset.sum_congr rfl
    intro other isOther
    rw [Function.update_of_ne (Finset.ne_of_mem_erase isOther)]
  rw [total, total, ← Finset.add_sum_erase _ _ member,
    ← Finset.add_sum_erase _ (fun other => measure (entries other)) member, others,
    Function.update_self]
  omega

omit [DecidableEq Index] in
theorem le_total (measure : Entry → Nat) (entries : Index → Entry) (index : Index) :
    measure (entries index) ≤ total measure entries :=
  Finset.single_le_sum (f := fun other => measure (entries other))
    (fun _ _ => Nat.zero_le _) (Finset.mem_univ index)

/-- Two entries contribute at most the sum. -/
theorem add_le_total (measure : Entry → Nat) (entries : Index → Entry) {first second : Index}
    (distinct : first ≠ second) :
    measure (entries first) + measure (entries second) ≤ total measure entries := by
  have member := Finset.mem_univ first
  have other : second ∈ Finset.univ.erase first :=
    Finset.mem_erase.mpr ⟨Ne.symm distinct, Finset.mem_univ second⟩
  have rest := Finset.single_le_sum (f := fun index => measure (entries index))
    (fun _ _ => Nat.zero_le _) other
  rw [total, ← Finset.add_sum_erase _ (fun index => measure (entries index)) member]
  omega

omit [DecidableEq Index] in
theorem exists_of_total_pos {measure : Entry → Nat} {entries : Index → Entry}
    (positive : 0 < total measure entries) : ∃ index, 0 < measure (entries index) := by
  by_contra none
  rw [not_exists] at none
  have zero : total measure entries = 0 :=
    Finset.sum_eq_zero fun index _ => Nat.eq_zero_of_not_pos (none index)
  omega

/-- A smaller measure leaves room for what one entry has more. -/
theorem total_add_le (smaller larger : Entry → Nat) {entries : Index → Entry}
    (bounded : ∀ index, smaller (entries index) ≤ larger (entries index)) (index : Index) :
    total smaller entries + larger (entries index) ≤
      total larger entries + smaller (entries index) := by
  have member := Finset.mem_univ index
  have others : ∑ other ∈ Finset.univ.erase index, smaller (entries other) ≤
      ∑ other ∈ Finset.univ.erase index, larger (entries other) :=
    Finset.sum_le_sum fun other _ => bounded other
  rw [total, total, ← Finset.add_sum_erase _ (fun other => smaller (entries other)) member,
    ← Finset.add_sum_erase _ (fun other => larger (entries other)) member]
  omega

/-! ## Tallies

A tally counts, for every key, what all entries hold of it. -/

section Tally

variable {Key : Type*}

/-- What all entries hold of a key. -/
def tally (measure : Entry → Key → Nat) (entries : Index → Entry) (key : Key) : Nat :=
  total (fun entry => measure entry key) entries

variable {measure : Entry → Key → Nat} {entries : Index → Entry} {index : Index} {entry : Entry}

theorem tally_same (same : ∀ key, measure entry key = measure (entries index) key) :
    tally measure (Function.update entries index entry) = tally measure entries := by
  funext key
  have exchanged := total_update (fun entry => measure entry key) entries index entry
  rw [same key] at exchanged
  exact Nat.add_right_cancel exchanged

variable [DecidableEq Key] {key : Key}

theorem tally_gain
    (more : ∀ other, measure entry other =
      measure (entries index) other + [key].count other) :
    tally measure (Function.update entries index entry) =
      Function.update (tally measure entries) key (tally measure entries key + 1) := by
  funext other
  have exchanged := total_update (fun entry => measure entry other) entries index entry
  rw [more other] at exchanged
  by_cases same : other = key
  · subst same
    rw [Function.update_self, tally, tally]
    rw [List.count_singleton_self] at exchanged
    omega
  · rw [Function.update_of_ne same, tally, tally]
    rw [List.count_eq_zero.mpr (by simpa using same)] at exchanged
    omega

theorem tally_lose
    (less : ∀ other, measure entry other + [key].count other =
      measure (entries index) other) :
    tally measure (Function.update entries index entry) =
      Function.update (tally measure entries) key (tally measure entries key - 1) := by
  funext other
  have exchanged := total_update (fun entry => measure entry other) entries index entry
  rw [← less other] at exchanged
  by_cases same : other = key
  · subst same
    rw [Function.update_self, tally, tally]
    rw [List.count_singleton_self] at exchanged
    omega
  · rw [Function.update_of_ne same, tally, tally]
    rw [List.count_eq_zero.mpr (by simpa using same)] at exchanged
    omega

end Tally

/-! ## Lock holders -/

/-- The lock's holder is the only index whose entry passes the test, and the
lock is free when no entry passes. -/
def Tracks {Index Entry : Type*} (holder : Option Index) (test : Entry → Bool)
    (entries : Index → Entry) : Prop :=
  ∀ index, holder = some index ↔ test (entries index) = true

namespace Tracks

variable {Index Entry : Type*} {holder : Option Index} {test : Entry → Bool}
  {entries : Index → Entry}

theorem congr {others : Index → Entry} (tracks : Tracks holder test entries)
    (agree : ∀ index, test (others index) = test (entries index)) :
    Tracks holder test others := by
  intro index
  rw [agree]
  exact tracks index

theorem free (tracks : Tracks none test entries) (index : Index) :
    test (entries index) = false := by
  simpa using (tracks index).not.mp (by simp)

theorem unique (tracks : Tracks holder test entries) {first second : Index}
    (firstHolds : test (entries first) = true)
    (secondHolds : test (entries second) = true) : first = second := by
  have firstHolder := (tracks first).mpr firstHolds
  have secondHolder := (tracks second).mpr secondHolds
  exact Option.some.inj (firstHolder.symm.trans secondHolder)

variable [DecidableEq Index] {index : Index} {entry : Entry}

/-- A move that neither takes nor gives up the lock. -/
theorem keep (tracks : Tracks holder test entries)
    (same : test entry = test (entries index)) :
    Tracks holder test (Function.update entries index entry) := by
  apply tracks.congr
  intro other
  by_cases here : other = index
  · subst here; simpa using same
  · rw [Function.update_of_ne here]

/-- A move that takes the free lock. -/
theorem take (tracks : Tracks none test entries) (holds : test entry = true) :
    Tracks (some index) test (Function.update entries index entry) := by
  intro other
  by_cases here : other = index
  · subst here; simpa using holds
  · rw [Function.update_of_ne here, tracks.free other]
    simpa using Ne.symm here

/-- A move that gives up the lock. -/
theorem give (tracks : Tracks holder test entries)
    (held : test (entries index) = true) (released : test entry = false) :
    Tracks none test (Function.update entries index entry) := by
  intro other
  by_cases here : other = index
  · subst here; simp [released]
  · rw [Function.update_of_ne here]
    constructor
    · simp
    · intro otherHolds
      exact (here (tracks.unique otherHolds held)).elim

end Tracks

end Coursework
