import Coursework.EntryUpdates
import Mathlib.Tactic.Common

/-!
# Tables of references

A table has a fixed number of entries, each with a key and the number of references to it; an
entry without references is vacant.  A reference to a key is taken at the entry that has it, or
at a vacant one.

A walk from key to key holds one reference at a time: it takes the next one before it drops the
one it has.  Two vacant entries are enough for any number of such steps, since the entry it
comes from is vacant again if nobody else refers to it: the number of vacant entries, with the
one where the walk is if nobody else refers to it, never changes.
-/

namespace Coursework.References

variable {Index Key : Type*} [Fintype Index]

/-- An entry has the key and references. -/
def live (entry : Key × Nat) : Prop := 0 < entry.2

/-- The references to a key. -/
def refs [DecidableEq Key] (key : Key) (table : Index → Key × Nat) : Nat :=
  total (fun entry => if entry.1 = key then entry.2 else 0) table

/-- The number of vacant entries. -/
def vacant (table : Index → Key × Nat) : Nat := countWhere (fun entry => decide (entry.2 = 0)) table

omit [Fintype Index] in
/-- No key has two entries with references. -/
def OneEntry (table : Index → Key × Nat) : Prop :=
  ∀ i j, live (table i) → live (table j) → (table i).1 = (table j).1 → i = j

variable [DecidableEq Index]

/-- One more reference at an entry. -/
def raise (table : Index → Key × Nat) (i : Index) : Index → Key × Nat :=
  Function.update table i ((table i).1, (table i).2 + 1)

/-- A vacant entry gets a key. -/
def claim (table : Index → Key × Nat) (i : Index) (key : Key) : Index → Key × Nat :=
  Function.update table i (key, 1)

/-- One reference less at an entry. -/
def lower (table : Index → Key × Nat) (i : Index) : Index → Key × Nat :=
  Function.update table i ((table i).1, (table i).2 - 1)

/-- A reference to a key is taken at an entry. -/
inductive Acquires (table : Index → Key × Nat) (key : Key) (i : Index) :
    (Index → Key × Nat) → Prop
  | found : live (table i) → (table i).1 = key → Acquires table key i (raise table i)
  | recycled : (∀ j, live (table j) → (table j).1 ≠ key) → (table i).2 = 0 →
      Acquires table key i (claim table i key)

section Changes

variable [DecidableEq Key] {table : Index → Key × Nat} {key : Key} {i j : Index}

omit [DecidableEq Index] in
/-- All references to the key of an entry are at this entry. -/
theorem OneEntry.refs_eq (one : OneEntry table) (isLive : live (table i)) :
    refs (table i).1 table = (table i).2 := by
  have only : refs (table i).1 table = if (table i).1 = (table i).1 then (table i).2 else 0 := by
    apply Finset.sum_eq_single_of_mem i (Finset.mem_univ i)
    intro j _ other
    by_cases same : (table j).1 = (table i).1
    · have nothing : (table j).2 = 0 := by
        by_contra isLive'
        exact other (one j i (Nat.pos_of_ne_zero isLive') isLive same)
      simp [nothing]
    · exact if_neg same
  rw [only, if_pos rfl]

theorem refs_raise : refs key (raise table i) =
    refs key table + if key = (table i).1 then 1 else 0 := by
  have changed := total_update (fun entry : Key × Nat => if entry.1 = key then entry.2 else 0)
    table i ((table i).1, (table i).2 + 1)
  unfold refs raise
  by_cases same : (table i).1 = key
  · simp only [same, if_true] at changed ⊢
    omega
  · simp only [same, Ne.symm same, if_false] at changed ⊢
    omega

theorem refs_claim (isVacant : (table i).2 = 0) {other : Key} :
    refs other (claim table i key) = refs other table + if other = key then 1 else 0 := by
  have changed := total_update (fun entry : Key × Nat => if entry.1 = other then entry.2 else 0)
    table i (key, 1)
  unfold refs claim
  by_cases same : key = other
  · simp only [isVacant, ite_self, same, if_true] at changed ⊢
    omega
  · simp only [isVacant, ite_self, same, Ne.symm same, if_false] at changed ⊢
    omega

theorem refs_lower (isLive : live (table i)) :
    refs key (lower table i) + (if key = (table i).1 then 1 else 0) = refs key table := by
  have changed := total_update (fun entry : Key × Nat => if entry.1 = key then entry.2 else 0)
    table i ((table i).1, (table i).2 - 1)
  unfold refs lower
  unfold live at isLive
  by_cases same : (table i).1 = key
  · simp only [same, if_true] at changed ⊢
    omega
  · simp only [same, Ne.symm same, if_false] at changed ⊢
    omega

omit [DecidableEq Key] in
theorem vacant_raise (isLive : live (table i)) : vacant (raise table i) = vacant table := by
  have changed := countWhere_update (fun entry : Key × Nat => decide (entry.2 = 0)) table i
    ((table i).1, (table i).2 + 1)
  unfold live at isLive
  simp only [Nat.ne_of_gt isLive, Nat.succ_ne_zero, decide_false, Bool.toNat_false,
    Nat.add_zero] at changed
  exact changed

omit [DecidableEq Key] in
theorem vacant_claim (isVacant : (table i).2 = 0) :
    vacant (claim table i key) + 1 = vacant table := by
  have changed := countWhere_update (fun entry : Key × Nat => decide (entry.2 = 0)) table i (key, 1)
  unfold vacant claim
  simpa [isVacant] using changed

omit [DecidableEq Key] in
theorem vacant_lower (isLive : live (table i)) :
    vacant (lower table i) = vacant table + if (table i).2 = 1 then 1 else 0 := by
  have changed := countWhere_update (fun entry : Key × Nat => decide (entry.2 = 0)) table i
    ((table i).1, (table i).2 - 1)
  unfold live at isLive
  unfold vacant lower
  by_cases last : (table i).2 = 1
  · simpa [last] using changed
  · have more : (table i).2 - 1 ≠ 0 := by omega
    simpa [Nat.ne_of_gt isLive, more, last] using changed

omit [DecidableEq Key] [Fintype Index] in
/-- The keys of live entries stay apart if an entry keeps its key. -/
theorem OneEntry.update (one : OneEntry table) (isLive : live (table i)) (count : Nat) :
    OneEntry (Function.update table i ((table i).1, count)) := by
  have before : ∀ j, live (Function.update table i ((table i).1, count) j) →
      live (table j) ∧ (Function.update table i ((table i).1, count) j).1 = (table j).1 := by
    intro j isLive'
    rcases eq_or_ne j i with rfl | other
    · exact ⟨isLive, by rw [Function.update_self]⟩
    · rw [Function.update_of_ne other] at isLive' ⊢
      exact ⟨isLive', rfl⟩
  intro first second firstLive secondLive same
  obtain ⟨wasFirst, firstKey⟩ := before first firstLive
  obtain ⟨wasSecond, secondKey⟩ := before second secondLive
  rw [firstKey, secondKey] at same
  exact one first second wasFirst wasSecond same

omit [DecidableEq Key] [Fintype Index] in
theorem OneEntry.claim (one : OneEntry table) (absent : ∀ j, live (table j) → (table j).1 ≠ key) :
    OneEntry (claim table i key) := by
  intro first second firstLive secondLive same
  unfold References.claim at firstLive secondLive same
  rcases eq_or_ne first i with isFirst | notFirst <;>
    rcases eq_or_ne second i with isSecond | notSecond
  · exact isFirst.trans isSecond.symm
  · rw [Function.update_of_ne notSecond] at secondLive same
    rw [isFirst, Function.update_self] at same
    exact absurd same.symm (absent second secondLive)
  · rw [Function.update_of_ne notFirst] at firstLive same
    rw [isSecond, Function.update_self] at same
    exact absurd same (absent first firstLive)
  · rw [Function.update_of_ne notFirst] at firstLive same
    rw [Function.update_of_ne notSecond] at secondLive same
    exact one first second firstLive secondLive same

/-- A reference that was taken. -/
theorem Acquires.spec {after : Index → Key × Nat} (acquires : Acquires table key i after)
    (one : OneEntry table) :
    (after i).1 = key ∧ live (after i) ∧ OneEntry after ∧
      (∀ other, refs other after = refs other table + if other = key then 1 else 0) ∧
      vacant after + (if (after i).2 = 1 then 1 else 0) = vacant table ∧
      ∀ j, live (table j) → (after j).1 = (table j).1 ∧ (table j).2 ≤ (after j).2 := by
  cases acquires with
  | found isLive isKey =>
      have here : raise table i i = ((table i).1, (table i).2 + 1) := Function.update_self ..
      have more : (table i).2 + 1 ≠ 1 := by
        unfold live at isLive
        omega
      refine ⟨?_, ?_, one.update isLive _, fun other => ?_, ?_, fun j _ => ?_⟩
      · rw [here, isKey]
      · rw [here]
        exact Nat.succ_pos _
      · rw [refs_raise, isKey]
      · rw [here, if_neg more, vacant_raise isLive, Nat.add_zero]
      · rcases eq_or_ne j i with rfl | other
        · rw [here]
          exact ⟨rfl, Nat.le_succ _⟩
        · rw [raise, Function.update_of_ne other]
          exact ⟨rfl, Nat.le_refl _⟩
  | recycled absent isVacant =>
      have here : claim table i key i = (key, 1) := Function.update_self ..
      refine ⟨?_, ?_, one.claim absent, fun other => refs_claim isVacant, ?_, fun j isLive => ?_⟩
      · rw [here]
      · rw [here]
        exact Nat.one_pos
      · rw [here, if_pos rfl, vacant_claim isVacant]
      · have other : j ≠ i := by
          rintro rfl
          exact Nat.ne_of_gt isLive isVacant
        rw [claim, Function.update_of_ne other]
        exact ⟨rfl, Nat.le_refl _⟩

end Changes

/-! ## Walks -/

/-- A walk that started with a table has one reference more, at an entry. -/
structure Carries [DecidableEq Key] (before table : Index → Key × Nat) (i : Index) : Prop where
  one : OneEntry table
  isLive : live (table i)
  refs : ∀ key, refs key table = refs key before + if key = (table i).1 then 1 else 0
  room : vacant table + (if (table i).2 = 1 then 1 else 0) = vacant before

namespace Carries

variable [DecidableEq Key] {before table after : Index → Key × Nat} {key : Key} {i j : Index}

/-- The first reference. -/
theorem start (one : OneEntry before) (acquires : Acquires before key i after) :
    Carries before after i := by
  obtain ⟨isKey, isLive, oneAfter, refsAfter, room, -⟩ := acquires.spec one
  refine ⟨oneAfter, isLive, ?_, room⟩
  rw [isKey]
  exact refsAfter

omit [DecidableEq Index] in
/-- There is no vacant entry for the next reference only if there were less than two. -/
theorem vacant_lt_two (carries : Carries before table i) (full : vacant table = 0) :
    vacant before < 2 := by
  have room := carries.room
  split at room <;> omega

omit [DecidableEq Index] in
/-- The references of an entry where the walk is are those from before and its own. -/
theorem count (carries : Carries before table i) :
    (table i).2 = References.refs (table i).1 before + 1 := by
  rw [← carries.one.refs_eq carries.isLive, carries.refs, if_pos rfl]

/-- The next reference is taken, and the last one is dropped. -/
theorem handOver (carries : Carries before table i) (acquires : Acquires table key j after) :
    Carries before (lower after i) j := by
  obtain ⟨isKey, isLive, one, refsAfter, vacantAfter, kept⟩ := acquires.spec carries.one
  obtain ⟨sameKey, atLeast⟩ := kept i carries.isLive
  have liveAfter : live (after i) := Nat.lt_of_lt_of_le carries.isLive atLeast
  have count := one.refs_eq liveAfter
  rw [sameKey, refsAfter, carries.one.refs_eq carries.isLive] at count
  have vacantLowered := @vacant_lower _ _ _ _ after i liveAfter
  have here : lower after i i = ((after i).1, (after i).2 - 1) := Function.update_self ..
  have room := carries.room
  have positive := carries.isLive
  unfold live at positive
  have refsLowered : ∀ other,
      References.refs other (lower after i) =
        References.refs other before + if other = key then 1 else 0 := by
    intro other
    have lowered := @refs_lower _ _ _ _ _ after other i liveAfter
    rw [sameKey, refsAfter, carries.refs] at lowered
    omega
  rcases eq_or_ne j i with rfl | apart
  · -- The entry has one reference more in between.
    rw [← sameKey, isKey, if_pos rfl] at count
    have isMore : (after j).2 ≠ 1 := by omega
    rw [if_neg isMore] at vacantAfter vacantLowered
    refine ⟨one.update liveAfter _, ?_, ?_, ?_⟩
    · rw [here]
      unfold live
      dsimp only
      omega
    · rw [here]
      dsimp only
      rw [isKey]
      exact refsLowered
    · rw [here, vacantLowered, vacantAfter, ← count]
      exact room
  · have notKey : (table i).1 ≠ key := by
      intro same
      exact apart (one j i isLive liveAfter (by rw [isKey, sameKey, same]))
    have there : lower after i j = after j := Function.update_of_ne apart _ _
    rw [if_neg notKey] at count
    refine ⟨one.update liveAfter _, ?_, ?_, ?_⟩
    · rw [there]
      exact isLive
    · rw [there, isKey]
      exact refsLowered
    · rw [there, vacantLowered, ← count, Nat.add_zero, Nat.add_right_comm, vacantAfter, room]

/-- The reference is dropped. -/
theorem drop (carries : Carries before table i) (key : Key) :
    References.refs key (lower table i) = References.refs key before := by
  have lowered := @refs_lower _ _ _ _ _ table key i carries.isLive
  rw [carries.refs] at lowered
  omega

end Carries

end Coursework.References
