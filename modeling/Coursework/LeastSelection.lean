import Mathlib.Order.Lattice
import Mathlib.Data.List.Basic

/-!
# Selecting an item of least key by one pass

A pass over a list keeps the best item seen so far and replaces it only by an
eligible item whose key is strictly smaller.  The result therefore has the least
key, it is the starting item when nothing beats it, and otherwise it is the
first eligible item of least key in the list.
-/

namespace Coursework

variable {Item Key : Type*} [LinearOrder Key]

/-- One pass over `items`, starting from the item `best`. -/
def selectLeast (eligible : Item → Bool) (key : Item → Key) :
    Item → List Item → Item
  | best, [] => best
  | best, item :: rest =>
      selectLeast eligible key
        (if eligible item = true ∧ key item < key best then item else best) rest

variable {eligible : Item → Bool} {key : Item → Key}

theorem selectLeast_le_start (best : Item) (items : List Item) :
    key (selectLeast eligible key best items) ≤ key best := by
  induction items generalizing best with
  | nil => exact le_rfl
  | cons item rest ih =>
      rw [selectLeast]
      split
      · next better => exact le_trans (ih item) (le_of_lt better.2)
      · exact ih best

variable (key) in
theorem selectLeast_le_of_mem (best : Item) {items : List Item} {item : Item}
    (member : item ∈ items) (isEligible : eligible item = true) :
    key (selectLeast eligible key best items) ≤ key item := by
  induction items generalizing best with
  | nil => cases member
  | cons head rest ih =>
      rw [selectLeast]
      rcases List.mem_cons.mp member with here | later
      · subst here
        split
        · exact selectLeast_le_start item rest
        · next notBetter =>
            have bestLe : key best ≤ key item :=
              not_lt.mp fun smaller => notBetter ⟨isEligible, smaller⟩
            exact le_trans (selectLeast_le_start best rest) bestLe
      · exact ih _ later

theorem selectLeast_eligible {best : Item} (items : List Item)
    (startEligible : eligible best = true) :
    eligible (selectLeast eligible key best items) = true := by
  induction items generalizing best with
  | nil => exact startEligible
  | cons item rest ih =>
      rw [selectLeast]
      split
      · next better => exact ih better.1
      · exact ih startEligible

/-- The pass reads the keys of the starting item and of eligible items only. -/
theorem selectLeast_congr {otherEligible : Item → Bool} {otherKey : Item → Key}
    (sameEligible : ∀ item, eligible item = otherEligible item)
    (sameKey : ∀ item, eligible item = true → key item = otherKey item) {best : Item}
    (startEligible : eligible best = true) (items : List Item) :
    selectLeast eligible key best items = selectLeast otherEligible otherKey best items := by
  induction items generalizing best with
  | nil => rfl
  | cons item rest ih =>
      rw [selectLeast, selectLeast, ← sameEligible, ← sameKey best startEligible]
      by_cases isEligible : eligible item = true
      · rw [← sameKey item isEligible]
        split
        · exact ih isEligible
        · exact ih startEligible
      · simpa [isEligible] using ih startEligible

/-- A starting item that no eligible item beats is kept. -/
theorem selectLeast_eq_start {best : Item} {items : List Item}
    (unbeaten : ∀ item ∈ items, eligible item = true → key best ≤ key item) :
    selectLeast eligible key best items = best := by
  induction items with
  | nil => rfl
  | cons item rest ih =>
      rw [selectLeast, if_neg]
      · exact ih fun other member => unbeaten other (List.mem_cons_of_mem _ member)
      · intro better
        exact absurd better.2 (not_lt.mpr (unbeaten item List.mem_cons_self better.1))

/-- A starting item that is beaten gives way to the first eligible item of
least key, `winner`. -/
theorem selectLeast_eq_first {best winner : Item} {before after : List Item}
    (beaten : key winner < key best) (winnerEligible : eligible winner = true)
    (earlier : ∀ item ∈ before, eligible item = true → key winner < key item)
    (later : ∀ item ∈ after, eligible item = true → key winner ≤ key item) :
    selectLeast eligible key best (before ++ winner :: after) = winner := by
  induction before generalizing best with
  | nil =>
      rw [List.nil_append, selectLeast, if_pos ⟨winnerEligible, beaten⟩]
      exact selectLeast_eq_start later
  | cons item rest ih =>
      rw [List.cons_append, selectLeast]
      have restEarlier : ∀ other ∈ rest, eligible other = true → key winner < key other :=
        fun other member => earlier other (List.mem_cons_of_mem _ member)
      split
      · next better => exact ih (earlier item List.mem_cons_self better.1) restEarlier
      · exact ih beaten restEarlier

end Coursework
