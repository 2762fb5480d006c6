import Mathlib.Data.Nat.ModEq
import Mathlib.Logic.Function.Basic
import Mathlib.Tactic.Common

/-!
# Rings with wrapping counters

A ring of `size` places is read at a counter `first` and written at a counter
`last`.  The counters only grow, modulo `wrap`, and a counter's place is its
remainder by `size`.  When `size` divides `wrap` and is smaller, the counters
determine how many items the ring holds: it is empty when they are equal, and
full when they are `size` apart.

Items that several parties move through a ring are logged with the party that
moved them.
-/

namespace Coursework.Ring

variable {Item : Type*} {size wrap first last : Nat} {data : Nat → Item} {items : List Item}

/-- The ring holds a list of items between two counters. -/
structure Holds (size wrap : Nat) (data : Nat → Item) (first last : Nat)
    (items : List Item) : Prop where
  first_lt : first < wrap
  last_eq : last = (first + items.length) % wrap
  fits : items.length ≤ size
  content : ∀ index item, items[index]? = some item → data ((first + index) % size) = item

theorem holds_nil (positive : first < wrap) : Holds size wrap data first first [] := by
  refine ⟨positive, ?_, Nat.zero_le size, ?_⟩
  · exact (Nat.mod_eq_of_lt positive).symm
  · intro index item found
    simp at found

theorem mod_ne {base near far : Nat} (order : near < far) (close : far < near + size) :
    (base + near) % size ≠ (base + far) % size := by
  intro same
  have congruent : base + near ≡ base + far [MOD size] := same
  have distance : size ∣ base + far - (base + near) :=
    (Nat.modEq_iff_dvd' (by omega)).mp congruent
  have := Nat.le_of_dvd (by omega) distance
  omega

namespace Holds

/-- How many items there are, from the counters. -/
theorem distance (ring : Holds size wrap data first last items) (small : size < wrap) :
    (last + wrap - first) % wrap = items.length := by
  have := ring.first_lt
  have := ring.fits
  have congruent : last + wrap - first ≡ items.length [MOD wrap] := by
    apply Nat.ModEq.add_right_cancel' first
    have cancel : last + wrap - first + first = last + wrap := by omega
    rw [cancel, ring.last_eq, Nat.ModEq, Nat.add_mod_right, Nat.mod_mod, Nat.add_comm]
  rw [congruent]
  exact Nat.mod_eq_of_lt (by omega)

theorem empty_iff (ring : Holds size wrap data first last items) (small : size < wrap) :
    first = last ↔ items = [] := by
  constructor
  · intro same
    have length := ring.distance small
    rw [same, Nat.add_sub_cancel_left, Nat.mod_self] at length
    exact List.eq_nil_of_length_eq_zero length.symm
  · rintro rfl
    rw [ring.last_eq]
    exact (Nat.mod_eq_of_lt ring.first_lt).symm

theorem full_iff (ring : Holds size wrap data first last items) (small : size < wrap) :
    last = (first + size) % wrap ↔ items.length = size := by
  have := ring.fits
  constructor
  · intro isFull
    have congruent : first + items.length ≡ first + size [MOD wrap] := by
      rw [Nat.ModEq, ← ring.last_eq]
      exact isFull
    have cancelled := Nat.ModEq.add_left_cancel' first congruent
    exact cancelled.eq_of_lt_of_lt (by omega) small
  · intro isFull
    rw [← isFull]
    exact ring.last_eq

/-- The place of the last counter. -/
theorem last_mod (ring : Holds size wrap data first last items) (divides : size ∣ wrap) :
    last % size = (first + items.length) % size := by
  rw [ring.last_eq, Nat.mod_mod_of_dvd _ divides]

theorem push (ring : Holds size wrap data first last items) (divides : size ∣ wrap)
    (room : items.length < size) (item : Item) :
    Holds size wrap (Function.update data (last % size) item) first ((last + 1) % wrap)
      (items ++ [item]) := by
  refine ⟨ring.first_lt, ?_, ?_, ?_⟩
  · rw [ring.last_eq, Nat.mod_add_mod, List.length_append, List.length_singleton, Nat.add_assoc]
  · rw [List.length_append, List.length_singleton]
    omega
  · intro index other found
    rw [ring.last_mod divides]
    by_cases isOld : index < items.length
    · rw [List.getElem?_append_left isOld] at found
      rw [Function.update_of_ne (mod_ne isOld (by omega))]
      exact ring.content index other found
    · have here : index = items.length := by
        have bound := (List.getElem?_eq_some_iff.mp found).1
        rw [List.length_append, List.length_singleton] at bound
        omega
      subst here
      rw [List.getElem?_concat_length] at found
      rw [Function.update_self]
      exact Option.some.inj found

theorem pop {item : Item} (ring : Holds size wrap data first last (item :: items))
    (divides : size ∣ wrap) : data (first % size) = item ∧
      Holds size wrap data ((first + 1) % wrap) last items := by
  refine ⟨ring.content 0 item rfl, ?_, ?_, ?_, ?_⟩
  · exact Nat.mod_lt _ (lt_of_le_of_lt (Nat.zero_le first) ring.first_lt)
  · rw [ring.last_eq, Nat.mod_add_mod, List.length_cons]
    congr 1
    omega
  · have := ring.fits
    rw [List.length_cons] at this
    omega
  · intro index other found
    have place : ((first + 1) % wrap + index) % size = (first + (index + 1)) % size := by
      rw [← Nat.mod_mod_of_dvd ((first + 1) % wrap + index) divides, Nat.mod_add_mod,
        Nat.mod_mod_of_dvd _ divides]
      congr 1
      omega
    rw [place]
    exact ring.content (index + 1) other (by simpa using found)

/-- Take back the item written last. -/
theorem unpush {item : Item} (ring : Holds size wrap data first last (items ++ [item]))
    (divides : size ∣ wrap) :
    data ((last + wrap - 1) % wrap % size) = item ∧
      Holds size wrap data first ((last + wrap - 1) % wrap) items := by
  have isPrevious : (last + wrap - 1) % wrap = (first + items.length) % wrap := by
    have := ring.first_lt
    have congruent : last + wrap - 1 ≡ first + items.length [MOD wrap] := by
      apply Nat.ModEq.add_right_cancel' 1
      have cancel : last + wrap - 1 + 1 = last + wrap := by omega
      rw [cancel, ring.last_eq, Nat.ModEq, Nat.add_mod_right, Nat.mod_mod, List.length_append,
        List.length_singleton, Nat.add_assoc]
    exact congruent
  refine ⟨?_, ring.first_lt, isPrevious, ?_, ?_⟩
  · rw [isPrevious, Nat.mod_mod_of_dvd _ divides]
    exact ring.content items.length item (by simp)
  · have := ring.fits
    rw [List.length_append, List.length_singleton] at this
    omega
  · intro index other found
    have bound := (List.getElem?_eq_some_iff.mp found).1
    apply ring.content index other
    rw [List.getElem?_append_left bound]
    exact found

/-- The items up to a counter between the two. -/
theorem append_left {more : List Item}
    (ring : Holds size wrap data first last (items ++ more)) :
    Holds size wrap data first ((first + items.length) % wrap) items := by
  refine ⟨ring.first_lt, rfl, ?_, ?_⟩
  · have := ring.fits
    rw [List.length_append] at this
    omega
  · intro index item found
    have bound := (List.getElem?_eq_some_iff.mp found).1
    apply ring.content index item
    rw [List.getElem?_append_left bound]
    exact found

/-- The items from a counter between the two on. -/
theorem append_right {more : List Item} (divides : size ∣ wrap)
    (ring : Holds size wrap data first last (items ++ more)) :
    Holds size wrap data ((first + items.length) % wrap) last more := by
  induction items generalizing first with
  | nil =>
      rw [List.length_nil, Nat.add_zero, Nat.mod_eq_of_lt ring.first_lt]
      exact ring
  | cons item items ih =>
      have rest := ih (ring.pop divides).2
      rw [Nat.mod_add_mod, Nat.add_assoc, Nat.add_comm 1] at rest
      exact rest

end Holds

/-! ## Logs -/

variable {Party : Type*} [DecidableEq Party]

/-- The items that a party moved, in order. -/
def itemsOf (party : Party) (log : List (Party × Item)) : List Item :=
  (log.filter fun entry => entry.1 = party).map Prod.snd

theorem itemsOf_append (party mover : Party) (log : List (Party × Item)) (items : List Item) :
    itemsOf party (log ++ items.map fun item => (mover, item)) =
      itemsOf party log ++ if mover = party then items else [] := by
  unfold itemsOf
  rw [List.filter_append, List.map_append, List.filter_map]
  congr 1
  by_cases here : mover = party
  · simp [here, Function.comp_def]
  · simp [here, Function.comp_def]

end Coursework.Ring
