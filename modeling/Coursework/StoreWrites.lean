import Mathlib.Data.List.Nodup
import Mathlib.Logic.Function.Basic

/-!
# Sequences of writes to a store

A store maps addresses to values.  A device performs a list of single-address
writes in order and may stop after any of them, so what matters is the store
after an arbitrary prefix of the list.
-/

namespace Coursework

variable {Address Value : Type*} [DecidableEq Address]

/-- Perform writes in order. -/
def applyWrites (writes : List (Address × Value)) (store : Address → Value) :
    Address → Value :=
  writes.foldl (fun current write => Function.update current write.1 write.2) store

@[simp]
theorem applyWrites_nil (store : Address → Value) :
    applyWrites [] store = store :=
  rfl

@[simp]
theorem applyWrites_cons (write : Address × Value)
    (writes : List (Address × Value)) (store : Address → Value) :
    applyWrites (write :: writes) store =
      applyWrites writes (Function.update store write.1 write.2) :=
  rfl

theorem applyWrites_append (first second : List (Address × Value))
    (store : Address → Value) :
    applyWrites (first ++ second) store =
      applyWrites second (applyWrites first store) :=
  List.foldl_append

/-- An address that no write names keeps its value. -/
theorem applyWrites_of_forall_ne {writes : List (Address × Value)}
    {address : Address} (untouched : ∀ write ∈ writes, write.1 ≠ address)
    (store : Address → Value) :
    applyWrites writes store address = store address := by
  induction writes generalizing store with
  | nil => rfl
  | cons write writes ih =>
      have here := untouched write List.mem_cons_self
      rw [applyWrites_cons, ih fun other member =>
        untouched other (List.mem_cons_of_mem _ member)]
      exact Function.update_of_ne (Ne.symm here) _ _

/-- Writes to distinct addresses leave each address with the value written
there. -/
theorem applyWrites_of_mem {writes : List (Address × Value)}
    (distinct : (writes.map Prod.fst).Nodup) {write : Address × Value}
    (member : write ∈ writes) (store : Address → Value) :
    applyWrites writes store write.1 = write.2 := by
  induction writes generalizing store with
  | nil => cases member
  | cons head tail ih =>
      simp only [List.map_cons, List.nodup_cons] at distinct
      rw [applyWrites_cons]
      rcases List.mem_cons.mp member with rfl | inTail
      · rw [applyWrites_of_forall_ne, Function.update_self]
        intro other otherMem equal
        exact distinct.1 (List.mem_map.mpr ⟨other, otherMem, equal⟩)
      · exact ih distinct.2 inTail _

/-- A store property that every listed write preserves survives the whole
list. -/
theorem applyWrites_preserves {Inv : (Address → Value) → Prop}
    {writes : List (Address × Value)}
    (preserved : ∀ write ∈ writes, ∀ store, Inv store →
      Inv (Function.update store write.1 write.2))
    {store : Address → Value} (holds : Inv store) :
    Inv (applyWrites writes store) := by
  induction writes generalizing store with
  | nil => exact holds
  | cons write writes ih =>
      exact ih (fun other member => preserved other (List.mem_cons_of_mem _ member))
        (preserved write List.mem_cons_self store holds)

/-- A stop inside a concatenation comes inside its first part, or after the
first part and inside the second. -/
theorem applyWrites_take_append (first second : List (Address × Value))
    (count : Nat) (store : Address → Value) :
    (applyWrites ((first ++ second).take count) store =
        applyWrites (first.take count) store) ∨
      ∃ rest, applyWrites ((first ++ second).take count) store =
        applyWrites (second.take rest) (applyWrites first store) := by
  by_cases inFirst : count ≤ first.length
  · left
    rw [List.take_append_of_le_length inFirst]
  · right
    refine ⟨count - first.length, ?_⟩
    rw [List.take_append, List.take_of_length_le (by omega), applyWrites_append]

end Coursework
