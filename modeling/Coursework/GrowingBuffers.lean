import Mathlib.Algebra.Ring.Nat
import Mathlib.Tactic.Common

/-!
# Buffers that grow by a fixed step

A buffer is filled from the front, and it is enlarged by `step` cells after the store that fills
it.  So at any time the allocated size is the first multiple of `step` above the number of
elements: there is always room for one more, and the element that ends the sequence needs no
check of its own.

The counters are integers with a greatest value.  The size is the larger of the two, and a buffer
takes one more element exactly if the size it has afterwards can be counted.
-/

namespace Coursework.Growing

/-- A store outside of the allocated cells, a read of a cell that was never written, or a counter
above its greatest value. -/
inductive Fault where
  | outside
  | uninitialised
  | overflow
  deriving DecidableEq

/-- The allocated cells, their number as the program counts it, and the number of elements. -/
structure Buffer (Element : Type) where
  cells : List (Option Element)
  bufsize : Nat
  position : Nat

section Operations

variable {Element : Type} (step limit : Nat)

/-- New cells hold nothing. -/
def malloc (size : Nat) : List (Option Element) := List.replicate size none

/-- The cells that fit into the new size are kept. -/
def realloc (cells : List (Option Element)) (size : Nat) : List (Option Element) :=
  cells.take size ++ malloc (size - cells.length)

/-- The empty buffer, with the first `step` cells. -/
def empty : Buffer Element := ⟨malloc step, step, 0⟩

/-- The cells after a store. -/
def store (cells : List (Option Element)) (position : Nat) (element : Element) :
    Except Fault (List (Option Element)) :=
  if position < cells.length then .ok (cells.set position (some element)) else .error .outside

/-- A counter after an addition. -/
def count (counter more : Nat) : Except Fault Nat :=
  if counter + more ≤ limit then .ok (counter + more) else .error .overflow

/-- An element is stored, and a full buffer is enlarged. -/
def push (buffer : Buffer Element) (element : Element) : Except Fault (Buffer Element) := do
  let cells ← store buffer.cells buffer.position element
  let position ← count limit buffer.position 1
  if buffer.bufsize ≤ position then
    let bufsize ← count limit buffer.bufsize step
    .ok ⟨realloc cells bufsize, bufsize, position⟩
  else .ok ⟨cells, buffer.bufsize, position⟩

/-- The last element is stored; the buffer is not enlarged for it. -/
def finish (buffer : Buffer Element) (element : Element) :
    Except Fault (List (Option Element)) :=
  store buffer.cells buffer.position element

/-- The allocated size for a number of elements. -/
def sizeFor (elements : Nat) : Nat := step * (elements / step + 1)

end Operations

/-- Cells that begin with some elements. -/
def StartsWith {Element : Type} (cells : List (Option Element)) (elements : List Element) : Prop :=
  cells.take elements.length = elements.map some

/-- A buffer that holds some elements. -/
structure Holds {Element : Type} (step : Nat) (buffer : Buffer Element)
    (elements : List Element) : Prop where
  allocated : buffer.cells.length = buffer.bufsize
  size : buffer.bufsize = sizeFor step elements.length
  position : buffer.position = elements.length
  content : StartsWith buffer.cells elements

section Sizes

variable {step : Nat}

/-- There is room for one more element. -/
theorem lt_sizeFor (positive : 0 < step) (elements : Nat) : elements < sizeFor step elements := by
  have quotient := Nat.div_add_mod elements step
  have remainder := Nat.mod_lt elements positive
  rw [sizeFor, Nat.mul_add, Nat.mul_one]
  omega

/-- The size by one more element. -/
theorem sizeFor_succ (positive : 0 < step) (elements : Nat) : sizeFor step (elements + 1) =
    if sizeFor step elements ≤ elements + 1 then sizeFor step elements + step
    else sizeFor step elements := by
  have room := lt_sizeFor positive elements
  split
  · next full =>
      have exactly : elements + 1 = step * (elements / step + 1) := by
        rw [sizeFor] at room full
        omega
      rw [sizeFor, exactly, Nat.mul_div_cancel_left _ positive, sizeFor, Nat.mul_add _ _ 1,
        Nat.mul_one]
  · next roomLeft =>
      have between : (elements + 1) / step = elements / step := by
        apply Nat.div_eq_of_lt_le
        · have quotient := Nat.div_mul_le_self elements step
          omega
        · rw [sizeFor, Nat.mul_comm] at roomLeft
          omega
      rw [sizeFor, between, sizeFor]

theorem sizeFor_mono {fewer more : Nat} (atMost : fewer ≤ more) :
    sizeFor step fewer ≤ sizeFor step more :=
  Nat.mul_le_mul_left _ (Nat.add_le_add_right (Nat.div_le_div_right atMost) 1)

end Sizes

section Steps

variable {Element : Type} {step limit : Nat}

@[simp]
theorem length_malloc (size : Nat) : (malloc size : List (Option Element)).length = size :=
  List.length_replicate

@[simp]
theorem length_realloc (cells : List (Option Element)) (size : Nat) :
    (realloc cells size).length = size := by
  simp only [realloc, List.length_append, List.length_take, length_malloc]
  omega

theorem StartsWith.length_le {cells : List (Option Element)} {elements : List Element}
    (starts : StartsWith cells elements) : elements.length ≤ cells.length := by
  have lengths := congrArg List.length starts
  rw [List.length_take, List.length_map] at lengths
  omega

/-- Enlarging cells keeps what they begin with. -/
theorem StartsWith.enlarged {cells : List (Option Element)} {elements : List Element}
    (starts : StartsWith cells elements) {size : Nat} (larger : cells.length ≤ size) :
    StartsWith (realloc cells size) elements := by
  rw [StartsWith, realloc, List.take_of_length_le larger,
    List.take_append_of_le_length starts.length_le]
  exact starts

/-- A store behind the elements. -/
theorem StartsWith.stored {cells : List (Option Element)} {elements : List Element}
    (starts : StartsWith cells elements) (room : elements.length < cells.length)
    (element : Element) :
    StartsWith (cells.set elements.length (some element)) (elements ++ [element]) := by
  rw [StartsWith, List.length_append, List.length_singleton,
    List.take_succ_eq_append_getElem (by rwa [List.length_set]), List.getElem_set_self,
    List.take_set_of_le (Nat.le_refl _), starts, List.map_append]
  rfl

theorem holds_empty : Holds step (empty step : Buffer Element) [] where
  allocated := length_malloc step
  size := by rw [sizeFor, List.length_nil, Nat.zero_div, Nat.zero_add, Nat.mul_one]; rfl
  position := rfl
  content := rfl

variable {buffer : Buffer Element} {elements : List Element}

theorem Holds.room (holds : Holds step buffer elements) (positive : 0 < step) :
    buffer.position < buffer.cells.length := by
  rw [holds.allocated, holds.size, holds.position]
  exact lt_sizeFor positive _

/-- The stores of the program are inside of the allocated cells. -/
theorem Holds.store_eq (holds : Holds step buffer elements) (positive : 0 < step)
    (element : Element) : store buffer.cells buffer.position element =
      .ok (buffer.cells.set buffer.position (some element)) :=
  if_pos (holds.room positive)

theorem Holds.stored (holds : Holds step buffer elements) (positive : 0 < step)
    (element : Element) : StartsWith (buffer.cells.set buffer.position (some element))
      (elements ++ [element]) := by
  have room := holds.room positive
  rw [holds.position] at room ⊢
  exact holds.content.stored room element

/-- One more element, if the new size can be counted. -/
theorem Holds.push_eq (holds : Holds step buffer elements) (positive : 0 < step) (element : Element)
    (countable : sizeFor step (elements.length + 1) ≤ limit) :
    ∃ pushed, push step limit buffer element = .ok pushed ∧
      Holds step pushed (elements ++ [element]) := by
  have stored := holds.stored positive element
  have grown := sizeFor_succ positive elements.length
  have atMost := lt_sizeFor positive (elements.length + 1)
  have counted : count limit buffer.position 1 = .ok (elements.length + 1) := by
    rw [count, holds.position, if_pos (by omega)]
  have position : elements.length + 1 = (elements ++ [element]).length := by
    rw [List.length_append, List.length_singleton]
  simp only [push, holds.store_eq positive, counted, bind, Except.bind]
  by_cases full : buffer.bufsize ≤ elements.length + 1
  · rw [if_pos (holds.size ▸ full), ← holds.size] at grown
    rw [if_pos full, count, if_pos (by omega)]
    refine ⟨_, rfl, length_realloc _ _, by rw [← position, grown], position, ?_⟩
    exact stored.enlarged (by rw [List.length_set, holds.allocated]; omega)
  · rw [if_neg (holds.size ▸ full)] at grown
    rw [if_neg full]
    refine ⟨_, rfl, by rw [List.length_set, holds.allocated], ?_, position, stored⟩
    rw [← position, grown, holds.size]

/-- A size that cannot be counted. -/
theorem Holds.push_overflow (holds : Holds step buffer elements) (positive : 0 < step)
    (element : Element) (counts : sizeFor step elements.length ≤ limit)
    (above : limit < sizeFor step (elements.length + 1)) :
    push step limit buffer element = .error .overflow := by
  have room := lt_sizeFor positive elements.length
  have grown := sizeFor_succ positive elements.length
  have counted : count limit buffer.position 1 = .ok (elements.length + 1) := by
    rw [count, holds.position, if_pos (by omega)]
  have full : sizeFor step elements.length ≤ elements.length + 1 := by
    by_contra roomLeft
    rw [if_neg roomLeft] at grown
    omega
  rw [if_pos full] at grown
  simp only [push, holds.store_eq positive, counted, bind, Except.bind]
  rw [if_pos (holds.size ▸ full), count, if_neg (by rw [holds.size]; omega)]

/-- The last element always has room. -/
theorem Holds.finish_eq (holds : Holds step buffer elements) (positive : 0 < step)
    (element : Element) : ∃ cells, finish buffer element = .ok cells ∧
      cells.length = sizeFor step elements.length ∧ StartsWith cells (elements ++ [element]) := by
  refine ⟨_, holds.store_eq positive element, ?_, holds.stored positive element⟩
  rw [List.length_set, holds.allocated, holds.size]

end Steps

section Runs

variable {Element : Type} {step limit : Nat}

/-- Elements are stored one after the other. -/
theorem Holds.pushAll_eq {buffer : Buffer Element} {elements : List Element}
    (holds : Holds step buffer elements) (positive : 0 < step) (more : List Element)
    (countable : sizeFor step (elements.length + more.length) ≤ limit) :
    ∃ pushed, more.foldlM (push step limit) buffer = .ok pushed ∧
      Holds step pushed (elements ++ more) := by
  induction more generalizing buffer elements with
  | nil => exact ⟨buffer, rfl, by rwa [List.append_nil]⟩
  | cons element more ih =>
      have one : sizeFor step (elements.length + 1) ≤
          sizeFor step (elements.length + (more.length + 1)) := sizeFor_mono (by omega)
      obtain ⟨pushed, pushes, after⟩ := holds.push_eq positive element (Nat.le_trans one countable)
      obtain ⟨last, pushesAll, atEnd⟩ := ih after (by
        rw [List.length_append, List.length_singleton, Nat.add_assoc, Nat.add_comm 1]
        exact countable)
      refine ⟨last, ?_, by rwa [List.append_assoc] at atEnd⟩
      rw [List.foldlM_cons, pushes]
      exact pushesAll

/-- As soon as the size cannot be counted, the elements are not stored. -/
theorem Holds.pushAll_overflow {buffer : Buffer Element} {elements : List Element}
    (holds : Holds step buffer elements) (positive : 0 < step) (more : List Element)
    (counts : sizeFor step elements.length ≤ limit)
    (above : limit < sizeFor step (elements.length + more.length)) :
    more.foldlM (push step limit) buffer = .error .overflow := by
  induction more generalizing buffer elements with
  | nil => exact absurd counts (Nat.not_le.mpr above)
  | cons element more ih =>
      rw [List.foldlM_cons]
      by_cases countable : sizeFor step (elements.length + 1) ≤ limit
      · obtain ⟨pushed, pushes, after⟩ := holds.push_eq positive element countable
        have length : (elements ++ [element]).length = elements.length + 1 := by
          rw [List.length_append, List.length_singleton]
        rw [pushes]
        apply ih after
        · rwa [length]
        · rwa [length, Nat.add_assoc, Nat.add_comm 1]
      · rw [holds.push_overflow positive element counts (Nat.not_le.mp countable)]
        rfl

end Runs

end Coursework.Growing
