import Mathlib.Data.List.Basic

/-!
# Splices

A splice writes one list over another from an offset on, and makes it longer where the
written list goes beyond its end.  A list that is written in pieces, each at the end of the
one before, is written at once.
-/

namespace Coursework

universe u

variable {Element : Type u}

/-- The content with a list written over it from an offset on. -/
def splice (content : List Element) (offset : Nat) (written : List Element) : List Element :=
  content.take offset ++ written ++ content.drop (offset + written.length)

variable {content written : List Element} {offset : Nat}

theorem length_splice (inside : offset ≤ content.length) :
    (splice content offset written).length = max content.length (offset + written.length) := by
  simp only [splice, List.length_append, List.length_take, List.length_drop]
  omega

theorem getElem?_splice (inside : offset ≤ content.length) (i : Nat) :
    (splice content offset written)[i]? =
      if offset ≤ i ∧ i < offset + written.length then written[i - offset]? else content[i]? := by
  have start : (content.take offset).length = offset := List.length_take_of_le inside
  unfold splice
  rw [List.append_assoc]
  by_cases before : i < offset
  · rw [List.getElem?_append_left (by omega), List.getElem?_take_of_lt before,
      if_neg (by omega)]
  · rw [List.getElem?_append_right (by omega), start]
    by_cases within : i < offset + written.length
    · rw [List.getElem?_append_left (by omega), if_pos ⟨by omega, within⟩]
    · rw [List.getElem?_append_right (by omega), List.getElem?_drop, if_neg (by omega)]
      congr 1
      omega

/-- Two lists that are written one after the other. -/
theorem splice_splice (inside : offset ≤ content.length) (later : List Element) :
    splice (splice content offset written) (offset + written.length) later =
      splice content offset (written ++ later) := by
  have length := @length_splice _ content written offset inside
  apply List.ext_getElem?
  intro i
  rw [getElem?_splice (by omega), getElem?_splice inside, getElem?_splice inside,
    List.length_append]
  by_cases isLater : offset + written.length ≤ i ∧ i < offset + written.length + later.length
  · rw [if_pos isLater, if_pos (by omega), List.getElem?_append_right (by omega)]
    congr 1
    omega
  · rw [if_neg isLater]
    by_cases isWritten : offset ≤ i ∧ i < offset + written.length
    · rw [if_pos isWritten, if_pos (by omega), List.getElem?_append_left (by omega)]
    · rw [if_neg isWritten, if_neg (by omega)]

end Coursework
