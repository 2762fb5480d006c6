import Coursework.Splices
import Mathlib.Algebra.BigOperators.Group.List.Basic
import Mathlib.Algebra.Ring.Nat

/-!
# Pieces that follow each other

A piece is a list together with the place where it starts in a longer list.  Pieces of
which each starts where the one before stops are disjoint and cover one range without
gaps.  A list in which pieces are found keeps them when something is spliced in behind
them.
-/

namespace Coursework

universe u

structure Piece (Element : Type u) where
  start : Nat
  elements : List Element

variable {Element : Type u}

def Piece.stop (piece : Piece Element) : Nat := piece.start + piece.elements.length

/-- The elements of a piece stand at its place in a list. -/
def Piece.FoundIn (piece : Piece Element) (content : List Element) : Prop :=
  ∀ i < piece.elements.length, content[piece.start + i]? = piece.elements[i]?

/-- The pieces lie between two places, one after the other. -/
def Consecutive : Nat → List (Piece Element) → Nat → Prop
  | first, [], last => first = last
  | first, piece :: rest, last => piece.start = first ∧ Consecutive piece.stop rest last

namespace Consecutive

variable {first last : Nat} {pieces : List (Piece Element)} {piece : Piece Element}

theorem concat (consecutive : Consecutive first pieces last) (piece : Piece Element)
    (starts : piece.start = last) :
    Consecutive first (pieces ++ [piece]) piece.stop := by
  induction pieces generalizing first with
  | nil =>
      obtain rfl : first = last := consecutive
      exact ⟨starts, rfl⟩
  | cons head rest ih => exact ⟨consecutive.1, ih consecutive.2⟩

theorem le (consecutive : Consecutive first pieces last) : first ≤ last := by
  induction pieces generalizing first with
  | nil => exact Nat.le_of_eq consecutive
  | cons head rest ih =>
      have later := ih consecutive.2
      have starts := consecutive.1
      simp only [Piece.stop] at later
      omega

theorem bounds (consecutive : Consecutive first pieces last) (member : piece ∈ pieces) :
    first ≤ piece.start ∧ piece.stop ≤ last := by
  induction pieces generalizing first with
  | nil => cases member
  | cons head rest ih =>
      rcases List.mem_cons.mp member with rfl | inRest
      · exact ⟨Nat.le_of_eq consecutive.1.symm, consecutive.2.le⟩
      · obtain ⟨lower, upper⟩ := ih consecutive.2 inRest
        have starts := consecutive.1
        simp only [Piece.stop] at lower
        exact ⟨by omega, upper⟩

/-- A piece stops before any later one starts. -/
theorem disjoint (consecutive : Consecutive first pieces last) :
    pieces.Pairwise fun before after => before.stop ≤ after.start := by
  induction pieces generalizing first with
  | nil => exact .nil
  | cons head rest ih =>
      exact .cons (fun after member => (consecutive.2.bounds member).1) (ih consecutive.2)

theorem last_eq (consecutive : Consecutive first pieces last) :
    last = first + (pieces.map fun piece => piece.elements.length).sum := by
  induction pieces generalizing first with
  | nil => exact consecutive.symm
  | cons head rest ih =>
      rw [ih consecutive.2, Piece.stop, consecutive.1, List.map_cons, List.sum_cons,
        Nat.add_assoc]

end Consecutive

namespace Piece.FoundIn

variable {content written : List Element} {offset : Nat} {piece : Piece Element}

/-- A splice behind a piece does not change it. -/
theorem splice (found : piece.FoundIn content) (inside : offset ≤ content.length)
    (before : piece.stop ≤ offset) : piece.FoundIn (splice content offset written) := by
  intro i less
  simp only [Piece.stop] at before
  rw [getElem?_splice inside, if_neg (by omega)]
  exact found i less

/-- What was spliced in is found. -/
theorem spliced (inside : offset ≤ content.length) :
    FoundIn ⟨offset, written⟩ (Coursework.splice content offset written) := by
  intro i less
  simp only at less ⊢
  rw [getElem?_splice inside, if_pos (by omega), Nat.add_sub_cancel_left]

/-- What a drop and a take cut out is found. -/
theorem cut (content : List Element) (offset count : Nat) :
    FoundIn ⟨offset, (content.drop offset).take count⟩ content := by
  intro i less
  simp only [List.length_take] at less ⊢
  rw [List.getElem?_take, if_pos (by omega), List.getElem?_drop]

end Piece.FoundIn

end Coursework
