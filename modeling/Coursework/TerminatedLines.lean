import Mathlib.Algebra.BigOperators.Group.List.Basic
import Mathlib.Algebra.Ring.Nat
import Mathlib.Data.List.Basic
import Mathlib.Tactic.Common

/-!
# Lines that end with a mark

A text consists of lines that end with a mark, and of a last one that does not.  A text is
either an open line or a closed line in front of another text.  When a text is cut in two, the
closed lines of the whole are those of the first part and those that the open line of the first
part makes with the second.
-/

namespace Coursework.Lines

variable {Letter : Type*} [DecidableEq Letter]

/-- The lines that end with the mark, without it. -/
def closedLines (mark : Letter) (text : List Letter) : List (List Letter) :=
  (text.splitOn mark).dropLast

/-- What stands behind the last mark. -/
def openLine (mark : Letter) (text : List Letter) : List Letter :=
  (text.splitOn mark).getLastD []

/-- The number of letters up to the last mark, with it. -/
def closedLength (mark : Letter) (text : List Letter) : Nat :=
  ((closedLines mark text).map fun line => line.length + 1).sum

variable {mark : Letter} {line text : List Letter}

theorem closedLines_open (isOpen : mark ∉ text) : closedLines mark text = [] := by
  rw [closedLines, List.splitOn_eq_singleton isOpen]
  rfl

theorem openLine_open (isOpen : mark ∉ text) : openLine mark text = text := by
  rw [openLine, List.splitOn_eq_singleton isOpen]
  rfl

theorem closedLines_closed (isLine : mark ∉ line) (text : List Letter) :
    closedLines mark (line ++ mark :: text) = line :: closedLines mark text := by
  rw [closedLines, List.splitOn_append_cons_self_of_not_mem isLine,
    List.dropLast_cons_of_ne_nil (List.splitOn_ne_nil mark text)]
  rfl

theorem openLine_closed (isLine : mark ∉ line) (text : List Letter) :
    openLine mark (line ++ mark :: text) = openLine mark text := by
  rw [openLine, openLine, List.splitOn_append_cons_self_of_not_mem isLine]
  obtain ⟨first, others, isSplit⟩ :=
    List.exists_cons_of_ne_nil (List.splitOn_ne_nil mark text)
  rw [isSplit]
  rfl

theorem closedLength_open (isOpen : mark ∉ text) : closedLength mark text = 0 := by
  rw [closedLength, closedLines_open isOpen]
  rfl

theorem closedLength_closed (isLine : mark ∉ line) (text : List Letter) :
    closedLength mark (line ++ mark :: text) = line.length + 1 + closedLength mark text := by
  rw [closedLength, closedLines_closed isLine, List.map_cons, List.sum_cons]
  rfl

/-- The first line of a text with a mark. -/
theorem exists_firstLine (hasMark : mark ∈ text) :
    ∃ line rest, mark ∉ line ∧ text = line ++ mark :: rest := by
  induction text with
  | nil => cases hasMark
  | cons letter text ih =>
      by_cases isMark : letter = mark
      · exact ⟨[], text, List.not_mem_nil, by rw [isMark]; rfl⟩
      · obtain ⟨line, rest, isLine, rfl⟩ :=
          ih ((List.mem_cons.mp hasMark).resolve_left (Ne.symm isMark))
        refine ⟨letter :: line, rest, ?_, rfl⟩
        rw [List.mem_cons, not_or]
        exact ⟨Ne.symm isMark, isLine⟩

/-- Induction on the lines of a text. -/
@[elab_as_elim]
theorem line_induction {motive : List Letter → Prop}
    (isOpen : ∀ text, mark ∉ text → motive text)
    (closed : ∀ line text, mark ∉ line → motive text → motive (line ++ mark :: text))
    (text : List Letter) : motive text := by
  induction size : text.length using Nat.strongRecOn generalizing text with
  | _ size ih =>
      by_cases hasMark : mark ∈ text
      · obtain ⟨line, rest, isLine, rfl⟩ := exists_firstLine hasMark
        refine closed line rest isLine (ih rest.length ?_ rest rfl)
        rw [← size, List.length_append, List.length_cons]
        omega
      · exact isOpen text hasMark

theorem mark_not_mem_openLine (text : List Letter) : mark ∉ openLine mark text := by
  induction text using @line_induction _ _ mark with
  | isOpen text isOpen =>
      rw [openLine_open isOpen]
      exact isOpen
  | closed line text isLine ih =>
      rw [openLine_closed isLine]
      exact ih

theorem openLine_suffix (text : List Letter) : openLine mark text <:+ text := by
  induction text using @line_induction _ _ mark with
  | isOpen text isOpen => exact ⟨[], (List.nil_append _).trans (openLine_open isOpen)⟩
  | closed line text isLine ih =>
      rw [openLine_closed isLine]
      exact ih.trans ((List.suffix_cons mark text).trans (List.suffix_append line _))

theorem closedLines_append (first second : List Letter) : closedLines mark (first ++ second) =
    closedLines mark first ++ closedLines mark (openLine mark first ++ second) := by
  induction first using @line_induction _ _ mark with
  | isOpen first isOpen =>
      rw [closedLines_open isOpen, openLine_open isOpen]
      rfl
  | closed line first isLine ih =>
      rw [List.append_assoc, List.cons_append, closedLines_closed isLine,
        closedLines_closed isLine, openLine_closed isLine, ih]
      rfl

theorem closedLength_append (first second : List Letter) : closedLength mark (first ++ second) =
    closedLength mark first + closedLength mark (openLine mark first ++ second) := by
  rw [closedLength, closedLines_append, List.map_append, List.sum_append]
  rfl

/-- An open line in front of a text with a mark belongs to its first line. -/
theorem closedLength_open_append {first second : List Letter} (isOpen : mark ∉ first)
    (hasMark : mark ∈ second) :
    closedLength mark (first ++ second) = first.length + closedLength mark second := by
  obtain ⟨line, rest, isLine, rfl⟩ := exists_firstLine hasMark
  have isFirst : mark ∉ first ++ line := by
    rw [List.mem_append, not_or]
    exact ⟨isOpen, isLine⟩
  rw [← List.append_assoc, closedLength_closed isFirst, closedLength_closed isLine,
    List.length_append]
  omega

end Coursework.Lines
