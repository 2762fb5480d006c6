import Coursework.GrammarTables

/-!
# Grammar files

A line of a grammar file lists a terminal, or has the form `A->` with right sides
after it that `'|'` separates.  Reading a file in this format fills the tables
with its terminals, its nonterminals and their right sides.
-/

namespace Coursework.Grammar

/-- The right sides for `lhs` in a line. -/
def lineSides (lhs : Char) : List Char → List (List Char)
  | a :: '-' :: '>' :: rhs => if a = lhs ∧ a.isUpper = true then rhs.splitOn '|' else []
  | _ => []

/-- The right sides for `lhs` in a file. -/
def rightSides (lines : List (List Char)) (lhs : Char) : List (List Char) :=
  lines.flatMap (lineSides lhs)

/-- The terminal that a line lists. -/
def lineTerminal : List Char → Option Char
  | c :: _ => if c.isUpper then none else some c
  | [] => none

def terminals (lines : List (List Char)) : List Char :=
  lines.filterMap lineTerminal

/-- A line with the right sides of a nonterminal. -/
def IsProduction (line : List Char) : Prop :=
  ∃ lhs rhs, line = lhs :: '-' :: '>' :: rhs ∧ lhs.isUpper = true ∧ rhs ≠ []

/-- A line that lists a terminal. -/
def IsTerminalLine (line : List Char) : Prop :=
  ∃ c rest, line = c :: rest ∧ c.isUpper = false

/-- A grammar file: right sides are `e`, or consist of listed terminals and of
nonterminals with right sides. -/
structure FileFormat (lines : List (List Char)) : Prop where
  forms : ∀ line ∈ lines, IsProduction line ∨ IsTerminalLine line
  sides : ∀ lhs, ∀ side ∈ rightSides lines lhs, side = ['e'] ∨
    (side ≠ [] ∧ ∀ c ∈ side, c ≠ 'e' ∧ (c ∈ terminals lines ∨ rightSides lines c ≠ []))
  nonempty : ∃ lhs, rightSides lines lhs ≠ []

/-- What the tables hold of the lines that have been read. -/
structure Tables.Holds (tables : Tables) (lines : List (List Char)) : Prop where
  terminal : tables.terminal = terminals lines
  nonTerminal : ∀ lhs, lhs ∈ tables.nonTerminal ↔ rightSides lines lhs ≠ []
  production : ∀ lhs, Tables.alternatives (tables.production lhs) = rightSides lines lhs

theorem isUpper_of_sides {lines : List (List Char)} {lhs : Char}
    (some : rightSides lines lhs ≠ []) : lhs.isUpper = true := by
  obtain ⟨side, member⟩ := List.exists_mem_of_ne_nil _ some
  obtain ⟨line, -, inLine⟩ := List.mem_flatMap.mp member
  unfold lineSides at inLine
  split at inLine
  · split at inLine
    · next isLhs => exact isLhs.1 ▸ isLhs.2
    · simp at inLine
  · simp at inLine

theorem isUpper_of_terminal {lines : List (List Char)} {c : Char}
    (member : c ∈ terminals lines) : c.isUpper = false := by
  obtain ⟨line, -, isTerminal⟩ := List.mem_filterMap.mp member
  cases line with
  | nil => cases isTerminal
  | cons d rest =>
      simp only [lineTerminal] at isTerminal
      split at isTerminal
      · cases isTerminal
      · next notUpper =>
          cases isTerminal
          simpa using notUpper

theorem lineSides_terminalLine {line : List Char} (isTerminal : IsTerminalLine line)
    (lhs : Char) : lineSides lhs line = [] := by
  obtain ⟨c, rest, rfl, notUpper⟩ := isTerminal
  unfold lineSides
  split
  · next a rhs same =>
      cases same
      rw [if_neg (by simp [notUpper])]
  · rfl

namespace Tables

variable {tables : Tables} {lines : List (List Char)}

theorem holds_empty : Tables.empty.Holds [] :=
  ⟨rfl, fun lhs => by simp [Tables.empty, rightSides], fun lhs => rfl⟩

theorem rightSides_snoc (lines : List (List Char)) (line : List Char) (lhs : Char) :
    rightSides (lines ++ [line]) lhs = rightSides lines lhs ++ lineSides lhs line := by
  simp [rightSides]

theorem isAlpha_eq (c : Char) : c.isAlpha = (c.isUpper || c.isLower) := rfl

theorem Holds.readTerminal {line : List Char} (holds : tables.Holds lines)
    (isTerminal : IsTerminalLine line) :
    ∃ after, tables.readLine line = some after ∧ after.Holds (lines ++ [line]) := by
  have noSides := lineSides_terminalLine isTerminal
  obtain ⟨c, rest, rfl, notUpper⟩ := isTerminal
  refine ⟨{ tables with terminal := tables.terminal ++ [c] }, ?_, ?_, ?_, ?_⟩
  · simp [readLine, notUpper, isAlpha_eq]
  · simp [terminals, holds.terminal, lineTerminal, notUpper]
  · intro lhs
    rw [rightSides_snoc, noSides, List.append_nil]
    exact holds.nonTerminal lhs
  · intro lhs
    rw [rightSides_snoc, noSides, List.append_nil]
    exact holds.production lhs

/-- The right sides of a line are added to the string of its nonterminal. -/
theorem alternatives_added {text rhs : List Char} (nonempty : rhs ≠ []) :
    alternatives (if text = [] then rhs else text ++ '|' :: rhs) =
      alternatives text ++ rhs.splitOn '|' := by
  by_cases isEmpty : text = []
  · rw [if_pos isEmpty, isEmpty, alternatives, if_neg nonempty]
    rfl
  · rw [if_neg isEmpty, alternatives, if_neg (by simp), alternatives, if_neg isEmpty,
      List.splitOn_append_cons_self]

theorem Holds.addProduction {lhs : Char} {rhs : List Char} (holds : tables.Holds lines)
    (isUpper : lhs.isUpper = true) (nonempty : rhs ≠ []) {nonTerminal : List Char}
    {seeds : List Item}
    (listed : ∀ other, other ∈ nonTerminal ↔ other = lhs ∨ other ∈ tables.nonTerminal) :
    ∃ after, ({ tables with nonTerminal := nonTerminal, seeds := seeds } : Tables).addProduction
        lhs (lhs :: '-' :: '>' :: rhs) = some after ∧
      after.Holds (lines ++ [lhs :: '-' :: '>' :: rhs]) := by
  have here : lineSides lhs (lhs :: '-' :: '>' :: rhs) = rhs.splitOn '|' := by
    simp [lineSides, isUpper]
  have elsewhere : ∀ other, other ≠ lhs → lineSides other (lhs :: '-' :: '>' :: rhs) = [] := by
    intro other distinct
    simp [lineSides, Ne.symm distinct]
  refine ⟨_, by rw [Tables.addProduction, if_neg (by simp)], ?_, ?_, ?_⟩
  · simp [terminals, holds.terminal, lineTerminal, isUpper]
  · intro other
    rw [rightSides_snoc, listed]
    by_cases same : other = lhs
    · subst same
      simp [here, List.splitOn_ne_nil]
    · rw [elsewhere other same, List.append_nil, ← holds.nonTerminal]
      simp [same]
  · intro other
    rw [rightSides_snoc]
    by_cases same : other = lhs
    · subst same
      rw [here, ← holds.production, ← alternatives_added nonempty]
      simp
    · rw [elsewhere other same, List.append_nil, ← holds.production]
      simp [Function.update_of_ne same]

theorem Holds.readProduction {line : List Char} (holds : tables.Holds lines)
    (isProduction : IsProduction line) :
    ∃ after, tables.readLine line = some after ∧ after.Holds (lines ++ [line]) := by
  obtain ⟨lhs, rhs, rfl, isUpper, nonempty⟩ := isProduction
  have notLower : lhs.isLower = false := by
    have upper : lhs.val.toNat ≤ 90 := by
      have bounds : 'A'.val ≤ lhs.val ∧ lhs.val ≤ 'Z'.val := of_decide_eq_true isUpper
      exact UInt32.le_iff_toNat_le.mp bounds.2
    have below : ¬ 'a'.val ≤ lhs.val := by
      rw [UInt32.le_iff_toNat_le]
      have value : 'a'.val.toNat = 97 := rfl
      omega
    have bounds : lhs.isLower = (decide ('a'.val ≤ lhs.val) && decide (lhs.val ≤ 'z'.val)) := rfl
    rw [bounds, decide_eq_false below, Bool.false_and]
  have isAlpha : lhs.isAlpha = true := by simp [isAlpha_eq, isUpper]
  unfold Tables.readLine
  simp only [List.getD_cons_zero, notLower, isAlpha, isUpper, Bool.not_true, Bool.or_self,
    Bool.false_eq_true, if_false, if_true]
  by_cases isFirst : tables.nonTerminal = []
  · rw [if_pos isFirst]
    apply holds.addProduction isUpper nonempty
    simp [isFirst]
  · rw [if_neg isFirst]
    by_cases listed : lhs ∈ tables.nonTerminal
    · rw [if_pos listed]
      apply holds.addProduction isUpper nonempty
      intro other
      constructor
      · exact Or.inr
      · rintro (rfl | member)
        · exact listed
        · exact member
    · rw [if_neg listed]
      apply holds.addProduction isUpper nonempty
      simp [or_comm]

theorem read_holds_of_forms (forms : ∀ line ∈ lines, IsProduction line ∨ IsTerminalLine line) :
    ∃ tables, Tables.read lines = some tables ∧ tables.Holds lines := by
  induction lines using List.reverseRecOn with
  | nil => exact ⟨empty, rfl, holds_empty⟩
  | append_singleton done line ih =>
      obtain ⟨tables, isRead, holds⟩ :=
        ih fun line member => forms line (List.mem_append_left _ member)
      have next : ∃ after, tables.readLine line = some after ∧ after.Holds (done ++ [line]) := by
        rcases forms line (by simp) with isProduction | isTerminal
        · exact holds.readProduction isProduction
        · exact holds.readTerminal isTerminal
      obtain ⟨after, isAfter, holdsAfter⟩ := next
      refine ⟨after, ?_, holdsAfter⟩
      unfold Tables.read at isRead ⊢
      simp [List.foldlM_append, isRead, isAfter]

end Tables

end Coursework.Grammar
