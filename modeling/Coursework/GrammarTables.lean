import Mathlib.Data.Finset.Basic
import Mathlib.Data.List.Basic
import Mathlib.Data.List.Induction
import Mathlib.Tactic.Common

/-!
# The tables of a grammar

The global variables of `FFLR.cpp` and `Firstfollow.cpp`, and the loop of `main`
of `FFLR.cpp` that fills them from a grammar file.  A file is the list of its
lines that end in a newline; a last line without one is never processed.  The
right sides of a nonterminal are kept in one string in which `'|'` stands
between them.

Reading a string at an index gives the null character at its length and is not
defined beyond.
-/

namespace Coursework.Grammar

/-- A quantifier over a list of characters is decided over the list. -/
scoped instance (priority := 1100) decidableForallMem (chars : List Char) (p : Char → Prop)
    [DecidablePred p] : Decidable (∀ c ∈ chars, p c) :=
  List.decidableBAll p chars

/-- How a computation stops without a result. -/
inductive Stop
  /-- not finished yet -/
  | fuel
  /-- an index past the terminating position of a string -/
  | range
  deriving DecidableEq

/-- `expr[j]`. -/
def charAt (expr : List Char) (j : Nat) : Except Stop Char :=
  if j ≤ expr.length then .ok (expr.getD j '\x00') else .error .range

/-- An item: a left side, and a right side with a dot. -/
abbrev Item := Char × List Char

instance : LawfulBEq Item := inferInstance

structure Tables where
  terminal : List Char
  nonTerminal : List Char
  production : Char → List Char
  /-- `AugGrammar` -/
  augmented : Char → List (List Char)
  /-- the items of `lr0items[0]` -/
  seeds : List Item

namespace Tables

def empty : Tables where
  terminal := []
  nonTerminal := []
  production := fun _ => []
  augmented := fun _ => []
  seeds := []

def isTerminal (tables : Tables) (input : Char) : Bool :=
  input == 'e' || input ∈ tables.terminal

/-- The right sides that a string of productions stands for. -/
def alternatives (expr : List Char) : List (List Char) :=
  if expr = [] then [] else expr.splitOn '|'

/-- `substr(pos + delim.length())` for the first `"->"`; without one the position
wraps around to 1. -/
def afterArrow : List Char → Option (List Char)
  | '-' :: '>' :: rest => some rest
  | _ :: rest => afterArrow rest
  | [] => none

def rightSide (line : List Char) : List Char :=
  (afterArrow line).getD (line.drop 1)

/-- The part of the loop body for a nonterminal that is listed already.  A line that
is too short for `substr(3)` stops the program. -/
def addProduction (tables : Tables) (val : Char) (line : List Char) : Option Tables :=
  if line.length < 3 then none
  else
    let rhs := rightSide line
    let text := line.drop 3
    some
      { tables with
        production := Function.update tables.production val
          (if tables.production val = [] then text else tables.production val ++ '|' :: text)
        augmented := Function.update tables.augmented val (tables.augmented val ++ [rhs])
        seeds :=
          if tables.isTerminal (rhs.getD 0 '\x00') then tables.seeds
          else tables.seeds ++ [(val, '.' :: rhs)] }

/-- The body of the loop of `main` for a line.  The first nonterminal is listed, and
then its line is processed again. -/
def readLine (tables : Tables) (line : List Char) : Option Tables :=
  let val := line.getD 0 '\x00'
  let tables :=
    if val.isLower || !val.isAlpha then { tables with terminal := tables.terminal ++ [val] }
    else tables
  if val.isUpper then
    if tables.nonTerminal = [] then
      { tables with
        nonTerminal := [val]
        seeds := tables.seeds ++ [('\'', ['.', val])] }.addProduction val line
    else if val ∈ tables.nonTerminal then tables.addProduction val line
    else { tables with nonTerminal := tables.nonTerminal ++ [val] }.addProduction val line
  else some tables

/-- The loop of `main` over the lines of a file. -/
def read (lines : List (List Char)) : Option Tables :=
  lines.foldlM readLine empty

end Tables

/-- The nonterminals are upper case letters, and only they have right sides. -/
structure Tables.Listed (tables : Tables) : Prop where
  upper : ∀ lhs ∈ tables.nonTerminal, lhs.isUpper = true
  sides : ∀ lhs, tables.augmented lhs ≠ [] → lhs ∈ tables.nonTerminal

theorem Tables.Listed.addProduction {tables after : Tables} {val : Char} {line : List Char}
    (listed : tables.Listed) (member : val ∈ tables.nonTerminal)
    (isAfter : tables.addProduction val line = some after) : after.Listed := by
  unfold Tables.addProduction at isAfter
  split at isAfter
  · cases isAfter
  · cases isAfter
    refine ⟨listed.upper, ?_⟩
    intro lhs hasSides
    by_cases same : lhs = val
    · exact same ▸ member
    · simp only [Function.update_of_ne same] at hasSides
      exact listed.sides lhs hasSides

theorem Tables.Listed.readLine {tables after : Tables} {line : List Char}
    (listed : tables.Listed) (isAfter : tables.readLine line = some after) : after.Listed := by
  set known := if (line.getD 0 '\x00').isLower || !(line.getD 0 '\x00').isAlpha then
    { tables with terminal := tables.terminal ++ [line.getD 0 '\x00'] } else tables with isKnown
  have ofKnown : known.Listed := by
    rw [isKnown]
    split
    · exact ⟨listed.upper, listed.sides⟩
    · exact listed
  simp only [Tables.readLine, ← isKnown] at isAfter
  split at isAfter
  · next isUpper =>
      split at isAfter
      · next isFirst =>
          apply addProduction _ (List.mem_singleton_self _) isAfter
          refine ⟨by simpa using isUpper, ?_⟩
          intro lhs hasSides
          have member := ofKnown.sides lhs hasSides
          rw [isFirst] at member
          cases member
      · split at isAfter
        · next member => exact ofKnown.addProduction member isAfter
        · apply addProduction _ (by simp) isAfter
          refine ⟨?_, fun lhs hasSides => List.mem_append_left _ (ofKnown.sides lhs hasSides)⟩
          intro lhs member
          rcases List.mem_append.mp member with old | new
          · exact ofKnown.upper lhs old
          · rw [List.mem_singleton.mp new]
            exact isUpper
  · exact Option.some.inj isAfter ▸ ofKnown

theorem Tables.listed_read {lines : List (List Char)} {tables : Tables}
    (isRead : Tables.read lines = some tables) : tables.Listed := by
  induction lines using List.reverseRecOn generalizing tables with
  | nil =>
      cases isRead
      exact ⟨by simp [Tables.empty], by simp [Tables.empty]⟩
  | append_singleton done line ih =>
      rw [Tables.read, List.foldlM_append] at isRead
      obtain ⟨before, isBefore, isLast⟩ := Option.bind_eq_some_iff.mp isRead
      simp only [List.foldlM_cons, List.foldlM_nil] at isLast
      obtain ⟨after, isAfter, isTables⟩ := Option.bind_eq_some_iff.mp isLast
      cases isTables
      exact (ih isBefore).readLine isAfter

end Coursework.Grammar
