import Mathlib.Tactic.Common

/-!
# Patterns of letters

A pattern is a list of items: one letter of a class, any number of letters of a class, or
the end of the text.  What a pattern denotes depends on what follows the word, since an
item asks for the end of the text.  A pattern matches at a place if it denotes a word that
starts there, and both this and the search for a place are decided letter by letter.
-/

namespace Coursework

variable {Letter : Type*}

inductive PatternItem (Letter : Type*) where
  | one (accepts : Letter → Prop)
  | many (accepts : Letter → Prop)
  | atEnd

/-- The words that a pattern denotes in front of some text. -/
def Denotes : List (PatternItem Letter) → List Letter → List Letter → Prop
  | [], word, _ => word = []
  | .one accepts :: items, word, rest =>
      ∃ letter word', word = letter :: word' ∧ accepts letter ∧ Denotes items word' rest
  | .many accepts :: items, word, rest =>
      ∃ run word', word = run ++ word' ∧ (∀ letter ∈ run, accepts letter) ∧
        Denotes items word' rest
  | .atEnd :: items, word, rest => word = [] ∧ rest = [] ∧ Denotes items word rest

/-- A pattern denotes a word at the start of the text. -/
def MatchesAt (items : List (PatternItem Letter)) (text : List Letter) : Prop :=
  ∃ word rest, text = word ++ rest ∧ Denotes items word rest

/-- A pattern denotes a word somewhere in the text. -/
def Occurs (items : List (PatternItem Letter)) (text : List Letter) : Prop :=
  ∃ before word rest, text = before ++ word ++ rest ∧ Denotes items word rest

variable {items : List (PatternItem Letter)} {text : List Letter} {accepts : Letter → Prop}

theorem matchesAt_nil (text : List Letter) : MatchesAt [] text :=
  ⟨[], text, rfl, rfl⟩

theorem matchesAt_one : MatchesAt (.one accepts :: items) text ↔
    ∃ letter rest, text = letter :: rest ∧ accepts letter ∧ MatchesAt items rest := by
  constructor
  · rintro ⟨-, rest, rfl, letter, word, rfl, isAccepted, denotes⟩
    exact ⟨letter, word ++ rest, rfl, isAccepted, word, rest, rfl, denotes⟩
  · rintro ⟨letter, -, rfl, isAccepted, word, rest, rfl, denotes⟩
    exact ⟨letter :: word, rest, rfl, letter, word, rfl, isAccepted, denotes⟩

theorem matchesAt_end : MatchesAt [.atEnd] text ↔ text = [] := by
  constructor
  · rintro ⟨-, -, rfl, rfl, rfl, -⟩
    rfl
  · rintro rfl
    exact ⟨[], [], rfl, rfl, rfl, rfl⟩

/-- A run of letters is empty, or starts with one letter. -/
theorem matchesAt_many : MatchesAt (.many accepts :: items) text ↔
    MatchesAt items text ∨
      ∃ letter rest, text = letter :: rest ∧ accepts letter ∧
        MatchesAt (.many accepts :: items) rest := by
  constructor
  · rintro ⟨-, rest, rfl, run, word, rfl, all, denotes⟩
    cases run with
    | nil => exact Or.inl ⟨word, rest, rfl, denotes⟩
    | cons letter run =>
        refine Or.inr ⟨letter, run ++ word ++ rest, rfl, all letter List.mem_cons_self, ?_⟩
        exact ⟨run ++ word, rest, rfl, run, word, rfl,
          fun other member => all other (List.mem_cons_of_mem _ member), denotes⟩
  · rintro (⟨word, rest, rfl, denotes⟩ | ⟨letter, -, rfl, isAccepted, -, rest, rfl, run, word,
      rfl, all, denotes⟩)
    · exact ⟨word, rest, rfl, [], word, rfl, by simp, denotes⟩
    · refine ⟨letter :: run ++ word, rest, rfl, letter :: run, word, rfl, ?_, denotes⟩
      intro other member
      rcases List.mem_cons.mp member with rfl | inRun
      · exact isAccepted
      · exact all other inRun

/-- A pattern occurs at the start of the text, or behind its first letter. -/
theorem occurs_iff : Occurs items text ↔
    MatchesAt items text ∨ ∃ letter rest, text = letter :: rest ∧ Occurs items rest := by
  constructor
  · rintro ⟨before, word, rest, rfl, denotes⟩
    cases before with
    | nil => exact Or.inl ⟨word, rest, rfl, denotes⟩
    | cons letter before =>
        exact Or.inr ⟨letter, before ++ word ++ rest, rfl, before, word, rest, rfl, denotes⟩
  · rintro (⟨word, rest, rfl, denotes⟩ | ⟨letter, -, rfl, before, word, rest, rfl, denotes⟩)
    · exact ⟨[], word, rest, rfl, denotes⟩
    · exact ⟨letter :: before, word, rest, rfl, denotes⟩

end Coursework
