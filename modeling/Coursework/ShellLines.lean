import Coursework.GrowingBuffers
import Coursework.ShellAliases
import Mathlib.Data.List.TakeWhile

/-!
# Lines of the shell and their words

`lsh_read_line` collects the characters up to a newline or the end of the input in a buffer that
grows by 1024, and `lsh_split_line` collects the pointers that `strtok` returns in an array that
grows by 64.  Both use the buffers of `Growing`, with counters of type `int`.

`strtok` cuts the line in place.  It writes a null character where a word ends and goes on behind
it, so a word that was returned is never touched again; behind the last word it returns `NULL`.
The words are those of `AliasShell.lshSplitLine`, with the same pointers.

An array of pointers has fewer elements than the line has characters, and its size in bytes is a
`size_t`, so the only limit is that of the line buffer: it cannot be enlarged to 2³¹ characters.
-/

namespace Coursework.ShellLines

open Growing
open AliasShell (delimiters)

/-- `INT_MAX`. -/
def intMax : Nat := 2147483647

/-- `LSH_RL_BUFSIZE`. -/
def lshRlBufsize : Nat := 1024

/-- `LSH_TOK_BUFSIZE`. -/
def lshTokBufsize : Nat := 64

/-- The null character. -/
abbrev nul : Char := Char.ofNat 0

/-- The loop of `lsh_read_line`, on what is left of the input. -/
def readLoop (buffer : Buffer Char) :
    List Char → Except Fault (List (Option Char) × List Char)
  | [] => do
      let cells ← finish buffer nul
      .ok (cells, [])
  | c :: input =>
      if c = '\n' then do
        let cells ← finish buffer nul
        .ok (cells, input)
      else do
        let buffer ← push lshRlBufsize intMax buffer c
        readLoop buffer input

/-- `lsh_read_line`: the line buffer and what is left of the input. -/
def lshReadLine (input : List Char) : Except Fault (List (Option Char) × List Char) :=
  readLoop (empty lshRlBufsize) input

/-- The number of characters of a string up to the first one that does not satisfy the predicate,
or to its end. -/
def span (predicate : Char → Bool) : List (Option Char) → Except Fault Nat
  | [] => .error .outside
  | none :: _ => .error .uninitialised
  | some c :: cells =>
      if c ≠ nul ∧ predicate c then do
        let length ← span predicate cells
        .ok (length + 1)
      else .ok 0

/-- `strtok` from the pointer that it saved: the word, the next saved pointer and the memory. -/
def strtok (memory : List (Option Char)) (saved : Nat) :
    Except Fault (Option Nat × Nat × List (Option Char)) := do
  let blank ← span (fun c => c ∈ delimiters) (memory.drop saved)
  let token := saved + blank
  if memory[token]? = some (some nul) then .ok (none, token, memory)
  else
    let length ← span (fun c => c ∉ delimiters) (memory.drop token)
    let stop := token + length
    if memory[stop]? = some (some nul) then .ok (some token, stop, memory)
    else .ok (some token, stop + 1, memory.set stop (some nul))

/-- The loop of `lsh_split_line`: the array and the memory.  Each round uses up a cell of the
line, so as many rounds as there are cells would lead out of it. -/
def splitLoop : Nat → List (Option Char) → Nat → Buffer (Option Nat) →
    Except Fault (List (Option (Option Nat)) × List (Option Char))
  | 0, _, _, _ => .error .outside
  | rounds + 1, memory, saved, tokens => do
      let (token, saved, memory) ← strtok memory saved
      match token with
      | none =>
          let cells ← finish tokens none
          .ok (cells, memory)
      | some token =>
          let tokens ← push lshTokBufsize intMax tokens (some token)
          splitLoop rounds memory saved tokens

/-- `lsh_split_line`, on the memory of the line. -/
def lshSplitLine (line : List (Option Char)) :
    Except Fault (List (Option (Option Nat)) × List (Option Char)) :=
  splitLoop (line.length + 1) line 0 (empty lshTokBufsize)

/-- The characters up to newline or end of file. -/
def lineOf (input : List Char) : List Char := input.takeWhile (· ≠ '\n')

/-- What is behind the newline. -/
def behindLine (input : List Char) : List Char := (input.dropWhile (· ≠ '\n')).drop 1

/-- The maximal runs of characters that are not delimiters. -/
def words (text : List Char) : List (List Char) :=
  (text.splitOnP (fun c => c ∈ delimiters)).filter (· ≠ [])

/-- The string at a pointer. -/
structure StringAt (memory : List (Option Char)) (pointer : Nat) (text : List Char) : Prop where
  nulFree : nul ∉ text
  content : StartsWith (memory.drop pointer) (text ++ [nul])

/-- The next line of the input is read and split: the buffer holds it as a string, and the array
holds pointers to its words, followed by `NULL`. -/
def ReadAndSplit (input : List Char) : Prop :=
  ∃ buffer tokens memory pointers,
    lshReadLine input = .ok (buffer, behindLine input) ∧
    StringAt buffer 0 (lineOf input) ∧
    lshSplitLine buffer = .ok (tokens, memory) ∧
    StartsWith tokens (pointers.map some ++ [none]) ∧
    List.Forall₂ (StringAt memory) pointers (words (lineOf input))

section Reading

theorem readLoop_eq (buffer : Buffer Char) (input : List Char) : readLoop buffer input =
    ((lineOf input).foldlM (push lshRlBufsize intMax) buffer).bind fun buffer =>
      (finish buffer nul).bind fun cells => .ok (cells, behindLine input) := by
  induction input generalizing buffer with
  | nil => rfl
  | cons c input ih =>
      rw [readLoop]
      by_cases newline : c = '\n'
      · subst newline
        rfl
      · have line : lineOf (c :: input) = c :: lineOf input :=
          List.takeWhile_cons_of_pos (decide_eq_true newline)
        have behind : behindLine (c :: input) = behindLine input := by
          rw [behindLine, List.dropWhile_cons, if_pos (decide_eq_true newline), behindLine]
        rw [if_neg newline, line, behind, List.foldlM_cons]
        cases push lshRlBufsize intMax buffer c with
        | error fault => rfl
        | ok pushed => exact ih pushed

theorem lt_intMax_iff (length : Nat) :
    sizeFor lshRlBufsize length ≤ intMax ↔ length < 2147482624 := by
  rw [sizeFor, lshRlBufsize, intMax]
  omega

theorem lshReadLine_ok {input : List Char} (short : (lineOf input).length < 2147482624) :
    ∃ buffer, lshReadLine input = .ok (buffer, behindLine input) ∧
      StartsWith buffer (lineOf input ++ [nul]) := by
  have positive : 0 < lshRlBufsize := by decide
  obtain ⟨filled, fills, holds⟩ := @Holds.pushAll_eq _ _ intMax _ _ holds_empty positive
    (lineOf input) (by
      rw [List.length_nil, Nat.zero_add]
      exact (lt_intMax_iff _).mpr short)
  obtain ⟨cells, finishes, -, content⟩ := holds.finish_eq positive nul
  refine ⟨cells, ?_, content⟩
  rw [lshReadLine, readLoop_eq, fills, Except.bind, finishes]
  rfl

theorem lshReadLine_overflow {input : List Char} (long : 2147482624 ≤ (lineOf input).length) :
    lshReadLine input = .error .overflow := by
  have above : intMax < sizeFor lshRlBufsize (lineOf input).length :=
    Nat.not_le.mp fun countable => Nat.not_lt.mpr long ((lt_intMax_iff _).mp countable)
  have overflows := @Holds.pushAll_overflow _ lshRlBufsize intMax _ _ holds_empty (by decide)
    (lineOf input) (by decide) (by rwa [List.length_nil, Nat.zero_add])
  rw [lshReadLine, readLoop_eq, overflows]
  rfl

end Reading

section Words

/-- A text by its first word. -/
theorem text_induction {motive : List Char → Prop} (nil : motive [])
    (blank : ∀ c text, c ∈ delimiters → motive text → motive (c :: text))
    (last : ∀ word, word ≠ [] → (∀ c ∈ word, c ∉ delimiters) → motive word)
    (word : ∀ word c text, word ≠ [] → (∀ c ∈ word, c ∉ delimiters) → c ∈ delimiters →
      motive text → motive (word ++ c :: text)) (text : List Char) : motive text := by
  -- The characters of the word that the text goes on with are kept apart.
  have behind : ∀ begun : List Char, (∀ c ∈ begun, c ∉ delimiters) → motive (begun ++ text) := by
    induction text with
    | nil =>
        intro begun solid
        rw [List.append_nil]
        by_cases empty : begun = []
        · exact empty ▸ nil
        · exact last begun empty solid
    | cons c text ih =>
        intro begun solid
        by_cases delimiter : c ∈ delimiters
        · have rest : motive text := ih [] fun _ none => absurd none List.not_mem_nil
          by_cases empty : begun = []
          · exact empty ▸ blank c text delimiter rest
          · exact word begun c text empty solid delimiter rest
        · rw [List.append_cons]
          apply ih
          intro d member
          rcases List.mem_append.mp member with before | isLast
          · exact solid d before
          · exact List.mem_singleton.mp isLast ▸ delimiter
  exact behind [] fun _ none => absurd none List.not_mem_nil

@[simp]
theorem words_nil : words [] = [] := rfl

theorem words_blank {c : Char} (delimiter : c ∈ delimiters) (text : List Char) :
    words (c :: text) = words text := by
  rw [words, List.splitOnP_cons_eq_if_splitOnPPrepend, if_pos (decide_eq_true delimiter)]
  rfl

theorem words_last {word : List Char} (nonempty : word ≠ [])
    (solid : ∀ c ∈ word, c ∉ delimiters) : words word = [word] := by
  rw [words, List.splitOnP_eq_singleton fun c member => decide_eq_false (solid c member),
    List.filter_cons, if_pos (decide_eq_true nonempty), List.filter_nil]

theorem words_word {word : List Char} {c : Char} (nonempty : word ≠ [])
    (solid : ∀ c ∈ word, c ∉ delimiters) (delimiter : c ∈ delimiters) (text : List Char) :
    words (word ++ c :: text) = word :: words text := by
  rw [words, List.splitOnP_append_cons_of_forall_mem
    (fun c member => decide_eq_false (solid c member)) c (decide_eq_true delimiter),
    List.filter_cons, if_pos (decide_eq_true nonempty), words]

/-- Words are separated by at least one character. -/
theorem length_words (text : List Char) : 2 * (words text).length ≤ text.length + 1 := by
  induction text using text_induction with
  | nil => decide
  | blank c text delimiter ih =>
      rw [words_blank delimiter, List.length_cons]
      omega
  | last word nonempty solid =>
      have positive := List.length_pos_iff.mpr nonempty
      rw [words_last nonempty solid, List.length_singleton]
      omega
  | word word c text nonempty solid delimiter ih =>
      have positive := List.length_pos_iff.mpr nonempty
      rw [words_word nonempty solid delimiter, List.length_cons, List.length_append,
        List.length_cons]
      omega

/-- Delimiters in front of a word are skipped. -/
theorem lshSplitLine_blank {c : Char} (delimiter : c ∈ delimiters) (pointer : Nat)
    (text : List Char) :
    AliasShell.lshSplitLine pointer (c :: text) = AliasShell.lshSplitLine (pointer + 1) text := by
  have character : c ≠ Char.ofNat 0 := by
    rintro rfl
    exact absurd delimiter (by decide)
  rw [AliasShell.lshSplitLine, if_neg character, if_pos delimiter]

/-- A word that ends with the text or in front of a delimiter. -/
theorem lshSplitLine_word {word : List Char} (nonempty : word ≠ [])
    (solid : ∀ c ∈ word, c ∉ delimiters) (nulFree : nul ∉ word) {behind : List Char}
    (ends : ∀ c ∈ behind.head?, c ∈ delimiters) (pointer : Nat) :
    AliasShell.lshSplitLine pointer (word ++ behind) =
      ⟨pointer, word⟩ :: AliasShell.lshSplitLine (pointer + word.length) behind := by
  induction word generalizing pointer with
  | nil => exact absurd rfl nonempty
  | cons c word ih =>
      have character : c ≠ Char.ofNat 0 :=
        fun isNul => nulFree (isNul ▸ List.mem_cons_self)
      rw [List.cons_append, AliasShell.lshSplitLine, if_neg character,
        if_neg (solid c List.mem_cons_self)]
      cases word with
      | nil =>
          -- The next word does not start at the next character.
          have apart : ∀ token ∈ AliasShell.lshSplitLine (pointer + 1) behind,
              token.pointer ≠ pointer + 1 := by
            intro token member
            cases behind with
            | nil => cases member
            | cons d behind =>
                rw [lshSplitLine_blank (ends d rfl)] at member
                have above := (AliasShell.lshSplitLine_pointer member).1
                omega
          rw [List.nil_append, List.length_singleton]
          cases found : AliasShell.lshSplitLine (pointer + 1) behind with
          | nil => rfl
          | cons token tokens =>
              rw [found] at apart
              exact if_neg (apart token List.mem_cons_self)
      | cons d word =>
          have rest := ih (List.cons_ne_nil _ _)
            (fun e member => solid e (List.mem_cons_of_mem _ member))
            (fun isNul => nulFree (List.mem_cons_of_mem _ isNul)) (pointer + 1)
          rw [rest]
          simp only [if_true, List.length_cons]
          rw [show pointer + 1 + (word.length + 1) = pointer + (word.length + 1 + 1) by omega]

/-- The words of a text are those of its tokens. -/
theorem map_text_lshSplitLine (text : List Char) (nulFree : nul ∉ text) (pointer : Nat) :
    (AliasShell.lshSplitLine pointer text).map (·.text) = words text := by
  induction text using text_induction generalizing pointer with
  | nil => rfl
  | blank c text delimiter ih =>
      rw [lshSplitLine_blank delimiter, words_blank delimiter]
      exact ih (fun isNul => nulFree (List.mem_cons_of_mem _ isNul)) _
  | last word nonempty solid =>
      have only := @lshSplitLine_word word nonempty solid nulFree []
        (fun _ none => absurd none (by simp)) pointer
      rw [List.append_nil] at only
      rw [only, words_last nonempty solid]
      rfl
  | word word c text nonempty solid delimiter ih =>
      rw [List.mem_append, not_or, List.mem_cons, not_or] at nulFree
      have starts : ∀ d ∈ (c :: text).head?, d ∈ delimiters := fun d isFirst =>
        Option.some.inj isFirst ▸ delimiter
      rw [lshSplitLine_word nonempty solid nulFree.1 starts, lshSplitLine_blank delimiter,
        words_word nonempty solid delimiter, List.map_cons, ih nulFree.2.2]

end Words

section Splitting

theorem span_eq {predicate : Char → Bool} {run : List Char}
    (satisfies : ∀ c ∈ run, c ≠ nul ∧ predicate c = true) {stop : Char}
    (stops : ¬(stop ≠ nul ∧ predicate stop = true)) (behind : List (Option Char)) :
    span predicate (run.map some ++ some stop :: behind) = .ok run.length := by
  induction run with
  | nil => exact if_neg stops
  | cons c run ih =>
      rw [List.map_cons, List.cons_append, span, if_pos (satisfies c List.mem_cons_self),
        ih fun d member => satisfies d (List.mem_cons_of_mem _ member)]
      rfl

/-- There is no word behind the last one. -/
theorem strtok_nul (front behind : List (Option Char)) :
    strtok (front ++ some nul :: behind) front.length =
      .ok (none, front.length, front ++ some nul :: behind) := by
  rw [strtok, List.drop_left]
  have here : (front ++ some nul :: behind)[front.length + 0]? = some (some nul) := by
    rw [Nat.add_zero, List.getElem?_append_right (Nat.le_refl _), Nat.sub_self]
    rfl
  exact if_pos here

/-- `strtok` skips a delimiter. -/
theorem strtok_blank {c : Char} (delimiter : c ∈ delimiters) (front behind : List (Option Char)) :
    strtok (front ++ some c :: behind) front.length =
      strtok (front ++ some c :: behind) (front.length + 1) := by
  have skipped : c ≠ nul ∧ decide (c ∈ delimiters) = true := by
    refine ⟨?_, decide_eq_true delimiter⟩
    rintro rfl
    exact absurd delimiter (by decide)
  have next : (front ++ some c :: behind).drop (front.length + 1) = behind := by
    rw [← List.drop_drop, List.drop_left]
    rfl
  rw [strtok, List.drop_left, strtok, next, span, if_pos skipped]
  cases span (fun c => decide (c ∈ delimiters)) behind with
  | error fault => rfl
  | ok blank =>
      simp only [bind, Except.bind]
      rw [← Nat.add_assoc, Nat.add_right_comm]

/-- `strtok` at a word: it is returned, and a delimiter behind it is overwritten. -/
theorem strtok_word {word : List Char} (nonempty : word ≠ [])
    (solid : ∀ c ∈ word, c ∉ delimiters) (nulFree : nul ∉ word) {stop : Char}
    (ends : stop = nul ∨ stop ∈ delimiters) (front behind : List (Option Char)) :
    strtok (front ++ (word.map some ++ some stop :: behind)) front.length =
      .ok (some front.length, front.length + word.length + (if stop = nul then 0 else 1),
        front ++ (word.map some ++ some nul :: behind)) := by
  obtain ⟨first, word, rfl⟩ := List.exists_cons_of_ne_nil nonempty
  have isFirst : first ≠ nul := fun isNul => nulFree (isNul ▸ List.mem_cons_self)
  have noBlank : span (fun c => decide (c ∈ delimiters))
      ((first :: word).map some ++ some stop :: behind) = .ok 0 := by
    rw [List.map_cons, List.cons_append, span, if_neg]
    intro blank
    exact solid first List.mem_cons_self (of_decide_eq_true blank.2)
  have length : span (fun c => decide (c ∉ delimiters))
      ((first :: word).map some ++ some stop :: behind) = .ok (first :: word).length := by
    apply span_eq
    · intro c member
      exact ⟨fun isNul => nulFree (isNul ▸ member), decide_eq_true (solid c member)⟩
    · rintro ⟨character, solidStop⟩
      rw [decide_eq_true_iff] at solidStop
      exact ends.elim character solidStop
  have atFirst : (front ++ ((first :: word).map some ++ some stop :: behind))[front.length]? =
      some (some first) := by
    rw [List.getElem?_append_right (Nat.le_refl _), Nat.sub_self]
    rfl
  have isWord : front.length + (first :: word).length =
      (front ++ (first :: word).map some).length := by
    rw [List.length_append, List.length_map]
  have atStop : (front ++ ((first :: word).map some ++ some stop :: behind))[
      front.length + (first :: word).length]? = some (some stop) := by
    rw [isWord, ← List.append_assoc, List.getElem?_append_right (Nat.le_refl _), Nat.sub_self]
    rfl
  simp only [strtok, List.drop_left, noBlank, bind, Except.bind, Nat.add_zero, atFirst, length,
    atStop, Option.some.injEq, isFirst, if_false]
  by_cases isNul : stop = nul
  · subst isNul
    simp only [if_true, Nat.add_zero]
  · simp only [isNul, if_false]
    rw [isWord, ← List.append_assoc, List.set_append_right _ _ (Nat.le_refl _), Nat.sub_self,
      List.append_assoc]
    rfl

theorem stringAt_front {word : List Char} (nulFree : nul ∉ word)
    (front behind : List (Option Char)) :
    StringAt (front ++ (word.map some ++ some nul :: behind)) front.length word where
  nulFree := nulFree
  content := by
    have cut : word.map some ++ some nul :: behind = (word ++ [nul]).map some ++ behind := by
      rw [List.map_append, List.append_assoc]
      rfl
    rw [StartsWith, List.drop_left, cut, List.take_left' (by rw [List.length_map])]

/-- A round of the loop at a word. -/
theorem splitLoop_word {word : List Char} (nonempty : word ≠ [])
    (solid : ∀ c ∈ word, c ∉ delimiters) (nulFree : nul ∉ word) {stop : Char}
    (ends : stop = nul ∨ stop ∈ delimiters) (front behind : List (Option Char)) (rounds : Nat)
    (buffer : Buffer (Option Nat)) :
    splitLoop (rounds + 1) (front ++ (word.map some ++ some stop :: behind)) front.length buffer =
      (push lshTokBufsize intMax buffer (some front.length)).bind fun buffer =>
        splitLoop rounds (front ++ (word.map some ++ some nul :: behind))
          (front.length + word.length + (if stop = nul then 0 else 1)) buffer := by
  rw [splitLoop, strtok_word nonempty solid nulFree ends]
  rfl

/-- The round behind the last word. -/
theorem splitLoop_nul (front behind : List (Option Char)) (rounds : Nat)
    (buffer : Buffer (Option Nat)) :
    splitLoop (rounds + 1) (front ++ some nul :: behind) front.length buffer =
      (finish buffer none).bind fun cells => .ok (cells, front ++ some nul :: behind) := by
  rw [splitLoop, strtok_nul]
  rfl

/-- The rounds of `lsh_split_line` on a text behind what was split before: what is in front stays
as it is, the words stand in the memory that is left, and the array is the only thing that can
fail. -/
theorem splitLoop_eq (text : List Char) (nulFree : nul ∉ text) (front behind : List (Option Char))
    {rounds : Nat} (enough : text.length < rounds) : ∃ after : List (Option Char),
      (∀ token ∈ AliasShell.lshSplitLine front.length text,
        StringAt (front ++ after) token.pointer token.text) ∧
      ∀ buffer, splitLoop rounds (front ++ (text.map some ++ some nul :: behind)) front.length
          buffer =
        (((AliasShell.lshSplitLine front.length text).map fun token => some token.pointer).foldlM
          (push lshTokBufsize intMax) buffer).bind fun buffer =>
            (finish buffer none).bind fun cells => .ok (cells, front ++ after) := by
  obtain ⟨rounds, rfl⟩ := Nat.exists_eq_add_one.mpr (Nat.zero_lt_of_lt enough)
  induction text using text_induction generalizing front rounds with
  | nil =>
      refine ⟨some nul :: behind, fun token none => absurd none List.not_mem_nil, ?_⟩
      exact fun buffer => splitLoop_nul front behind rounds buffer
  | blank c text delimiter ih =>
      have character : nul ∉ text := fun isNul => nulFree (List.mem_cons_of_mem _ isNul)
      have left : text.length < rounds + 1 := by
        rw [List.length_cons] at enough
        omega
      obtain ⟨after, strings, runs⟩ := ih character (front ++ [some c]) rounds left
      rw [List.length_append, List.length_singleton] at strings runs
      rw [lshSplitLine_blank delimiter]
      refine ⟨some c :: after, ?_, fun buffer => ?_⟩
      · rwa [List.append_cons]
      · rw [List.append_cons front (some c) after, ← runs, splitLoop, splitLoop, List.map_cons,
          List.cons_append, strtok_blank delimiter, List.append_assoc]
        rfl
  | last word nonempty solid =>
      have atEnd : AliasShell.lshSplitLine front.length word = [⟨front.length, word⟩] := by
        have only := @lshSplitLine_word word nonempty solid nulFree []
          (fun _ none => absurd none (by simp)) front.length
        rwa [List.append_nil] at only
      have positive := List.length_pos_iff.mpr nonempty
      obtain ⟨rounds, rfl⟩ := Nat.exists_eq_add_one.mpr (show 0 < rounds by omega)
      refine ⟨word.map some ++ some nul :: behind, ?_, fun buffer => ?_⟩
      · intro token member
        rw [atEnd, List.mem_singleton] at member
        subst member
        exact stringAt_front nulFree front behind
      · have behindWord : front.length + word.length = (front ++ word.map some).length := by
          rw [List.length_append, List.length_map]
        rw [splitLoop_word nonempty solid nulFree (.inl rfl), atEnd, if_pos rfl, behindWord,
          ← List.append_assoc]
        simp only [Nat.add_zero, splitLoop_nul]
        rw [List.map_singleton, List.foldlM_cons]
        cases push lshTokBufsize intMax buffer (some front.length) <;> rfl
  | word word c text nonempty solid delimiter ih =>
      rw [List.mem_append, not_or, List.mem_cons, not_or] at nulFree
      obtain ⟨freeWord, character, freeText⟩ := nulFree
      rw [List.length_append, List.length_cons] at enough
      have positive := List.length_pos_iff.mpr nonempty
      obtain ⟨rounds, rfl⟩ := Nat.exists_eq_add_one.mpr (show 0 < rounds by omega)
      have starts : ∀ d ∈ (c :: text).head?, d ∈ delimiters := fun d isFirst =>
        Option.some.inj isFirst ▸ delimiter
      obtain ⟨after, strings, runs⟩ := ih freeText (front ++ (word.map some ++ [some nul])) rounds
        (by omega)
      have cut : front ++ (word.map some ++ [some nul]) ++ after =
          front ++ (word.map some ++ some nul :: after) := by
        simp only [List.append_assoc, List.singleton_append]
      have length : (front ++ (word.map some ++ [some nul])).length =
          front.length + word.length + 1 := by
        simp only [List.length_append, List.length_map, List.length_singleton, Nat.add_assoc]
      rw [length] at strings runs
      rw [cut] at strings
      rw [lshSplitLine_word nonempty solid freeWord starts, lshSplitLine_blank delimiter]
      refine ⟨word.map some ++ some nul :: after, ?_, fun buffer => ?_⟩
      · intro token member
        rcases List.mem_cons.mp member with rfl | member
        · exact stringAt_front freeWord front after
        · exact strings token member
      · rw [List.map_append, List.map_cons, List.append_assoc, List.cons_append,
          splitLoop_word nonempty solid freeWord (.inr delimiter), if_neg (Ne.symm character),
          List.map_cons, List.foldlM_cons]
        cases push lshTokBufsize intMax buffer (some front.length) with
        | error fault => rfl
        | ok pushed =>
            have rest := runs pushed
            rw [cut] at rest
            simp only [List.append_assoc, List.singleton_append] at rest
            exact rest

/-- `lsh_split_line` on a string: it fails only if the array cannot be enlarged. -/
theorem lshSplitLine_eq {buffer : List (Option Char)} {line : List Char}
    (string : StringAt buffer 0 line) : ∃ memory : List (Option Char),
      (∀ token ∈ AliasShell.lshSplitLine 0 line, StringAt memory token.pointer token.text) ∧
      lshSplitLine buffer =
        (((AliasShell.lshSplitLine 0 line).map fun token => some token.pointer).foldlM
          (push lshTokBufsize intMax) (empty lshTokBufsize)).bind fun tokens =>
            (finish tokens none).bind fun cells => .ok (cells, memory) := by
  have content := string.content
  have fits := content.length_le
  rw [StartsWith, List.drop_zero, List.map_append] at content
  rw [List.length_append, List.length_singleton, List.length_drop] at fits
  have cut : buffer = line.map some ++ some nul :: buffer.drop (line ++ [nul]).length := by
    conv_lhs => rw [← List.take_append_drop (line ++ [nul]).length buffer, content]
    rw [List.append_assoc]
    rfl
  obtain ⟨memory, strings, runs⟩ := @splitLoop_eq line string.nulFree []
    (buffer.drop (line ++ [nul]).length) (buffer.length + 1) (by omega)
  refine ⟨memory, strings, ?_⟩
  have run := runs (empty lshTokBufsize)
  rw [List.nil_append, ← cut] at run
  exact run

theorem length_lshSplitLine {line : List Char} (nulFree : nul ∉ line) :
    ((AliasShell.lshSplitLine 0 line).map fun token => some token.pointer).length =
      (words line).length := by
  rw [← map_text_lshSplitLine line nulFree 0, List.length_map, List.length_map]

/-- The pointers to the words of a line with a countable number of words. -/
theorem lshSplitLine_ok {buffer : List (Option Char)} {line : List Char}
    (string : StringAt buffer 0 line)
    (countable : sizeFor lshTokBufsize (words line).length ≤ intMax) :
    ∃ tokens memory pointers, lshSplitLine buffer = .ok (tokens, memory) ∧
      StartsWith tokens (pointers.map some ++ [none]) ∧
      List.Forall₂ (StringAt memory) pointers (words line) := by
  obtain ⟨memory, strings, runs⟩ := lshSplitLine_eq string
  have positive : 0 < lshTokBufsize := by decide
  obtain ⟨filled, fills, holds⟩ := @Holds.pushAll_eq _ _ intMax _ _ holds_empty positive
    ((AliasShell.lshSplitLine 0 line).map fun token => some token.pointer) (by
      rwa [List.length_nil, Nat.zero_add, length_lshSplitLine string.nulFree])
  obtain ⟨cells, finishes, -, content⟩ := holds.finish_eq positive none
  refine ⟨cells, memory, (AliasShell.lshSplitLine 0 line).map (·.pointer), ?_, ?_, ?_⟩
  · rw [runs, fills, Except.bind, finishes]
    rfl
  · rwa [List.map_map]
  · rw [← map_text_lshSplitLine line string.nulFree 0, List.forall₂_map_left_iff,
      List.forall₂_map_right_iff, List.forall₂_same]
    exact strings

/-- The words of a line that `lsh_read_line` can return are countable. -/
theorem countable_words {line : List Char} (short : line.length < 2147482624) :
    sizeFor lshTokBufsize (words line).length ≤ intMax := by
  have atMost := length_words line
  rw [sizeFor, lshTokBufsize, intMax]
  omega

end Splitting

section Lines

/-- A line is read and split right exactly if its buffer can be counted. -/
theorem readAndSplit_iff (input : List Char) (nulFree : nul ∉ lineOf input) :
    ReadAndSplit input ↔ (lineOf input).length < 2147482624 := by
  constructor
  · rintro ⟨buffer, -, -, -, reads, -⟩
    by_contra long
    rw [lshReadLine_overflow (Nat.not_lt.mp long)] at reads
    cases reads
  · intro short
    obtain ⟨buffer, reads, content⟩ := lshReadLine_ok short
    have string : StringAt buffer 0 (lineOf input) := ⟨nulFree, by rwa [List.drop_zero]⟩
    obtain ⟨tokens, memory, pointers, splits, array, strings⟩ :=
      lshSplitLine_ok string (countable_words short)
    exact ⟨buffer, tokens, memory, pointers, reads, string, splits, array, strings⟩

theorem lineOf_replicate (n : Nat) : lineOf (List.replicate n 'a') = List.replicate n 'a' := by
  apply List.takeWhile_eq_self_iff.mpr
  intro c member
  rw [List.eq_of_mem_replicate member]
  decide

/-- A line that fills its buffer. -/
theorem readAndSplit_full : ReadAndSplit (List.replicate 1024 'a') := by
  have nulFree : nul ∉ lineOf (List.replicate 1024 'a') := by
    rw [lineOf_replicate]
    intro isNul
    exact absurd (List.eq_of_mem_replicate isNul) (by decide)
  apply (readAndSplit_iff _ nulFree).mpr
  rw [lineOf_replicate, List.length_replicate]
  decide

/-- No line is read if the size of its buffer would be above `INT_MAX`. -/
theorem line_not_counted : ¬ReadAndSplit (List.replicate 2147482624 'a') := by
  rintro ⟨buffer, -, -, -, reads, -⟩
  have long : 2147482624 ≤ (lineOf (List.replicate 2147482624 'a')).length := by
    rw [lineOf_replicate, List.length_replicate]
  rw [lshReadLine_overflow long] at reads
  cases reads

end Lines

end Coursework.ShellLines
