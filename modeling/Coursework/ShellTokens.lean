import Coursework.ShellGrammar
import Mathlib.Data.List.TakeWhile

/-!
# The tokens of a line

The tokens that `gettoken` finds one after the other, with pointers for the words.
They are the only tokens that a line spells, and `peek` tells the code of the next
one.
-/

namespace Coursework.Shell

variable {s rest : List Char} {c : Char}

/-- A quantifier over a list of characters is decided over the list. -/
scoped instance (priority := 1100) decidableForallMem (chars : List Char) (p : Char → Prop)
    [DecidablePred p] : Decidable (∀ c ∈ chars, p c) :=
  List.decidableBAll p chars

/-! ## White space -/

theorem length_skip_le (s : List Char) : (skip s).length ≤ s.length :=
  List.length_dropWhile_le _ s

theorem not_mem_of_skip (isCons : skip s = c :: rest) : c ∉ whitespace := by
  have notSpace := List.head?_dropWhile_not (fun c => decide (c ∈ whitespace)) s
  rw [skip] at isCons
  rw [isCons] at notSpace
  simpa using notSpace

theorem skip_of_not_mem (notSpace : c ∉ whitespace) (rest : List Char) :
    skip (c :: rest) = c :: rest := by
  simp [skip, notSpace]

theorem skip_skip (s : List Char) : skip (skip s) = skip s := by
  cases isSkipped : skip s with
  | nil => rfl
  | cons c rest => exact skip_of_not_mem (not_mem_of_skip isSkipped) rest

theorem skip_append {blank : List Char} (isBlank : Blank blank) (s : List Char) :
    skip (blank ++ s) = skip s := by
  induction blank with
  | nil => rfl
  | cons c blank ih =>
      have isSpace : c ∈ whitespace := isBlank c (by simp)
      have rest := ih fun d member => isBlank d (List.mem_cons_of_mem c member)
      rw [List.cons_append, skip, List.dropWhile_cons_of_pos (by simpa using isSpace)]
      exact rest

theorem skip_eq_nil_iff : skip s = [] ↔ Blank s := by
  rw [skip, List.dropWhile_eq_nil_iff]
  simp [Blank]

theorem skip_split (s : List Char) : ∃ blank, Blank blank ∧ s = blank ++ skip s := by
  refine ⟨s.takeWhile (· ∈ whitespace), ?_, (List.takeWhile_append_dropWhile).symm⟩
  intro c member
  simpa using List.mem_takeWhile_imp member

/-! ## One token -/

theorem gettoken_skip (s : List Char) : gettoken (skip s) = gettoken s := by
  simp only [gettoken, skip_skip]

theorem gettoken_nil (isEnd : skip s = []) : gettoken s = ⟨'\x00', [], [], []⟩ := by
  simp only [gettoken, isEnd]
  rfl

theorem tokenAt_symbol (isSymbol : c ∈ symbols) (single : c = '>' → rest.head? ≠ some '>') :
    tokenAt (c :: rest) = (c, rest) := by
  unfold tokenAt
  split
  · next isNil => cases isNil
  · next more isCons =>
      cases isCons
      exact (single rfl rfl).elim
  · next isCons =>
      cases isCons
      rw [if_pos isSymbol]

/-- A word ends before the next character that is not in a word. -/
theorem tokenAt_word {text : List Char} (nonempty : text ≠ [])
    (isText : ∀ c ∈ text, isWordChar c = true)
    (ends : ∀ c, rest.head? = some c → isWordChar c = false) :
    tokenAt (text ++ rest) = ('a', rest) := by
  obtain ⟨c, text, rfl⟩ := List.exists_cons_of_ne_nil nonempty
  have isFirst := isText c (by simp)
  have notSymbol : c ∉ symbols := by
    intro isSymbol
    simp [isWordChar, isSymbol] at isFirst
  have dropped : ((c :: text) ++ rest).dropWhile isWordChar = rest := by
    rw [List.dropWhile_append_of_pos isText]
    cases rest with
    | nil => rfl
    | cons d rest => rw [List.dropWhile_cons_of_neg (by simp [ends d rfl])]
  unfold tokenAt
  split
  · next isNil => cases isNil
  · next more isCons =>
      obtain ⟨rfl, -⟩ := List.cons.inj isCons
      exact (notSymbol (by decide)).elim
  · next isCons =>
      rw [List.cons_append] at isCons
      cases isCons
      rw [if_neg notSymbol]
      exact congrArg (Prod.mk 'a') dropped

/-- What the next token is. -/
theorem gettoken_cases (isCons : skip s = c :: rest) :
    (c ∈ symbols ∧ (c = '>' → rest.head? ≠ some '>') ∧
      gettoken s = ⟨c, c :: rest, rest, skip rest⟩) ∨
    (∃ more, c = '>' ∧ rest = '>' :: more ∧
      gettoken s = ⟨'+', '>' :: '>' :: more, more, skip more⟩) ∨
    (isWordChar c = true ∧ ∃ text more, c :: rest = text ++ more ∧ text ≠ [] ∧
      (∀ c ∈ text, isWordChar c = true) ∧
      (∀ c, more.head? = some c → isWordChar c = false) ∧
      gettoken s = ⟨'a', text ++ more, more, skip more⟩) := by
  have notSpace := not_mem_of_skip isCons
  by_cases isSymbol : c ∈ symbols
  · by_cases double : c = '>' ∧ rest.head? = some '>'
    · obtain ⟨rfl, isNext⟩ := double
      obtain ⟨more, rfl⟩ := List.head?_eq_some_iff.mp isNext
      exact .inr (.inl ⟨more, rfl, rfl, by simp only [gettoken, isCons]; rfl⟩)
    · have single : c = '>' → rest.head? ≠ some '>' := fun isMore isNext => double ⟨isMore, isNext⟩
      refine .inl ⟨isSymbol, single, ?_⟩
      simp only [gettoken, isCons, tokenAt_symbol isSymbol single]
  · have isFirst : isWordChar c = true := by simp [isWordChar, notSpace, isSymbol]
    have isText : ∀ d ∈ (c :: rest).takeWhile isWordChar, isWordChar d = true :=
      fun d member => List.mem_takeWhile_imp member
    have nonempty : (c :: rest).takeWhile isWordChar ≠ [] := by
      rw [List.takeWhile_cons_of_pos isFirst]
      simp
    have ends : ∀ d, ((c :: rest).dropWhile isWordChar).head? = some d → isWordChar d = false := by
      intro d isHead
      have notWord := List.head?_dropWhile_not isWordChar (c :: rest)
      rw [isHead] at notWord
      simpa using notWord
    have whole : c :: rest =
        (c :: rest).takeWhile isWordChar ++ (c :: rest).dropWhile isWordChar :=
      (List.takeWhile_append_dropWhile).symm
    refine .inr (.inr ⟨isFirst, _, _, whole, nonempty, isText, ends, ?_⟩)
    have isToken := tokenAt_word nonempty isText ends
    rw [← whole] at isToken ⊢
    simp only [gettoken, isCons, isToken]

theorem length_gettoken_lt (more : skip s ≠ []) : (gettoken s).s.length < s.length := by
  obtain ⟨c, rest, isCons⟩ := List.exists_cons_of_ne_nil more
  have shorter := length_skip_le s
  rw [isCons, List.length_cons] at shorter
  rcases gettoken_cases isCons with ⟨-, -, isToken⟩ | ⟨next, -, rfl, isToken⟩ |
    ⟨-, text, next, isWhole, nonempty, -, -, isToken⟩
  · have := length_skip_le rest
    simp only [isToken]
    omega
  · have := length_skip_le next
    simp only [isToken]
    simp only [List.length_cons] at shorter
    omega
  · have := length_skip_le next
    have positive := List.length_pos_of_ne_nil nonempty
    have length := congrArg List.length isWhole
    rw [List.length_cons, List.length_append] at length
    simp only [isToken]
    omega

/-! ## All tokens -/

/-- The code of a token. -/
def Token.code {W : Type} : Token W → Char
  | .word _ => 'a'
  | .symbol ret => ret

/-- The code of the first token, or the null character. -/
def nextCode {W : Type} (tokens : List (Token W)) : Char :=
  (tokens.head?.map Token.code).getD '\x00'

/-- The token for what `gettoken` returns. -/
def Lexeme.token (lexeme : Lexeme) : Token Extent :=
  if lexeme.ret = 'a' then .word (lexeme.q, lexeme.eq) else .symbol lexeme.ret

/-- The tokens of a line from a cursor on. -/
def tokens (s : List Char) : List (Token Extent) :=
  if more : skip s ≠ [] then
    have := length_gettoken_lt more
    (gettoken s).token :: tokens (gettoken s).s
  else []
termination_by s.length

theorem tokens_nil (isEnd : skip s = []) : tokens s = [] := by
  rw [tokens, dif_neg (by simp [isEnd])]

theorem tokens_cons (more : skip s ≠ []) :
    tokens s = (gettoken s).token :: tokens (gettoken s).s := by
  rw [tokens, dif_pos more]

theorem tokens_skip (s : List Char) : tokens (skip s) = tokens s := by
  by_cases isEnd : skip s = []
  · rw [tokens_nil isEnd, tokens_nil (by rw [skip_skip, isEnd])]
  · rw [tokens_cons isEnd, tokens_cons (by rwa [skip_skip]), gettoken_skip]

/-- The text between two pointers. -/
def Extent.text (extent : Extent) : List Char :=
  extent.1.take (extent.1.length - extent.2.length)

theorem text_append (text rest : List Char) : Extent.text (text ++ rest, rest) = text := by
  simp [Extent.text]

theorem tokens_symbol (isSymbol : c ∈ symbols) (single : c = '>' → rest.head? ≠ some '>')
    (isCons : skip s = c :: rest) : tokens s = .symbol c :: tokens rest := by
  have notA : c ≠ 'a' := by
    rintro rfl
    exact absurd isSymbol (by decide)
  rw [tokens_cons (by simp [isCons])]
  simp only [gettoken, isCons, tokenAt_symbol isSymbol single, tokens_skip, Lexeme.token,
    if_neg notA]

theorem tokens_append (isCons : skip s = '>' :: '>' :: rest) :
    tokens s = .symbol '+' :: tokens rest := by
  rw [tokens_cons (by simp [isCons])]
  simp only [gettoken, isCons, tokenAt, tokens_skip, Lexeme.token]
  rfl

theorem tokens_word {text : List Char} (nonempty : text ≠ [])
    (isText : ∀ c ∈ text, isWordChar c = true)
    (ends : ∀ c, rest.head? = some c → isWordChar c = false) (isCons : skip s = text ++ rest) :
    tokens s = .word (text ++ rest, rest) :: tokens rest := by
  rw [tokens_cons (by simp [isCons, nonempty])]
  simp only [gettoken, isCons, tokenAt_word nonempty isText ends, tokens_skip, Lexeme.token,
    if_true]

/-- A line spells its tokens. -/
theorem spells_tokens (s : List Char) : Spells ((tokens s).map (Token.map Extent.text)) s := by
  induction length : s.length using Nat.strongRecOn generalizing s with
  | _ length ih =>
      obtain ⟨blank, isBlank, isWhole⟩ := skip_split s
      cases isSkipped : skip s with
      | nil =>
          rw [tokens_nil isSkipped]
          exact .blank (skip_eq_nil_iff.mp isSkipped)
      | cons c rest =>
          rw [isSkipped] at isWhole
          have total := congrArg List.length isWhole
          rw [List.length_append, List.length_cons] at total
          rcases gettoken_cases isSkipped with ⟨isSymbol, single, -⟩ | ⟨more, rfl, rfl, -⟩ |
            ⟨-, text, more, isText, nonempty, isWord, ends, -⟩
          · rw [tokens_symbol isSymbol single isSkipped]
            rw [isWhole]
            exact .symbol isBlank isSymbol single (ih _ (by omega) rest rfl)
          · rw [tokens_append isSkipped]
            rw [isWhole]
            rw [List.length_cons] at total
            exact .append isBlank (ih _ (by omega) more rfl)
          · rw [isText] at isSkipped isWhole
            have parts := congrArg List.length isText
            rw [List.length_cons, List.length_append] at parts
            have positive := List.length_pos_of_ne_nil nonempty
            rw [tokens_word nonempty isWord ends isSkipped]
            rw [isWhole]
            rw [List.map_cons, Token.map, text_append]
            exact .word isBlank nonempty isWord ends (ih _ (by omega) more rfl)

/-- It spells no others. -/
theorem tokens_of_spells {texts : List (Token (List Char))} (spells : Spells texts s) :
    texts = (tokens s).map (Token.map Extent.text) := by
  have notSpace : ∀ c ∈ symbols, c ∉ whitespace := by decide
  induction spells with
  | blank isBlank => rw [tokens_nil (skip_eq_nil_iff.mpr isBlank)]; rfl
  | @symbol blank rest c texts isBlank isSymbol single spells ih =>
      have isCons : skip (blank ++ c :: rest) = c :: rest := by
        rw [skip_append isBlank, skip_of_not_mem (notSpace c isSymbol)]
      rw [tokens_symbol isSymbol single isCons, ih]
      rfl
  | @append blank rest texts isBlank spells ih =>
      have isCons : skip (blank ++ '>' :: '>' :: rest) = '>' :: '>' :: rest := by
        rw [skip_append isBlank, skip_of_not_mem (by decide)]
      rw [tokens_append isCons, ih]
      rfl
  | @word blank text rest texts isBlank nonempty isText ends spells ih =>
      have isCons : skip (blank ++ (text ++ rest)) = text ++ rest := by
        obtain ⟨c, text, rfl⟩ := List.exists_cons_of_ne_nil nonempty
        have isFirst := isText c (by simp)
        rw [skip_append isBlank, List.cons_append, skip_of_not_mem]
        intro isSpace
        simp [isWordChar, isSpace] at isFirst
      rw [tokens_word nonempty isText ends isCons, ih, List.map_cons, Token.map, text_append]

/-! ## The next token -/

theorem code_token (lexeme : Lexeme) : lexeme.token.code = lexeme.ret := by
  unfold Lexeme.token
  split
  · next isWord => exact isWord.symm
  · rfl

theorem ret_eq_nextCode (s : List Char) : (gettoken s).ret = nextCode (tokens s) := by
  by_cases isEnd : skip s = []
  · rw [gettoken_nil isEnd, tokens_nil isEnd]
    rfl
  · rw [tokens_cons isEnd]
    exact (code_token _).symm

/-- Taking the first token. -/
theorem gettoken_of_tokens {token : Token Extent} {more : List (Token Extent)}
    (isCons : tokens s = token :: more) :
    (gettoken s).token = token ∧ tokens (gettoken s).s = more ∧
      (gettoken s).s.length < s.length := by
  have notEnd : skip s ≠ [] := by
    intro isEnd
    rw [tokens_nil isEnd] at isCons
    cases isCons
  rw [tokens_cons notEnd] at isCons
  obtain ⟨isToken, isMore⟩ := List.cons.inj isCons
  exact ⟨isToken, isMore, length_gettoken_lt notEnd⟩

theorem word_of_token {lexeme : Lexeme} {word : Extent} (isWord : lexeme.token = .word word) :
    lexeme.ret = 'a' ∧ (lexeme.q, lexeme.eq) = word := by
  unfold Lexeme.token at isWord
  split at isWord
  · next isCode =>
      cases isWord
      exact ⟨isCode, rfl⟩
  · cases isWord

theorem exists_of_nextCode {ts : List (Token Extent)} {code : Char} (isNext : nextCode ts = code)
    (notEnd : code ≠ '\x00') : ∃ token more, ts = token :: more ∧ token.code = code := by
  cases ts with
  | nil => exact (notEnd isNext.symm).elim
  | cons token more => exact ⟨token, more, rfl, isNext⟩

theorem nextCode_of_skip (isCons : skip s = c :: rest) :
    (c ∈ symbols ∧ nextCode (tokens s) = c) ∨ (c = '>' ∧ nextCode (tokens s) = '+') ∨
      (c ∉ symbols ∧ nextCode (tokens s) = 'a') := by
  rcases gettoken_cases isCons with ⟨isSymbol, single, -⟩ | ⟨more, rfl, rfl, -⟩ |
    ⟨isFirst, text, more, isText, nonempty, isWord, ends, -⟩
  · rw [tokens_symbol isSymbol single isCons]
    exact .inl ⟨isSymbol, rfl⟩
  · rw [tokens_append isCons]
    exact .inr (.inl ⟨rfl, rfl⟩)
  · rw [isText] at isCons
    rw [tokens_word nonempty isWord ends isCons]
    refine .inr (.inr ⟨?_, rfl⟩)
    intro isSymbol
    simp [isWordChar, isSymbol] at isFirst

theorem skip_of_ret (isNull : (gettoken s).ret = '\x00') : skip s = [] := by
  cases isSkipped : skip s with
  | nil => rfl
  | cons c rest =>
      rw [ret_eq_nextCode] at isNull
      rcases nextCode_of_skip isSkipped with ⟨isSymbol, isCode⟩ | ⟨-, isCode⟩ | ⟨-, isCode⟩
      · rw [← isCode, isNull] at isSymbol
        exact absurd isSymbol (by decide)
      · rw [isNull] at isCode
        exact absurd isCode (by decide)
      · rw [isNull] at isCode
        exact absurd isCode (by decide)

/-- `peek` for tokens of one character. -/
theorem peek_iff {toks : List Char} (plain : ∀ c ∈ toks, c ∈ symbols ∧ c ≠ '>') :
    peek (skip s) toks = true ↔ nextCode (tokens s) ∈ toks := by
  cases isSkipped : skip s with
  | nil =>
      rw [tokens_nil isSkipped]
      have notNull : '\x00' ∉ toks := fun member => absurd (plain _ member).1 (by decide)
      simp [peek, nextCode, notNull]
  | cons c rest =>
      have notPlus : '+' ∉ toks := fun member => absurd (plain _ member).1 (by decide)
      have notA : 'a' ∉ toks := fun member => absurd (plain _ member).1 (by decide)
      rcases nextCode_of_skip isSkipped with ⟨-, isCode⟩ | ⟨rfl, isCode⟩ | ⟨notSymbol, isCode⟩
      · simp [peek, isCode]
      · have notMore : '>' ∉ toks := fun member => (plain _ member).2 rfl
        simp [peek, isCode, notMore, notPlus]
      · have notIn : c ∉ toks := fun member => notSymbol (plain _ member).1
        simp [peek, isCode, notIn, notA]

theorem peek_redirection :
    peek (skip s) ['<', '>'] = true ↔ nextCode (tokens s) ∈ redirectionCodes := by
  cases isSkipped : skip s with
  | nil =>
      rw [tokens_nil isSkipped]
      decide
  | cons c rest =>
      rcases nextCode_of_skip isSkipped with ⟨isSymbol, isCode⟩ | ⟨rfl, isCode⟩ |
        ⟨notSymbol, isCode⟩
      · have notPlus : c ≠ '+' := by
          rintro rfl
          exact absurd isSymbol (by decide)
        simp [peek, isCode, redirectionCodes, notPlus]
      · simp [peek, isCode, redirectionCodes]
      · have notLess : c ≠ '<' := by
          rintro rfl
          exact notSymbol (by decide)
        have notMore : c ≠ '>' := by
          rintro rfl
          exact notSymbol (by decide)
        simp [peek, isCode, redirectionCodes, notLess, notMore]

end Coursework.Shell
