import Coursework.ShellParsing

/-!
# The parser follows derivations

Where the tokens of a line are those of a derivation and the next token may follow,
every `peek` of the parser gives the answer that the derivation needs.
-/

namespace Coursework.Shell

/-- The codes that may follow. -/
def follow : Category → List Char
  | .exec => ['|', '&', ';', ')', '\x00']
  | .pipe => ['&', ';', ')', '\x00']
  | .line => [')', '\x00']

/-- A call returns a tree and leaves tokens. -/
def Returns (result : Except Failure (Cmd Extent × List Char)) (s : List Char)
    (cmd : Cmd Extent) (left : List (Token Extent)) : Prop :=
  ∃ rest, result = .ok (cmd, rest) ∧ tokens rest = left ∧ rest.length ≤ s.length

variable {s : List Char} {left : List (Token Extent)} {fuel : Nat}

theorem peek_true {toks : List Char} (plain : ∀ c ∈ toks, c ∈ symbols ∧ c ≠ '>')
    (isNext : nextCode (tokens s) ∈ toks) : peek (skip s) toks = true :=
  (peek_iff plain).mpr isNext

theorem peek_false {toks : List Char} (plain : ∀ c ∈ toks, c ∈ symbols ∧ c ≠ '>')
    (isNext : nextCode (tokens s) ∉ toks) : ¬ peek (skip s) toks = true :=
  fun found => isNext ((peek_iff plain).mp found)

theorem parseredirs_complete {redirections : List (Redirection Extent)} {cmd : Cmd Extent}
    (coded : Coded redirections)
    (isTokens : tokens s = redirections.flatMap Redirection.tokens ++ left)
    (follows : nextCode left ∉ redirectionCodes) (enough : s.length < fuel) :
    Returns (parseredirs fuel cmd s) s (wrap cmd redirections) left := by
  obtain ⟨fuel, rfl⟩ : ∃ less, fuel = less + 1 := ⟨fuel - 1, by omega⟩
  induction redirections generalizing cmd s fuel with
  | nil =>
      rw [List.flatMap_nil, List.nil_append] at isTokens
      have notFound : ¬ peek (skip s) ['<', '>'] = true := by
        rw [peek_redirection, isTokens]
        exact follows
      rw [parseredirs, if_neg notFound]
      exact ⟨skip s, rfl, by rw [tokens_skip, isTokens], length_skip_le s⟩
  | cons change redirections ih =>
      rw [Coded, List.forall_mem_cons] at coded
      have isCons : tokens s = .symbol change.tok :: .word change.file ::
          (redirections.flatMap Redirection.tokens ++ left) := by
        rw [isTokens]
        rfl
      have found : peek (skip s) ['<', '>'] = true := by
        rw [peek_redirection, isCons]
        exact coded.1
      obtain ⟨-, isMore, shorter⟩ := gettoken_of_tokens isCons
      obtain ⟨isFile, isRest, shorterStill⟩ := gettoken_of_tokens isMore
      obtain ⟨isWord, isExtent⟩ := word_of_token isFile
      have isRet : (gettoken s).ret = change.tok := by
        rw [ret_eq_nextCode, isCons]
        rfl
      have rest : Returns (parseredirs fuel (redirect cmd change.tok change.file)
          (gettoken (gettoken s).s).s) (gettoken (gettoken s).s).s
          (wrap (redirect cmd change.tok change.file) redirections) left := by
        obtain ⟨fuel, rfl⟩ : ∃ less, fuel = less + 1 := ⟨fuel - 1, by omega⟩
        exact ih coded.2 isRest fuel (by omega)
      obtain ⟨last, isOk, isLeft, length⟩ := rest
      refine ⟨last, ?_, isLeft, by omega⟩
      rw [parseredirs, if_pos found]
      simp only [gettoken_skip, isWord, isExtent, isRet, ne_eq, not_true_eq_false, if_false]
      exact isOk

theorem parsebacks_complete {n : Nat} {cmd : Cmd Extent}
    (isTokens : tokens s = List.replicate n (.symbol '&') ++ left)
    (follows : nextCode left ≠ '&') (enough : s.length < fuel) :
    Returns (parsebacks fuel cmd s) s (backs n cmd) left := by
  obtain ⟨fuel, rfl⟩ : ∃ less, fuel = less + 1 := ⟨fuel - 1, by omega⟩
  induction n generalizing cmd s fuel with
  | zero =>
      rw [List.replicate_zero, List.nil_append] at isTokens
      rw [parsebacks, if_neg (peek_false (by decide) (by simpa [isTokens] using follows))]
      exact ⟨skip s, rfl, by rw [tokens_skip, isTokens], length_skip_le s⟩
  | succ n ih =>
      have isCons : tokens s = .symbol '&' :: (List.replicate n (.symbol '&') ++ left) := by
        rw [isTokens]
        rfl
      obtain ⟨-, isMore, shorter⟩ := gettoken_of_tokens isCons
      obtain ⟨last, isOk, isLeft, length⟩ : Returns (parsebacks fuel (.back cmd) (gettoken s).s)
          (gettoken s).s (backs n (.back cmd)) left := by
        obtain ⟨fuel, rfl⟩ : ∃ less, fuel = less + 1 := ⟨fuel - 1, by omega⟩
        exact ih isMore fuel (by omega)
      refine ⟨last, ?_, isLeft, by omega⟩
      rw [parsebacks, if_pos (peek_true (by decide) (by rw [isCons]; exact List.mem_singleton_self _)),
        gettoken_skip]
      exact isOk

/-- Redirections, and then a word or the end. -/
theorem split_parts {W : Type} (parts : List (Part W)) :
    ∃ (redirections : List (Redirection W)) (rest : List (Part W)),
      parts = redirections.map Part.redirection ++ rest ∧
      (rest = [] ∨ ∃ text more, rest = .word text :: more) := by
  induction parts with
  | nil => exact ⟨[], [], rfl, .inl rfl⟩
  | cons part parts ih =>
      cases part with
      | word text => exact ⟨[], .word text :: parts, rfl, .inr ⟨text, parts, rfl⟩⟩
      | redirection change =>
          obtain ⟨redirections, rest, rfl, starts⟩ := ih
          exact ⟨change :: redirections, rest, rfl, starts⟩

theorem nextCode_parts {rest : List (Part Extent)}
    (starts : rest = [] ∨ ∃ text more, rest = .word text :: more)
    (follows : nextCode left ∈ follow .exec) :
    nextCode (rest.flatMap Part.tokens ++ left) ∈ 'a' :: follow .exec := by
  rcases starts with rfl | ⟨text, more, rfl⟩
  · exact List.mem_cons_of_mem _ follows
  · exact List.mem_cons_self

theorem parseargs_complete {parts : List (Part Extent)} {argc : Nat} {ret : Cmd Extent}
    (starts : parts = [] ∨ ∃ text more, parts = .word text :: more)
    (coded : Coded (parts.filterMap Part.redirection?))
    (few : argc + (parts.filterMap Part.word?).length ≤ MAXARGS - 1)
    (isTokens : tokens s = parts.flatMap Part.tokens ++ left)
    (follows : nextCode left ∈ follow .exec) (enough : s.length + 1 < fuel) :
    Returns (parseargs fuel argc ret s) s (parts.foldl Cmd.addPart ret) left := by
  induction size : parts.length using Nat.strongRecOn generalizing parts argc ret s fuel with
  | _ size ih =>
      obtain ⟨fuel, rfl⟩ : ∃ less, fuel = less + 1 := ⟨fuel - 1, by omega⟩
      rcases starts with rfl | ⟨text, more, rfl⟩
      · rw [List.flatMap_nil, List.nil_append] at isTokens
        by_cases isStop : nextCode left ∈ ['|', ')', '&', ';']
        · rw [parseargs, if_pos (peek_true (by decide) (by rw [isTokens]; exact isStop))]
          exact ⟨skip s, rfl, by rw [tokens_skip, isTokens], length_skip_le s⟩
        · have isNull : nextCode left = '\x00' := by
            simp only [follow, List.mem_cons, List.not_mem_nil, or_false] at follows isStop
            tauto
          have isRet : (gettoken s).ret = '\x00' := by rw [ret_eq_nextCode, isTokens, isNull]
          have isEnd := skip_of_ret isRet
          rw [parseargs, if_neg (peek_false (by decide) (by rw [isTokens]; exact isStop))]
          simp only [gettoken_skip, isRet, if_true]
          refine ⟨_, rfl, ?_, ?_⟩
          · rw [gettoken_nil isEnd, ← isTokens, tokens_nil isEnd]
            exact tokens_nil rfl
          · rw [gettoken_nil isEnd]
            exact Nat.zero_le _
      · obtain ⟨redirections, rest, rfl, restStarts⟩ := split_parts more
        have isCons : tokens s = .word text :: (redirections.flatMap Redirection.tokens ++
            (rest.flatMap Part.tokens ++ left)) := by
          rw [isTokens, List.flatMap_cons, List.flatMap_append, tokens_of_map]
          simp [Part.tokens]
        obtain ⟨isToken, isMore, shorter⟩ := gettoken_of_tokens isCons
        obtain ⟨isWord, isExtent⟩ := word_of_token isToken
        simp only [List.filterMap_cons, Part.redirection?, Part.word?, List.filterMap_append,
          redirections_of_map, words_of_map, List.nil_append, List.length_cons] at coded few
        have codedBoth := List.forall_mem_append.mp coded
        have nextRest := nextCode_parts restStarts follows
        obtain ⟨middle, isRedirs, isMiddle, shorterYet⟩ : Returns
            (parseredirs fuel (ret.addArg text) (gettoken s).s) (gettoken s).s
            (wrap (ret.addArg text) redirections) (rest.flatMap Part.tokens ++ left) := by
          apply parseredirs_complete codedBoth.1 isMore _ (by omega)
          intro isCode
          simp only [follow, redirectionCodes, List.mem_cons, List.not_mem_nil, or_false]
            at nextRest isCode
          rcases isCode with isCode | isCode | isCode <;> rw [isCode] at nextRest <;>
            exact absurd nextRest (by decide)
        obtain ⟨last, isArgs, isLeft, length⟩ : Returns
            (parseargs fuel (argc + 1) (wrap (ret.addArg text) redirections) middle) middle
            (rest.foldl Cmd.addPart (wrap (ret.addArg text) redirections)) left := by
          apply ih rest.length _ restStarts codedBoth.2 (by omega) isMiddle (by omega) rfl
          rw [← size]
          simp only [List.length_cons, List.length_append]
          omega
        refine ⟨last, ?_, isLeft, by omega⟩
        have notStop : nextCode (tokens s) ∉ ['|', ')', '&', ';'] := by
          have isA : nextCode (tokens s) = 'a' := by rw [isCons]; rfl
          rw [isA]
          decide
        have room : ¬ MAXARGS ≤ argc + 1 := by
          simp only [MAXARGS] at few ⊢
          omega
        rw [parseargs, if_neg (peek_false (by decide) notStop)]
        simp only [gettoken_skip, isWord, isExtent, if_neg room, ne_eq, not_true_eq_false, if_false,
          isRedirs]
        rw [if_neg (by decide), isArgs, List.foldl_cons, List.foldl_append, foldl_redirections]
        rfl

/-- The parser follows the derivation. -/
theorem parse_complete {category : Category} {ts : List (Token Extent)} {cmd : Cmd Extent}
    (derives : Derives category ts cmd) (isTokens : tokens s = ts ++ left)
    (follows : nextCode left ∈ follow category)
    (enough : enoughFuel category s.length ≤ fuel) :
    Returns (parse category fuel s) s cmd left := by
  induction derives generalizing s left fuel with
  | @line ts cmd n derives ih =>
      simp only [enoughFuel] at enough
      obtain ⟨fuel, rfl⟩ : ∃ less, fuel = less + 1 := ⟨fuel - 1, by omega⟩
      rw [List.append_assoc] at isTokens
      have notBack : nextCode left ≠ '&' := by
        intro isBack
        rw [isBack] at follows
        exact absurd follows (by decide)
      have pipeFollows : nextCode (List.replicate n (.symbol '&') ++ left) ∈ follow .pipe := by
        cases n with
        | zero => exact List.mem_cons_of_mem _ (List.mem_cons_of_mem _ follows)
        | succ n => exact List.mem_cons_self
      obtain ⟨rest, isPipe, isRest, shorter⟩ :=
        ih isTokens pipeFollows (show enoughFuel .pipe s.length ≤ fuel by simp [enoughFuel]; omega)
      obtain ⟨last, isBacks, isLast, shorterYet⟩ : Returns (parsebacks fuel cmd rest) rest
          (backs n cmd) left := parsebacks_complete isRest notBack (by omega)
      have notList : nextCode (tokens last) ∉ [';'] := by
        rw [isLast]
        intro isList
        rw [List.mem_singleton.mp isList] at follows
        exact absurd follows (by decide)
      refine ⟨skip last, ?_, by rw [tokens_skip, isLast], ?_⟩
      · simp only [parse] at isPipe ⊢
        rw [parseline]
        simp only [isPipe, isBacks]
        rw [if_neg (peek_false (by decide) notList)]
      · have := length_skip_le last
        omega
  | @list ts more cmd right n derives derivesRight ih ihRight =>
      simp only [enoughFuel] at enough
      obtain ⟨fuel, rfl⟩ : ∃ less, fuel = less + 1 := ⟨fuel - 1, by omega⟩
      rw [List.append_assoc, List.append_assoc] at isTokens
      have pipeFollows : nextCode (List.replicate n (.symbol '&') ++ (.symbol ';' :: more ++ left)) ∈
          follow .pipe := by
        cases n with
        | zero => exact List.mem_cons_of_mem _ List.mem_cons_self
        | succ n => exact List.mem_cons_self
      obtain ⟨rest, isPipe, isRest, shorter⟩ :=
        ih isTokens pipeFollows (show enoughFuel .pipe s.length ≤ fuel by simp [enoughFuel]; omega)
      obtain ⟨middle, isBacks, isMiddle, shorterYet⟩ : Returns (parsebacks fuel cmd rest) rest
          (backs n cmd) (.symbol ';' :: more ++ left) :=
        parsebacks_complete isRest (show ';' ≠ '&' by decide) (by omega)
      obtain ⟨-, isMore, shorterStill⟩ := gettoken_of_tokens isMiddle
      obtain ⟨last, isRight, isLast, length⟩ := ihRight isMore follows
        (show enoughFuel .line (gettoken middle).s.length ≤ fuel by simp [enoughFuel]; omega)
      refine ⟨last, ?_, isLast, by omega⟩
      simp only [parse] at isPipe isRight ⊢
      rw [parseline]
      simp only [isPipe, isBacks]
      rw [if_pos (peek_true (by decide) (by rw [isMiddle]; exact List.mem_singleton_self _)),
        gettoken_skip]
      simp only [isRight]
  | @single ts cmd derives ih =>
      simp only [enoughFuel] at enough
      obtain ⟨fuel, rfl⟩ : ∃ less, fuel = less + 1 := ⟨fuel - 1, by omega⟩
      obtain ⟨rest, isExec, isRest, shorter⟩ := ih isTokens (List.mem_cons_of_mem _ follows)
        (show enoughFuel .exec s.length ≤ fuel by simp [enoughFuel]; omega)
      have notPipe : nextCode (tokens rest) ∉ ['|'] := by
        rw [isRest]
        intro isPipe
        rw [List.mem_singleton.mp isPipe] at follows
        exact absurd follows (by decide)
      refine ⟨skip rest, ?_, by rw [tokens_skip, isRest], (length_skip_le rest).trans shorter⟩
      simp only [parse] at isExec ⊢
      rw [parsepipe]
      simp only [isExec]
      rw [if_neg (peek_false (by decide) notPipe)]
  | @pipe ts more cmd right derives derivesRight ih ihRight =>
      simp only [enoughFuel] at enough
      obtain ⟨fuel, rfl⟩ : ∃ less, fuel = less + 1 := ⟨fuel - 1, by omega⟩
      rw [List.append_assoc] at isTokens
      obtain ⟨rest, isExec, isRest, shorter⟩ := ih isTokens List.mem_cons_self
        (show enoughFuel .exec s.length ≤ fuel by simp [enoughFuel]; omega)
      obtain ⟨-, isMore, shorterStill⟩ := gettoken_of_tokens isRest
      obtain ⟨last, isRight, isLast, length⟩ := ihRight isMore follows
        (show enoughFuel .pipe (gettoken rest).s.length ≤ fuel by simp [enoughFuel]; omega)
      refine ⟨last, ?_, isLast, by omega⟩
      simp only [parse] at isExec isRight ⊢
      rw [parsepipe]
      simp only [isExec]
      rw [if_pos (peek_true (by decide) (by rw [isRest]; exact List.mem_singleton_self _)),
        gettoken_skip]
      simp only [isRight]
  | @block ts cmd redirections coded derives ih =>
      simp only [enoughFuel] at enough
      obtain ⟨fuel, rfl⟩ : ∃ less, fuel = less + 2 := ⟨fuel - 2, by omega⟩
      have isCons : tokens s = .symbol '(' :: (ts ++ (.symbol ')' ::
          (redirections.flatMap Redirection.tokens ++ left))) := by
        rw [isTokens]
        simp
      have opens : peek (skip s) ['('] = true :=
        peek_true (by decide) (by rw [isCons]; exact List.mem_singleton_self _)
      obtain ⟨-, isMore, shorter⟩ := gettoken_of_tokens isCons
      obtain ⟨rest, isLine, isRest, shorterYet⟩ := ih isMore List.mem_cons_self
        (show enoughFuel .line (gettoken s).s.length ≤ fuel by simp [enoughFuel]; omega)
      have closes : peek (skip rest) [')'] = true :=
        peek_true (by decide) (by rw [isRest]; exact List.mem_singleton_self _)
      obtain ⟨-, isRedirs, shorterStill⟩ := gettoken_of_tokens isRest
      have notRedirection : nextCode left ∉ redirectionCodes := by
        intro isCode
        simp only [redirectionCodes, List.mem_cons, List.not_mem_nil, or_false] at isCode
        rcases isCode with isCode | isCode | isCode <;> rw [isCode] at follows <;>
          exact absurd follows (by decide)
      obtain ⟨last, isOk, isLast, length⟩ : Returns (parseredirs fuel cmd (gettoken rest).s)
          (gettoken rest).s (wrap cmd redirections) left :=
        parseredirs_complete coded isRedirs notRedirection (by omega)
      refine ⟨last, ?_, isLast, by omega⟩
      simp only [parse] at isLine ⊢
      rw [parseexec, if_pos opens, parseblock, skip_skip, if_pos opens, gettoken_skip]
      simp only [isLine]
      rw [if_pos closes, gettoken_skip, isOk]
  | simple parts coded few =>
      simp only [enoughFuel] at enough
      obtain ⟨fuel, rfl⟩ : ∃ less, fuel = less + 1 := ⟨fuel - 1, by omega⟩
      obtain ⟨redirections, rest, rfl, restStarts⟩ := split_parts parts
      have shorter := length_skip_le s
      have nextRest := nextCode_parts restStarts follows
      rw [List.flatMap_append, tokens_of_map, List.append_assoc] at isTokens
      simp only [List.filterMap_append, redirections_of_map, words_of_map, List.nil_append]
        at coded few ⊢
      have codedBoth := List.forall_mem_append.mp coded
      have notRedirection : nextCode (rest.flatMap Part.tokens ++ left) ∉ redirectionCodes := by
        intro isCode
        simp only [redirectionCodes, List.mem_cons, List.not_mem_nil, or_false] at isCode
        rcases isCode with isCode | isCode | isCode <;> rw [isCode] at nextRest <;>
          exact absurd nextRest (by decide)
      have notBlock : nextCode (tokens s) ∉ ['('] := by
        rw [isTokens, List.mem_singleton]
        cases redirections with
        | nil =>
            intro isBlock
            have isBlock : nextCode (rest.flatMap Part.tokens ++ left) = '(' := isBlock
            rw [isBlock] at nextRest
            exact absurd nextRest (by decide)
        | cons change redirections =>
            intro isBlock
            have isBlock : change.tok = '(' := isBlock
            have isCode := codedBoth.1 change List.mem_cons_self
            rw [isBlock] at isCode
            exact absurd isCode (by decide)
      obtain ⟨middle, isRedirs, isMiddle, shorterYet⟩ : Returns
          (parseredirs fuel (.exec []) (skip s)) (skip s) (wrap (.exec []) redirections)
          (rest.flatMap Part.tokens ++ left) :=
        parseredirs_complete codedBoth.1 (by rw [tokens_skip, isTokens]) notRedirection (by omega)
      obtain ⟨last, isArgs, isLeft, length⟩ : Returns
          (parseargs fuel 0 (wrap (.exec []) redirections) middle) middle
          (rest.foldl Cmd.addPart (wrap (.exec []) redirections)) left :=
        parseargs_complete restStarts codedBoth.2 (by omega) isMiddle follows (by omega)
      refine ⟨last, ?_, isLeft, by omega⟩
      simp only [parse]
      rw [parseexec, if_neg (peek_false (by decide) notBlock)]
      simp only [isRedirs]
      rw [isArgs, foldl_addPart, List.nil_append]

end Coursework.Shell
