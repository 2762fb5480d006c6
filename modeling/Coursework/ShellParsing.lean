import Coursework.OutcomeRules
import Coursework.ShellTokens
import Mathlib.Data.List.Induction

/-!
# The parser and the grammar

A call of the parser that returns has read the tokens of a derivation, and its tree
is the tree of the derivation.  Conversely the parser follows every derivation, if
the token after it is one that may follow.  The depth of the calls is bounded by
the length of the line, so that the parser always ends.
-/

namespace Coursework.Shell

variable {W : Type}

/-! ## Trees of simple commands -/

def Cmd.addPart (cmd : Cmd W) : Part W → Cmd W
  | .word text => cmd.addArg text
  | .redirection change => redirect cmd change.tok change.file

theorem addArg_redirect (cmd : Cmd W) (tok : Char) (file arg : W) :
    (redirect cmd tok file).addArg arg = redirect (cmd.addArg arg) tok file := by
  unfold redirect
  split <;> rfl

theorem addArg_wrap (argv : List W) (redirections : List (Redirection W)) (arg : W) :
    (wrap (.exec argv) redirections).addArg arg = wrap (.exec (argv ++ [arg])) redirections := by
  induction redirections using List.reverseRecOn with
  | nil => rfl
  | append_singleton redirections last ih =>
      simp only [wrap, List.foldl_append, List.foldl_cons, List.foldl_nil] at ih ⊢
      rw [addArg_redirect, ih]

theorem foldl_addPart (parts : List (Part W)) (argv : List W)
    (redirections : List (Redirection W)) :
    parts.foldl Cmd.addPart (wrap (.exec argv) redirections) =
      wrap (.exec (argv ++ parts.filterMap Part.word?))
        (redirections ++ parts.filterMap Part.redirection?) := by
  induction parts generalizing argv redirections with
  | nil => simp
  | cons part parts ih =>
      cases part with
      | word text =>
          rw [List.foldl_cons, Cmd.addPart, addArg_wrap, ih]
          simp [List.filterMap_cons, Part.word?, Part.redirection?]
      | redirection change =>
          have wrapped : (wrap (.exec argv) redirections).addPart (.redirection change) =
              wrap (.exec argv) (redirections ++ [change]) := by
            simp [Cmd.addPart, wrap]
          rw [List.foldl_cons, wrapped, ih]
          simp [List.filterMap_cons, Part.word?, Part.redirection?]

theorem foldl_redirections (cmd : Cmd W) (redirections : List (Redirection W)) :
    (redirections.map Part.redirection).foldl Cmd.addPart cmd = wrap cmd redirections := by
  rw [List.foldl_map]
  rfl

theorem redirections_of_map (redirections : List (Redirection W)) :
    (redirections.map Part.redirection).filterMap Part.redirection? = redirections := by
  induction redirections with
  | nil => rfl
  | cons change redirections ih => simp only [List.map_cons, List.filterMap_cons, Part.redirection?, ih]

theorem words_of_map (redirections : List (Redirection W)) :
    (redirections.map Part.redirection).filterMap Part.word? = [] := by
  induction redirections with
  | nil => rfl
  | cons change redirections ih => simp only [List.map_cons, List.filterMap_cons, Part.word?, ih]

theorem tokens_of_map (redirections : List (Redirection W)) :
    (redirections.map Part.redirection).flatMap Part.tokens =
      redirections.flatMap Redirection.tokens :=
  List.flatMap_map _ _ _

/-! ## Soundness -/

/-- What a loop of the parser has read. -/
structure Reads (s rest : List Char) (ts : List (Token Extent)) : Prop where
  tokens : tokens s = ts ++ tokens rest
  length : rest.length ≤ s.length

theorem Reads.refl (s : List Char) : Reads s (skip s) [] :=
  ⟨by rw [tokens_skip, List.nil_append], length_skip_le s⟩

theorem Reads.trans {s middle rest : List Char} {first second : List (Token Extent)}
    (one : Reads s middle first) (two : Reads middle rest second) :
    Reads s rest (first ++ second) :=
  ⟨by rw [one.tokens, two.tokens, List.append_assoc], two.length.trans one.length⟩

theorem reads_gettoken {s : List Char} {token : Token Extent} {more : List (Token Extent)}
    (isCons : tokens s = token :: more) : Reads s (gettoken s).s [token] := by
  obtain ⟨-, isMore, shorter⟩ := gettoken_of_tokens isCons
  exact ⟨by rw [isCons, isMore]; rfl, shorter.le⟩

/-- A symbol that `peek` has found is read. -/
theorem reads_symbol {s : List Char} {c : Char} (isNext : nextCode (tokens s) = c)
    (isSymbol : c ∈ symbols) :
    Reads s (gettoken (skip s)).s [.symbol c] ∧ (gettoken (skip s)).s.length < s.length := by
  have notNull : c ≠ '\x00' := by
    rintro rfl
    exact absurd isSymbol (by decide)
  obtain ⟨token, more, isCons, isCode⟩ := exists_of_nextCode isNext notNull
  have isToken : token = .symbol c := by
    cases token with
    | word text =>
        have isA : c = 'a' := isCode.symm
        rw [isA] at isSymbol
        exact absurd isSymbol (by decide)
    | symbol ret => exact congrArg Token.symbol isCode
  rw [gettoken_skip]
  exact ⟨isToken ▸ reads_gettoken isCons, (gettoken_of_tokens isCons).2.2⟩

/-- A word is read. -/
theorem reads_word {s : List Char} (isWord : (gettoken s).ret = 'a') :
    Reads s (gettoken s).s [.word ((gettoken s).q, (gettoken s).eq)] ∧
      (gettoken s).s.length < s.length := by
  have isNext : nextCode (tokens s) = 'a' := by rw [← ret_eq_nextCode, isWord]
  obtain ⟨token, more, isCons, -⟩ := exists_of_nextCode isNext (by decide)
  obtain ⟨isLexeme, -, shorter⟩ := gettoken_of_tokens isCons
  have isToken : token = .word ((gettoken s).q, (gettoken s).eq) := by
    rw [← isLexeme, Lexeme.token, if_pos isWord]
  exact ⟨isToken ▸ reads_gettoken isCons, shorter⟩

theorem parseredirs_sound {fuel : Nat} {cmd : Cmd Extent} {s : List Char}
    (enough : s.length < fuel) :
    Outcome (· ≠ .fuel) (fun result => ∃ redirections, Coded redirections ∧
      Reads s result.2 (redirections.flatMap Redirection.tokens) ∧
      result.1 = wrap cmd redirections) (parseredirs fuel cmd s) := by
  induction fuel generalizing cmd s with
  | zero => omega
  | succ fuel ih =>
      rw [parseredirs]
      split
      · next found =>
          have isCode := peek_redirection.mp found
          have notNull : nextCode (tokens s) ≠ '\x00' := by
            intro isNull
            rw [isNull] at isCode
            exact absurd isCode (by decide)
          obtain ⟨token, more, isCons, isToken⟩ := exists_of_nextCode rfl notNull
          obtain ⟨isFirst, isMore, shorter⟩ := gettoken_of_tokens isCons
          simp only [gettoken_skip]
          split
          · simp [Outcome]
          · next isWord =>
              rw [not_not] at isWord
              obtain ⟨two, shorterStill⟩ := reads_word isWord
              have isSymbol : token = .symbol (gettoken s).ret := by
                rw [← isFirst, Lexeme.token, if_neg]
                intro isA
                rw [ret_eq_nextCode] at isA
                rw [isA] at isCode
                exact absurd isCode (by decide)
              refine (ih (by omega)).mono (fun _ failed => failed) ?_
              rintro ⟨after, rest⟩ ⟨redirections, coded, reads, rfl⟩
              refine ⟨⟨(gettoken s).ret, _⟩ :: redirections, ?_, ?_, rfl⟩
              · rw [Coded, List.forall_mem_cons]
                refine ⟨?_, coded⟩
                rw [ret_eq_nextCode]
                exact isCode
              · have one := reads_gettoken isCons
                rw [isSymbol] at one
                exact (one.trans two).trans reads
      · exact ⟨[], by simp [Coded], .refl s, rfl⟩

theorem parsebacks_sound {fuel : Nat} {cmd : Cmd Extent} {s : List Char}
    (enough : s.length < fuel) :
    Outcome (· ≠ .fuel) (fun result => ∃ n, Reads s result.2 (List.replicate n (.symbol '&')) ∧
      result.1 = backs n cmd) (parsebacks fuel cmd s) := by
  induction fuel generalizing cmd s with
  | zero => omega
  | succ fuel ih =>
      rw [parsebacks]
      split
      · next found =>
          have isCode := List.mem_singleton.mp ((peek_iff (by decide)).mp found)
          obtain ⟨reads, shorter⟩ := reads_symbol isCode (by decide)
          refine (ih (by omega)).mono (fun _ failed => failed) ?_
          rintro ⟨after, rest⟩ ⟨n, more, rfl⟩
          exact ⟨n + 1, reads.trans more, rfl⟩
      · exact ⟨0, .refl s, rfl⟩

theorem parseargs_sound {fuel argc : Nat} {ret : Cmd Extent} {s : List Char}
    (enough : s.length + 1 < fuel) (few : argc ≤ MAXARGS - 1) :
    Outcome (· ≠ .fuel) (fun result => ∃ parts : List (Part Extent),
      Coded (parts.filterMap Part.redirection?) ∧
      argc + (parts.filterMap Part.word?).length ≤ MAXARGS - 1 ∧
      Reads s result.2 (parts.flatMap Part.tokens) ∧
      result.1 = parts.foldl Cmd.addPart ret) (parseargs fuel argc ret s) := by
  induction fuel generalizing argc ret s with
  | zero => omega
  | succ fuel ih =>
      rw [parseargs]
      split
      · exact ⟨[], by simp [Coded], by simpa using few, .refl s, rfl⟩
      · next notFound =>
          simp only [gettoken_skip]
          split
          · next isNull =>
              have isEnd := skip_of_ret isNull
              refine ⟨[], by simp [Coded], by simpa using few, ?_, rfl⟩
              rw [gettoken_nil isEnd, ← isEnd]
              exact .refl s
          · next notNull =>
              split
              · simp [Outcome]
              · next isWord =>
                  rw [not_not] at isWord
                  split
                  · simp [Outcome]
                  · next room =>
                      obtain ⟨word, shorter⟩ := reads_word isWord
                      have redirs : Outcome _ _ (parseredirs fuel
                          (ret.addArg ((gettoken s).q, (gettoken s).eq)) (gettoken s).s) :=
                        parseredirs_sound (by omega)
                      split
                      · next failure isFailure =>
                          rw [isFailure] at redirs
                          exact redirs
                      · next after rest isOk =>
                          rw [isOk] at redirs
                          obtain ⟨redirections, coded, reads, rfl⟩ := redirs
                          have length : rest.length ≤ (gettoken s).s.length := reads.length
                          refine (ih (by omega) (by omega)).mono (fun _ failed => failed) ?_
                          rintro ⟨final, last⟩ ⟨parts, codedParts, fewer, readsParts, rfl⟩
                          refine ⟨.word ((gettoken s).q, (gettoken s).eq) ::
                            (redirections.map Part.redirection ++ parts), ?_, ?_, ?_, ?_⟩
                          · simp only [List.filterMap_cons, Part.redirection?,
                              List.filterMap_append, redirections_of_map]
                            exact List.forall_mem_append.mpr ⟨coded, codedParts⟩
                          · simp only [List.filterMap_cons, Part.word?, List.filterMap_append,
                              words_of_map, List.nil_append, List.length_cons]
                            omega
                          · rw [List.flatMap_cons, List.flatMap_append, tokens_of_map]
                            exact word.trans (reads.trans readsParts)
                          · rw [List.foldl_cons, List.foldl_append, foldl_redirections]
                            rfl

/-- The parser for a category. -/
def parse : Category → Nat → List Char → Except Failure (Cmd Extent × List Char)
  | .line => parseline
  | .pipe => parsepipe
  | .exec => parseexec

/-- Fuel that is enough for a line of a length. -/
def enoughFuel : Category → Nat → Nat
  | .line, n => 4 * n + 8
  | .pipe, n => 4 * n + 7
  | .exec, n => 4 * n + 6

/-- What the parser for a category has read. -/
def Parsed (category : Category) (s : List Char) (result : Cmd Extent × List Char) : Prop :=
  ∃ ts, Derives category ts result.1 ∧ Reads s result.2 ts

section Sound

variable {fuel : Nat}

theorem parseblock_sound
    (ih : ∀ category s, enoughFuel category s.length ≤ fuel →
      Outcome (· ≠ .fuel) (Parsed category s) (parse category fuel s)) {s : List Char}
    (enough : 4 * s.length + 5 ≤ fuel + 1) :
    Outcome (· ≠ .fuel) (Parsed .exec s) (parseblock (fuel + 1) s) := by
  rw [parseblock]
  split
  · next found =>
      have isCode := List.mem_singleton.mp ((peek_iff (by decide)).mp found)
      obtain ⟨opens, shorter⟩ := reads_symbol isCode (by decide)
      have line := ih .line (gettoken (skip s)).s (by simp only [enoughFuel]; omega)
      simp only [parse] at line
      split
      · next failure isFailure =>
          rw [isFailure] at line
          exact line
      · next cmd rest isOk =>
          rw [isOk] at line
          obtain ⟨ts, derives, reads⟩ := line
          have length : rest.length ≤ (gettoken (skip s)).s.length := reads.length
          split
          · next isClosing =>
              have isCode := List.mem_singleton.mp ((peek_iff (by decide)).mp isClosing)
              obtain ⟨closes, shorterStill⟩ := reads_symbol isCode (by decide)
              refine (parseredirs_sound (by omega)).mono (fun _ failed => failed) ?_
              rintro ⟨after, last⟩ ⟨redirections, coded, readsRedirs, rfl⟩
              refine ⟨_, .block redirections coded derives, ?_⟩
              exact opens.trans (reads.trans (closes.trans readsRedirs))
          · simp [Outcome]
  · simp [Outcome]

theorem parseexec_sound
    (block : ∀ s : List Char, 4 * s.length + 5 ≤ fuel →
      Outcome (· ≠ .fuel) (Parsed .exec s) (parseblock fuel s)) {s : List Char}
    (enough : 4 * s.length + 6 ≤ fuel + 1) :
    Outcome (· ≠ .fuel) (Parsed .exec s) (parseexec (fuel + 1) s) := by
  have shorter := length_skip_le s
  have skipped : ∀ {ts rest}, Reads (skip s) rest ts → Reads s rest ts :=
    fun reads => ⟨by rw [← tokens_skip, reads.tokens], reads.length.trans shorter⟩
  rw [parseexec]
  split
  · refine (block (skip s) (by omega)).mono (fun _ failed => failed) ?_
    rintro result ⟨ts, derives, reads⟩
    exact ⟨ts, derives, skipped reads⟩
  · have redirs : Outcome _ _ (parseredirs fuel (.exec []) (skip s)) :=
      parseredirs_sound (by omega)
    split
    · next failure isFailure =>
        rw [isFailure] at redirs
        exact redirs
    · next ret rest isOk =>
        rw [isOk] at redirs
        obtain ⟨redirections, coded, reads, rfl⟩ := redirs
        have length : rest.length ≤ (skip s).length := reads.length
        refine (parseargs_sound (by omega) (Nat.zero_le _)).mono (fun _ failed => failed) ?_
        rintro ⟨final, last⟩ ⟨parts, codedParts, few, readsParts, rfl⟩
        have isTree : parts.foldl Cmd.addPart (wrap (.exec []) redirections) =
            wrap (.exec ((redirections.map Part.redirection ++ parts).filterMap Part.word?))
              ((redirections.map Part.redirection ++ parts).filterMap Part.redirection?) := by
          rw [foldl_addPart, List.filterMap_append, List.filterMap_append, words_of_map,
            redirections_of_map]
        refine ⟨(redirections.map Part.redirection ++ parts).flatMap Part.tokens, ?_, ?_⟩
        · rw [isTree]
          apply Derives.simple
          · rw [List.filterMap_append, redirections_of_map]
            exact List.forall_mem_append.mpr ⟨coded, codedParts⟩
          · rw [List.filterMap_append, words_of_map, List.nil_append]
            omega
        · rw [List.flatMap_append, tokens_of_map]
          exact skipped (reads.trans readsParts)

theorem parsepipe_sound
    (ih : ∀ category s, enoughFuel category s.length ≤ fuel →
      Outcome (· ≠ .fuel) (Parsed category s) (parse category fuel s)) {s : List Char}
    (enough : 4 * s.length + 7 ≤ fuel + 1) :
    Outcome (· ≠ .fuel) (Parsed .pipe s) (parsepipe (fuel + 1) s) := by
  have exec := ih .exec s (by simp only [enoughFuel]; omega)
  simp only [parse] at exec
  rw [parsepipe]
  split
  · next failure isFailure =>
      rw [isFailure] at exec
      exact exec
  · next cmd rest isOk =>
      rw [isOk] at exec
      obtain ⟨ts, derives, reads⟩ := exec
      have length : rest.length ≤ s.length := reads.length
      split
      · next found =>
          have isCode := List.mem_singleton.mp ((peek_iff (by decide)).mp found)
          obtain ⟨bar, shorter⟩ := reads_symbol isCode (by decide)
          have right := ih .pipe (gettoken (skip rest)).s (by simp only [enoughFuel]; omega)
          simp only [parse] at right
          split
          · next failure isFailure =>
              rw [isFailure] at right
              exact right
          · next other last isOk =>
              rw [isOk] at right
              obtain ⟨more, derivesRight, readsRight⟩ := right
              exact ⟨_, .pipe derives derivesRight, reads.trans (bar.trans readsRight)⟩
      · refine ⟨ts, .single derives, ?_⟩
        simpa using reads.trans (.refl rest)

theorem parseline_sound
    (ih : ∀ category s, enoughFuel category s.length ≤ fuel →
      Outcome (· ≠ .fuel) (Parsed category s) (parse category fuel s)) {s : List Char}
    (enough : 4 * s.length + 8 ≤ fuel + 1) :
    Outcome (· ≠ .fuel) (Parsed .line s) (parseline (fuel + 1) s) := by
  have pipe := ih .pipe s (by simp only [enoughFuel]; omega)
  simp only [parse] at pipe
  rw [parseline]
  split
  · next failure isFailure =>
      rw [isFailure] at pipe
      exact pipe
  · next cmd rest isOk =>
      rw [isOk] at pipe
      obtain ⟨ts, derives, reads⟩ := pipe
      have length : rest.length ≤ s.length := reads.length
      have background : Outcome _ _ (parsebacks fuel cmd rest) := parsebacks_sound (by omega)
      split
      · next failure isFailure =>
          rw [isFailure] at background
          exact background
      · next after middle isOk =>
          rw [isOk] at background
          obtain ⟨n, readsBacks, rfl⟩ := background
          have shorterYet : middle.length ≤ rest.length := readsBacks.length
          split
          · next found =>
              have isCode := List.mem_singleton.mp ((peek_iff (by decide)).mp found)
              obtain ⟨semicolon, shorter⟩ := reads_symbol isCode (by decide)
              have right := ih .line (gettoken (skip middle)).s (by simp only [enoughFuel]; omega)
              simp only [parse] at right
              split
              · next failure isFailure =>
                  rw [isFailure] at right
                  exact right
              · next other last isOk =>
                  rw [isOk] at right
                  obtain ⟨more, derivesRight, readsRight⟩ := right
                  exact ⟨_, .list n derives derivesRight,
                    reads.trans (readsBacks.trans (semicolon.trans readsRight))⟩
          · refine ⟨_, .line n derives, ?_⟩
            simpa using (reads.trans readsBacks).trans (.refl middle)

end Sound

/-- A parser that returns has read a derivation, and one that fails has called `panic`. -/
theorem parse_sound {fuel : Nat} {category : Category} {s : List Char}
    (enough : enoughFuel category s.length ≤ fuel) :
    Outcome (· ≠ .fuel) (Parsed category s) (parse category fuel s) := by
  induction fuel using Nat.strongRecOn generalizing category s with
  | _ fuel ih =>
      have below : ∀ less < fuel, ∀ category (s : List Char),
          enoughFuel category s.length ≤ less →
          Outcome (· ≠ .fuel) (Parsed category s) (parse category less s) :=
        fun less smaller category s enough => ih less smaller enough
      cases category with
      | line =>
          simp only [enoughFuel] at enough
          obtain ⟨less, rfl⟩ : ∃ less, fuel = less + 1 := ⟨fuel - 1, by omega⟩
          exact parseline_sound (below less (by omega)) enough
      | pipe =>
          simp only [enoughFuel] at enough
          obtain ⟨less, rfl⟩ : ∃ less, fuel = less + 1 := ⟨fuel - 1, by omega⟩
          exact parsepipe_sound (below less (by omega)) enough
      | exec =>
          simp only [enoughFuel] at enough
          obtain ⟨less, rfl⟩ : ∃ less, fuel = less + 2 := ⟨fuel - 2, by omega⟩
          exact parseexec_sound (fun s enough => parseblock_sound (below less (by omega)) enough)
            enough

end Coursework.Shell
