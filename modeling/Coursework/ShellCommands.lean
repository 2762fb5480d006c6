import Coursework.ShellCompleteness

/-!
# Command lines

`parsecmd` returns a command exactly for the lines that the grammar generates.  The
words of the command are pointers into the line; after `nulterminate` the strings
at these pointers are the words of the derivation, since a null character is
written only where a word has ended.
-/

namespace Coursework.Shell

variable {V W : Type}

/-! ## Words of another type -/

section Map

variable {f : V → W}

theorem map_redirect (cmd : Cmd V) (tok : Char) (file : V) :
    (redirect cmd tok file).map f = redirect (cmd.map f) tok (f file) := by
  unfold redirect
  split <;> rfl

def Redirection.map (f : V → W) (change : Redirection V) : Redirection W :=
  ⟨change.tok, f change.file⟩

def Part.map (f : V → W) : Part V → Part W
  | .word text => .word (f text)
  | .redirection change => .redirection (change.map f)

theorem map_wrap (cmd : Cmd V) (redirections : List (Redirection V)) :
    (wrap cmd redirections).map f = wrap (cmd.map f) (redirections.map (Redirection.map f)) := by
  induction redirections generalizing cmd with
  | nil => rfl
  | cons change redirections ih =>
      have first := ih (redirect cmd change.tok change.file)
      rw [map_redirect] at first
      exact first

theorem map_backs (n : Nat) (cmd : Cmd V) : (backs n cmd).map f = backs n (cmd.map f) := by
  induction n generalizing cmd with
  | zero => rfl
  | succ n ih => exact ih (.back cmd)

theorem word?_map (parts : List (Part V)) :
    (parts.map (Part.map f)).filterMap Part.word? = (parts.filterMap Part.word?).map f := by
  induction parts with
  | nil => rfl
  | cons part parts ih =>
      cases part <;> simp [List.filterMap_cons, Part.map, Part.word?, ih]

theorem redirection?_map (parts : List (Part V)) :
    (parts.map (Part.map f)).filterMap Part.redirection? =
      (parts.filterMap Part.redirection?).map (Redirection.map f) := by
  induction parts with
  | nil => rfl
  | cons part parts ih =>
      cases part <;> simp [List.filterMap_cons, Part.map, Part.redirection?, ih]

theorem tokens_redirections_map (redirections : List (Redirection V)) :
    (redirections.map (Redirection.map f)).flatMap Redirection.tokens =
      (redirections.flatMap Redirection.tokens).map (Token.map f) := by
  induction redirections with
  | nil => rfl
  | cons change redirections ih =>
      rw [List.map_cons, List.flatMap_cons, List.flatMap_cons, List.map_append, ih]
      rfl

theorem tokens_parts_map (parts : List (Part V)) :
    (parts.map (Part.map f)).flatMap Part.tokens =
      (parts.flatMap Part.tokens).map (Token.map f) := by
  induction parts with
  | nil => rfl
  | cons part parts ih =>
      rw [List.map_cons, List.flatMap_cons, List.flatMap_cons, List.map_append, ih]
      cases part <;> rfl

theorem coded_map {redirections : List (Redirection V)} :
    Coded (redirections.map (Redirection.map f)) ↔ Coded redirections := by
  simp [Coded, Redirection.map]

/-- A derivation with other words. -/
theorem Derives.map {category : Category} {ts : List (Token V)} {cmd : Cmd V}
    (derives : Derives category ts cmd) :
    Derives category (ts.map (Token.map f)) (cmd.map f) := by
  induction derives with
  | @line ts cmd n derives ih =>
      rw [List.map_append, List.map_replicate, map_backs]
      exact .line n ih
  | @list ts more cmd right n derives derivesRight ih ihRight =>
      rw [List.map_append, List.map_append, List.map_cons, List.map_replicate, Cmd.map, map_backs]
      exact .list n ih ihRight
  | single derives ih => exact .single ih
  | @pipe ts more cmd right derives derivesRight ih ihRight =>
      rw [List.map_append, List.map_cons]
      exact .pipe ih ihRight
  | @block ts cmd redirections coded derives ih =>
      rw [List.map_cons, List.map_append, List.map_cons, ← tokens_redirections_map, map_wrap]
      exact .block _ (coded_map.mpr coded) ih
  | simple parts coded few =>
      rw [← tokens_parts_map, map_wrap, Cmd.map, ← word?_map, ← redirection?_map]
      apply Derives.simple
      · rw [redirection?_map]
        exact coded_map.mpr coded
      · rw [word?_map, List.length_map]
        exact few

theorem of_map_symbol {ts : List (Token V)} {c : Char} {texts : List (Token W)}
    (isMap : ts.map (Token.map f) = .symbol c :: texts) :
    ∃ more, ts = .symbol c :: more ∧ more.map (Token.map f) = texts := by
  obtain ⟨token, more, rfl, isToken, isMore⟩ := List.map_eq_cons_iff.mp isMap
  cases token with
  | word text => cases isToken
  | symbol ret =>
      cases isToken
      exact ⟨more, rfl, isMore⟩

theorem of_map_word {ts : List (Token V)} {text : W} {texts : List (Token W)}
    (isMap : ts.map (Token.map f) = .word text :: texts) :
    ∃ word more, ts = .word word :: more ∧ f word = text ∧ more.map (Token.map f) = texts := by
  obtain ⟨token, more, rfl, isToken, isMore⟩ := List.map_eq_cons_iff.mp isMap
  cases token with
  | word word =>
      cases isToken
      exact ⟨word, more, rfl, rfl, isMore⟩
  | symbol ret => cases isToken

theorem of_map_replicate {ts : List (Token V)} {c : Char} {n : Nat}
    (isMap : ts.map (Token.map f) = List.replicate n (.symbol c)) :
    ts = List.replicate n (.symbol c) := by
  induction n generalizing ts with
  | zero => simpa using isMap
  | succ n ih =>
      obtain ⟨more, rfl, isMore⟩ := of_map_symbol isMap
      rw [ih isMore, List.replicate_succ]

theorem of_map_redirections {ts : List (Token V)} {redirections : List (Redirection W)}
    (isMap : ts.map (Token.map f) = redirections.flatMap Redirection.tokens) :
    ∃ changes : List (Redirection V), ts = changes.flatMap Redirection.tokens ∧
      redirections = changes.map (Redirection.map f) := by
  induction redirections generalizing ts with
  | nil =>
      rw [List.flatMap_nil, List.map_eq_nil_iff] at isMap
      exact ⟨[], isMap, rfl⟩
  | cons change redirections ih =>
      obtain ⟨more, rfl, isMore⟩ := of_map_symbol isMap
      obtain ⟨word, others, rfl, isWord, isOthers⟩ := of_map_word isMore
      obtain ⟨changes, rfl, rfl⟩ := ih isOthers
      refine ⟨⟨change.tok, word⟩ :: changes, rfl, ?_⟩
      rw [List.map_cons, Redirection.map, isWord]

theorem of_map_parts {ts : List (Token V)} {parts : List (Part W)}
    (isMap : ts.map (Token.map f) = parts.flatMap Part.tokens) :
    ∃ pieces : List (Part V), ts = pieces.flatMap Part.tokens ∧
      parts = pieces.map (Part.map f) := by
  induction parts generalizing ts with
  | nil =>
      rw [List.flatMap_nil, List.map_eq_nil_iff] at isMap
      exact ⟨[], isMap, rfl⟩
  | cons part parts ih =>
      cases part with
      | word text =>
          obtain ⟨word, others, rfl, rfl, isOthers⟩ := of_map_word isMap
          obtain ⟨pieces, rfl, rfl⟩ := ih isOthers
          exact ⟨.word word :: pieces, rfl, rfl⟩
      | redirection change =>
          obtain ⟨more, rfl, isMore⟩ := of_map_symbol isMap
          obtain ⟨word, others, rfl, isWord, isOthers⟩ := of_map_word isMore
          obtain ⟨pieces, rfl, rfl⟩ := ih isOthers
          refine ⟨.redirection ⟨change.tok, word⟩ :: pieces, rfl, ?_⟩
          rw [List.map_cons, Part.map, Redirection.map, isWord]

/-- A derivation for the mapped tokens comes from one for the tokens. -/
theorem Derives.of_map {category : Category} {ts : List (Token V)} {tree : Cmd W}
    (derives : Derives category (ts.map (Token.map f)) tree) :
    ∃ cmd, Derives category ts cmd ∧ tree = cmd.map f := by
  generalize isMap : ts.map (Token.map f) = texts at derives
  induction derives generalizing ts with
  | line n derives ih =>
      obtain ⟨first, second, rfl, isFirst, isSecond⟩ := List.map_eq_append_iff.mp isMap
      obtain ⟨cmd, derivation, rfl⟩ := ih isFirst
      rw [of_map_replicate isSecond, ← map_backs]
      exact ⟨_, .line n derivation, rfl⟩
  | list n derives derivesRight ih ihRight =>
      obtain ⟨first, second, rfl, isFirst, isSecond⟩ := List.map_eq_append_iff.mp isMap
      obtain ⟨middle, last, rfl, isMiddle, isLast⟩ := List.map_eq_append_iff.mp isSecond
      obtain ⟨more, rfl, isMore⟩ := of_map_symbol isLast
      obtain ⟨cmd, derivation, rfl⟩ := ih isFirst
      obtain ⟨right, derivationRight, rfl⟩ := ihRight isMore
      rw [of_map_replicate isMiddle, ← map_backs]
      exact ⟨_, .list n derivation derivationRight, rfl⟩
  | single derives ih =>
      obtain ⟨cmd, derivation, isTree⟩ := ih isMap
      exact ⟨cmd, .single derivation, isTree⟩
  | pipe derives derivesRight ih ihRight =>
      obtain ⟨first, second, rfl, isFirst, isSecond⟩ := List.map_eq_append_iff.mp isMap
      obtain ⟨more, rfl, isMore⟩ := of_map_symbol isSecond
      obtain ⟨cmd, derivation, rfl⟩ := ih isFirst
      obtain ⟨right, derivationRight, rfl⟩ := ihRight isMore
      exact ⟨_, .pipe derivation derivationRight, rfl⟩
  | block redirections coded derives ih =>
      obtain ⟨inner, rfl, isInner⟩ := of_map_symbol isMap
      obtain ⟨first, second, rfl, isFirst, isSecond⟩ := List.map_eq_append_iff.mp isInner
      obtain ⟨more, rfl, isMore⟩ := of_map_symbol isSecond
      obtain ⟨cmd, derivation, rfl⟩ := ih isFirst
      obtain ⟨changes, rfl, rfl⟩ := of_map_redirections isMore
      exact ⟨_, .block changes (coded_map.mp coded) derivation, (map_wrap _ _).symm⟩
  | simple parts coded few =>
      obtain ⟨pieces, rfl, rfl⟩ := of_map_parts isMap
      rw [redirection?_map] at coded ⊢
      rw [word?_map] at few ⊢
      rw [List.length_map] at few
      exact ⟨_, .simple pieces (coded_map.mp coded) few, by rw [map_wrap]; rfl⟩

end Map

/-! ## Null-terminated words -/

/-- The words of a command, in the order in which `nulterminate` visits them. -/
def Cmd.words : Cmd W → List W
  | .exec argv => argv
  | .redir cmd file _ _ => cmd.words ++ [file]
  | .pipe left right => left.words ++ right.words
  | .list left right => left.words ++ right.words
  | .back cmd => cmd.words

theorem nulterminate_eq (length : Nat) (cmd : Cmd Extent) (buffer : List Char) :
    nulterminate length cmd buffer =
      cmd.words.foldl (fun buffer word => terminate length buffer word.2) buffer := by
  induction cmd generalizing buffer with
  | exec argv => rfl
  | redir cmd file mode fd ih => rw [nulterminate, Cmd.words, List.foldl_append, ih]; rfl
  | pipe left right ih ihRight => rw [nulterminate, Cmd.words, List.foldl_append, ih, ihRight]
  | list left right ih ihRight => rw [nulterminate, Cmd.words, List.foldl_append, ih, ihRight]
  | back cmd ih => exact ih buffer

/-- The null characters stand at the ends of the words. -/
theorem getElem?_terminated (length : Nat) (words : List Extent) (buffer : List Char) (i : Nat)
    (inBuffer : i < buffer.length) :
    (words.foldl (fun buffer word => terminate length buffer word.2) buffer)[i]? =
      if ∃ word ∈ words, i = length - word.2.length then some '\x00' else buffer[i]? := by
  induction words generalizing buffer with
  | nil => simp
  | cons word words ih =>
      rw [List.foldl_cons, ih _ (by simpa [terminate] using inBuffer)]
      by_cases later : ∃ word ∈ words, i = length - word.2.length
      · rw [if_pos later, if_pos]
        obtain ⟨other, member, isEnd⟩ := later
        exact ⟨other, List.mem_cons_of_mem _ member, isEnd⟩
      · rw [if_neg later, terminate, List.getElem?_set]
        by_cases isHere : length - word.2.length = i
        · have inside : length - word.2.length < buffer.length := isHere ▸ inBuffer
          rw [if_pos isHere, if_pos inside, if_pos ⟨word, List.mem_cons_self, isHere.symm⟩]
        · rw [if_neg isHere, if_neg]
          rintro ⟨other, member, isEnd⟩
          rcases List.mem_cons.mp member with rfl | member
          · exact isHere isEnd.symm
          · exact later ⟨other, member, isEnd⟩

/-- The pointers enclose a word of the line. -/
def IsWord (s : List Char) (word : Extent) : Prop :=
  ∃ before text, s = before ++ word.1 ∧ word.1 = text ++ word.2 ∧
    (∀ c ∈ text, isWordChar c = true) ∧ ∀ c, word.2.head? = some c → isWordChar c = false

theorem IsWord.of_suffix {s rest : List Char} {word : Extent} (isWord : IsWord rest word)
    (suffix : rest <:+ s) : IsWord s word := by
  obtain ⟨before, text, rfl, isText, isWordText, ends⟩ := isWord
  obtain ⟨first, rfl⟩ := suffix
  exact ⟨first ++ before, text, by simp, isText, isWordText, ends⟩

theorem isWord_of_mem {s : List Char} {word : Extent} (member : .word word ∈ tokens s) :
    IsWord s word := by
  induction length : s.length using Nat.strongRecOn generalizing s with
  | _ length ih =>
      obtain ⟨blank, isBlank, isWhole⟩ := skip_split s
      cases isSkipped : skip s with
      | nil =>
          rw [tokens_nil isSkipped] at member
          cases member
      | cons c rest =>
          rw [isSkipped] at isWhole
          have total := congrArg List.length isWhole
          rw [List.length_append, List.length_cons] at total
          rcases gettoken_cases isSkipped with ⟨isSymbol, single, -⟩ | ⟨more, rfl, rfl, -⟩ |
            ⟨-, text, more, isText, nonempty, isWordText, ends, -⟩
          · rw [tokens_symbol isSymbol single isSkipped, List.mem_cons] at member
            rcases member with isToken | later
            · cases isToken
            · refine (ih _ (by omega) later rfl).of_suffix ⟨blank ++ [c], ?_⟩
              rw [isWhole]
              simp
          · rw [tokens_append isSkipped, List.mem_cons] at member
            rw [List.length_cons] at total
            rcases member with isToken | later
            · cases isToken
            · refine (ih _ (by omega) later rfl).of_suffix ⟨blank ++ ['>', '>'], ?_⟩
              rw [isWhole]
              simp
          · rw [isText] at isSkipped isWhole
            have parts := congrArg List.length isText
            rw [List.length_cons, List.length_append] at parts
            have positive := List.length_pos_of_ne_nil nonempty
            rw [tokens_word nonempty isWordText ends isSkipped, List.mem_cons] at member
            rcases member with isToken | later
            · cases isToken
              exact ⟨blank, text, isWhole, rfl, isWordText, ends⟩
            · refine (ih _ (by omega) later rfl).of_suffix ⟨blank ++ text, ?_⟩
              rw [isWhole]
              simp

theorem words_wrap (cmd : Cmd W) (redirections : List (Redirection W)) :
    (wrap cmd redirections).words = cmd.words ++ redirections.map Redirection.file := by
  induction redirections generalizing cmd with
  | nil => simp [wrap]
  | cons change redirections ih =>
      have words : (redirect cmd change.tok change.file).words = cmd.words ++ [change.file] := by
        unfold redirect
        split <;> rfl
      have rest := ih (redirect cmd change.tok change.file)
      rw [words] at rest
      rw [List.map_cons]
      exact rest.trans (by simp)

theorem words_backs (n : Nat) (cmd : Cmd W) : (backs n cmd).words = cmd.words := by
  induction n generalizing cmd with
  | zero => rfl
  | succ n ih => exact ih (.back cmd)

/-- The words of a derivation are among its tokens. -/
theorem word_mem_of_derives {category : Category} {ts : List (Token W)} {cmd : Cmd W}
    (derives : Derives category ts cmd) {word : W} (member : word ∈ cmd.words) :
    .word word ∈ ts := by
  induction derives with
  | line n derives ih =>
      rw [words_backs] at member
      exact List.mem_append_left _ (ih member)
  | list n derives derivesRight ih ihRight =>
      rw [Cmd.words, words_backs, List.mem_append] at member
      rcases member with left | right
      · exact List.mem_append_left _ (ih left)
      · exact List.mem_append_right _ (List.mem_append_right _
          (List.mem_cons_of_mem _ (ihRight right)))
  | single derives ih => exact ih member
  | pipe derives derivesRight ih ihRight =>
      rw [Cmd.words, List.mem_append] at member
      rcases member with left | right
      · exact List.mem_append_left _ (ih left)
      · exact List.mem_append_right _ (List.mem_cons_of_mem _ (ihRight right))
  | block redirections coded derives ih =>
      rw [words_wrap, List.mem_append] at member
      apply List.mem_cons_of_mem
      rcases member with inner | outer
      · exact List.mem_append_left _ (ih inner)
      · obtain ⟨change, isChange, rfl⟩ := List.mem_map.mp outer
        apply List.mem_append_right
        apply List.mem_cons_of_mem
        exact List.mem_flatMap.mpr ⟨change, isChange, by simp [Redirection.tokens]⟩
  | simple parts coded few =>
      rw [words_wrap, List.mem_append, Cmd.words] at member
      rcases member with inner | outer
      · obtain ⟨part, isPart, isWord⟩ := List.mem_filterMap.mp inner
        cases part with
        | word text =>
            cases isWord
            exact List.mem_flatMap.mpr ⟨_, isPart, by simp [Part.tokens]⟩
        | redirection change => cases isWord
      · obtain ⟨change, isChange, rfl⟩ := List.mem_map.mp outer
        obtain ⟨part, isPart, isRedirection⟩ := List.mem_filterMap.mp isChange
        cases part with
        | word text => cases isRedirection
        | redirection other =>
            cases isRedirection
            exact List.mem_flatMap.mpr ⟨_, isPart, by simp [Part.tokens, Redirection.tokens]⟩

theorem takeWhile_terminated {buffer text : List Char} (nulFree : '\x00' ∉ text)
    (same : ∀ j < text.length, buffer[j]? = text[j]?)
    (isEnd : buffer[text.length]? = some '\x00') : buffer.takeWhile (· ≠ '\x00') = text := by
  induction text generalizing buffer with
  | nil =>
      obtain ⟨rest, rfl⟩ := List.head?_eq_some_iff.mp (List.head?_eq_getElem?.trans isEnd)
      rfl
  | cons c text ih =>
      have first := same 0 (by simp)
      rw [List.getElem?_cons_zero] at first
      obtain ⟨rest, rfl⟩ := List.head?_eq_some_iff.mp (List.head?_eq_getElem?.trans first)
      rw [List.mem_cons, not_or] at nulFree
      rw [List.takeWhile_cons_of_pos (by simpa using Ne.symm nulFree.1)]
      congr 1
      apply ih nulFree.2
      · intro j below
        exact same (j + 1) (by simpa using below)
      · exact isEnd

/-- Once the ends of the words hold null characters, the strings at the pointers are the words. -/
theorem stringAt_terminated {s : List Char} {words : List Extent} (nulFree : '\x00' ∉ s)
    (areWords : ∀ word ∈ words, IsWord s word) {word : Extent} (member : word ∈ words) :
    stringAt s.length (words.foldl (fun buffer word => terminate s.length buffer word.2)
      (s ++ ['\x00'])) word.1 = word.text := by
  obtain ⟨before, text, isWhole, isText, isWordText, ends⟩ := areWords word member
  have isExtent : word.text = text := by
    rw [Extent.text, isText]
    simp
  have whole : s = before ++ (text ++ word.2) := by rw [isWhole, isText]
  have length : s.length = before.length + (text.length + word.2.length) := by
    rw [whole, List.length_append, List.length_append]
  have position : s.length - word.1.length = before.length := by
    rw [isText, List.length_append]
    omega
  rw [stringAt, isExtent, position]
  apply takeWhile_terminated
  · intro isNull
    apply nulFree
    rw [whole]
    simp [isNull]
  · intro j below
    have inLine : before.length + j < s.length := by omega
    have isChar : s[before.length + j]? = text[j]? := by
      rw [whole, List.getElem?_append_right (by omega), Nat.add_sub_cancel_left,
        List.getElem?_append_left below]
    -- the line has a character of a word here, so that no word ends here
    have noEnd : ¬ ∃ other ∈ words, before.length + j = s.length - other.2.length := by
      rintro ⟨other, isOther, isEnd⟩
      obtain ⟨before', text', isWhole', isText', -, ends'⟩ := areWords other isOther
      have whole' : s = (before' ++ text') ++ other.2 := by
        rw [isWhole', isText', List.append_assoc]
      have length' : s.length = (before' ++ text').length + other.2.length := by
        rw [whole', List.length_append]
      have isPosition : before.length + j = (before' ++ text').length := by omega
      have isHead : other.2.head? = text[j]? := by
        rw [← isChar, isPosition, whole', List.getElem?_append_right (Nat.le_refl _),
          Nat.sub_self, List.head?_eq_getElem?]
      have isLetter := isWordText text[j] (List.getElem_mem below)
      rw [List.getElem?_eq_getElem below] at isHead
      rw [ends' _ isHead] at isLetter
      cases isLetter
    rw [List.getElem?_drop, getElem?_terminated _ _ _ _ (by simp; omega), if_neg noEnd,
      List.getElem?_append_left inLine, isChar]
  · rw [List.getElem?_drop, getElem?_terminated _ _ _ _ (by simp; omega), if_pos]
    exact ⟨word, member, by omega⟩

/-- After `nulterminate` the strings at the pointers are the words. -/
theorem stringAt_nulterminate {s : List Char} {cmd : Cmd Extent} (nulFree : '\x00' ∉ s)
    (areWords : ∀ word ∈ cmd.words, IsWord s word) {word : Extent} (member : word ∈ cmd.words) :
    stringAt s.length (nulterminate s.length cmd (s ++ ['\x00'])) word.1 = word.text := by
  rw [nulterminate_eq]
  exact stringAt_terminated nulFree areWords member

theorem map_congr_words {cmd : Cmd V} {f g : V → W} (same : ∀ word ∈ cmd.words, f word = g word) :
    cmd.map f = cmd.map g := by
  induction cmd with
  | exec argv => exact congrArg Cmd.exec (List.map_congr_left same)
  | redir cmd file mode fd ih =>
      rw [Cmd.words, List.forall_mem_append, List.forall_mem_singleton] at same
      rw [Cmd.map, Cmd.map, ih same.1, same.2]
  | pipe left right ih ihRight =>
      rw [Cmd.words, List.forall_mem_append] at same
      rw [Cmd.map, Cmd.map, ih same.1, ihRight same.2]
  | list left right ih ihRight =>
      rw [Cmd.words, List.forall_mem_append] at same
      rw [Cmd.map, Cmd.map, ih same.1, ihRight same.2]
  | back cmd ih => rw [Cmd.map, Cmd.map, ih same]

/-! ## The parser -/

/-- The line is generated with the trees of the derivations for its tokens. -/
theorem generates_iff {s : List Char} {tree : Cmd (List Char)} :
    Generates s tree ↔ ∃ cmd, Derives .line (tokens s) cmd ∧ tree = cmd.map Extent.text := by
  constructor
  · rintro ⟨texts, spells, derives⟩
    rw [tokens_of_spells spells] at derives
    exact derives.of_map
  · rintro ⟨cmd, derives, rfl⟩
    exact ⟨_, spells_tokens s, derives.map⟩

theorem parseline_of_derives {s : List Char} {cmd : Cmd Extent} {fuel : Nat}
    (derives : Derives .line (tokens s) cmd) (enough : 4 * s.length + 8 ≤ fuel) :
    ∃ rest, parseline fuel s = .ok (cmd, rest) ∧ skip rest = [] := by
  obtain ⟨rest, isOk, isRest, -⟩ := parse_complete derives (List.append_nil _).symm
    (show nextCode [] ∈ follow .line by decide) enough
  refine ⟨rest, isOk, ?_⟩
  by_contra more
  rw [tokens_cons more] at isRest
  cases isRest

/-- A command that is returned was derived, and its words are terminated. -/
theorem derives_of_parsecmd {s : List Char} {fuel : Nat} {cmd : Cmd Extent} {buffer : List Char}
    (enough : 4 * s.length + 8 ≤ fuel) (accepted : parsecmd fuel s = .ok (cmd, buffer)) :
    Derives .line (tokens s) cmd ∧
      buffer = nulterminate s.length cmd (s ++ ['\x00']) := by
  have sound : Outcome (· ≠ .fuel) (Parsed .line s) (parse .line fuel s) := parse_sound enough
  have outcome : Outcome (· ≠ .fuel) (Parsed .line s) (parseline fuel s) := sound
  unfold parsecmd at accepted
  cases isLine : parseline fuel s with
  | error failure =>
      simp only [isLine] at accepted
      cases accepted
  | ok result =>
      obtain ⟨parsed, rest⟩ := result
      rw [isLine] at outcome
      obtain ⟨ts, derives, reads⟩ := outcome
      simp only [isLine] at accepted
      split_ifs at accepted with isEnd
      cases accepted
      have isTokens : tokens s = ts := by
        rw [reads.tokens, tokens_nil isEnd, List.append_nil]
      exact ⟨isTokens ▸ derives, rfl⟩

/-- Every command line without a null character is either rejected, and then the grammar
does not generate it, or gives the tree of its derivation. -/
theorem parsecmd_generates {s : List Char} {fuel : Nat} (nulFree : '\x00' ∉ s)
    (enough : 4 * s.length + 8 ≤ fuel) :
    (∃ reason, parsecmd fuel s = .error (.panic reason) ∧ ∀ tree, ¬ Generates s tree) ∨
      ∃ cmd buffer, parsecmd fuel s = .ok (cmd, buffer) ∧ ∀ tree, Generates s tree ↔
        tree = cmd.map fun word => stringAt s.length buffer word.1 := by
  have sound : Outcome (· ≠ .fuel) (Parsed .line s) (parse .line fuel s) := parse_sound enough
  have outcome : Outcome (· ≠ .fuel) (Parsed .line s) (parseline fuel s) := sound
  cases isLine : parseline fuel s with
  | error failure =>
      rw [isLine] at outcome
      left
      have noTree : ∀ tree, ¬ Generates s tree := by
        intro tree generates
        obtain ⟨cmd, derives, -⟩ := generates_iff.mp generates
        obtain ⟨rest, isOk, -⟩ := parseline_of_derives derives enough
        cases isLine.symm.trans isOk
      cases failure with
      | fuel => exact (outcome rfl).elim
      | panic reason => exact ⟨reason, by simp only [parsecmd, isLine], noTree⟩
  | ok result =>
      obtain ⟨cmd, rest⟩ := result
      rw [isLine] at outcome
      obtain ⟨ts, derives, reads⟩ := outcome
      by_cases isEnd : skip rest = []
      · right
        have isTokens : tokens s = ts := by
          rw [reads.tokens, tokens_nil isEnd, List.append_nil]
        have areWords : ∀ word ∈ cmd.words, IsWord s word := by
          intro word member
          apply isWord_of_mem
          rw [isTokens]
          exact word_mem_of_derives derives member
        refine ⟨cmd, _, by simp only [parsecmd, isLine]; rw [if_pos isEnd], ?_⟩
        intro tree
        have isTree : cmd.map (fun word => stringAt s.length
            (nulterminate s.length cmd (s ++ ['\x00'])) word.1) = cmd.map Extent.text :=
          map_congr_words fun word member => stringAt_nulterminate nulFree areWords member
        rw [isTree, generates_iff, isTokens]
        constructor
        · rintro ⟨other, derivesOther, rfl⟩
          obtain ⟨last, isOk, -⟩ := parseline_of_derives (isTokens.symm ▸ derivesOther) enough
          cases isLine.symm.trans isOk
          rfl
        · rintro rfl
          exact ⟨cmd, derives, rfl⟩
      · left
        refine ⟨.syntaxError, by simp only [parsecmd, isLine]; rw [if_neg isEnd], ?_⟩
        intro tree generates
        obtain ⟨other, derivesOther, -⟩ := generates_iff.mp generates
        obtain ⟨last, isOk, isLast⟩ := parseline_of_derives derivesOther enough
        cases isLine.symm.trans isOk
        exact isEnd isLast

/-- The line `a|b` is generated with a pipe. -/
theorem parsecmd_generates_pipe :
    Generates ['a', '|', 'b'] (.pipe (.exec [['a']]) (.exec [['b']])) := by
  have nulFree : '\x00' ∉ ['a', '|', 'b'] := by decide
  have enough : 4 * ['a', '|', 'b'].length + 8 ≤ 20 := by decide
  have isResult : parsecmd 20 ['a', '|', 'b'] =
      .ok (.pipe (.exec [(['a', '|', 'b'], ['|', 'b'])]) (.exec [(['b'], [])]),
        ['a', '\x00', 'b', '\x00']) := by decide
  rcases parsecmd_generates nulFree enough with
    ⟨reason, rejected, -⟩ | ⟨cmd, buffer, accepted, trees⟩
  · cases isResult.symm.trans rejected
  · cases isResult.symm.trans accepted
    exact (trees _).mpr (by decide)

end Coursework.Shell
