import Coursework.ShellCommands

/-!
# The words of a command after their termination

All words of a command are pointers into one line, and a null character is written at the end of
each.  The end of a word is not a character of any word, so no string is cut, and it does not
matter in which order the null characters are written.
-/

namespace Coursework.Shell

/-- The buffer after null characters were written at the ends of some words, in their order. -/
def terminateAll (s : List Char) (visited : List Extent) : List Char :=
  visited.foldl (fun buffer word => terminate s.length buffer word.2) (s ++ ['\x00'])

theorem length_terminateAll (s : List Char) (visited : List Extent) :
    (terminateAll s visited).length = s.length + 1 := by
  have preserved : ∀ buffer : List Char,
      (visited.foldl (fun buffer word => terminate s.length buffer word.2) buffer).length =
        buffer.length := by
    induction visited with
    | nil => exact fun _ => rfl
    | cons word visited ih =>
        intro buffer
        rw [List.foldl_cons, ih, terminate, List.length_set]
  rw [terminateAll, preserved, List.length_append, List.length_singleton]

/-- The order of the visits does not matter. -/
theorem terminateAll_congr (s : List Char) {visited others : List Extent}
    (same : ∀ word, word ∈ visited ↔ word ∈ others) :
    terminateAll s visited = terminateAll s others := by
  apply List.ext_getElem?
  intro i
  by_cases inBuffer : i < (s ++ ['\x00']).length
  · rw [terminateAll, terminateAll, getElem?_terminated _ _ _ i inBuffer,
      getElem?_terminated _ _ _ i inBuffer]
    simp only [same]
  · have outside : s.length + 1 ≤ i := by
      rw [List.length_append, List.length_singleton] at inBuffer
      omega
    rw [List.getElem?_eq_none (by rw [length_terminateAll]; exact outside),
      List.getElem?_eq_none (by rw [length_terminateAll]; exact outside)]

/-- The words of an accepted line survive: the command is derived from the tokens of the line,
and in whatever order its words are terminated, the strings at their pointers are these words. -/
theorem words_survive {s : List Char} {fuel : Nat} {cmd : Cmd Extent} {buffer : List Char}
    (nulFree : '\x00' ∉ s) (enough : 4 * s.length + 8 ≤ fuel)
    (accepted : parsecmd fuel s = .ok (cmd, buffer)) :
    Derives .line (tokens s) cmd ∧
      ∀ visited : List Extent, (∀ word, word ∈ visited ↔ word ∈ cmd.words) →
        terminateAll s visited = buffer ∧ ∀ word ∈ cmd.words, .word word ∈ tokens s ∧
          IsWord s word ∧ stringAt s.length buffer word.1 = Extent.text word := by
  obtain ⟨derives, rfl⟩ := derives_of_parsecmd enough accepted
  have areTokens : ∀ word ∈ cmd.words, .word word ∈ tokens s :=
    fun word member => word_mem_of_derives derives member
  have areWords : ∀ word ∈ cmd.words, IsWord s word :=
    fun word member => isWord_of_mem (areTokens word member)
  refine ⟨derives, fun visited same => ⟨?_, fun word member => ?_⟩⟩
  · rw [terminateAll_congr s same, nulterminate_eq]
    rfl
  · exact ⟨areTokens word member, areWords word member,
      stringAt_nulterminate nulFree areWords member⟩

/-- The words of `a>b|c`, which are terminated where the operators stand. -/
theorem words_survive_tight :
    ∃ cmd, parsecmd 28 ['a', '>', 'b', '|', 'c'] =
        .ok (cmd, ['a', '\x00', 'b', '\x00', 'c', '\x00']) ∧
      ∀ word ∈ cmd.words,
        stringAt 5 ['a', '\x00', 'b', '\x00', 'c', '\x00'] word.1 = Extent.text word := by
  have nulFree : '\x00' ∉ ['a', '>', 'b', '|', 'c'] := by decide
  have enough : 4 * ['a', '>', 'b', '|', 'c'].length + 8 ≤ 28 := by decide
  have accepted : parsecmd 28 ['a', '>', 'b', '|', 'c'] =
      .ok (.pipe (.redir (.exec [(['a', '>', 'b', '|', 'c'], ['>', 'b', '|', 'c'])])
        (['b', '|', 'c'], ['|', 'c']) (O_WRONLY ||| O_CREATE) 1) (.exec [(['c'], [])]),
        ['a', '\x00', 'b', '\x00', 'c', '\x00']) := by decide
  refine ⟨_, accepted, fun word member => ?_⟩
  exact (((words_survive nulFree enough accepted).2 _ fun _ => Iff.rfl).2 word member).2.2

end Coursework.Shell
