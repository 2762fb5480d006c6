import Coursework.FirstSets

/-!
# The two versions of `first()`

The loop of `Firstfollow.cpp` starts with the flag down.  If the nonterminals
before the last one add nothing in the first round, it ends without having looked
at the last one; otherwise the flag is up at the first test, and the two loops
take the same steps.  In the first round only a leading terminal can add
something.
-/

namespace Coursework.Grammar

namespace Tables

variable {tables : Tables}

/-- An alternative of `lhs` starts with a terminal. -/
def LeadsWithTerminal (tables : Tables) (lhs : Char) : Prop :=
  ∃ alternative ∈ alternatives (tables.production lhs), ∃ c rest,
    alternative = c :: rest ∧ tables.isTerminal c = true

theorem leadsWithTerminal_iff {lhs : Char} : tables.LeadsWithTerminal lhs ↔
    ∃ c ∈ leading (tables.production lhs), tables.isTerminal c = true := by
  unfold LeadsWithTerminal leading
  constructor
  · rintro ⟨_, isAlternative, c, rest, rfl, isTerminal⟩
    exact ⟨c, List.mem_filterMap.mpr ⟨_, isAlternative, rfl⟩, isTerminal⟩
  · rintro ⟨c, isLeading, isTerminal⟩
    obtain ⟨alternative, isAlternative, head⟩ := List.mem_filterMap.mp isLeading
    obtain ⟨rest, rfl⟩ := List.head?_eq_some_iff.mp head
    exact ⟨_, isAlternative, c, rest, rfl, isTerminal⟩

/-- A turn that finds all sets empty adds something only for a leading terminal. -/
theorem turn_empty_iff {k : Nat} : (tables.turn k (fun _ => ∅) false).state = (fun _ => ∅) ↔
    ¬ tables.LeadsWithTerminal (tables.nonTerminal.getD k '\x00') := by
  rw [leadsWithTerminal_iff]
  simp only [turn, pass]
  rw [foldl_eq_iff]
  simp [Contributes]

/-- The nonterminals before the last one, by their places. -/
theorem exists_dropLast_iff {holds : Char → Prop} :
    (∃ lhs ∈ tables.nonTerminal.dropLast, holds lhs) ↔
      ∃ k, k < tables.nonTerminal.length - 1 ∧ holds (tables.nonTerminal.getD k '\x00') := by
  constructor
  · rintro ⟨lhs, member, isHolding⟩
    obtain ⟨k, below, isLhs⟩ := List.getElem_of_mem member
    rw [List.length_dropLast] at below
    rw [List.getElem_dropLast] at isLhs
    refine ⟨k, below, ?_⟩
    rw [List.getD_eq_getElem?_getD, List.getElem?_eq_getElem (by omega), Option.getD_some, isLhs]
    exact isHolding
  · rintro ⟨k, below, isHolding⟩
    refine ⟨_, ?_, isHolding⟩
    rw [List.getD_eq_getElem?_getD, List.getElem?_eq_getElem (by omega), Option.getD_some]
    rw [← List.getElem_dropLast (by rw [List.length_dropLast]; exact below)]
    exact List.getElem_mem _

theorem turn_flagUp (i : Nat) (sets : CharSets) :
    (tables.turn i sets true).changes = true ∧ (tables.turn i sets true).complete = false := by
  have up : (tables.turn i sets true).changes = true := by
    by_contra isDown
    have down : (tables.turn i sets true).changes = false := by simpa using isDown
    cases ((foldl_unchanged ⟨sets, true⟩ _).mp down).1
  refine ⟨up, ?_⟩
  by_contra complete
  rw [((turn_complete_iff i sets true).mp (by simpa using complete)).2] at up
  cases up

/-- The rounds from a lowered flag are those from a raised one, if a nonterminal before
the last one leads with a terminal. -/
theorem rounds_same {fuel : Nat}
    (active : ∃ lhs ∈ tables.nonTerminal.dropLast, tables.LeadsWithTerminal lhs) :
    RoundRobin.rounds tables.nonTerminal.length tables.turn fuel 0 false (fun _ => ∅) =
      RoundRobin.rounds tables.nonTerminal.length tables.turn fuel 0 true (fun _ => ∅) := by
  obtain ⟨k, below, leads⟩ := exists_dropLast_iff.mp active
  apply RoundRobin.rounds_flag tables.turn_growing turn_uniform
  · intro i sets _ _
    exact turn_flagUp i sets
  · intro i sets flag _ complete
    exact (turn_complete_iff i sets flag).mp complete
  · exact fun _ => Finset.empty_subset _
  · exact ⟨k, Nat.zero_le k, below, fun same => turn_empty_iff.mp same leads⟩

/-- The rounds from a lowered flag end at once otherwise. -/
theorem rounds_empty {fuel : Nat} (several : 1 < tables.nonTerminal.length)
    (idle : ¬ ∃ lhs ∈ tables.nonTerminal.dropLast, tables.LeadsWithTerminal lhs)
    (enough : tables.nonTerminal.length ≤ fuel) :
    RoundRobin.rounds tables.nonTerminal.length tables.turn fuel 0 false (fun _ => ∅) =
      some fun _ => ∅ := by
  apply RoundRobin.rounds_idle tables.turn_growing
  · intro i sets flag _ _ atEnd down
    exact (turn_complete_iff i sets flag).mpr ⟨atEnd, down⟩
  · exact fun _ => Finset.empty_subset _
  · omega
  · intro k _ below
    rw [turn_empty_iff]
    intro leads
    exact idle (exists_dropLast_iff.mpr ⟨k, below, leads⟩)
  · intro k _ notEnd
    by_contra complete
    exact notEnd ((turn_complete_iff k _ false).mp (by simpa using complete)).1
  · omega

/-- Without leading terminals all least sets are empty. -/
theorem least_empty {result : CharSets} (least : IsLeast {sets | tables.FirstClosed sets} result)
    (none : ∀ lhs ∈ tables.nonTerminal, ¬ tables.LeadsWithTerminal lhs) :
    result = fun _ => ∅ := by
  have closed : tables.FirstClosed fun _ => ∅ := by
    intro lhs member alternative isAlternative c rest isCons
    have notTerminal : tables.isTerminal c = false := by
      by_contra isTerminal
      exact none lhs member ⟨alternative, isAlternative, c, rest, isCons, by simpa using isTerminal⟩
    simp [Contributes, notTerminal]
  funext lhs
  exact Finset.subset_empty.mp (least.2 closed lhs)

/-- The last nonterminal. -/
theorem mem_dropLast_or {lhs last : Char} (isLast : tables.nonTerminal.getLast? = some last)
    (member : lhs ∈ tables.nonTerminal) : lhs ∈ tables.nonTerminal.dropLast ∨ lhs = last := by
  rw [← List.dropLast_append_getLast? last isLast] at member
  simpa using member

/-- Both versions of `first()` end with the same sets. -/
def VersionsAgree (tables : Tables) : Prop :=
  ∃ enough result other, (∀ fuel, enough ≤ fuel → tables.first fuel = .ok result ∧
      tables.firstOfFirstfollow fuel = .ok other) ∧
    ∀ lhs ∈ tables.nonTerminal, result lhs = other lhs

/-- The version of `Firstfollow.cpp` misses what the last nonterminal leads with. -/
theorem not_agree {last : Char} (nonempty : tables.nonTerminal ≠ [])
    (unquoted : '\'' ∉ tables.nonTerminal) (full : tables.NoEmptyAlternative)
    (several : 1 < tables.nonTerminal.length)
    (idle : ¬ ∃ lhs ∈ tables.nonTerminal.dropLast, tables.LeadsWithTerminal lhs)
    (isLast : tables.nonTerminal.getLast? = some last) (leads : tables.LeadsWithTerminal last) :
    ¬ tables.VersionsAgree := by
  rintro ⟨size, first, second, both, same⟩
  obtain ⟨enough, result, ends, rounds⟩ := first_ends full.scannable nonempty unquoted true true
  obtain ⟨enough', other, ends', rounds'⟩ :=
    first_ends full.scannable nonempty unquoted false false
  have least := rounds_least nonempty (rounds enough (le_refl enough))
  obtain ⟨alternative, isAlternative, c, rest, isCons, isTerminal⟩ := leads
  have member : last ∈ tables.nonTerminal := List.mem_of_getLast? isLast
  -- enough steps for all the runs at once
  set fuel := max (max size tables.nonTerminal.length) (max enough enough') with isFuel
  obtain ⟨isFirst, isSecond⟩ := both fuel (by omega)
  have firstSame : first = result := by
    rw [Tables.first, ends fuel (by omega)] at isFirst
    exact (Except.ok.inj isFirst).symm
  have secondSame : second = other := by
    rw [firstOfFirstfollow, ends' fuel (by omega)] at isSecond
    exact (Except.ok.inj isSecond).symm
  have otherEmpty : other = fun _ => ∅ := by
    have empty := rounds_empty several idle (show tables.nonTerminal.length ≤ fuel by omega)
    rw [rounds' fuel (by omega)] at empty
    exact Option.some.inj empty
  have contributes : tables.Contributes result last c :=
    least.1 last member alternative isAlternative c rest isCons
  rw [Contributes, if_pos isTerminal, ← firstSame, same last member, secondSame,
    otherEmpty] at contributes
  exact Finset.notMem_empty c contributes

end Tables

/-- Both versions of `first()` end with the same sets if and only if there is one
nonterminal, or one before the last leads with a terminal, or the last one does not. -/
theorem first_versions_agree_iff {tables : Tables} (nonempty : tables.nonTerminal ≠ [])
    (unquoted : '\'' ∉ tables.nonTerminal) (full : tables.NoEmptyAlternative) :
    tables.VersionsAgree ↔
      tables.nonTerminal.length = 1 ∨
        (∃ lhs ∈ tables.nonTerminal.dropLast, tables.LeadsWithTerminal lhs) ∨
        ∀ last, tables.nonTerminal.getLast? = some last → ¬ tables.LeadsWithTerminal last := by
  obtain ⟨enough, result, ends, rounds⟩ :=
    Tables.first_ends full.scannable nonempty unquoted true true
  obtain ⟨enough', other, ends', rounds'⟩ :=
    Tables.first_ends full.scannable nonempty unquoted false false
  have least := Tables.rounds_least nonempty (rounds enough (le_refl enough))
  have positive := List.length_pos_of_ne_nil nonempty
  constructor
  · rintro ⟨size, first, second, both, same⟩
    by_contra fails
    rw [not_or, not_or] at fails
    obtain ⟨notOne, idle, lastLeads⟩ := fails
    push Not at lastLeads
    obtain ⟨last, isLast, leads⟩ := lastLeads
    exact Tables.not_agree nonempty unquoted full (by omega) idle isLast leads
      ⟨size, first, second, both, same⟩
  · intro condition
    refine ⟨max enough enough', result, other, ?_, ?_⟩
    · intro fuel le
      exact ⟨ends fuel (by omega), ends' fuel (by omega)⟩
    · set fuel := max tables.nonTerminal.length (max enough enough') with isFuel
      have ofRounds : RoundRobin.rounds tables.nonTerminal.length tables.turn fuel 0 false
          (fun _ => ∅) = RoundRobin.rounds tables.nonTerminal.length tables.turn fuel 0 true
          (fun _ => ∅) → result = other := by
        intro equal
        rw [rounds fuel (by omega), rounds' fuel (by omega)] at equal
        exact (Option.some.inj equal).symm
      have agree : result = other := by
        by_cases active : ∃ lhs ∈ tables.nonTerminal.dropLast, tables.LeadsWithTerminal lhs
        · exact ofRounds (Tables.rounds_same active)
        · by_cases single : tables.nonTerminal.length = 1
          · apply ofRounds
            rw [single]
            exact RoundRobin.rounds_single false true
          · have quiet : ∀ lhs ∈ tables.nonTerminal, ¬ tables.LeadsWithTerminal lhs := by
              intro lhs member leads
              obtain ⟨last, isLast⟩ : ∃ last, tables.nonTerminal.getLast? = some last :=
                ⟨_, List.getLast?_eq_some_getLast nonempty⟩
              rcases Tables.mem_dropLast_or isLast member with before | rfl
              · exact active ⟨lhs, before, leads⟩
              · exact ((condition.resolve_left single).resolve_left active) lhs isLast leads
            have empty := Tables.rounds_empty (by omega) active
              (show tables.nonTerminal.length ≤ fuel by omega)
            rw [rounds' fuel (by omega)] at empty
            rw [Tables.least_empty least quiet, Option.some.inj empty]
      intro lhs _
      rw [agree]

theorem first_versions_agree_iff_leads : ∃ tables : Tables,
    (∃ lhs ∈ tables.nonTerminal.dropLast, tables.LeadsWithTerminal lhs) ∧
      tables.VersionsAgree := by
  let swapped : Tables := { chained with nonTerminal := ['A', 'S'] }
  have leads : ∃ lhs ∈ swapped.nonTerminal.dropLast, swapped.LeadsWithTerminal lhs :=
    ⟨'A', by decide, ['a'], by decide, 'a', [], rfl, by decide⟩
  have full : swapped.NoEmptyAlternative := by
    intro lhs member
    simp only [swapped, List.mem_cons, List.not_mem_nil, or_false] at member
    rcases member with rfl | rfl <;> decide
  exact ⟨swapped, leads,
    (first_versions_agree_iff (by decide) (by decide) full).mpr (.inr (.inl leads))⟩

/-- `S -> A` and `A -> a`, in this order. -/
theorem chained_versions_differ : ¬ chained.VersionsAgree := by
  have isLast : chained.nonTerminal.getLast? = some 'A' := rfl
  have only : Tables.alternatives (chained.production 'S') = [['A']] := by decide
  refine Tables.not_agree (by decide) (by decide) chained_full (by decide) ?_ isLast
    ⟨['a'], by decide, 'a', [], rfl, by decide⟩
  rintro ⟨lhs, member, alternative, isAlternative, c, rest, isCons, isTerminal⟩
  simp only [chained, List.dropLast_cons_cons, List.dropLast_singleton, List.mem_singleton]
    at member
  subst member
  rw [only, List.mem_singleton] at isAlternative
  rw [isAlternative] at isCons
  cases isCons
  exact absurd isTerminal (by decide)

end Coursework.Grammar
