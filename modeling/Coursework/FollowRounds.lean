import Coursework.FollowSets

/-!
# The rounds of the follow sets

A pair of characters adds one set of characters, its contribution, to the follow
set of the first one.  So the loop of `follow()` is an iteration in rounds over
turns that only add to the sets; it ends if the string that decides about the end
is not empty.
-/

namespace Coursework.Grammar

theorem Progress.add_empty (progress : Progress) (lhs : Char) : progress.add lhs ∅ = progress := by
  simp [Progress.add]

theorem Progress.add_add (progress : Progress) (lhs : Char) (first second : Finset Char) :
    (progress.add lhs first).add lhs second = progress.add lhs (first ∪ second) := by
  have flags : (¬ first ⊆ progress.sets lhs ∨ ¬ second ⊆ progress.sets lhs ∪ first) ↔
      ¬ first ∪ second ⊆ progress.sets lhs := by
    rw [← not_and_or, not_iff_not, Finset.union_subset_iff]
    apply and_congr_right
    intro below
    rw [Finset.union_eq_left.mpr below]
  simp only [Progress.add, Function.update_self, Function.update_idem, Finset.union_assoc,
    Bool.or_assoc, ← Bool.decide_or, flags]

namespace Tables

variable {tables : Tables} {firstMap : CharSets} {lhs : Char} {sets : CharSets}
  {pair : Char × Char}

/-- What a nonterminal that ends a right side has from the left side. -/
def ofEnd (lhs : Char) (sets : CharSets) (followChar : Char) : Finset Char :=
  if followChar = '\x00' then (sets lhs).erase 'e' else ∅

/-- What a nonterminal has from the character after it. -/
def ofNext (tables : Tables) (firstMap : CharSets) (lhs : Char) (sets : CharSets)
    (followChar : Char) : Finset Char :=
  if tables.isTerminal followChar then ({followChar} : Finset Char).erase 'e'
  else (firstMap followChar).erase 'e' ∪
    if 'e' ∈ firstMap followChar then (sets lhs).erase 'e' else ∅

/-- What a pair adds to the set of its first character. -/
def contribution (tables : Tables) (firstMap : CharSets) (lhs : Char) (sets : CharSets)
    (pair : Char × Char) : Finset Char :=
  if tables.isTerminal pair.1 then ∅
  else ofEnd lhs sets pair.2 ∪ tables.ofNext firstMap lhs sets pair.2

theorem addFollowOfEnd_eq {firstChar : Char} (notTerminal : tables.isTerminal firstChar = false)
    (followChar : Char) (progress : Progress) :
    tables.addFollowOfEnd lhs firstChar followChar progress =
      progress.add firstChar (ofEnd lhs progress.sets followChar) := by
  unfold addFollowOfEnd ofEnd
  by_cases isEnd : followChar = '\x00'
  · rw [if_pos ⟨notTerminal, isEnd⟩, if_pos isEnd]
  · rw [if_neg (mt And.right isEnd), if_neg isEnd, Progress.add_empty]

theorem addFollowOfNext_eq {firstChar : Char} (notTerminal : tables.isTerminal firstChar = false)
    (followChar : Char) (progress : Progress) :
    tables.addFollowOfNonterminal firstMap lhs firstChar followChar
        (tables.addFollowOfTerminal firstChar followChar progress) =
      progress.add firstChar (tables.ofNext firstMap lhs progress.sets followChar) := by
  unfold addFollowOfNonterminal addFollowOfTerminal ofNext
  cases isTerminal : tables.isTerminal followChar with
  | true =>
      simp only [notTerminal, and_self, if_true, Bool.true_eq_false, and_false, if_false]
      by_cases isEmpty : followChar = 'e'
      · rw [if_neg (not_not.mpr isEmpty), isEmpty, Finset.erase_singleton, Progress.add_empty]
      · rw [if_pos isEmpty, Finset.erase_eq_of_notMem]
        simpa using Ne.symm isEmpty
  | false =>
      simp only [notTerminal, and_self, if_true, Bool.false_eq_true, and_false, if_false]
      split
      · rw [Progress.add_add]
      · rw [Finset.union_empty]

theorem addFollow_eq (progress : Progress) :
    tables.addFollow firstMap lhs progress pair =
      progress.add pair.1 (tables.contribution firstMap lhs progress.sets pair) := by
  obtain ⟨firstChar, followChar⟩ := pair
  unfold addFollow contribution
  cases isTerminal : tables.isTerminal firstChar with
  | true =>
      simp [addFollowOfNonterminal, addFollowOfTerminal, addFollowOfEnd, isTerminal,
        Progress.add_empty]
  | false =>
      rw [addFollowOfEnd_eq isTerminal, addFollowOfNext_eq isTerminal, Progress.add_add]
      have ofLhs : (progress.add firstChar (ofEnd lhs progress.sets followChar)).sets lhs =
          progress.sets lhs := by
        have below : ofEnd lhs progress.sets followChar ⊆ progress.sets lhs := by
          unfold ofEnd
          split
          · exact Finset.erase_subset _ _
          · exact Finset.empty_subset _
        by_cases isSelf : lhs = firstChar
        · subst isSelf
          rw [Progress.sets_add_self, Finset.union_eq_left.mpr below]
        · exact Progress.sets_add_of_ne progress _ isSelf
      simp only [ofNext, ofLhs, Bool.false_eq_true, if_false]

theorem addFollow_records (tables : Tables) (firstMap : CharSets) (lhs : Char) :
    Progress.Records (tables.addFollow firstMap lhs) := by
  constructor
  · intro progress pair
    rw [addFollow_eq]
    exact progress.le_add _ _
  · intro progress pair
    rw [addFollow_eq]
    exact progress.add_unchanged _ _

theorem addFollow_eq_iff (progress : Progress) :
    (tables.addFollow firstMap lhs progress pair).sets = progress.sets ↔
      tables.contribution firstMap lhs progress.sets pair ⊆ progress.sets pair.1 := by
  rw [addFollow_eq, Progress.add_sets_eq_iff]

/-- A pass changes nothing if the sets have what every pair contributes. -/
theorem foldl_addFollow_eq_iff (progress : Progress) (list : List (Char × Char)) :
    (list.foldl (tables.addFollow firstMap lhs) progress).sets = progress.sets ↔
      ∀ pair ∈ list, tables.contribution firstMap lhs progress.sets pair ⊆
        progress.sets pair.1 := by
  induction list generalizing progress with
  | nil => simp
  | cons pair list ih =>
      rw [(tables.addFollow_records firstMap lhs).foldl_cons_eq_iff, ih, List.forall_mem_cons,
        ← addFollow_eq_iff]
      apply and_congr_right
      intro first
      rw [first]

theorem contribution_mono {more : CharSets} (le : sets lhs ⊆ more lhs) :
    tables.contribution firstMap lhs sets pair ⊆ tables.contribution firstMap lhs more pair := by
  have erased := Finset.erase_subset_erase 'e' le
  unfold contribution
  split
  · exact Finset.Subset.refl _
  · apply Finset.union_subset_union
    · unfold ofEnd
      split
      · exact erased
      · exact Finset.Subset.refl _
    · unfold ofNext
      split
      · exact Finset.Subset.refl _
      · apply Finset.union_subset_union (Finset.Subset.refl _)
        split
        · exact erased
        · exact Finset.Subset.refl _

/-- Sets that have all contributions stay above. -/
theorem foldl_addFollow_le {bound : CharSets} (progress : Progress) {list : List (Char × Char)}
    (closed : ∀ pair ∈ list, tables.contribution firstMap lhs bound pair ⊆ bound pair.1)
    (below : progress.sets ≤ bound) :
    (list.foldl (tables.addFollow firstMap lhs) progress).sets ≤ bound := by
  induction list generalizing progress with
  | nil => exact below
  | cons pair list ih =>
      rw [List.forall_mem_cons] at closed
      apply ih _ closed.2
      intro other
      rw [addFollow_eq]
      by_cases same : other = pair.1
      · subst same
        rw [Progress.sets_add_self]
        exact Finset.union_subset (below _) ((contribution_mono (below lhs)).trans closed.1)
      · rw [Progress.sets_add_of_ne progress _ same]
        exact below other

/-! ## The flag -/

theorem foldl_takePair (decides : Bool) (state : Progress × Bool) (list : List (Char × Char)) :
    (list.foldl (tables.takePair firstMap lhs decides) state).1 =
      list.foldl (tables.addFollow firstMap lhs) state.1 := by
  induction list generalizing state with
  | nil => rfl
  | cons pair list ih => exact ih _

/-- The flag is down after some pair if it is down after the first one. -/
theorem foldl_complete (decides : Bool) (state : Progress × Bool) (list : List (Char × Char)) :
    (list.foldl (tables.takePair firstMap lhs decides) state).2 = true ↔
      state.2 = true ∨ decides = true ∧ ∃ pair ∈ list.head?,
        (tables.addFollow firstMap lhs state.1 pair).changes = false := by
  induction list generalizing state with
  | nil => simp
  | cons pair list ih =>
      have later : ∀ next, (tables.addFollow firstMap lhs
          (tables.addFollow firstMap lhs state.1 pair) next).changes = false →
          (tables.addFollow firstMap lhs state.1 pair).changes = false :=
        fun next down => (((tables.addFollow_records firstMap lhs).unchanged _ next).mp down).1
      rw [List.foldl_cons, ih]
      simp only [takePair, Bool.or_eq_true, Bool.and_eq_true, Bool.not_eq_true', List.head?_cons,
        Option.mem_some_iff, exists_eq_left']
      constructor
      · rintro ((complete | here) | ⟨isDeciding, next, -, down⟩)
        · exact .inl complete
        · exact .inr here
        · exact .inr ⟨isDeciding, later next down⟩
      · rintro (complete | here)
        · exact .inl (.inl complete)
        · exact .inl (.inr here)

/-! ## The loop over the nonterminals -/

/-- The pairs for a nonterminal. -/
def pairList (tables : Tables) (lhs : Char) : List (Char × Char) :=
  (tables.pairs (tables.production lhs)).getD []

/-- A pass for a nonterminal stays within its string. -/
def PassesWithin (tables : Tables) (lhs : Char) : Prop :=
  (tables.pairs (tables.production lhs)).isSome = true

/-- The body of the outer loop. -/
def followTurn (tables : Tables) (firstMap : CharSets) (i : Nat) (sets : CharSets)
    (changes : Bool) : RoundRobin.Turn CharSets :=
  let size := tables.nonTerminal.length
  let lhs := tables.nonTerminal.getD i '\x00'
  let taken := (tables.pairList lhs).foldl
    (tables.takePair firstMap lhs (decide ((i + 1) % size = size - 1))) (⟨sets, changes⟩, false)
  { state := taken.1.sets, changes := taken.1.changes, complete := taken.2 }

section Loop

variable {inner fuel i : Nat} {progress : Progress}

/-- The body of the outer loop up to the pass. -/
theorem followLoop_succ (fits : tables.Fits inner) (unquoted : '\'' ∉ tables.nonTerminal)
    (inRange : i < tables.nonTerminal.length) :
    tables.followLoop firstMap inner (fuel + 1) i progress =
      tables.passed firstMap (tables.nonTerminal.getD i '\x00')
        (decide ((i + 1) % tables.nonTerminal.length = tables.nonTerminal.length - 1))
        (⟨progress.sets, RoundRobin.cleared tables.nonTerminal.length i progress.changes⟩, false)
        (tables.pairs (tables.production (tables.nonTerminal.getD i '\x00'))) >>= fun result =>
      if result.2 then .ok result.1.sets
      else tables.followLoop firstMap inner fuel ((i + 1) % tables.nonTerminal.length)
        result.1 := by
  have member := getD_mem inRange
  have notQuote : tables.nonTerminal.getD i '\x00' ≠ '\'' := by
    intro isQuote
    rw [isQuote] at member
    exact unquoted member
  have start : (if (i + 1) % tables.nonTerminal.length = 0 then
      { progress with changes := false } else progress) =
      ⟨progress.sets, RoundRobin.cleared tables.nonTerminal.length i progress.changes⟩ := by
    unfold RoundRobin.cleared
    split <;> rfl
  have enough := fits _ member
  rw [followLoop, Nat.mod_eq_of_lt inRange]
  simp only [notQuote, if_false, start]
  rw [followProduction_eq (by omega)]

theorem followLoop_turn (fits : tables.Fits inner) (unquoted : '\'' ∉ tables.nonTerminal)
    (inRange : i < tables.nonTerminal.length)
    (within : tables.PassesWithin (tables.nonTerminal.getD i '\x00')) :
    tables.followLoop firstMap inner (fuel + 1) i progress =
      let taken := tables.followTurn firstMap i progress.sets
        (RoundRobin.cleared tables.nonTerminal.length i progress.changes)
      if taken.complete then .ok taken.state
      else tables.followLoop firstMap inner fuel ((i + 1) % tables.nonTerminal.length)
        ⟨taken.state, taken.changes⟩ := by
  obtain ⟨list, isList⟩ := Option.isSome_iff_exists.mp within
  rw [followLoop_succ fits unquoted inRange]
  simp only [followTurn, pairList, isList, passed, Option.getD_some, bind, Except.bind]

theorem followLoop_beyond (fits : tables.Fits inner) (unquoted : '\'' ∉ tables.nonTerminal)
    (inRange : i < tables.nonTerminal.length)
    (beyond : ¬ tables.PassesWithin (tables.nonTerminal.getD i '\x00')) :
    tables.followLoop firstMap inner (fuel + 1) i progress = .error .range := by
  have isNone : tables.pairs (tables.production (tables.nonTerminal.getD i '\x00')) = none := by
    simpa [PassesWithin] using beyond
  rw [followLoop_succ fits unquoted inRange, isNone]
  rfl

theorem followLoop_eq (within : ∀ lhs ∈ tables.nonTerminal, tables.PassesWithin lhs)
    (fits : tables.Fits inner) (unquoted : '\'' ∉ tables.nonTerminal)
    (inRange : i < tables.nonTerminal.length) :
    tables.followLoop firstMap inner fuel i progress =
      match RoundRobin.rounds tables.nonTerminal.length (tables.followTurn firstMap) fuel i
        progress.changes progress.sets with
      | some result => .ok result
      | none => .error .fuel := by
  induction fuel generalizing i progress with
  | zero => rfl
  | succ fuel ih =>
      have nextRange : (i + 1) % tables.nonTerminal.length < tables.nonTerminal.length :=
        Nat.mod_lt _ (by omega)
      rw [followLoop_turn fits unquoted inRange (within _ (getD_mem inRange)), RoundRobin.rounds]
      simp only
      split
      · rfl
      · exact ih nextRange

end Loop

/-! ## The end of the loop -/

/-- The characters that can be in a follow set. -/
def followUniverse (tables : Tables) (firstMap : CharSets) : Finset Char :=
  (tables.nonTerminal.flatMap tables.pairList).toFinset.biUnion fun pair =>
    insert pair.2 (firstMap pair.2)

/-- The characters that stand first in a pair. -/
def firstChars (tables : Tables) : Finset Char :=
  ((tables.nonTerminal.flatMap tables.pairList).map Prod.fst).toFinset

/-- The sizes of their sets. -/
def followSizes (tables : Tables) (sets : CharSets) : Nat :=
  ∑ other ∈ tables.firstChars, (sets other).card

def WithinFollow (tables : Tables) (firstMap sets : CharSets) : Prop :=
  sets ≤ fun _ => tables.followUniverse firstMap

theorem contribution_within {i : Nat} (inRange : i < tables.nonTerminal.length)
    (member : pair ∈ tables.pairList (tables.nonTerminal.getD i '\x00'))
    (within : tables.WithinFollow firstMap sets) :
    tables.contribution firstMap lhs sets pair ⊆ tables.followUniverse firstMap := by
  have listed : pair ∈ (tables.nonTerminal.flatMap tables.pairList).toFinset :=
    List.mem_toFinset.mpr (List.mem_flatMap.mpr ⟨_, getD_mem inRange, member⟩)
  have here : insert pair.2 (firstMap pair.2) ⊆ tables.followUniverse firstMap :=
    Finset.subset_biUnion_of_mem (fun pair => insert pair.2 (firstMap pair.2)) listed
  have ofLhs : (sets lhs).erase 'e' ⊆ tables.followUniverse firstMap :=
    (Finset.erase_subset _ _).trans (within lhs)
  unfold contribution
  split
  · exact Finset.empty_subset _
  · apply Finset.union_subset
    · unfold ofEnd
      split
      · exact ofLhs
      · exact Finset.empty_subset _
    · unfold ofNext
      split
      · apply (Finset.erase_subset _ _).trans
        exact (Finset.singleton_subset_iff.mpr (Finset.mem_insert_self _ _)).trans here
      · apply Finset.union_subset
        · exact (Finset.erase_subset _ _).trans ((Finset.subset_insert _ _).trans here)
        · split
          · exact ofLhs
          · exact Finset.empty_subset _

/-- Only the sets of the characters that stand first in a pair change. -/
theorem foldl_addFollow_of_not_mem (progress : Progress) {list : List (Char × Char)}
    {other : Char} (absent : other ∉ list.map Prod.fst) :
    (list.foldl (tables.addFollow firstMap lhs) progress).sets other = progress.sets other := by
  induction list generalizing progress with
  | nil => rfl
  | cons pair list ih =>
      rw [List.map_cons, List.mem_cons, not_or] at absent
      rw [List.foldl_cons, ih _ absent.2, addFollow_eq]
      exact Progress.sets_add_of_ne progress _ absent.1

theorem followTurn_state (i : Nat) (sets : CharSets) (changes : Bool) :
    (tables.followTurn firstMap i sets changes).state =
      ((tables.pairList (tables.nonTerminal.getD i '\x00')).foldl
        (tables.addFollow firstMap (tables.nonTerminal.getD i '\x00')) ⟨sets, changes⟩).sets :=
  congrArg Progress.sets (foldl_takePair ..)

theorem followTurn_changes (i : Nat) (sets : CharSets) (changes : Bool) :
    (tables.followTurn firstMap i sets changes).changes =
      ((tables.pairList (tables.nonTerminal.getD i '\x00')).foldl
        (tables.addFollow firstMap (tables.nonTerminal.getD i '\x00')) ⟨sets, changes⟩).changes :=
  congrArg Progress.changes (foldl_takePair ..)

theorem followTurn_growing (tables : Tables) (firstMap : CharSets) :
    RoundRobin.Growing tables.nonTerminal.length (tables.followTurn firstMap)
      tables.followSizes (tables.firstChars.card * (tables.followUniverse firstMap).card)
      (tables.WithinFollow firstMap) := by
  constructor
  · intro i sets changes inRange within
    rw [followTurn_state]
    apply foldl_addFollow_le _ _ within
    intro pair member
    exact contribution_within inRange member fun _ => Finset.Subset.refl _
  · intro i sets changes inRange within
    rw [followTurn_state, followTurn_changes]
    exact (tables.addFollow_records firstMap _).foldl_unchanged ⟨sets, changes⟩ _
  · intro i sets changes inRange within changed
    rw [followTurn_state] at changed ⊢
    have below := (tables.addFollow_records firstMap
      (tables.nonTerminal.getD i '\x00')).le_foldl ⟨sets, changes⟩
      (tables.pairList (tables.nonTerminal.getD i '\x00'))
    obtain ⟨other, differs⟩ := Function.ne_iff.mp changed
    have member : other ∈ tables.firstChars := by
      by_contra absent
      apply differs
      apply foldl_addFollow_of_not_mem
      intro listed
      apply absent
      obtain ⟨pair, isPair, rfl⟩ := List.mem_map.mp listed
      rw [firstChars, List.mem_toFinset]
      exact List.mem_map_of_mem (List.mem_flatMap.mpr ⟨_, getD_mem inRange, isPair⟩)
    apply Finset.sum_lt_sum
    · intro other _
      exact Finset.card_le_card (below other)
    · exact ⟨other, member, Finset.card_lt_card (lt_of_le_of_ne (below other) differs.symm)⟩
  · intro sets within
    apply Finset.sum_le_card_nsmul
    intro other _
    exact Finset.card_le_card (within other)

theorem followTurn_complete_iff (i : Nat) (sets : CharSets) (changes : Bool) :
    (tables.followTurn firstMap i sets changes).complete = true ↔
      (i + 1) % tables.nonTerminal.length = tables.nonTerminal.length - 1 ∧
        ∃ pair ∈ (tables.pairList (tables.nonTerminal.getD i '\x00')).head?,
          (tables.addFollow firstMap (tables.nonTerminal.getD i '\x00') ⟨sets, changes⟩
            pair).changes = false := by
  rw [followTurn, foldl_complete, decide_eq_true_eq]
  simp only [Bool.false_eq_true, false_or]

/-- The nonterminal before the last one, or the only one. -/
def deciding (tables : Tables) : Char :=
  tables.nonTerminal.getD (tables.nonTerminal.length - 2) '\x00'

theorem deciding_of_turn {i : Nat} (inRange : i < tables.nonTerminal.length)
    (decides : (i + 1) % tables.nonTerminal.length = tables.nonTerminal.length - 1) :
    tables.nonTerminal.getD i '\x00' = tables.deciding := by
  have isIndex : i = tables.nonTerminal.length - 2 := by
    by_cases isLast : i = tables.nonTerminal.length - 1
    · have next : (i + 1) % tables.nonTerminal.length = 0 := by
        rw [isLast, Nat.sub_add_cancel (by omega), Nat.mod_self]
      omega
    · rw [Nat.mod_eq_of_lt (by omega)] at decides
      omega
  rw [deciding, isIndex]

theorem pairs_ne_nil {list : List (Char × Char)} {expr : List Char} (nonempty : expr ≠ [])
    (isList : tables.pairs expr = some list) : list ≠ [] := by
  rintro rfl
  cases expr with
  | nil => exact nonempty rfl
  | cons c rest =>
      cases rest with
      | nil =>
          rw [pairs] at isList
          split at isList
          · cases isList
          · cases isList
      | cons d rest =>
          rw [pairs] at isList
          split at isList
          · obtain ⟨list, -, impossible⟩ := Option.map_eq_some_iff.mp isList
            cases impossible
          · obtain ⟨list, -, impossible⟩ := Option.map_eq_some_iff.mp isList
            cases impossible

/-- The rounds of the follow sets end if there is a pair where the end is decided. -/
theorem followRounds_end (firstMap : CharSets) (nonempty : tables.nonTerminal ≠ [])
    (decided : tables.pairList tables.deciding ≠ []) :
    ∃ enough result, ∀ fuel, enough ≤ fuel →
      RoundRobin.rounds tables.nonTerminal.length (tables.followTurn firstMap) fuel 0 false
        (fun _ => ∅) = some result := by
  have positive := List.length_pos_of_ne_nil nonempty
  have within : tables.WithinFollow firstMap fun _ => ∅ := fun _ => Finset.empty_subset _
  obtain ⟨pair, isFirst⟩ : ∃ pair, (tables.pairList tables.deciding).head? = some pair :=
    ⟨_, List.head?_eq_some_head decided⟩
  obtain ⟨enough, result, ends⟩ := RoundRobin.rounds_ends (tables.followTurn_growing firstMap)
    (by
      intro i sets flag inRange _ atEnd down
      rw [followTurn_complete_iff, deciding_of_turn inRange atEnd]
      refine ⟨atEnd, pair, isFirst, ?_⟩
      rw [followTurn_changes, deciding_of_turn inRange atEnd] at down
      obtain ⟨rest, isList⟩ := List.head?_eq_some_iff.mp isFirst
      rw [isList, List.foldl_cons] at down
      exact (((tables.addFollow_records firstMap _).foldl_unchanged _ _).mp down).1)
    positive within false
  exact ⟨enough, result, fun fuel le => RoundRobin.rounds_mono ends le⟩

end Tables

end Coursework.Grammar
