import Coursework.FirstSets
import Coursework.GrammarFormat
import Coursework.LeadingSymbols

/-!
# First sets and derivations

The first set of a nonterminal in the sense of derivations, compared with the
result of `first()`.  The code looks only at the first symbol of a right side.  If
this symbol can be erased, what the rest of the right side begins with is missed,
and the mark for the empty string is passed on although the rest may not be
erasable.  The two agree if neither of this shows.
-/

namespace Coursework.Grammar

variable {lines : List (List Char)}

/-- The symbols that characters of a right side stand for. -/
def symbols (lines : List (List Char)) (chars : List Char) : List (Symbol Char Char) :=
  chars.map fun c => if c ∈ terminals lines then .terminal c else .nonterminal c

/-- The string of symbols for a right side. -/
def output (lines : List (List Char)) (side : List Char) : List (Symbol Char Char) :=
  if side = ['e'] then [] else symbols lines side

/-- The rules with the left side `lhs`. -/
def rulesFor (lines : List (List Char)) (lhs : Char) : List (ContextFreeRule Char Char) :=
  (rightSides lines lhs).map fun side => ⟨lhs, output lines side⟩

def ruleList (lines : List (List Char)) : List (ContextFreeRule Char Char) :=
  (lines.map (·.getD 0 '\x00')).flatMap (rulesFor lines)

/-- The grammar that a file describes. -/
def grammar (lines : List (List Char)) : ContextFreeGrammar Char where
  NT := Char
  initial := ((lines.map (·.getD 0 '\x00')).find? (·.isUpper)).getD 'S'
  rules := (ruleList lines).toFinset

/-- The textbook set: the terminals that begin a derived string, and `e` if the empty
string is derived. -/
def InFirst (lines : List (List Char)) (lhs c : Char) : Prop :=
  (∃ rest, (grammar lines).Derives [.nonterminal lhs] (.terminal c :: rest)) ∨
    (c = 'e' ∧ (grammar lines).Derives [.nonterminal lhs] [])

/-- `first()` ends with the textbook sets. -/
def FirstIsTextbook (lines : List (List Char)) : Prop :=
  ∃ tables, Tables.read lines = some tables ∧
    ∃ enough result, (∀ fuel, enough ≤ fuel → tables.first fuel = .ok result) ∧
      ∀ lhs ∈ tables.nonTerminal, ∀ c, c ∈ result lhs ↔ InFirst lines lhs c

/-- A terminal that is found from `lhs` along the first symbols of right sides. -/
inductive LeadsTo (lines : List (List Char)) : Char → Char → Prop
  | terminal {lhs a : Char} {rest : List Char} : a :: rest ∈ rightSides lines lhs →
      a ∈ terminals lines → LeadsTo lines lhs a
  | nonterminal {lhs b a : Char} {rest : List Char} : b :: rest ∈ rightSides lines lhs →
      LeadsTo lines b a → LeadsTo lines lhs a

/-- Where a right side starts with a nonterminal that can be erased, its left side can
be erased too, and what the rest begins with is found along first symbols. -/
def ErasableCovered (lines : List (List Char)) : Prop :=
  ∀ lhs b rest, b :: rest ∈ rightSides lines lhs →
    (grammar lines).Derives [.nonterminal b] [] →
      (grammar lines).Derives [.nonterminal lhs] [] ∧
        ∀ a tail, (grammar lines).Derives (symbols lines rest) (.terminal a :: tail) →
          LeadsTo lines lhs a

/-! ## The rules of a file -/

theorem head_of_side {lhs : Char} {side : List Char} (member : side ∈ rightSides lines lhs) :
    lhs ∈ lines.map (·.getD 0 '\x00') := by
  obtain ⟨line, inLines, inLine⟩ := List.mem_flatMap.mp member
  refine List.mem_map.mpr ⟨line, inLines, ?_⟩
  unfold lineSides at inLine
  split at inLine
  · split at inLine
    · next isLhs => exact isLhs.1
    · cases inLine
  · cases inLine

theorem mem_ruleList {r : ContextFreeRule Char Char} : r ∈ ruleList lines ↔
    ∃ side ∈ rightSides lines r.input, r.output = output lines side := by
  simp only [ruleList, List.mem_flatMap, rulesFor, List.mem_map]
  constructor
  · rintro ⟨lhs, -, side, member, rfl⟩
    exact ⟨side, member, rfl⟩
  · rintro ⟨side, member, isOutput⟩
    have isHead := List.mem_map.mp (head_of_side member)
    exact ⟨r.input, isHead, side, member, by rw [← isOutput]⟩

theorem mem_rules {r : ContextFreeRule Char Char} : r ∈ (grammar lines).rules ↔
    ∃ side ∈ rightSides lines r.input, r.output = output lines side :=
  List.mem_toFinset.trans mem_ruleList

theorem output_of_ne {side : List Char} (notEmpty : side ≠ ['e']) :
    output lines side = symbols lines side :=
  if_neg notEmpty

theorem symbols_terminal {a : Char} (member : a ∈ terminals lines) (rest : List Char) :
    symbols lines (a :: rest) = .terminal a :: symbols lines rest := by
  simp [symbols, member]

theorem symbols_nonterminal {b : Char} (notTerminal : b ∉ terminals lines) (rest : List Char) :
    symbols lines (b :: rest) = .nonterminal b :: symbols lines rest := by
  simp [symbols, notTerminal]

theorem begins_of_side {lhs a : Char} {side : List Char} (member : side ∈ rightSides lines lhs)
    (begins : Begins (grammar lines) (output lines side) (some a)) :
    Begins (grammar lines) [.nonterminal lhs] (some a) :=
  Begins.expand (r := ⟨lhs, output lines side⟩) [] (mem_rules.mpr ⟨side, member, rfl⟩) begins

theorem erased_of_side {lhs : Char} {side : List Char} (member : side ∈ rightSides lines lhs)
    (erased : Begins (grammar lines) (output lines side) none) :
    Begins (grammar lines) [.nonterminal lhs] none :=
  Begins.erase (r := ⟨lhs, output lines side⟩) (mem_rules.mpr ⟨side, member, rfl⟩) erased .nil

theorem inFirst_iff {lhs c : Char} : InFirst lines lhs c ↔
    Begins (grammar lines) [.nonterminal lhs] (some c) ∨
      (c = 'e' ∧ Begins (grammar lines) [.nonterminal lhs] none) := by
  rw [InFirst, Begins.some_iff, Begins.none_iff]

theorem erased_isUpper {b : Char} (erased : Begins (grammar lines) [.nonterminal b] none) :
    b.isUpper = true := by
  obtain ⟨r, isRule, rfl⟩ := erased.exists_rule
  obtain ⟨side, member, -⟩ := mem_rules.mp isRule
  exact isUpper_of_sides (List.ne_nil_of_mem member)

/-! ## The characters of a grammar file -/

namespace FileFormat

variable {lhs b : Char} {side rest : List Char}

theorem side_ne_nil (format : FileFormat lines) (member : side ∈ rightSides lines lhs) :
    side ≠ [] := by
  rcases format.sides lhs side member with rfl | ⟨nonempty, -⟩
  · simp
  · exact nonempty

/-- The first symbol of a right side, in three cases. -/
theorem head_cases (format : FileFormat lines) (member : b :: rest ∈ rightSides lines lhs) :
    (b = 'e' ∧ output lines (b :: rest) = []) ∨
    (b ∈ terminals lines ∧ b ≠ 'e' ∧
      output lines (b :: rest) = .terminal b :: symbols lines rest) ∨
    (b ∉ terminals lines ∧ b ≠ 'e' ∧ rightSides lines b ≠ [] ∧
      output lines (b :: rest) = .nonterminal b :: symbols lines rest) := by
  rcases format.sides lhs _ member with isEmpty | ⟨-, chars⟩
  · left
    exact ⟨(List.cons.inj isEmpty).1, if_pos isEmpty⟩
  · right
    obtain ⟨notE, known⟩ := chars b (by simp)
    have notEmpty : b :: rest ≠ ['e'] := by
      rintro isEmpty
      exact notE (List.cons.inj isEmpty).1
    rw [output_of_ne notEmpty]
    by_cases isTerminal : b ∈ terminals lines
    · exact .inl ⟨isTerminal, notE, symbols_terminal isTerminal rest⟩
    · exact .inr ⟨isTerminal, notE, known.resolve_left isTerminal,
        symbols_nonterminal isTerminal rest⟩

/-- The character for the empty string is no symbol. -/
theorem terminal_ne (format : FileFormat lines) (member : side ∈ rightSides lines lhs) :
    ∀ symbol ∈ output lines side, symbol ≠ .terminal 'e' := by
  intro symbol inOutput
  rcases format.sides lhs side member with rfl | ⟨-, chars⟩
  · cases inOutput
  · unfold output at inOutput
    split at inOutput
    · cases inOutput
    · obtain ⟨c, inSide, rfl⟩ := List.mem_map.mp inOutput
      split
      · intro same
        exact (chars c inSide).1 (Symbol.terminal.inj same)
      · simp

theorem begins_ne (format : FileFormat lines) {start : List (Symbol Char (grammar lines).NT)} {a : Char}
    (clean : ∀ symbol ∈ start, symbol ≠ .terminal 'e')
    (begins : Begins (grammar lines) start (some a)) : a ≠ 'e' := by
  generalize isSome : some a = x at begins
  induction begins with
  | nil => cases isSome
  | terminal b rest =>
      cases isSome
      rintro rfl
      exact clean _ (by simp) rfl
  | @expand r b rest isRule begins ih =>
      obtain ⟨side, member, isOutput⟩ := mem_rules.mp isRule
      exact ih (isOutput ▸ format.terminal_ne member) isSome
  | erase isRule erased begins ih ih' =>
      exact ih' (fun symbol member => clean symbol (List.mem_cons_of_mem _ member)) isSome

theorem nonterminal_begins_ne (format : FileFormat lines) {a : Char}
    (begins : Begins (grammar lines) [.nonterminal lhs] (some a)) : a ≠ 'e' :=
  format.begins_ne (List.forall_mem_singleton.mpr (by simp)) begins

end FileFormat

theorem LeadsTo.isUpper {lhs a : Char} (leads : LeadsTo lines lhs a) : lhs.isUpper = true := by
  cases leads with
  | terminal member => exact isUpper_of_sides (List.ne_nil_of_mem member)
  | nonterminal member => exact isUpper_of_sides (List.ne_nil_of_mem member)

/-! ## Closed families -/

/-- A family of sets that has the contribution of every right side. -/
def Closed (lines : List (List Char)) (sets : CharSets) : Prop :=
  ∀ lhs b rest, b :: rest ∈ rightSides lines lhs →
    if b = 'e' ∨ b ∈ terminals lines then b ∈ sets lhs else sets b ⊆ sets lhs

theorem Tables.Holds.firstClosed_iff {tables : Tables} {sets : CharSets}
    (holds : tables.Holds lines) : tables.FirstClosed sets ↔ Closed lines sets := by
  have same : ∀ lhs b, tables.Contributes sets lhs b ↔
      if b = 'e' ∨ b ∈ terminals lines then b ∈ sets lhs else sets b ⊆ sets lhs := by
    intro lhs b
    unfold Tables.Contributes Tables.isTerminal
    simp only [holds.terminal, Bool.or_eq_true, beq_iff_eq, decide_eq_true_eq]
  constructor
  · intro closed lhs b rest member
    have listed := (holds.nonTerminal lhs).mpr (List.ne_nil_of_mem member)
    exact (same lhs b).mp (closed lhs listed _ (holds.production lhs ▸ member) b rest rfl)
  · rintro closed lhs - side isSide b rest rfl
    exact (same lhs b).mpr (closed lhs b rest (holds.production lhs ▸ isSide))

namespace Closed

variable {sets : CharSets} {lhs b a : Char} {rest : List Char}

theorem empty_mem (closed : Closed lines sets) (member : 'e' :: rest ∈ rightSides lines lhs) :
    'e' ∈ sets lhs := by
  simpa using closed lhs 'e' rest member

theorem terminal_mem (closed : Closed lines sets) (member : a :: rest ∈ rightSides lines lhs)
    (isTerminal : a ∈ terminals lines) : a ∈ sets lhs := by
  simpa [isTerminal] using closed lhs a rest member

theorem subset (closed : Closed lines sets) (member : b :: rest ∈ rightSides lines lhs)
    (notTerminal : b ∉ terminals lines) (notE : b ≠ 'e') : sets b ⊆ sets lhs := by
  simpa [notTerminal, notE] using closed lhs b rest member

theorem leadsTo_mem (format : FileFormat lines) (closed : Closed lines sets)
    (leads : LeadsTo lines lhs a) : a ∈ sets lhs := by
  induction leads with
  | terminal member isTerminal => exact closed.terminal_mem member isTerminal
  | @nonterminal lhs b a rest member leads ih =>
      rcases format.head_cases member with ⟨rfl, -⟩ | ⟨isTerminal, -⟩ | ⟨notTerminal, notE, -⟩
      · cases leads.isUpper
      · have notUpper := isUpper_of_terminal isTerminal
        rw [leads.isUpper] at notUpper
        cases notUpper
      · exact closed.subset member notTerminal notE ih

/-- What a string `lhs :: tail` begins with is in the set of `lhs`, unless `lhs` is
erased. -/
def Accounted (lines : List (List Char)) (sets : CharSets) (lhs : Char)
    (tail : List (Symbol Char (grammar lines).NT)) : Option Char → Prop
  | some a => a ∈ sets lhs ∨
      (Begins (grammar lines) [.nonterminal lhs] none ∧ Begins (grammar lines) tail (some a))
  | none => 'e' ∈ sets lhs

theorem accounted_of_begins (format : FileFormat lines) (closed : Closed lines sets)
    (covered : ErasableCovered lines) {start : List (Symbol Char (grammar lines).NT)} {x : Option Char}
    (begins : Begins (grammar lines) start x) (tail : List (Symbol Char (grammar lines).NT))
    (isStart : start = .nonterminal lhs :: tail) : Accounted lines sets lhs tail x := by
  induction begins generalizing lhs tail with
  | nil => cases isStart
  | terminal a rest => cases isStart
  | @expand r a rest isRule begins ih =>
      cases isStart
      obtain ⟨side, member, isOutput⟩ := mem_rules.mp isRule
      obtain ⟨b, rest, rfl⟩ := List.exists_cons_of_ne_nil (format.side_ne_nil member)
      rw [isOutput] at begins ih
      left
      rcases format.head_cases member with ⟨rfl, isNil⟩ | ⟨isTerminal, -, isCons⟩ |
        ⟨notTerminal, notE, -, isCons⟩
      · rw [isNil] at begins
        exact (Begins.ne_some_of_nil begins).elim
      · rw [isCons] at begins
        cases Begins.eq_of_terminal begins
        exact closed.terminal_mem member isTerminal
      · rw [isCons] at ih
        rcases ih _ rfl with found | ⟨erased, later⟩
        · exact closed.subset member notTerminal notE found
        · obtain ⟨tail, derives⟩ := Begins.some_iff.mp later
          have covers := covered _ _ _ member (Begins.none_iff.mp erased)
          exact closed.leadsTo_mem format (covers.2 a tail derives)
  | @erase r rest x isRule erased begins ih ih' =>
      cases isStart
      obtain ⟨side, member, isOutput⟩ := mem_rules.mp isRule
      cases x with
      | some a =>
          right
          rw [isOutput] at erased
          exact ⟨erased_of_side member erased, begins⟩
      | none =>
          obtain ⟨b, rest, rfl⟩ := List.exists_cons_of_ne_nil (format.side_ne_nil member)
          rw [isOutput] at erased ih
          rcases format.head_cases member with ⟨rfl, -⟩ | ⟨-, -, isCons⟩ |
            ⟨notTerminal, notE, -, isCons⟩
          · exact closed.empty_mem member
          · rw [isCons] at erased
            cases Begins.eq_of_terminal erased
          · rw [isCons] at ih
            exact closed.subset member notTerminal notE (ih _ rfl)

theorem mem_of_inFirst (format : FileFormat lines) (closed : Closed lines sets)
    (covered : ErasableCovered lines) (inFirst : InFirst lines lhs a) : a ∈ sets lhs := by
  rcases inFirst_iff.mp inFirst with begins | ⟨rfl, erased⟩
  · rcases closed.accounted_of_begins format covered begins [] rfl with found | ⟨-, later⟩
    · exact found
    · exact (Begins.ne_some_of_nil later).elim
  · exact closed.accounted_of_begins format covered erased [] rfl

open Classical in
/-- The textbook sets within a closed family are closed if nothing is covered up. -/
theorem filter_inFirst (format : FileFormat lines) (closed : Closed lines sets)
    (covered : ErasableCovered lines) :
    Closed lines fun lhs => (sets lhs).filter (InFirst lines lhs) := by
  intro lhs b rest member
  rcases format.head_cases member with ⟨rfl, isNil⟩ | ⟨isTerminal, -, isCons⟩ |
    ⟨notTerminal, notE, -, isCons⟩
  · rw [if_pos (.inl rfl), Finset.mem_filter]
    refine ⟨closed.empty_mem member, inFirst_iff.mpr (.inr ⟨rfl, ?_⟩)⟩
    exact erased_of_side member (isNil ▸ .nil)
  · rw [if_pos (.inr isTerminal), Finset.mem_filter]
    refine ⟨closed.terminal_mem member isTerminal, inFirst_iff.mpr (.inl ?_)⟩
    exact begins_of_side member (isCons ▸ .terminal b _)
  · rw [if_neg (not_or.mpr ⟨notE, notTerminal⟩)]
    intro c isIn
    rw [Finset.mem_filter] at isIn ⊢
    refine ⟨closed.subset member notTerminal notE isIn.1, inFirst_iff.mpr ?_⟩
    rcases inFirst_iff.mp isIn.2 with begins | ⟨isE, erased⟩
    · left
      exact begins_of_side member (isCons ▸ begins.append_left (symbols lines rest))
    · right
      exact ⟨isE, Begins.none_iff.mpr (covered _ _ _ member (Begins.none_iff.mp erased)).1⟩

open Classical in
/-- What is found along first symbols within a closed family is closed. -/
theorem filter_leadsTo (format : FileFormat lines) (closed : Closed lines sets) :
    Closed lines fun lhs => (sets lhs).filter fun c => c = 'e' ∨ LeadsTo lines lhs c := by
  intro lhs b rest member
  rcases format.head_cases member with ⟨rfl, -⟩ | ⟨isTerminal, -⟩ | ⟨notTerminal, notE, -⟩
  · rw [if_pos (.inl rfl), Finset.mem_filter]
    exact ⟨closed.empty_mem member, .inl rfl⟩
  · rw [if_pos (.inr isTerminal), Finset.mem_filter]
    exact ⟨closed.terminal_mem member isTerminal, .inr (.terminal member isTerminal)⟩
  · rw [if_neg (not_or.mpr ⟨notE, notTerminal⟩)]
    intro c isIn
    rw [Finset.mem_filter] at isIn ⊢
    refine ⟨closed.subset member notTerminal notE isIn.1, ?_⟩
    exact isIn.2.imp_right fun leads => .nonterminal member leads

end Closed

/-! ## The result of `first()` -/

section Result

variable {sets : CharSets}

open Classical in
theorem inFirst_of_covered (format : FileFormat lines)
    (least : IsLeast {sets | Closed lines sets} sets) (covered : ErasableCovered lines)
    (lhs c : Char) : c ∈ sets lhs ↔ InFirst lines lhs c := by
  constructor
  · intro member
    have below := least.2 (least.1.filter_inFirst format covered)
    exact (Finset.mem_filter.mp (below lhs member)).2
  · exact least.1.mem_of_inFirst format covered

open Classical in
theorem covered_of_inFirst (format : FileFormat lines)
    (least : IsLeast {sets | Closed lines sets} sets)
    (agree : ∀ lhs, rightSides lines lhs ≠ [] → ∀ c, c ∈ sets lhs ↔ InFirst lines lhs c) :
    ErasableCovered lines := by
  intro lhs b rest member erasable
  have erased := Begins.none_iff.mpr erasable
  have ofLhs := agree lhs (List.ne_nil_of_mem member)
  rcases format.head_cases member with ⟨rfl, -⟩ | ⟨isTerminal, -, -⟩ |
    ⟨notTerminal, notE, hasSides, isCons⟩
  · cases erased_isUpper erased
  · have notUpper := isUpper_of_terminal isTerminal
    rw [erased_isUpper erased] at notUpper
    cases notUpper
  · constructor
    · have inB := (agree b hasSides 'e').mpr (inFirst_iff.mpr (.inr ⟨rfl, erased⟩))
      have inLhs := (ofLhs 'e').mp (least.1.subset member notTerminal notE inB)
      rcases inFirst_iff.mp inLhs with begins | ⟨-, lhsErased⟩
      · exact (format.nonterminal_begins_ne begins rfl).elim
      · exact Begins.none_iff.mp lhsErased
    · intro a tail derives
      have later := Begins.some_iff.mpr ⟨tail, derives⟩
      have begins : Begins (grammar lines) [.nonterminal lhs] (some a) := by
        apply begins_of_side member
        rw [isCons]
        exact erased.append_right later
      have inLhs := (ofLhs a).mpr (inFirst_iff.mpr (.inl begins))
      have below := least.2 (least.1.filter_leadsTo format) lhs inLhs
      exact (Finset.mem_filter.mp below).2.resolve_left (format.nonterminal_begins_ne begins)

end Result

theorem FileFormat.first_least (format : FileFormat lines) :
    ∃ tables, Tables.read lines = some tables ∧ tables.Holds lines ∧
      ∃ enough result, (∀ fuel, enough ≤ fuel → tables.first fuel = .ok result) ∧
        IsLeast {sets | Closed lines sets} result := by
  obtain ⟨tables, isRead, holds⟩ := Tables.read_holds_of_forms format.forms
  have nonempty : tables.nonTerminal ≠ [] := by
    obtain ⟨lhs, hasSides⟩ := format.nonempty
    exact List.ne_nil_of_mem ((holds.nonTerminal lhs).mpr hasSides)
  have unquoted : '\'' ∉ tables.nonTerminal := by
    intro member
    cases isUpper_of_sides ((holds.nonTerminal _).mp member)
  have full : tables.NoEmptyAlternative := by
    intro lhs _ side isSide
    rw [holds.production] at isSide
    exact format.side_ne_nil isSide
  obtain ⟨enough, result, ends, rounds⟩ :=
    Tables.first_ends full.scannable nonempty unquoted true true
  have least := Tables.rounds_least nonempty (rounds enough (le_refl enough))
  simp only [holds.firstClosed_iff] at least
  exact ⟨tables, isRead, holds, enough, result, ends, least⟩

/-- `first()` ends with the textbook sets exactly if right sides that start with an
erasable nonterminal are covered. -/
theorem first_textbook_iff (format : FileFormat lines) :
    FirstIsTextbook lines ↔ ErasableCovered lines := by
  obtain ⟨tables, isRead, holds, enough, result, ends, least⟩ := format.first_least
  constructor
  · rintro ⟨tables', isRead', enough', result', ends', agree⟩
    cases isRead.symm.trans isRead'
    have same := (ends (max enough enough') (by omega)).symm.trans
      (ends' (max enough enough') (by omega))
    cases same
    apply covered_of_inFirst format least
    intro lhs hasSides
    exact agree lhs ((holds.nonTerminal lhs).mpr hasSides)
  · intro covered
    refine ⟨tables, isRead, enough, result, ends, ?_⟩
    intro lhs _
    exact inFirst_of_covered format least covered lhs

/-- `S -> aS` and `S -> e`. -/
def repeated : List (List Char) := ["a".toList, "S->aS".toList, "S->e".toList]

theorem repeated_format : FileFormat repeated := by
  refine ⟨?_, ?_, 'S', by decide⟩
  · simp only [repeated, List.forall_mem_cons]
    refine ⟨.inr ⟨'a', [], rfl, rfl⟩, .inl ⟨'S', "aS".toList, rfl, rfl, by decide⟩,
      .inl ⟨'S', "e".toList, rfl, rfl, by decide⟩, by simp⟩
  · have listed : ∀ lhs ∈ ['a', 'S', 'S'], ∀ side ∈ rightSides repeated lhs, side = ['e'] ∨
        (side ≠ [] ∧ ∀ c ∈ side, c ≠ 'e' ∧
          (c ∈ terminals repeated ∨ rightSides repeated c ≠ [])) := by decide
    exact fun lhs side member => listed lhs (head_of_side member) side member

theorem first_textbook_iff_repeated : FirstIsTextbook repeated := by
  apply (first_textbook_iff repeated_format).mpr
  intro lhs b rest member erasable
  have isUpper := erased_isUpper (Begins.none_iff.mpr erasable)
  have listed : ∀ lhs ∈ ['a', 'S', 'S'], ∀ side ∈ rightSides repeated lhs,
      (side.getD 0 'e').isUpper = false := by decide
  have notUpper := listed lhs (head_of_side member) _ member
  rw [List.getD_cons_zero, isUpper] at notUpper
  cases notUpper

/-- `S -> AB` with an erasable `A`. -/
def shadowed : List (List Char) :=
  ["b".toList, "S->AB".toList, "A->e".toList, "B->b".toList]

theorem shadowed_format : FileFormat shadowed := by
  refine ⟨?_, ?_, 'S', by decide⟩
  · simp only [shadowed, List.forall_mem_cons]
    refine ⟨.inr ⟨'b', [], rfl, rfl⟩, .inl ⟨'S', "AB".toList, rfl, rfl, by decide⟩,
      .inl ⟨'A', "e".toList, rfl, rfl, by decide⟩,
      .inl ⟨'B', "b".toList, rfl, rfl, by decide⟩, by simp⟩
  · have listed : ∀ lhs ∈ ['b', 'S', 'A', 'B'], ∀ side ∈ rightSides shadowed lhs, side = ['e'] ∨
        (side ≠ [] ∧ ∀ c ∈ side, c ≠ 'e' ∧
          (c ∈ terminals shadowed ∨ rightSides shadowed c ≠ [])) := by decide
    exact fun lhs side member => listed lhs (head_of_side member) side member

theorem shadowed_inFirst : InFirst shadowed 'S' 'b' := by
  have ofB : Begins (grammar shadowed) [.nonterminal 'B'] (some 'b') :=
    begins_of_side (show ['b'] ∈ rightSides shadowed 'B' by decide) (.terminal 'b' [])
  have ofA : Begins (grammar shadowed) [.nonterminal 'A'] none :=
    erased_of_side (show ['e'] ∈ rightSides shadowed 'A' by decide) .nil
  have ofS : Begins (grammar shadowed) [.nonterminal 'S'] (some 'b') :=
    begins_of_side (show ['A', 'B'] ∈ rightSides shadowed 'S' by decide) (ofA.append_right ofB)
  exact inFirst_iff.mpr (.inl ofS)

/-- The sets along the first symbols. -/
def shadowedSets : CharSets := fun lhs => if lhs = 'B' then {'b'} else {'e'}

theorem shadowedSets_closed : Closed shadowed shadowedSets := by
  have listed : ∀ lhs ∈ ['b', 'S', 'A', 'B'], ∀ side ∈ rightSides shadowed lhs,
      if side.getD 0 'e' = 'e' ∨ side.getD 0 'e' ∈ terminals shadowed then
        side.getD 0 'e' ∈ shadowedSets lhs
      else shadowedSets (side.getD 0 'e') ⊆ shadowedSets lhs := by decide
  exact fun lhs b rest member => listed lhs (head_of_side member) _ member

/-- The string `b` is derived from `S`, but `first()` finds only `e`. -/
theorem first_misses_shadowed : FileFormat shadowed ∧ ¬ FirstIsTextbook shadowed := by
  refine ⟨shadowed_format, ?_⟩
  rintro ⟨tables, isRead, enough, result, ends, agree⟩
  obtain ⟨tables', isRead', holds, enough', result', ends', least⟩ := shadowed_format.first_least
  cases isRead.symm.trans isRead'
  cases (ends (max enough enough') (by omega)).symm.trans (ends' (max enough enough') (by omega))
  have listed : 'S' ∈ tables.nonTerminal := (holds.nonTerminal 'S').mpr (by decide)
  have found := (agree 'S' listed 'b').mpr shadowed_inFirst
  have among : 'b' ∈ shadowedSets 'S' := least.2 shadowedSets_closed 'S' found
  exact absurd among (by decide)

end Coursework.Grammar
