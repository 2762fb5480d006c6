import Coursework.FirstSets

/-!
# Follow sets

`follow()` of `FFLR.cpp` and `Firstfollow.cpp`.  A pass over the string of a
nonterminal goes through pairs of adjacent characters.  It begins with the first
character that is not a terminal in front, and it passes over a pair with a `'|'`
in it, and over the pair after the next one that it takes.  The loop is over the
nonterminals in turn, and the pass before the one of the last nonterminal ends it
if the flag for a change is down after one of its pairs.

Which pairs a pass takes depends on the string only: `scan` lists them, unless an
index gets past the terminating position.
-/

namespace Coursework.Grammar

namespace Tables

/-- The condition of the loop that looks for a pair. -/
def isBarred (tables : Tables) (firstChar followChar : Char) : Bool :=
  firstChar == '|' || (followChar == '|' && !tables.isTerminal firstChar)

/-- The loop that looks for a pair. -/
def skipBars (tables : Tables) (expr : List Char) :
    Nat → Nat → Char → Char → Except Stop (Nat × Char × Char)
  | 0, _, _, _ => .error .fuel
  | fuel + 1, j, firstChar, followChar =>
      if tables.isBarred firstChar followChar then do
        let firstChar ← charAt expr j
        let followChar ← charAt expr (j + 1)
        tables.skipBars expr fuel (j + 1) firstChar followChar
      else .ok (j, firstChar, followChar)

/-- The next two characters, and the index after them. -/
def nextPair (tables : Tables) (expr : List Char) (fuel j : Nat) (first : Bool) :
    Except Stop (Nat × Char × Char) :=
  if first then do
    let firstChar ← charAt expr 0
    let followChar ← charAt expr 1
    if tables.isTerminal firstChar then do
      let firstChar ← charAt expr (j + 1)
      let followChar ← charAt expr (j + 2)
      .ok (j + 2, firstChar, followChar)
    else .ok (j + 1, firstChar, followChar)
  else do
    let firstChar ← charAt expr j
    let followChar ← charAt expr (j + 1)
    let (j, firstChar, followChar) ← tables.skipBars expr fuel j firstChar followChar
    .ok (j + 1, firstChar, followChar)

/-- Nothing follows `firstChar` in the string. -/
def addFollowOfEnd (tables : Tables) (lhs firstChar followChar : Char) (progress : Progress) :
    Progress :=
  if tables.isTerminal firstChar = false ∧ followChar = '\x00' then
    progress.add firstChar ((progress.sets lhs).erase 'e')
  else progress

/-- A terminal follows `firstChar`. -/
def addFollowOfTerminal (tables : Tables) (firstChar followChar : Char) (progress : Progress) :
    Progress :=
  if tables.isTerminal firstChar = false ∧ tables.isTerminal followChar = true then
    if followChar ≠ 'e' then progress.add firstChar {followChar} else progress
  else progress

/-- Another nonterminal follows `firstChar`. -/
def addFollowOfNonterminal (tables : Tables) (firstMap : CharSets)
    (lhs firstChar followChar : Char) (progress : Progress) : Progress :=
  if tables.isTerminal firstChar = false ∧ tables.isTerminal followChar = false then
    let builder2 := firstMap followChar
    let builder3 := progress.sets lhs
    let progress := progress.add firstChar (builder2.erase 'e')
    if 'e' ∈ builder2 then progress.add firstChar (builder3.erase 'e') else progress
  else progress

/-- What a pair of characters adds. -/
def addFollow (tables : Tables) (firstMap : CharSets) (lhs : Char) (progress : Progress)
    (pair : Char × Char) : Progress :=
  tables.addFollowOfNonterminal firstMap lhs pair.1 pair.2
    (tables.addFollowOfTerminal pair.1 pair.2
      (tables.addFollowOfEnd lhs pair.1 pair.2 progress))

/-- The loop over the production of `lhs`; `decides` says whether the flag decides about
the end here. -/
def followProduction (tables : Tables) (firstMap : CharSets) (lhs : Char) (expr : List Char)
    (decides : Bool) (inner : Nat) :
    Nat → Nat → Bool → Progress → Bool → Except Stop (Progress × Bool)
  | 0, _, _, _, _ => .error .fuel
  | fuel + 1, j, first, progress, complete =>
      if j < expr.length then do
        let (j, firstChar, followChar) ← tables.nextPair expr inner j first
        let progress := tables.addFollow firstMap lhs progress (firstChar, followChar)
        tables.followProduction firstMap lhs expr decides inner fuel j false progress
          (complete || (decides && !progress.changes))
      else .ok (progress, complete)

/-- The outer loop. -/
def followLoop (tables : Tables) (firstMap : CharSets) (inner : Nat) :
    Nat → Nat → Progress → Except Stop CharSets
  | 0, _, _ => .error .fuel
  | fuel + 1, i, progress =>
      let size := tables.nonTerminal.length
      let lhs := tables.nonTerminal.getD (i % size) '\x00'
      let i := (i + 1) % size
      let progress := if i = 0 then { progress with changes := false } else progress
      if lhs = '\'' then tables.followLoop firstMap inner fuel i progress
      else do
        let (progress, complete) ← tables.followProduction firstMap lhs (tables.production lhs)
          (decide (i = size - 1)) inner inner 0 true progress false
        if complete then .ok progress.sets
        else tables.followLoop firstMap inner fuel i progress

/-- `follow()` with the sets of `first()`. -/
def follow (tables : Tables) (firstMap : CharSets) (fuel : Nat) : Except Stop CharSets := do
  let followMap ← tables.followLoop firstMap fuel fuel 0 ⟨fun _ => ∅, false⟩
  let start := tables.nonTerminal.getD 0 '\x00'
  return Function.update followMap start (insert '$' (followMap start))

/-! ## The pairs of a string -/

/-- The pairs from a position on, in a pass that is looking for a pair if `skipping`. -/
def scan (tables : Tables) : Bool → List Char → Option (List (Char × Char))
  | skipping, [] => if skipping then none else some []
  | _, [c] => if tables.isBarred c '\x00' then none else some [(c, '\x00')]
  | skipping, c :: d :: rest =>
      if tables.isBarred c d then tables.scan true (d :: rest)
      else if skipping then (tables.scan false rest).map (List.cons (c, d))
      else (tables.scan false (d :: rest)).map (List.cons (c, d))

/-- The pairs that a pass takes. -/
def pairs (tables : Tables) : List Char → Option (List (Char × Char))
  | [] => some []
  | [c] => if tables.isTerminal c then none else some [(c, '\x00')]
  | c :: d :: rest =>
      if tables.isTerminal c then
        (tables.scan false rest).map (List.cons (d, rest.headD '\x00'))
      else (tables.scan false (d :: rest)).map (List.cons (c, d))

/-- The next pair that a pass takes when it is looking for one, and the rest after it. -/
def skipped (tables : Tables) : List Char → Option ((Char × Char) × List Char)
  | [] => none
  | c :: rest =>
      if tables.isBarred c (rest.headD '\x00') then tables.skipped rest
      else some ((c, rest.headD '\x00'), rest.tail)

variable {tables : Tables} {expr rest : List Char} {j : Nat}

theorem scan_true (tables : Tables) (rest : List Char) :
    tables.scan true rest = (tables.skipped rest).bind fun found =>
      (tables.scan false found.2).map (List.cons found.1) := by
  induction rest with
  | nil => rfl
  | cons c rest ih =>
      cases rest with
      | nil =>
          rw [scan, skipped, List.headD_nil]
          split
          · rfl
          · rfl
      | cons d rest =>
          rw [scan, skipped, List.headD_cons, List.tail_cons]
          split
          · exact ih
          · rfl

theorem scan_barred {c : Char} (barred : tables.isBarred c (rest.headD '\x00') = true) :
    tables.scan false (c :: rest) = tables.scan true rest := by
  cases rest with
  | nil => exact if_pos barred
  | cons d rest => exact if_pos barred

theorem scan_cons {c : Char} (clear : tables.isBarred c (rest.headD '\x00') = false) :
    tables.scan false (c :: rest) =
      (tables.scan false rest).map (List.cons (c, rest.headD '\x00')) := by
  have notBarred := ne_true_of_eq_false clear
  cases rest with
  | nil => exact if_neg notBarred
  | cons d rest => exact if_neg notBarred

end Tables

/-! ## A pass -/

theorem charAt_headD {expr rest : List Char} {j : Nat} (le : j ≤ expr.length)
    (isRest : expr.drop j = rest) : charAt expr j = .ok (rest.headD '\x00') := by
  cases rest with
  | nil =>
      have atEnd : expr.length ≤ j := List.drop_eq_nil_iff.mp isRest
      rw [charAt, if_pos le, List.getD_eq_getElem?_getD, List.getElem?_eq_none atEnd]
      rfl
  | cons c rest => exact charAt_of_drop isRest

theorem charAt_beyond {expr : List Char} {j : Nat} (beyond : expr.length < j) :
    charAt expr j = .error .range := by
  rw [charAt, if_neg (by omega)]

theorem lt_of_drop {expr rest : List Char} {c : Char} {j : Nat}
    (isRest : expr.drop j = c :: rest) : j < expr.length := by
  by_contra beyond
  rw [List.drop_eq_nil_of_le (by omega)] at isRest
  cases isRest

namespace Tables

variable {tables : Tables} {expr rest : List Char} {j : Nat}

theorem skipBars_eq {fuel : Nat} {firstChar followChar : Char} (le : j ≤ expr.length)
    (isRest : expr.drop j = rest) (barred : tables.isBarred firstChar followChar = true)
    (enough : rest.length + 1 < fuel) :
    (tables.skipped rest = none → tables.skipBars expr fuel j firstChar followChar =
      .error .range) ∧
    ∀ pair after, tables.skipped rest = some (pair, after) →
      ∃ next, tables.skipBars expr fuel j firstChar followChar = .ok (next, pair) ∧
        expr.drop (next + 1) = after := by
  induction rest generalizing fuel j firstChar followChar with
  | nil =>
      obtain ⟨fuel, rfl⟩ : ∃ less, fuel = less + 1 := ⟨fuel - 1, by omega⟩
      have atEnd : expr.length ≤ j := List.drop_eq_nil_iff.mp isRest
      refine ⟨fun _ => ?_, nofun⟩
      rw [skipBars, if_pos barred, charAt_headD le isRest]
      simp only [bind, Except.bind]
      rw [charAt_beyond (by omega)]
  | cons c rest ih =>
      obtain ⟨fuel, rfl⟩ : ∃ less, fuel = less + 1 := ⟨fuel - 1, by omega⟩
      have below := lt_of_drop isRest
      have after := drop_succ isRest
      have unfolded : tables.skipBars expr (fuel + 1) j firstChar followChar =
          tables.skipBars expr fuel (j + 1) c (rest.headD '\x00') := by
        rw [skipBars, if_pos barred, charAt_of_drop isRest]
        simp only [bind, Except.bind]
        rw [charAt_headD (by omega) after]
      rw [unfolded, skipped]
      by_cases barredHere : tables.isBarred c (rest.headD '\x00') = true
      · rw [if_pos barredHere]
        rw [List.length_cons] at enough
        exact ih (by omega) after barredHere (by omega)
      · rw [if_neg barredHere]
        refine ⟨nofun, ?_⟩
        rintro pair tail isFound
        cases isFound
        obtain ⟨fuel, rfl⟩ : ∃ less, fuel = less + 1 := ⟨fuel - 1, by simp at enough; omega⟩
        refine ⟨j + 1, ?_, ?_⟩
        · rw [skipBars, if_neg barredHere]
        · rw [← List.tail_drop, after]

theorem length_skipped {pair : Char × Char} {after : List Char}
    (isFound : tables.skipped rest = some (pair, after)) : after.length < rest.length := by
  induction rest with
  | nil => cases isFound
  | cons c rest ih =>
      rw [skipped] at isFound
      split at isFound
      · exact (ih isFound).trans (by simp)
      · cases isFound
        rw [List.length_tail, List.length_cons]
        omega

/-- What a pair does to the sets, the flag and the end. -/
def takePair (tables : Tables) (firstMap : CharSets) (lhs : Char) (decides : Bool)
    (state : Progress × Bool) (pair : Char × Char) : Progress × Bool :=
  (tables.addFollow firstMap lhs state.1 pair,
    state.2 || (decides && !(tables.addFollow firstMap lhs state.1 pair).changes))

/-- The result of a pass that takes the pairs, if it stays within the string. -/
def passed (tables : Tables) (firstMap : CharSets) (lhs : Char) (decides : Bool)
    (state : Progress × Bool) (found : Option (List (Char × Char))) :
    Except Stop (Progress × Bool) :=
  match found with
  | none => .error .range
  | some list => .ok (list.foldl (tables.takePair firstMap lhs decides) state)

theorem passed_map (tables : Tables) (firstMap : CharSets) (lhs : Char) (decides : Bool)
    (state : Progress × Bool) (pair : Char × Char) (found : Option (List (Char × Char))) :
    tables.passed firstMap lhs decides state (found.map (List.cons pair)) =
      tables.passed firstMap lhs decides (tables.takePair firstMap lhs decides state pair)
        found := by
  cases found <;> rfl

variable {firstMap : CharSets} {lhs : Char} {decides : Bool}

theorem followProduction_rest {inner fuel : Nat} (isRest : expr.drop j = rest)
    (innerEnough : expr.length + 2 ≤ inner) (enough : rest.length < fuel) (progress : Progress)
    (complete : Bool) :
    tables.followProduction firstMap lhs expr decides inner fuel j false progress complete =
      tables.passed firstMap lhs decides (progress, complete) (tables.scan false rest) := by
  induction size : rest.length using Nat.strongRecOn generalizing rest j fuel progress complete with
  | _ size ih =>
      obtain ⟨fuel, rfl⟩ : ∃ less, fuel = less + 1 := ⟨fuel - 1, by omega⟩
      rw [followProduction]
      cases rest with
      | nil =>
          have atEnd : expr.length ≤ j := List.drop_eq_nil_iff.mp isRest
          rw [if_neg (by omega)]
          rfl
      | cons c rest =>
          have below := lt_of_drop isRest
          have after := drop_succ isRest
          have length := length_of_drop below.le isRest
          rw [List.length_cons] at enough length size
          rw [if_pos below, nextPair, if_neg Bool.false_ne_true, charAt_of_drop isRest]
          simp only [bind, Except.bind]
          rw [charAt_headD below after]
          simp only
          by_cases barred : tables.isBarred c (rest.headD '\x00') = true
          · have isSkipped : tables.skipped (c :: rest) = tables.skipped rest := if_pos barred
            obtain ⟨beyond, found⟩ := skipBars_eq below.le isRest barred
              (show (c :: rest).length + 1 < inner by simp; omega)
            rw [isSkipped] at beyond found
            rw [scan_barred barred, scan_true]
            cases isFound : tables.skipped rest with
            | none =>
                rw [beyond isFound]
                rfl
            | some next =>
                obtain ⟨pair, tail⟩ := next
                obtain ⟨position, isOk, isTail⟩ := found pair tail isFound
                have shorter := length_skipped isFound
                rw [isOk, Option.bind_some, passed_map]
                exact ih tail.length (by omega) isTail (by omega) _ _ rfl
          · obtain ⟨less, rfl⟩ : ∃ less, inner = less + 1 := ⟨inner - 1, by omega⟩
            rw [skipBars, if_neg barred, scan_cons (by simpa using barred), passed_map]
            exact ih rest.length (by omega) after (by omega) _ _ rfl

theorem followProduction_eq {inner : Nat} (enough : expr.length + 2 ≤ inner)
    (progress : Progress) (complete : Bool) :
    tables.followProduction firstMap lhs expr decides inner inner 0 true progress complete =
      tables.passed firstMap lhs decides (progress, complete) (tables.pairs expr) := by
  obtain ⟨fuel, isFuel⟩ : ∃ less, inner = less + 1 := ⟨inner - 1, by omega⟩
  nth_rewrite 2 [isFuel]
  rw [followProduction]
  cases expr with
  | nil => rfl
  | cons c rest =>
      rw [List.length_cons] at enough
      have second : charAt (c :: rest) 1 = .ok (rest.headD '\x00') := charAt_headD (by simp) rfl
      rw [if_pos (by simp), nextPair, if_pos rfl, charAt_of_drop List.drop_zero]
      simp only [bind, Except.bind]
      rw [second]
      simp only
      by_cases isTerminal : tables.isTerminal c = true
      · rw [if_pos isTerminal]
        cases rest with
        | nil =>
            rw [charAt_beyond (by simp), pairs, if_pos isTerminal]
            rfl
        | cons d rest =>
            rw [List.length_cons] at enough
            have isRest : (c :: d :: rest).drop (0 + 2) = rest := rfl
            rw [charAt_headD (by simp) isRest, pairs, if_pos isTerminal, passed_map]
            exact followProduction_rest isRest (by simp; omega) (by omega) _ _
      · rw [if_neg isTerminal]
        simp only
        cases rest with
        | nil =>
            have isRest : [c].drop (0 + 1) = [] := rfl
            rw [pairs, if_neg isTerminal]
            exact followProduction_rest isRest (by simp; omega) (by simp; omega) _ _
        | cons d rest =>
            rw [List.length_cons] at enough
            have isRest : (c :: d :: rest).drop (0 + 1) = d :: rest := rfl
            rw [pairs, if_neg isTerminal, passed_map]
            exact followProduction_rest isRest (by simp; omega) (by simp; omega) _ _

end Tables

end Coursework.Grammar
