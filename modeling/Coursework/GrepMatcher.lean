import Coursework.TextPatterns

/-!
# The matcher of grep

`match` looks for a pattern in a line.  A string is the list of its bytes in front of the
zero byte that ends it, so a string is at its end when the list is empty.  `matchstar`
calls `matchhere` with a shorter pattern and itself with a shorter text, and `matchhere`
drops a letter of the pattern in every call, so the lengths of the pattern and of the text
bound the recursion.

What a pattern says is read off from left to right, one item at a time.  The functions of
the source agree with this reading: `matchstar` by induction on the text, for any pattern
behind the star that `matchhere` decides, and `matchhere` along the items.
-/

namespace Coursework.Grep

abbrev caret : UInt8 := 94
abbrev star : UInt8 := 42
abbrev dollar : UInt8 := 36
abbrev dot : UInt8 := 46

mutual

/-- `matchhere`: search for `re` at the beginning of `text`. -/
def matchhere (re text : List UInt8) : Bool :=
  match re with
  | [] => true
  | c :: re' =>
      if re'.head? = some star then matchstar c re'.tail text
      else if c = dollar ∧ re' = [] then text = []
      else
        match text with
        | [] => false
        | letter :: text' => if c = dot ∨ c = letter then matchhere re' text' else false
termination_by (re.length, text.length, 0)
decreasing_by
  · simp only [List.length_tail, List.length_cons]
    exact Prod.Lex.left _ _ (by omega)
  · exact Prod.Lex.left _ _ (Nat.lt_succ_self _)

/-- `matchstar`: search for `c*re` at the beginning of `text`. -/
def matchstar (c : UInt8) (re text : List UInt8) : Bool :=
  if matchhere re text then true
  else
    match text with
    | [] => false
    | letter :: text' => if letter = c ∨ c = dot then matchstar c re text' else false
termination_by (re.length, text.length, 1)
decreasing_by
  · exact Prod.Lex.right _ (Prod.Lex.right _ Nat.zero_lt_one)
  · exact Prod.Lex.right _ (Prod.Lex.left _ _ (Nat.lt_succ_self _))

end

/-- The loop of `match` through the places of the text, its end included. -/
def matchAnywhere (re : List UInt8) : List UInt8 → Bool
  | [] => matchhere re []
  | letter :: text => if matchhere re (letter :: text) then true else matchAnywhere re text

/-- `match`. -/
def matchLine (re text : List UInt8) : Bool :=
  if re.head? = some caret then matchhere re.tail text else matchAnywhere re text

/-- A letter of the pattern stands for itself, and the dot for every letter. -/
def Accepts (c letter : UInt8) : Prop := c = dot ∨ letter = c

/-- The items of a pattern from left to right. -/
def items : List UInt8 → List (PatternItem UInt8)
  | [] => []
  | [c] => if c = dollar then [.atEnd] else [.one (Accepts c)]
  | c :: next :: re =>
      if next = star then .many (Accepts c) :: items re
      else .one (Accepts c) :: items (next :: re)

variable {c : UInt8} {re text : List UInt8}

theorem matchhere_nil (text : List UInt8) : matchhere [] text = true := by
  rw [matchhere.eq_def]

theorem matchhere_star (c : UInt8) (re text : List UInt8) :
    matchhere (c :: star :: re) text = matchstar c re text := by
  rw [matchhere.eq_def]
  simp

theorem matchhere_dollar (text : List UInt8) :
    matchhere [dollar] text = true ↔ text = [] := by
  rw [matchhere.eq_def]
  simp

theorem matchhere_one (noStar : re.head? ≠ some star) (notLast : ¬ (c = dollar ∧ re = [])) :
    matchhere (c :: re) text = true ↔ ∃ letter text', text = letter :: text' ∧
      Accepts c letter ∧ matchhere re text' = true := by
  rw [matchhere.eq_def]
  simp only [if_neg noStar, if_neg notLast]
  cases text with
  | nil => simp
  | cons letter text =>
      have same : c = letter ↔ letter = c := eq_comm
      simp [Accepts, same]

theorem matchstar_iff : matchstar c re text = true ↔ matchhere re text = true ∨
    ∃ letter text', text = letter :: text' ∧ Accepts c letter ∧ matchstar c re text' = true := by
  rw [matchstar.eq_def]
  cases text with
  | nil => simp
  | cons letter text => simp [Accepts, or_comm]

theorem matchstar_correct
    (here : ∀ text, matchhere re text = true ↔ MatchesAt (items re) text) :
    matchstar c re text = true ↔ MatchesAt (.many (Accepts c) :: items re) text := by
  induction text with
  | nil =>
      rw [matchstar_iff, matchesAt_many, here]
      simp
  | cons letter text ih =>
      rw [matchstar_iff, matchesAt_many, here]
      simp only [List.cons.injEq, existsAndEq, ih, and_assoc, true_and]

theorem matchhere_correct (re text : List UInt8) :
    matchhere re text = true ↔ MatchesAt (items re) text := by
  induction re using items.induct generalizing text with
  | case1 => exact iff_of_true (matchhere_nil text) (matchesAt_nil text)
  | case2 =>
      rw [matchhere_dollar, items, if_pos rfl, matchesAt_end]
  | case3 c notDollar =>
      rw [matchhere_one (by simp) (by simp [notDollar]), items, if_neg notDollar, matchesAt_one]
      simp only [matchhere_nil, matchesAt_nil]
  | case4 c re ih =>
      rw [matchhere_star, items, if_pos rfl]
      exact matchstar_correct ih
  | case5 c next re noStar ih =>
      rw [matchhere_one (by simp [noStar]) (by simp), items, if_neg noStar, matchesAt_one]
      simp only [ih]

theorem matchAnywhere_correct (re text : List UInt8) :
    matchAnywhere re text = true ↔ Occurs (items re) text := by
  induction text with
  | nil =>
      rw [matchAnywhere, matchhere_correct, occurs_iff]
      simp
  | cons letter text ih =>
      rw [matchAnywhere, occurs_iff]
      simp [matchhere_correct, ih]

/-- `match` finds a pattern with a caret at the start of the line, and any other pattern
anywhere in it. -/
theorem matchLine_iff (re text : List UInt8) : matchLine re text = true ↔
    if re.head? = some caret then MatchesAt (items re.tail) text else Occurs (items re) text := by
  unfold matchLine
  split_ifs with isAnchored
  · exact matchhere_correct re.tail text
  · exact matchAnywhere_correct re text

end Coursework.Grep
