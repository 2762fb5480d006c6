import Coursework.FollowSets
import Mathlib.Algebra.Ring.Parity

/-!
# The bounds of the passes

A pass of `follow()` gets past the terminating position of a string in two cases.  The
string is a single terminal; or it ends in a `'|'` that the pass comes to.  The pass
misses a `'|'` only after a single terminal that it takes when it is looking for a
pair.  So what matters is the number of single terminals in a row at the end: after
an odd number of them the pass misses the last `'|'`.
-/

namespace Coursework.Grammar

namespace Tables

variable {tables : Tables} {text rest expr : List Char}

/-- An alternative that is a terminal. -/
def isSingle (tables : Tables) : List Char → Bool
  | [c] => tables.isTerminal c
  | _ => false

/-- Whether a pass is looking for a pair after the alternatives. -/
def looking (tables : Tables) (skipping : Bool) (alternatives : List (List Char)) : Bool :=
  alternatives.foldl (fun skipping alternative => !(skipping && tables.isSingle alternative))
    skipping

theorem isBarred_of_ne {c d : Char} (notBar : c ≠ '|') (next : d ≠ '|') :
    tables.isBarred c d = false := by
  simp [isBarred, notBar, next]

theorem isBarred_bar (tables : Tables) (d : Char) : tables.isBarred '|' d = true := rfl

theorem isBarred_before (tables : Tables) {c : Char} (notBar : c ≠ '|') :
    tables.isBarred c '|' = !tables.isTerminal c := by
  simp [isBarred, notBar]

theorem scan_bar (tables : Tables) (skipping : Bool) (rest : List Char) :
    tables.scan skipping ('|' :: rest) = none ↔ tables.scan true rest = none := by
  cases rest with
  | nil => simp [scan, isBarred_bar]
  | cons d rest => rw [scan, if_pos (isBarred_bar tables d)]

/-- A pass that is not looking for a pair goes on behind a character. -/
theorem scan_false_cons {c : Char} (notBar : c ≠ '|') :
    tables.scan false (c :: rest) = none ↔ tables.scan false rest = none := by
  by_cases barred : tables.isBarred c (rest.headD '\x00') = true
  · rw [scan_barred barred]
    cases rest with
    | nil => simp [isBarred, notBar] at barred
    | cons d rest =>
        have isBar : d = '|' := by
          by_contra distinct
          rw [List.headD_cons, isBarred_of_ne notBar distinct] at barred
          cases barred
        rw [isBar, scan_bar, scan_bar]
  · rw [scan_cons (by simpa using barred), Option.map_eq_none_iff]

theorem scan_false_text (inText : '|' ∉ text) :
    tables.scan false (text ++ rest) = none ↔ tables.scan false rest = none := by
  induction text with
  | nil => rfl
  | cons c text ih =>
      rw [List.mem_cons, not_or] at inText
      rw [List.cons_append, scan_false_cons (Ne.symm inText.1), ih inText.2]

/-- A pass takes the first character of an alternative when it is looking for a pair, and
the next one with it. -/
theorem scan_true_text (nonempty : text ≠ []) (inText : '|' ∉ text) :
    tables.scan true (text ++ '|' :: rest) = none ↔
      tables.scan (!tables.isSingle text) rest = none := by
  obtain ⟨c, text, rfl⟩ := List.exists_cons_of_ne_nil nonempty
  rw [List.mem_cons, not_or] at inText
  have notBar := Ne.symm inText.1
  cases text with
  | nil =>
      rw [List.cons_append, List.nil_append, scan, isBarred_before tables notBar, isSingle]
      cases tables.isTerminal c with
      | true => simp
      | false =>
          rw [Bool.not_false, if_pos rfl]
          exact scan_bar tables true rest
  | cons d text =>
      rw [List.mem_cons, not_or] at inText
      rw [List.cons_append, List.cons_append, scan, isBarred_of_ne notBar (Ne.symm inText.2.1)]
      simp only [Bool.false_eq_true, if_false, if_true, Option.map_eq_none_iff]
      rw [scan_false_text inText.2.2, scan_bar]
      rfl

theorem scan_false_ne_none (inText : '|' ∉ text) : tables.scan false text ≠ none := by
  have whole : tables.scan false (text ++ []) = none ↔ tables.scan false [] = none :=
    scan_false_text inText
  rw [List.append_nil] at whole
  rw [Ne, whole]
  exact nofun

theorem scan_true_ne_none (nonempty : text ≠ []) (inText : '|' ∉ text) :
    tables.scan true text ≠ none := by
  obtain ⟨c, text, rfl⟩ := List.exists_cons_of_ne_nil nonempty
  rw [List.mem_cons, not_or] at inText
  have notBar := Ne.symm inText.1
  cases text with
  | nil => simp [scan, isBarred, notBar]
  | cons d text =>
      rw [List.mem_cons, not_or] at inText
      rw [scan, isBarred_of_ne notBar (Ne.symm inText.2.1)]
      simp only [Bool.false_eq_true, if_false, if_true, ne_eq, Option.map_eq_none_iff]
      exact scan_false_ne_none inText.2.2

/-- A pass leaves the string exactly if it ends in an empty alternative and the pass is
looking for a pair there. -/
theorem scan_eq_none_iff {skipping : Bool}
    (full : ∀ alternative ∈ (expr.splitOn '|').dropLast, alternative ≠ []) :
    tables.scan skipping expr = none ↔ (expr.splitOn '|').getLast? = some [] ∧
      tables.looking skipping (expr.splitOn '|').dropLast = true := by
  induction isSize : expr.length using Nat.strongRecOn generalizing expr skipping with
  | _ size ih =>
      by_cases member : '|' ∈ expr
      · obtain ⟨text, rest, rfl, inText⟩ := List.eq_append_cons_of_mem member
        have isSplit : (text ++ '|' :: rest).splitOn '|' = text :: rest.splitOn '|' :=
          List.splitOn_append_cons_self_of_not_mem inText rest
        have isInit : (text :: rest.splitOn '|').dropLast = text :: (rest.splitOn '|').dropLast :=
          List.dropLast_cons_of_ne_nil (List.splitOn_ne_nil '|' rest)
        have isLast : (text :: rest.splitOn '|').getLast? = (rest.splitOn '|').getLast? :=
          List.getLast?_cons_of_ne_nil (List.splitOn_ne_nil '|' rest)
        rw [isSplit, isInit] at full
        rw [List.forall_mem_cons] at full
        have below : rest.length < size := by
          rw [← isSize, List.length_append, List.length_cons]
          omega
        rw [isSplit, isInit, isLast, looking, List.foldl_cons]
        cases skipping with
        | true =>
            rw [scan_true_text full.1 inText, Bool.true_and]
            exact ih _ below full.2 rfl
        | false =>
            rw [scan_false_text inText, scan_bar, Bool.false_and, Bool.not_false]
            exact ih _ below full.2 rfl
      · rw [List.splitOn_eq_singleton member]
        by_cases nonempty : expr = []
        · subst nonempty
          cases skipping <;> simp [scan, looking]
        · simp only [List.getLast?_singleton, Option.some.injEq, nonempty, false_and, iff_false]
          cases skipping with
          | true => exact scan_true_ne_none nonempty member
          | false => exact scan_false_ne_none member

/-- The number of single terminals in a row at the end. -/
def singlesAtEnd (tables : Tables) (alternatives : List (List Char)) : Nat :=
  (alternatives.reverse.takeWhile tables.isSingle).length

theorem looking_iff (tables : Tables) (alternatives : List (List Char)) :
    tables.looking true alternatives = true ↔ Even (tables.singlesAtEnd alternatives) := by
  induction alternatives using List.reverseRecOn with
  | nil => simp [looking, singlesAtEnd]
  | append_singleton alternatives last ih =>
      have isLooking : tables.looking true (alternatives ++ [last]) =
          !(tables.looking true alternatives && tables.isSingle last) := by
        simp [looking]
      have isCount : tables.singlesAtEnd (alternatives ++ [last]) =
          if tables.isSingle last then tables.singlesAtEnd alternatives + 1 else 0 := by
        rw [singlesAtEnd, List.reverse_append, List.reverse_singleton, List.singleton_append,
          List.takeWhile_cons]
        split
        · rw [List.length_cons, singlesAtEnd]
        · rfl
      rw [isLooking, isCount]
      cases tables.isSingle last with
      | true =>
          rw [if_pos rfl, Bool.and_true, Nat.even_add_one, ← ih, Bool.not_eq_true', Bool.not_eq_true]
      | false => simp

/-- A pass of `follow()` stays within a string: it is not a single terminal, and before an
empty last alternative there is an odd number of single terminals in a row. -/
structure FollowWithin (tables : Tables) (expr : List Char) : Prop where
  notSingle : tables.isSingle expr = false
  ends : (alternatives expr).getLast? = some [] →
    Odd (tables.singlesAtEnd (alternatives expr).dropLast)

theorem pairs_eq_none_iff (scannable : Scannable expr) :
    tables.pairs expr = none ↔
      tables.isSingle expr = true ∨ expr ≠ [] ∧ tables.scan true expr = none := by
  cases expr with
  | nil => simp [pairs, isSingle]
  | cons c rest =>
      have notBar : c ≠ '|' := by
        rintro rfl
        exact ((scannable_bar (List.not_mem_nil (a := '|'))).mp scannable).1 rfl
      cases rest with
      | nil => simp [pairs, isSingle, scan, isBarred, notBar]
      | cons d rest =>
          simp only [isSingle, Bool.false_eq_true, false_or, ne_eq,
            not_false_eq_true, true_and, reduceCtorEq]
          rw [pairs, scan]
          by_cases isBar : d = '|'
          · rw [isBar, isBarred_before tables notBar]
            cases tables.isTerminal c with
            | true => simp
            | false =>
                simp only [Bool.false_eq_true, if_false, Bool.not_false, if_true,
                  Option.map_eq_none_iff]
                rw [scan_bar, scan_bar]
          · rw [isBarred_of_ne notBar isBar]
            simp only [Bool.false_eq_true, if_false, if_true]
            split
            · rw [Option.map_eq_none_iff, Option.map_eq_none_iff]
            · rw [Option.map_eq_none_iff, Option.map_eq_none_iff, scan_false_cons isBar]

theorem followWithin_iff (scannable : Scannable expr) :
    (tables.pairs expr).isSome = true ↔ tables.FollowWithin expr := by
  rw [Option.isSome_iff_ne_none, ne_eq, pairs_eq_none_iff scannable, not_or, Bool.not_eq_true]
  by_cases nonempty : expr = []
  · subst nonempty
    simp only [ne_eq, not_true_eq_false, false_and, not_false_eq_true, and_true]
    exact ⟨fun notSingle => ⟨notSingle, nofun⟩, FollowWithin.notSingle⟩
  · have isSplit : alternatives expr = expr.splitOn '|' := if_neg nonempty
    have full : ∀ alternative ∈ (expr.splitOn '|').dropLast, alternative ≠ [] := by
      rw [← isSplit]
      exact scannable
    rw [scan_eq_none_iff full, looking_iff, ← isSplit]
    simp only [ne_eq, nonempty, not_false_eq_true, true_and, not_and, Nat.not_even_iff_odd]
    exact ⟨fun both => ⟨both.1, both.2⟩, fun within => ⟨within.notSingle, within.ends⟩⟩

end Tables

end Coursework.Grammar
