import Mathlib.Algebra.Ring.Nat
import Mathlib.Data.List.GetD
import Mathlib.Order.Basic
import Mathlib.Tactic.Common

/-!
# Printing integers

`printint` fills a buffer with the digits of a number from the last one to the first, adds a
sign and prints the buffer backwards.  The kernel and the user library have a version each, with
other letters for the digits above nine.  A write behind the buffer yields no result.

A digit of the loop is the last one of the numeral of what is left, so the loop leaves the
numeral backwards.  A 32-bit number has at most ten digits, which leaves room for the sign.
Negating the least integer wraps to its own magnitude.
-/

namespace Coursework.IntegerPrinting

def bufSize : Nat := 16

/-- The characters that were written to the buffer, from its start on. -/
structure Buffer where
  chars : List Char
  fits : chars.length ≤ bufSize

/-- The buffer before the first write. -/
def Buffer.empty : Buffer := ⟨[], Nat.zero_le bufSize⟩

/-- `buf[i++] = c`. -/
def Buffer.push (buf : Buffer) (c : Char) (room : buf.chars.length < bufSize) : Buffer where
  chars := buf.chars ++ [c]
  fits := by
    rw [List.length_append]
    exact room

theorem Buffer.length_push (buf : Buffer) (c : Char) (room : buf.chars.length < bufSize) :
    (buf.push c room).chars.length = buf.chars.length + 1 :=
  List.length_append

/-- The loop over the digits. -/
def digitLoop (digits : List Char) (base x : Nat) (buf : Buffer) : Option Buffer :=
  match digits[x % base]? with
  | none => none
  | some digit =>
      if room : buf.chars.length < bufSize then
        if x / base ≠ 0 then digitLoop digits base (x / base) (buf.push digit room)
        else some (buf.push digit room)
      else none
termination_by bufSize - buf.chars.length
decreasing_by
  rw [Buffer.length_push]
  omega

/-- The loop that prints the buffer in front of place `i` backwards. -/
def emit (buf : Buffer) : Nat → List Char
  | 0 => []
  | i + 1 => buf.chars.getD i (Char.ofNat 0) :: emit buf i

/-- What both versions do once they know the sign and the magnitude. -/
def printDigits (digits : List Char) (base x : Nat) (neg : Bool) : Option (List Char) := do
  let buf ← digitLoop digits base x Buffer.empty
  if neg then
    if room : buf.chars.length < bufSize then
      let signed := buf.push '-' room
      return emit signed signed.chars.length
    else none
  else return emit buf buf.chars.length

def kernelDigits : List Char :=
  ['0', '1', '2', '3', '4', '5', '6', '7', '8', '9', 'a', 'b', 'c', 'd', 'e', 'f']

def userDigits : List Char :=
  ['0', '1', '2', '3', '4', '5', '6', '7', '8', '9', 'A', 'B', 'C', 'D', 'E', 'F']

/-- `printint` of the kernel, which keeps the sign in its parameter. -/
def kernelPrintint (xx : BitVec 32) (base : Nat) (sign : Bool) : Option (List Char) :=
  let sign := sign && decide (xx.toInt < 0)
  let x : BitVec 32 := if sign then -xx else xx
  printDigits kernelDigits base x.toNat sign

/-- `printint` of the user library. -/
def userPrintint (xx : BitVec 32) (base : Nat) (sgn : Bool) : Option (List Char) :=
  if sgn && decide (xx.toInt < 0) then printDigits userDigits base (-xx).toNat true
  else printDigits userDigits base xx.toNat false

/-- The loop of `atoi`. -/
def atoiFrom (n : BitVec 32) : List Char → BitVec 32
  | [] => n
  | c :: s =>
      if '0' ≤ c ∧ c ≤ '9' then
        atoiFrom (n * 10 + BitVec.ofNat 32 c.toNat - BitVec.ofNat 32 '0'.toNat) s
      else n

/-- `atoi`. -/
def atoi (s : List Char) : BitVec 32 := atoiFrom 0 s

/-- The decimal numeral of an integer. -/
def decimal (z : Int) : List Char :=
  if z < 0 then '-' :: Nat.toDigits 10 z.natAbs else Nat.toDigits 10 z.natAbs

variable {digits : List Char} {style : Char → Char} {base x : Nat}

/-- What a table holds for the digits of a base. -/
def Spells (digits : List Char) (base : Nat) (style : Char → Char) : Prop :=
  ∀ digit < base, digits[digit]? = some (style digit.digitChar)

theorem kernelDigits_spell_decimal : Spells kernelDigits 10 id := by
  unfold Spells
  decide

theorem userDigits_spell_decimal : Spells userDigits 10 id := by
  unfold Spells
  decide

theorem kernelDigits_spell_hexadecimal : Spells kernelDigits 16 id := by
  unfold Spells
  decide

theorem userDigits_spell_hexadecimal : Spells userDigits 16 Char.toUpper := by
  unfold Spells
  decide

theorem emit_length (buf : Buffer) : emit buf buf.chars.length = buf.chars.reverse := by
  have emitTake : ∀ i ≤ buf.chars.length, emit buf i = (buf.chars.take i).reverse := by
    intro i le
    induction i with
    | zero => rfl
    | succ i ih =>
        rw [emit, ih (by omega), List.take_succ_eq_append_getElem (by omega), List.reverse_append,
          List.getD_eq_getElem _ _ (by omega)]
        rfl
  rw [emitTake _ (Nat.le_refl _), List.take_length]

/-- The loop leaves the numeral backwards. -/
theorem digitLoop_spec (spells : Spells digits base style) (baseLower : 1 < base) (x : Nat)
    (buf : Buffer) (room : buf.chars.length + (Nat.toDigits base x).length ≤ bufSize) :
    ∃ after, digitLoop digits base x buf = some after ∧
      after.chars = buf.chars ++ ((Nat.toDigits base x).map style).reverse := by
  induction x using Nat.strongRecOn generalizing buf with
  | _ x ih =>
      have lastDigit := spells (x % base) (Nat.mod_lt x (by omega))
      have numeralPos : 0 < (Nat.toDigits base x).length := Nat.length_toDigits_pos
      have roomForOne : buf.chars.length < bufSize := by omega
      rw [digitLoop]
      simp only [lastDigit, dif_pos roomForOne]
      by_cases small : x < base
      · rw [Nat.div_eq_of_lt small, if_neg (not_not.mpr rfl)]
        refine ⟨_, rfl, ?_⟩
        rw [Nat.toDigits_of_lt_base small, Nat.mod_eq_of_lt small]
        rfl
      · have large : base ≤ x := Nat.le_of_not_lt small
        have quotientPos : x / base ≠ 0 := Nat.pos_iff_ne_zero.mp (Nat.div_pos large (by omega))
        have numeral := Nat.toDigits_of_base_le baseLower large
        rw [numeral, List.length_append, List.length_singleton] at room
        rw [if_pos quotientPos]
        obtain ⟨after, isAfter, chars⟩ := ih (x / base) (Nat.div_lt_self (by omega) baseLower)
          (buf.push (style (x % base).digitChar) roomForOne) (by rw [Buffer.length_push]; omega)
        refine ⟨after, isAfter, ?_⟩
        rw [chars, numeral]
        simp [Buffer.push]

theorem printDigits_spec (spells : Spells digits base style) (baseLower : 1 < base) {x : Nat}
    (neg : Bool) (room : (Nat.toDigits base x).length < bufSize) :
    printDigits digits base x neg =
      some ((if neg then ['-'] else []) ++ (Nat.toDigits base x).map style) := by
  obtain ⟨buf, isBuf, chars⟩ := digitLoop_spec spells baseLower x Buffer.empty
    (by rw [Buffer.empty, List.length_nil]; omega)
  replace chars : buf.chars = ((Nat.toDigits base x).map style).reverse := chars
  have roomForSign : buf.chars.length < bufSize := by
    rw [chars, List.length_reverse, List.length_map]
    exact room
  rw [printDigits, isBuf]
  cases neg with
  | false => simp [emit_length, chars]
  | true =>
      have emitted := emit_length (buf.push '-' roomForSign)
      simp only [Option.bind_eq_bind, Option.bind_some, if_true, dif_pos roomForSign, emitted]
      simp [Buffer.push, chars]

theorem length_decimal_lt {x : Nat} (lt : x < 2 ^ 32) :
    (Nat.toDigits 10 x).length < bufSize := by
  have inTenDigits : x < 10 ^ 10 := by omega
  have atMostTen : (Nat.toDigits 10 x).length ≤ 10 :=
    (Nat.length_toDigits_le_iff (by decide) (by decide)).mpr inTenDigits
  exact Nat.lt_of_le_of_lt atMostTen (by decide)

theorem length_hexadecimal_lt {x : Nat} (lt : x < 2 ^ 32) :
    (Nat.toDigits 16 x).length < bufSize := by
  have inEightDigits : x < 16 ^ 8 := by omega
  have atMostEight : (Nat.toDigits 16 x).length ≤ 8 :=
    (Nat.length_toDigits_le_iff (by decide) (by decide)).mpr inEightDigits
  exact Nat.lt_of_le_of_lt atMostEight (by decide)

/-- Negation yields the magnitude of every negative number, the least one included. -/
theorem toNat_neg_of_negative {xx : BitVec 32} (negative : xx.toInt < 0) :
    (-xx).toNat = xx.toInt.natAbs := by
  have bound := xx.isLt
  rw [BitVec.toInt_eq_toNat_cond] at negative ⊢
  rw [BitVec.toNat_neg]
  split_ifs at negative ⊢ <;> omega

theorem natAbs_toInt_of_nonneg {xx : BitVec 32} (nonneg : ¬ xx.toInt < 0) :
    xx.toInt.natAbs = xx.toNat := by
  have bound := xx.isLt
  rw [BitVec.toInt_eq_toNat_cond] at nonneg ⊢
  split_ifs at nonneg ⊢ <;> omega

theorem printDigits_decimal (spells : Spells digits 10 id) (xx : BitVec 32) :
    (if xx.toInt < 0 then printDigits digits 10 (-xx).toNat true
      else printDigits digits 10 xx.toNat false) = some (decimal xx.toInt) := by
  unfold decimal
  split_ifs with negative
  · rw [printDigits_spec spells (by decide) true (length_decimal_lt (-xx).isLt),
      toNat_neg_of_negative negative]
    simp
  · rw [printDigits_spec spells (by decide) false (length_decimal_lt xx.isLt),
      natAbs_toInt_of_nonneg negative]
    simp

theorem kernelPrintint_decimal (xx : BitVec 32) :
    kernelPrintint xx 10 true = some (decimal xx.toInt) := by
  rw [← printDigits_decimal kernelDigits_spell_decimal xx]
  by_cases negative : xx.toInt < 0 <;> simp [kernelPrintint, negative]

theorem userPrintint_decimal (xx : BitVec 32) :
    userPrintint xx 10 true = some (decimal xx.toInt) := by
  rw [← printDigits_decimal userDigits_spell_decimal xx]
  by_cases negative : xx.toInt < 0 <;> simp [userPrintint, negative]

theorem kernelPrintint_hexadecimal (xx : BitVec 32) :
    kernelPrintint xx 16 false = some (Nat.toDigits 16 xx.toNat) := by
  have printed := printDigits_spec kernelDigits_spell_hexadecimal (by decide) false
    (length_hexadecimal_lt xx.isLt)
  simpa [kernelPrintint] using printed

theorem userPrintint_hexadecimal (xx : BitVec 32) :
    userPrintint xx 16 false = some ((Nat.toDigits 16 xx.toNat).map Char.toUpper) := by
  have printed := printDigits_spec userDigits_spell_hexadecimal (by decide) false
    (length_hexadecimal_lt xx.isLt)
  simpa [userPrintint] using printed

theorem range_of_isDigit {c : Char} (isDigit : c.isDigit) :
    ('0' ≤ c ∧ c ≤ '9') ∧ '0'.toNat ≤ c.toNat := by
  simp only [Char.isDigit, Bool.and_eq_true, decide_eq_true_eq] at isDigit
  exact ⟨isDigit, UInt32.le_iff_toNat_le.mp isDigit.1⟩

/-- One character of `atoi` in wrapping arithmetic. -/
theorem ofNat_digit (n : Nat) {c least : Nat} (le : least ≤ c) :
    BitVec.ofNat 32 n * 10 + BitVec.ofNat 32 c - BitVec.ofNat 32 least =
      BitVec.ofNat 32 (10 * n + (c - least)) := by
  have ten : BitVec.toNat (10 : BitVec 32) = 10 := rfl
  apply BitVec.eq_of_toNat_eq
  simp only [BitVec.toNat_sub, BitVec.toNat_add, BitVec.toNat_mul, BitVec.toNat_ofNat, ten]
  omega

/-- `atoi` reads a text of digits to its end. -/
theorem atoiFrom_digits (s : List Char) (areDigits : ∀ c ∈ s, c.isDigit) (n : Nat) :
    atoiFrom (BitVec.ofNat 32 n) s = BitVec.ofNat 32 (Nat.ofDigitChars 10 s n) := by
  induction s generalizing n with
  | nil => simp [atoiFrom]
  | cons c s ih =>
      have isDigit := range_of_isDigit (areDigits c List.mem_cons_self)
      rw [atoiFrom, if_pos isDigit.1, ofNat_digit n isDigit.2, Nat.ofDigitChars_cons]
      exact ih (fun other member => areDigits other (List.mem_cons_of_mem c member)) _

theorem atoi_decimal {xx : BitVec 32} (nonneg : 0 ≤ xx.toInt) : atoi (decimal xx.toInt) = xx := by
  have notNegative : ¬ xx.toInt < 0 := by omega
  rw [decimal, if_neg notNegative, natAbs_toInt_of_nonneg notNegative, atoi]
  have read := atoiFrom_digits (Nat.toDigits 10 xx.toNat)
    (fun c member => Nat.isDigit_of_mem_toDigits (by decide) (by decide) member) 0
  rw [Nat.ofDigitChars_ten_toDigits, BitVec.ofNat_toNat, BitVec.setWidth_eq] at read
  exact read

/-- Both versions print the decimal numeral of every signed number and the hexadecimal numeral
of every unsigned one, and `atoi` reads the decimal numerals that have no sign. -/
theorem printint_exact (xx : BitVec 32) :
    kernelPrintint xx 10 true = some (decimal xx.toInt) ∧
      userPrintint xx 10 true = some (decimal xx.toInt) ∧
      kernelPrintint xx 16 false = some (Nat.toDigits 16 xx.toNat) ∧
      userPrintint xx 16 false = some ((Nat.toDigits 16 xx.toNat).map Char.toUpper) ∧
      (0 ≤ xx.toInt → (kernelPrintint xx 10 true).map atoi = some xx ∧
        (userPrintint xx 10 true).map atoi = some xx) := by
  refine ⟨kernelPrintint_decimal xx, userPrintint_decimal xx, kernelPrintint_hexadecimal xx,
    userPrintint_hexadecimal xx, fun nonneg => ?_⟩
  rw [kernelPrintint_decimal, userPrintint_decimal, Option.map_some, atoi_decimal nonneg]
  exact ⟨rfl, rfl⟩

end Coursework.IntegerPrinting
