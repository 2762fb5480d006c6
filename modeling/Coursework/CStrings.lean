import Mathlib.Data.List.TakeWhile
import Mathlib.Tactic.Common

/-!
# Strings in buffers

A string in a buffer of `n` bytes ends before the first zero byte, or with the buffer.
`strncmp` compares two such strings and `strncpy` fills a buffer with one.  A string without a
buffer is the list of its bytes; reading behind them yields the zero byte that ends it.
-/

namespace Coursework.CString

/-- The string in the first `n` bytes of a buffer. -/
def stringOf (n : Nat) (bytes : List UInt8) : List UInt8 := (bytes.take n).takeWhile (· != 0)

/-- `strncmp`. -/
def strncmp : Nat → List UInt8 → List UInt8 → Int
  | 0, _, _ => 0
  | n + 1, p, q =>
      if p.headD 0 ≠ 0 ∧ p.headD 0 = q.headD 0 then strncmp n p.tail q.tail
      else (p.headD 0).toNat - (q.headD 0).toNat

/-- `strncpy`. -/
def strncpy : Nat → List UInt8 → List UInt8
  | 0, _ => []
  | n + 1, t =>
      if t.headD 0 ≠ 0 then t.headD 0 :: strncpy n t.tail else List.replicate (n + 1) 0

@[simp]
theorem stringOf_zero (bytes : List UInt8) : stringOf 0 bytes = [] := rfl

@[simp]
theorem stringOf_nil (n : Nat) : stringOf n [] = [] := by
  cases n <;> rfl

theorem stringOf_cons (n : Nat) (byte : UInt8) (bytes : List UInt8) :
    stringOf (n + 1) (byte :: bytes) = if byte ≠ 0 then byte :: stringOf n bytes else [] := by
  simp [stringOf, List.takeWhile_cons]

/-- The string in a buffer by the first byte of the buffer. -/
theorem stringOf_succ (n : Nat) (bytes : List UInt8) : stringOf (n + 1) bytes =
    if bytes.headD 0 ≠ 0 then bytes.headD 0 :: stringOf n bytes.tail else [] := by
  cases bytes with
  | nil => rfl
  | cons byte bytes => exact stringOf_cons n byte bytes

/-- A string without zero bytes, cut to the length of a buffer. -/
theorem stringOf_of_not_mem {bytes : List UInt8} (noZero : 0 ∉ bytes) (n : Nat) :
    stringOf n bytes = bytes.take n := by
  apply List.takeWhile_eq_self_iff.mpr
  intro byte member
  rw [bne_iff_ne]
  rintro rfl
  exact noZero (List.mem_of_mem_take member)

/-- What a zero byte ends. -/
theorem stringOf_append_zero {bytes : List UInt8} (noZero : 0 ∉ bytes) {n : Nat}
    (fits : bytes.length ≤ n) (rest : List UInt8) : stringOf n (bytes ++ 0 :: rest) = bytes := by
  induction bytes generalizing n with
  | nil => cases n <;> simp [stringOf_cons]
  | cons byte bytes ih =>
      obtain ⟨n, rfl⟩ := Nat.exists_eq_add_one.mpr (Nat.zero_lt_of_lt fits)
      have later : 0 ∉ bytes := fun member => noZero (List.mem_cons_of_mem _ member)
      have nonzero : byte ≠ 0 := fun isZero => noZero (isZero ▸ List.mem_cons_self)
      rw [List.cons_append, stringOf_cons, if_pos nonzero, ih later (Nat.le_of_succ_le_succ fits)]

/-- `strncmp` compares the strings in two buffers. -/
theorem strncmp_eq_zero_iff (n : Nat) (p q : List UInt8) :
    strncmp n p q = 0 ↔ stringOf n p = stringOf n q := by
  induction n generalizing p q with
  | zero => simp [strncmp]
  | succ n ih =>
      rw [strncmp, stringOf_succ n p, stringOf_succ n q]
      by_cases same : p.headD 0 = q.headD 0
      · by_cases more : p.headD 0 ≠ 0
        · rw [if_pos ⟨more, same⟩, ih, if_pos more, if_pos (same ▸ more), same,
            List.cons_inj_right]
        · rw [if_neg fun both => more both.1, if_neg more, if_neg (same ▸ more), same]
          simp
      · rw [if_neg fun both => same both.2]
        have apart : (p.headD 0).toNat ≠ (q.headD 0).toNat :=
          fun equal => same (UInt8.toNat_inj.mp equal)
        constructor
        · intro equal
          omega
        · intro equal
          split at equal <;> split at equal
          · exact absurd (List.cons.inj equal).1 same
          · cases equal
          · cases equal
          · next first second =>
              rw [not_not] at first second
              exact absurd (first.trans second.symm) same

/-- `strncpy` fills the buffer. -/
theorem length_strncpy (n : Nat) (t : List UInt8) : (strncpy n t).length = n := by
  induction n generalizing t with
  | zero => rfl
  | succ n ih =>
      rw [strncpy]
      split
      · rw [List.length_cons, ih]
      · exact List.length_replicate

/-- `strncpy` copies the string as far as the buffer holds it. -/
theorem stringOf_strncpy (n : Nat) (t : List UInt8) : stringOf n (strncpy n t) = stringOf n t := by
  induction n generalizing t with
  | zero => rfl
  | succ n ih =>
      rw [strncpy, stringOf_succ n t]
      split
      · next more => rw [stringOf_cons, if_pos more, ih]
      · rw [List.replicate_succ, stringOf_cons, if_neg (by simp)]

end Coursework.CString
