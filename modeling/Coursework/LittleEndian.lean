import Mathlib.Data.List.Basic
import Mathlib.Tactic.Ring

/-!
# Numbers as bytes

A number as a list of bytes, the least significant first, and back.
-/

namespace Coursework.LittleEndian

/-- The number with the given bytes. -/
def ofBytes : List UInt8 → Nat
  | [] => 0
  | byte :: rest => byte.toNat + 256 * ofBytes rest

/-- The low bytes of a number. -/
def toBytes : Nat → Nat → List UInt8
  | 0, _ => []
  | count + 1, n => UInt8.ofNat (n % 256) :: toBytes count (n / 256)

@[simp]
theorem length_toBytes (count n : Nat) : (toBytes count n).length = count := by
  induction count generalizing n with
  | zero => rfl
  | succ count ih => rw [toBytes, List.length_cons, ih]

theorem ofBytes_toBytes (count n : Nat) : ofBytes (toBytes count n) = n % 256 ^ count := by
  induction count generalizing n with
  | zero => rw [toBytes, ofBytes, pow_zero, Nat.mod_one]
  | succ count ih =>
      have isByte : (UInt8.ofNat (n % 256)).toNat = n % 256 := by
        rw [UInt8.toNat_ofNat']
        exact Nat.mod_mod n 256
      rw [toBytes, ofBytes, ih, isByte, pow_succ', Nat.mod_mul]

theorem ofBytes_lt (bytes : List UInt8) : ofBytes bytes < 256 ^ bytes.length := by
  induction bytes with
  | nil => exact Nat.one_pos
  | cons byte rest ih =>
      have isByte := byte.toNat_lt
      rw [ofBytes, List.length_cons, pow_succ]
      omega

end Coursework.LittleEndian
