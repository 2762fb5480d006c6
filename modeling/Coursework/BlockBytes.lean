import Mathlib.Algebra.Group.Nat.Defs
import Mathlib.Data.Fintype.Basic
import Mathlib.Logic.Function.Basic

/-!
# Little-endian fields of a block of bytes

Disk structures are C records laid over the bytes of a fixed-size block.  This
file reads and writes unsigned little-endian fields of any width at any byte
offset, and says which reads a write changes.
-/

namespace Coursework

/-- A block of `size` bytes. -/
abbrev ByteBlock (size : Nat) := Fin size → UInt8

namespace ByteBlock

variable {size : Nat}

/-- The byte at an offset; offsets past the end read as zero. -/
def byteAt (block : ByteBlock size) (offset : Nat) : UInt8 :=
  if inside : offset < size then block ⟨offset, inside⟩ else 0

/-- Store one byte; a store past the end has no effect. -/
def setByte (block : ByteBlock size) (offset : Nat) (value : UInt8) :
    ByteBlock size :=
  fun index => if index.val = offset then value else block index

/-- The unsigned little-endian field of `width` bytes at `offset`. -/
def getField (block : ByteBlock size) (offset : Nat) : Nat → Nat
  | 0 => 0
  | width + 1 =>
      (byteAt block offset).toNat + 256 * getField block (offset + 1) width

/-- Store the low `8 * width` bits of `value` at `offset`. -/
def setField (block : ByteBlock size) (offset : Nat) :
    (width value : Nat) → ByteBlock size
  | 0, _ => block
  | width + 1, value =>
      setField (setByte block offset (UInt8.ofNat value)) (offset + 1)
        width (value / 256)

@[simp]
theorem byteAt_setByte_self (block : ByteBlock size) {offset : Nat}
    (inside : offset < size) (value : UInt8) :
    byteAt (setByte block offset value) offset = value := by
  simp [byteAt, setByte, inside]

@[simp]
theorem byteAt_setByte_of_ne (block : ByteBlock size) {offset other : Nat}
    (distinct : other ≠ offset) (value : UInt8) :
    byteAt (setByte block offset value) other = byteAt block other := by
  simp [byteAt, setByte, distinct]

theorem byteAt_setField_of_outside (block : ByteBlock size)
    {offset width other : Nat} (value : Nat)
    (outside : other < offset ∨ offset + width ≤ other) :
    byteAt (setField block offset width value) other = byteAt block other := by
  induction width generalizing block offset value with
  | zero => rfl
  | succ width ih =>
      rw [setField, ih _ _ (by omega)]
      exact byteAt_setByte_of_ne block (by omega) _

theorem getField_congr {first second : ByteBlock size} {offset width : Nat}
    (agree : ∀ index, offset ≤ index → index < offset + width →
      byteAt first index = byteAt second index) :
    getField first offset width = getField second offset width := by
  induction width generalizing offset with
  | zero => rfl
  | succ width ih =>
      have rest : getField first (offset + 1) width = getField second (offset + 1) width :=
        ih fun index lower upper => agree index (by omega) (by omega)
      rw [getField, getField, agree offset (by omega) (by omega), rest]

/-- A field that does not overlap the stored one keeps its value. -/
theorem getField_setField_of_disjoint (block : ByteBlock size)
    {offset width other otherWidth : Nat} (value : Nat)
    (disjoint : other + otherWidth ≤ offset ∨ offset + width ≤ other) :
    getField (setField block offset width value) other otherWidth =
      getField block other otherWidth := by
  apply getField_congr
  intro index lower upper
  exact byteAt_setField_of_outside block value (by omega)

/-- A stored field reads back as the value modulo the field's range. -/
theorem getField_setField_self (block : ByteBlock size)
    {offset width : Nat} (value : Nat) (fits : offset + width ≤ size) :
    getField (setField block offset width value) offset width =
      value % 256 ^ width := by
  induction width generalizing block offset value with
  | zero => simp [getField, Nat.mod_one]
  | succ width ih =>
      have firstByte : byteAt (setField block offset (width + 1) value) offset =
          UInt8.ofNat value := by
        rw [setField, byteAt_setField_of_outside _ _ (Or.inl (by omega))]
        exact byteAt_setByte_self block (by omega) _
      have rest : getField (setField block offset (width + 1) value)
          (offset + 1) width = value / 256 % 256 ^ width := by
        rw [setField, ih _ _ (by omega)]
      rw [getField, firstByte, rest, Nat.pow_succ, Nat.mul_comm (256 ^ width),
        Nat.mod_mul]
      simp

end ByteBlock

end Coursework
