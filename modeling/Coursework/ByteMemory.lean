import Mathlib.Data.List.Basic
import Mathlib.Data.List.GetD

/-!
# Memories of bytes

A memory has a byte at every address.  A range of it is filled with one byte, stored
from a list, or loaded as a list.  The lemmas say what a load sees of the writes before
it: all of a write to its own range, nothing of a write to a disjoint one.
-/

namespace Coursework

/-- A byte at every address. -/
abbrev ByteMemory := Nat → UInt8

namespace ByteMemory

variable {memory other : ByteMemory} {start count addr : Nat} {value : UInt8}
  {bytes : List UInt8}

/-- Set every byte of a range to a value. -/
def fill (memory : ByteMemory) (start count : Nat) (value : UInt8) : ByteMemory := fun addr =>
  if start ≤ addr ∧ addr < start + count then value else memory addr

/-- Write a list of bytes from an address on. -/
def store (memory : ByteMemory) (start : Nat) (bytes : List UInt8) : ByteMemory := fun addr =>
  if start ≤ addr ∧ addr < start + bytes.length then bytes.getD (addr - start) 0 else memory addr

/-- The bytes of a range. -/
def load (memory : ByteMemory) (start count : Nat) : List UInt8 :=
  (List.range count).map fun i => memory (start + i)

theorem fill_inside (lower : start ≤ addr) (upper : addr < start + count) :
    memory.fill start count value addr = value :=
  if_pos ⟨lower, upper⟩

theorem fill_outside (outside : addr < start ∨ start + count ≤ addr) :
    memory.fill start count value addr = memory addr :=
  if_neg (by omega)

theorem store_inside (lower : start ≤ addr) (upper : addr < start + bytes.length) :
    memory.store start bytes addr = bytes.getD (addr - start) 0 :=
  if_pos ⟨lower, upper⟩

theorem store_outside (outside : addr < start ∨ start + bytes.length ≤ addr) :
    memory.store start bytes addr = memory addr :=
  if_neg (by omega)

@[simp]
theorem store_nil : memory.store start [] = memory := by
  funext addr
  exact store_outside (by rw [List.length_nil]; omega)

@[simp]
theorem length_load : (memory.load start count).length = count := by
  simp [load]

theorem getD_load {i : Nat} (inside : i < count) :
    (memory.load start count).getD i 0 = memory (start + i) := by
  simp [load, inside]

/-- The bytes loaded at one place and stored at another. -/
theorem store_load_inside {source : ByteMemory} {from_ : Nat} (lower : start ≤ addr)
    (upper : addr < start + count) :
    memory.store start (source.load from_ count) addr = source (from_ + (addr - start)) := by
  rw [store_inside lower (by rw [length_load]; exact upper), getD_load (by omega)]

end ByteMemory

end Coursework
