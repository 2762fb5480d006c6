import Coursework.ByteMemory
import Mathlib.Algebra.Ring.Nat
import Mathlib.Logic.Function.Basic

/-!
# The two versions of memmove

The user library copies upwards, whatever the ranges are.  The kernel copies downwards when
the target starts inside of the source.  Pointers wrap at the end of the address space; a range
that ends there leaves a pointer behind it that is not used any more.

After some steps of the loop that goes up, the byte at `dst + i` is the one at `src + i`
unless the target lies above the source.  Then the loop reads what it has written as soon as it
comes to `dst`, so the bytes between `src` and `dst` repeat.  So the user version moves the
bytes exactly if they had this period before.  The loop that goes down, with the target above
the source, overwrites only what it has read.
-/

namespace Coursework.MemoryMoves

/-- The number of addresses. -/
abbrev addressSpace : Nat := 2 ^ 32

/-- The loop `while(n-- > 0) *dst++ = *src++`. -/
def copyUp (memory : ByteMemory) (dst src : Nat) : Nat → ByteMemory
  | 0 => memory
  | n + 1 => copyUp (Function.update memory dst (memory src)) ((dst + 1) % addressSpace)
      ((src + 1) % addressSpace) n

/-- The loop `while(n-- > 0) *--d = *--s`. -/
def copyDown (memory : ByteMemory) (d s : Nat) : Nat → ByteMemory
  | 0 => memory
  | n + 1 =>
      let d := (d + addressSpace - 1) % addressSpace
      let s := (s + addressSpace - 1) % addressSpace
      copyDown (Function.update memory d (memory s)) d s n

/-- `memmove` of the user library; its count is signed. -/
def userMemmove (memory : ByteMemory) (vdst vsrc : Nat) (n : Int) : ByteMemory :=
  copyUp memory vdst vsrc n.toNat

/-- `memmove` of the kernel. -/
def kernelMemmove (memory : ByteMemory) (dst src n : Nat) : ByteMemory :=
  if src < dst ∧ (src + n) % addressSpace > dst then
    copyDown memory ((dst + n) % addressSpace) ((src + n) % addressSpace) n
  else copyUp memory dst src n

/-- The target holds what was in the source, and nothing else has changed. -/
structure Moved (memory after : ByteMemory) (dst src n : Nat) : Prop where
  target : ∀ i < n, after (dst + i) = memory (src + i)
  elsewhere : ∀ addr, addr < dst ∨ dst + n ≤ addr → after addr = memory addr

variable {memory : ByteMemory} {dst src n : Nat}

/-- The loop that goes up, by its last step. -/
theorem copyUp_succ (dstFits : dst + (n + 1) ≤ addressSpace)
    (srcFits : src + (n + 1) ≤ addressSpace) : copyUp memory dst src (n + 1) =
      Function.update (copyUp memory dst src n) (dst + n)
        (copyUp memory dst src n (src + n)) := by
  induction n generalizing memory dst src with
  | zero => rfl
  | succ n ih =>
      have nextDst : (dst + 1) % addressSpace = dst + 1 := Nat.mod_eq_of_lt (by omega)
      have nextSrc : (src + 1) % addressSpace = src + 1 := Nat.mod_eq_of_lt (by omega)
      have firstStep (count : Nat) : copyUp memory dst src (count + 1) =
          copyUp (Function.update memory dst (memory src)) (dst + 1) (src + 1) count := by
        rw [copyUp, nextDst, nextSrc]
      rw [firstStep, firstStep, ih (by omega) (by omega), Nat.add_right_comm dst,
        Nat.add_right_comm src, Nat.add_assoc dst, Nat.add_assoc src]

theorem copyUp_elsewhere (dstFits : dst + n ≤ addressSpace) (srcFits : src + n ≤ addressSpace)
    {addr : Nat} (outside : addr < dst ∨ dst + n ≤ addr) :
    copyUp memory dst src n addr = memory addr := by
  induction n with
  | zero => rfl
  | succ n ih =>
      rw [copyUp_succ dstFits srcFits, Function.update_of_ne (by omega)]
      exact ih (by omega) (by omega) (by omega)

/-- A target below the source receives the bytes of the source. -/
theorem copyUp_below (below : dst ≤ src) (dstFits : dst + n ≤ addressSpace)
    (srcFits : src + n ≤ addressSpace) {i : Nat} (lt : i < n) :
    copyUp memory dst src n (dst + i) = memory (src + i) := by
  induction n with
  | zero => cases lt
  | succ n ih =>
      rw [copyUp_succ dstFits srcFits]
      by_cases isLast : i = n
      · rw [isLast, Function.update_self]
        exact copyUp_elsewhere (by omega) (by omega) (by omega)
      · rw [Function.update_of_ne (by omega)]
        exact ih (by omega) (by omega) (by omega)

/-- A target above the source receives the bytes between the two over and again. -/
theorem copyUp_above (above : src < dst) (dstFits : dst + n ≤ addressSpace)
    (srcFits : src + n ≤ addressSpace) {i : Nat} (lt : i < n) :
    copyUp memory dst src n (dst + i) = memory (src + i % (dst - src)) := by
  induction n generalizing i with
  | zero => cases lt
  | succ n ih =>
      rw [copyUp_succ dstFits srcFits]
      by_cases isLast : i = n
      · rw [isLast, Function.update_self]
        by_cases inFront : n < dst - src
        · rw [Nat.mod_eq_of_lt inFront]
          exact copyUp_elsewhere (by omega) (by omega) (by omega)
        · have written : src + n = dst + (n - (dst - src)) := by omega
          rw [written, ih (by omega) (by omega) (by omega), ← Nat.mod_eq_sub_mod (by omega)]
      · rw [Function.update_of_ne (by omega)]
        exact ih (by omega) (by omega) (by omega)

theorem previous_wrapped {position : Nat} (fits : position < addressSpace) :
    ((position + 1) % addressSpace + addressSpace - 1) % addressSpace = position := by
  unfold addressSpace at fits ⊢
  omega

/-- The loop that goes down, with the target above the source. -/
theorem copyDown_above (above : src < dst) (dstFits : dst + n ≤ addressSpace)
    (srcFits : src + n ≤ addressSpace) :
    Moved memory (copyDown memory ((dst + n) % addressSpace) ((src + n) % addressSpace) n)
      dst src n := by
  induction n generalizing memory with
  | zero => exact ⟨fun i lt => absurd lt (Nat.not_lt_zero i), fun _ _ => rfl⟩
  | succ n ih =>
      have previousDst := previous_wrapped (show dst + n < addressSpace by omega)
      have previousSrc := previous_wrapped (show src + n < addressSpace by omega)
      rw [copyDown, ← Nat.add_assoc, ← Nat.add_assoc]
      simp only [previousDst, previousSrc]
      have rest := @ih (Function.update memory (dst + n) (memory (src + n))) (by omega) (by omega)
      rw [Nat.mod_eq_of_lt (show dst + n < addressSpace by omega),
        Nat.mod_eq_of_lt (show src + n < addressSpace by omega)] at rest
      constructor
      · intro i lt
        by_cases isLast : i = n
        · rw [isLast, rest.elsewhere _ (by omega), Function.update_self]
        · rw [rest.target i (by omega), Function.update_of_ne (by omega)]
      · intro addr outside
        rw [rest.elsewhere addr (by omega), Function.update_of_ne (by omega)]

/-- Bytes with period `dst - src`, as far as the target overlaps with the source. -/
def Periodic (memory : ByteMemory) (dst src n : Nat) : Prop :=
  ∀ i < n, memory (src + i) = memory (src + i % (dst - src))

theorem copyUp_moved_iff (dstFits : dst + n ≤ addressSpace) (srcFits : src + n ≤ addressSpace) :
    Moved memory (copyUp memory dst src n) dst src n ↔
      dst ≤ src ∨ Periodic memory dst src n := by
  have elsewhere : ∀ addr, addr < dst ∨ dst + n ≤ addr →
      copyUp memory dst src n addr = memory addr :=
    fun addr outside => copyUp_elsewhere dstFits srcFits outside
  by_cases below : dst ≤ src
  · exact iff_of_true ⟨fun i lt => copyUp_below below dstFits srcFits lt, elsewhere⟩
      (Or.inl below)
  · have above : src < dst := Nat.lt_of_not_le below
    constructor
    · intro moved
      right
      intro i lt
      rw [← moved.target i lt, copyUp_above above dstFits srcFits lt]
    · rintro (below | periodic)
      · omega
      · refine ⟨fun i lt => ?_, elsewhere⟩
        rw [copyUp_above above dstFits srcFits lt, periodic i lt]

/-- Bytes that are apart from the target have any period. -/
theorem periodic_of_apart (apart : src + n ≤ dst) : Periodic memory dst src n := by
  intro i lt
  rw [Nat.mod_eq_of_lt (by omega)]

theorem kernelMemmove_moved (dstFits : dst + n ≤ addressSpace)
    (srcFits : src + n ≤ addressSpace) :
    Moved memory (kernelMemmove memory dst src n) dst src n := by
  unfold kernelMemmove
  split_ifs with overlaps
  · exact copyDown_above overlaps.1 dstFits srcFits
  · apply (copyUp_moved_iff dstFits srcFits).mpr
    by_cases below : dst ≤ src
    · exact Or.inl below
    · have notWrapped : (src + n) % addressSpace ≤ dst := by omega
      have inside : src + n ≤ dst := by
        unfold addressSpace at notWrapped dstFits srcFits
        omega
      exact Or.inr (periodic_of_apart inside)

/-- Both versions move the bytes exactly if the target is not above the source, or if the
bytes repeat as often as the target overlaps with them. -/
theorem memmove_agree_iff (memory : ByteMemory) (dst src n : Nat)
    (dstFits : dst + n ≤ addressSpace) (srcFits : src + n ≤ addressSpace) :
    (Moved memory (userMemmove memory dst src n) dst src n ∧
        Moved memory (kernelMemmove memory dst src n) dst src n) ↔
      dst ≤ src ∨ Periodic memory dst src n := by
  rw [and_iff_left (kernelMemmove_moved dstFits srcFits)]
  exact copyUp_moved_iff dstFits srcFits

theorem memmove_agree_iff_apart :
    (Moved (UInt8.ofNat ·) (userMemmove (UInt8.ofNat ·) 10 4 (5 : Nat)) 10 4 5 ∧
        Moved (UInt8.ofNat ·) (kernelMemmove (UInt8.ofNat ·) 10 4 5) 10 4 5) ↔
      10 ≤ 4 ∨ Periodic (UInt8.ofNat ·) 10 4 5 :=
  memmove_agree_iff (UInt8.ofNat ·) 10 4 5 (by decide) (by decide)

/-- Two bytes that are moved up by one place. -/
theorem userMemmove_overlap :
    ¬ Moved (UInt8.ofNat ·) (userMemmove (UInt8.ofNat ·) 1 0 2) 1 0 2 := by
  intro moved
  exact absurd (moved.target 1 (by decide)) (by decide)

end Coursework.MemoryMoves
