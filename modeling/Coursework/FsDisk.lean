import Coursework.BlockBytes
import Coursework.KernelParam
import Mathlib.Data.Fintype.Pi
import Mathlib.Data.Nat.Bitwise

/-!
# The file system on disk

The free-block bitmap, the inode table and the content of the other blocks, and
the block allocator of `fs.c` over them.  `bmap` finds the block that holds a
piece of a file and allocates the blocks that are missing on the way.
-/

namespace Coursework.FileSystem

open ByteBlock

abbrev Block := ByteBlock BSIZE

/-- The superblock's description of the disk.  Block numbers are counted in an
`int`. -/
structure Superblock where
  size : Nat
  ninodes : Nat
  nlog : Nat
  logstart : Nat
  inodestart : Nat
  bmapstart : Nat
  sizeFits : size + BPB ≤ 2 ^ 31

/-- The blocks that hold no file content: boot block, superblock, log, inodes and
bitmap. -/
def Superblock.isMeta (sb : Superblock) (blockno : Nat) : Prop :=
  blockno = 0 ∨ blockno = 1 ∨
    (sb.logstart ≤ blockno ∧ blockno < sb.logstart + sb.nlog) ∨
    (sb.inodestart ≤ blockno ∧ blockno < sb.inodestart + (sb.ninodes / IPB + 1)) ∨
    (sb.bmapstart ≤ blockno ∧ blockno < sb.bmapstart + (sb.size / BPB + 1))

instance (sb : Superblock) (blockno : Nat) : Decidable (sb.isMeta blockno) :=
  inferInstanceAs (Decidable (_ ∨ _))

/-- The `type` field of an inode; `free` is zero. -/
inductive FileType where
  | free
  | dir
  | file
  | dev
  deriving DecidableEq

abbrev Addrs := Fin (NDIRECT + 1) → Nat

/-- The index of the indirect block's number in `addrs`. -/
def indirectSlot : Fin (NDIRECT + 1) := Fin.last NDIRECT

/-- `struct dinode`. -/
structure Dinode where
  type : FileType
  major : Int
  minor : Int
  nlink : Int
  size : Nat
  addrs : Addrs
  deriving DecidableEq

/-- An inode as `memset` leaves it, with a type. -/
def Dinode.blank (type : FileType) : Dinode where
  type := type
  major := 0
  minor := 0
  nlink := 0
  size := 0
  addrs := fun _ => 0

structure Disk (sb : Superblock) where
  bitmap : Nat → Block
  dinodes : Fin sb.ninodes → Dinode
  blocks : Nat → Block

inductive Panic where
  | outOfBlocks
  | freeingFreeBlock
  | outOfRange
  | noInodes
  | noType
  | cacheFull
  deriving DecidableEq

/-! ## Bits of the bitmap -/

/-- `1 << (bi % 8)`. -/
def bitMask (bi : Nat) : UInt8 := UInt8.ofNat (2 ^ (bi % 8))

/-- Whether the bit of index `bi` in a bitmap block is set. -/
def testBit (block : Block) (bi : Nat) : Bool :=
  (byteAt block (bi / 8) &&& bitMask bi) != 0

def setBit (block : Block) (bi : Nat) : Block :=
  setByte block (bi / 8) (byteAt block (bi / 8) ||| bitMask bi)

def clearBit (block : Block) (bi : Nat) : Block :=
  setByte block (bi / 8) (byteAt block (bi / 8) &&& ~~~ bitMask bi)

theorem testBit_eq (block : Block) (bi : Nat) :
    testBit block bi = (byteAt block (bi / 8)).toNat.testBit (bi % 8) := by
  have small : 2 ^ (bi % 8) < 2 ^ 8 := Nat.pow_lt_pow_right (by omega) (by omega)
  have masked : (byteAt block (bi / 8) &&& bitMask bi).toNat =
      ((byteAt block (bi / 8)).toNat.testBit (bi % 8)).toNat * 2 ^ (bi % 8) := by
    rw [UInt8.toNat_and, bitMask, UInt8.toNat_ofNat', Nat.mod_eq_of_lt small,
      Nat.and_two_pow]
  cases isSet : (byteAt block (bi / 8)).toNat.testBit (bi % 8) with
  | false =>
      rw [isSet] at masked
      simp only [testBit, bne_eq_false_iff_eq]
      apply UInt8.toNat_inj.mp
      simpa using masked
  | true =>
      rw [isSet] at masked
      simp only [testBit, bne_iff_ne]
      intro zero
      rw [zero] at masked
      have positive : 0 < 2 ^ (bi % 8) := Nat.two_pow_pos _
      simp only [UInt8.toNat_zero, Bool.toNat_true, Nat.one_mul] at masked
      omega

theorem toNat_bitMask (bi : Nat) : (bitMask bi).toNat = 2 ^ (bi % 8) := by
  have small : 2 ^ (bi % 8) < 2 ^ 8 := Nat.pow_lt_pow_right (by omega) (by omega)
  rw [bitMask, UInt8.toNat_ofNat', Nat.mod_eq_of_lt small]

theorem testBit_setBit (block : Block) {bi other : Nat} (inside : bi < BPB) :
    testBit (setBit block bi) other = (decide (other = bi) || testBit block other) := by
  have byteInside : bi / 8 < BSIZE := by simp only [BPB, BSIZE] at inside ⊢; omega
  rw [testBit_eq, testBit_eq, setBit]
  by_cases sameByte : other / 8 = bi / 8
  · rw [sameByte, byteAt_setByte_self block byteInside, UInt8.toNat_or, Nat.testBit_or,
      toNat_bitMask, Nat.testBit_two_pow, Bool.or_comm]
    congr 1
    apply decide_eq_decide.mpr
    omega
  · have distinct : other ≠ bi := fun equal => sameByte (by rw [equal])
    rw [byteAt_setByte_of_ne block sameByte]
    simp [distinct]

theorem testBit_clearBit (block : Block) {bi other : Nat} (inside : bi < BPB) :
    testBit (clearBit block bi) other = (!decide (other = bi) && testBit block other) := by
  have byteInside : bi / 8 < BSIZE := by simp only [BPB, BSIZE] at inside ⊢; omega
  have small : 2 ^ (bi % 8) < 2 ^ 8 := Nat.pow_lt_pow_right (by omega) (by omega)
  rw [testBit_eq, testBit_eq, clearBit]
  by_cases sameByte : other / 8 = bi / 8
  · have complement : (~~~ bitMask bi).toNat = 2 ^ 8 - (2 ^ (bi % 8) + 1) := by
      rw [UInt8.toNat_not, toNat_bitMask]
      simp only [UInt8.size]
      omega
    rw [sameByte, byteAt_setByte_self block byteInside, UInt8.toNat_and, Nat.testBit_and,
      complement, Nat.testBit_two_pow_sub_succ small, Nat.testBit_two_pow, Bool.and_comm]
    congr 1
    have inByte : other % 8 < 8 := by omega
    simp only [inByte, decide_true, Bool.true_and]
    congr 1
    apply decide_eq_decide.mpr
    omega
  · have distinct : other ≠ bi := fun equal => sameByte (by rw [equal])
    rw [byteAt_setByte_of_ne block sameByte]
    simp [distinct]

namespace Disk

variable {sb : Superblock}

/-- Whether a block is marked in use. -/
def isUsed (disk : Disk sb) (blockno : Nat) : Bool :=
  testBit (disk.bitmap (blockno / BPB)) (blockno % BPB)

def markUsed (disk : Disk sb) (blockno : Nat) : Disk sb :=
  { disk with
    bitmap := Function.update disk.bitmap (blockno / BPB)
      (setBit (disk.bitmap (blockno / BPB)) (blockno % BPB)) }

def markFree (disk : Disk sb) (blockno : Nat) : Disk sb :=
  { disk with
    bitmap := Function.update disk.bitmap (blockno / BPB)
      (clearBit (disk.bitmap (blockno / BPB)) (blockno % BPB)) }

theorem index_lt (blockno : Nat) : blockno % BPB < BPB :=
  Nat.mod_lt _ (by decide)

theorem index_ne {first second : Nat} (distinct : first ≠ second)
    (sameBlock : first / BPB = second / BPB) : first % BPB ≠ second % BPB := by
  intro sameIndex
  apply distinct
  rw [← Nat.div_add_mod first BPB, ← Nat.div_add_mod second BPB, sameBlock, sameIndex]

theorem isUsed_markUsed (disk : Disk sb) (blockno : Nat) :
    (disk.markUsed blockno).isUsed = Function.update disk.isUsed blockno true := by
  funext other
  rcases eq_or_ne other blockno with rfl | distinct
  · simp [isUsed, markUsed, testBit_setBit _ (index_lt other)]
  · rw [Function.update_of_ne distinct]
    by_cases sameBlock : other / BPB = blockno / BPB
    · have differ := index_ne distinct sameBlock
      simp [isUsed, markUsed, sameBlock, testBit_setBit _ (index_lt blockno), differ]
    · simp [isUsed, markUsed, Function.update_of_ne sameBlock]

theorem isUsed_markFree (disk : Disk sb) (blockno : Nat) :
    (disk.markFree blockno).isUsed = Function.update disk.isUsed blockno false := by
  funext other
  rcases eq_or_ne other blockno with rfl | distinct
  · simp [isUsed, markFree, testBit_clearBit _ (index_lt other)]
  · rw [Function.update_of_ne distinct]
    by_cases sameBlock : other / BPB = blockno / BPB
    · have differ := index_ne distinct sameBlock
      simp [isUsed, markFree, sameBlock, testBit_clearBit _ (index_lt blockno), differ]
    · simp [isUsed, markFree, Function.update_of_ne sameBlock]

/-! ## Allocation -/

def writeBlock (disk : Disk sb) (blockno : Nat) (block : Block) : Disk sb :=
  { disk with blocks := Function.update disk.blocks blockno block }

/-- Zero a block. -/
def bzero (disk : Disk sb) (blockno : Nat) : Disk sb :=
  disk.writeBlock blockno fun _ => 0

/-- The inner loop of `balloc`: a clear bit in the bitmap block of block `b`. -/
def freeBit (disk : Disk sb) (b : Nat) : Option Nat :=
  (List.range BPB).find? fun bi =>
    decide (b + bi < sb.size) && !testBit (disk.bitmap (b / BPB)) bi

/-- The block that `balloc` picks. -/
def freeBlock (disk : Disk sb) : Option Nat :=
  (List.range ((sb.size + BPB - 1) / BPB)).findSome? fun step =>
    (disk.freeBit (step * BPB)).map (step * BPB + ·)

/-- Allocate a zeroed disk block. -/
def balloc (disk : Disk sb) : Except Panic (Nat × Disk sb) :=
  match disk.freeBlock with
  | some blockno => .ok (blockno, (disk.markUsed blockno).bzero blockno)
  | none => .error .outOfBlocks

/-- Free a disk block. -/
def bfree (disk : Disk sb) (blockno : Nat) : Except Panic (Disk sb) :=
  if disk.isUsed blockno then .ok (disk.markFree blockno) else .error .freeingFreeBlock

/-- The block number at index `bn` of an indirect block. -/
def word (block : Block) (bn : Nat) : Nat := getField block (4 * bn) 4

def setWord (block : Block) (bn addr : Nat) : Block := setField block (4 * bn) 4 addr

/-- The block listed in `addrs`, allocated if there is none. -/
def slotBlock (disk : Disk sb) (addrs : Addrs) (slot : Fin (NDIRECT + 1)) :
    Except Panic (Nat × Addrs × Disk sb) :=
  if addrs slot = 0 then do
    let (addr, disk) ← disk.balloc
    return (addr, Function.update addrs slot addr, disk)
  else return (addrs slot, addrs, disk)

/-- The block listed in an indirect block, allocated if there is none. -/
def wordBlock (disk : Disk sb) (indirect bn : Nat) : Except Panic (Nat × Disk sb) :=
  let block := disk.blocks indirect
  if word block bn = 0 then do
    let (addr, disk) ← disk.balloc
    return (addr, disk.writeBlock indirect (setWord block bn addr))
  else return (word block bn, disk)

/-- The disk block address of the nth block in an inode.  If there is no such
block, `bmap` allocates one. -/
def bmap (disk : Disk sb) (addrs : Addrs) (bn : Nat) :
    Except Panic (Nat × Addrs × Disk sb) :=
  if direct : bn < NDIRECT then disk.slotBlock addrs ⟨bn, by omega⟩
  else if bn - NDIRECT < NINDIRECT then do
    let (indirect, addrs, disk) ← disk.slotBlock addrs indirectSlot
    let (addr, disk) ← disk.wordBlock indirect (bn - NDIRECT)
    return (addr, addrs, disk)
  else .error .outOfRange

theorem freeBit_spec {disk : Disk sb} {b bi : Nat} (found : disk.freeBit b = some bi) :
    bi < BPB ∧ b + bi < sb.size ∧ testBit (disk.bitmap (b / BPB)) bi = false := by
  have inside := List.mem_range.mp (List.mem_of_find?_eq_some found)
  have passes := List.find?_some found
  simp only [Bool.and_eq_true, decide_eq_true_eq, Bool.not_eq_true'] at passes
  exact ⟨inside, passes⟩

/-- `balloc` picks a block of the disk whose bit is clear. -/
theorem freeBlock_spec {disk : Disk sb} {blockno : Nat}
    (found : disk.freeBlock = some blockno) :
    blockno < sb.size ∧ disk.isUsed blockno = false := by
  obtain ⟨step, -, picked⟩ := List.exists_of_findSome?_eq_some found
  obtain ⟨bi, isFree, rfl⟩ := Option.map_eq_some_iff.mp picked
  obtain ⟨inside, below, clear⟩ := freeBit_spec isFree
  have positive : 0 < BPB := by decide
  have block : (step * BPB + bi) / BPB = step := by
    rw [Nat.mul_comm, Nat.mul_add_div positive, Nat.div_eq_of_lt inside, Nat.add_zero]
  have index : (step * BPB + bi) % BPB = bi := by
    rw [Nat.mul_comm, Nat.mul_add_mod, Nat.mod_eq_of_lt inside]
  refine ⟨below, ?_⟩
  rw [isUsed, block, index]
  rwa [Nat.mul_div_cancel _ positive] at clear

theorem balloc_ok {disk after : Disk sb} {blockno : Nat}
    (allocated : disk.balloc = .ok (blockno, after)) :
    disk.freeBlock = some blockno ∧
      after = (disk.markUsed blockno).bzero blockno := by
  unfold balloc at allocated
  split at allocated
  · next found picked =>
      cases allocated
      exact ⟨picked, rfl⟩
  · cases allocated

theorem slotBlock_ok {disk after : Disk sb} {addrs addrs' : Addrs}
    {slot : Fin (NDIRECT + 1)} {addr : Nat}
    (mapped : disk.slotBlock addrs slot = .ok (addr, addrs', after)) :
    (addrs slot ≠ 0 ∧ addr = addrs slot ∧ addrs' = addrs ∧ after = disk) ∨
      (addrs slot = 0 ∧ disk.freeBlock = some addr ∧
        addrs' = Function.update addrs slot addr ∧
        after = (disk.markUsed addr).bzero addr) := by
  unfold slotBlock at mapped
  split at mapped
  · next missing =>
      cases allocated : disk.balloc with
      | error panic => rw [allocated] at mapped; cases mapped
      | ok result =>
          obtain ⟨blockno, disk'⟩ := result
          rw [allocated] at mapped
          cases mapped
          obtain ⟨picked, rfl⟩ := balloc_ok allocated
          exact Or.inr ⟨missing, picked, rfl, rfl⟩
  · next present =>
      cases mapped
      exact Or.inl ⟨present, rfl, rfl, rfl⟩

theorem wordBlock_ok {disk after : Disk sb} {indirect bn addr : Nat}
    (mapped : disk.wordBlock indirect bn = .ok (addr, after)) :
    (word (disk.blocks indirect) bn ≠ 0 ∧ addr = word (disk.blocks indirect) bn ∧
        after = disk) ∨
      (word (disk.blocks indirect) bn = 0 ∧ disk.freeBlock = some addr ∧
        after = ((disk.markUsed addr).bzero addr).writeBlock indirect
          (setWord (disk.blocks indirect) bn addr)) := by
  unfold wordBlock at mapped
  simp only at mapped
  split at mapped
  · next missing =>
      cases allocated : disk.balloc with
      | error panic => rw [allocated] at mapped; cases mapped
      | ok result =>
          obtain ⟨blockno, disk'⟩ := result
          rw [allocated] at mapped
          cases mapped
          obtain ⟨picked, rfl⟩ := balloc_ok allocated
          exact Or.inr ⟨missing, picked, rfl⟩
  · next present =>
      cases mapped
      exact Or.inl ⟨present, rfl, rfl⟩

theorem balloc_error {disk : Disk sb} {panic : Panic}
    (failed : disk.balloc = .error panic) : panic = .outOfBlocks := by
  unfold balloc at failed
  split at failed
  · cases failed
  · cases failed
    rfl

theorem slotBlock_error {disk : Disk sb} {addrs : Addrs} {slot : Fin (NDIRECT + 1)}
    {panic : Panic} (failed : disk.slotBlock addrs slot = .error panic) :
    panic = .outOfBlocks := by
  unfold slotBlock at failed
  split at failed
  · cases allocated : disk.balloc with
    | error other =>
        rw [allocated] at failed
        cases failed
        exact balloc_error allocated
    | ok result => rw [allocated] at failed; cases failed
  · cases failed

theorem wordBlock_error {disk : Disk sb} {indirect bn : Nat} {panic : Panic}
    (failed : disk.wordBlock indirect bn = .error panic) : panic = .outOfBlocks := by
  unfold wordBlock at failed
  simp only at failed
  split at failed
  · cases allocated : disk.balloc with
    | error other =>
        rw [allocated] at failed
        cases failed
        exact balloc_error allocated
    | ok result => rw [allocated] at failed; cases failed
  · cases failed

/-- The only panics of `bmap` are a full disk and an index past `MAXFILE`. -/
theorem bmap_error {disk : Disk sb} {addrs : Addrs} {bn : Nat} {panic : Panic}
    (failed : disk.bmap addrs bn = .error panic) :
    panic = .outOfBlocks ∨ (panic = .outOfRange ∧ MAXFILE ≤ bn) := by
  unfold bmap at failed
  split at failed
  · exact Or.inl (slotBlock_error failed)
  · split at failed
    · left
      cases first : disk.slotBlock addrs indirectSlot with
      | error other =>
          rw [first] at failed
          cases failed
          exact slotBlock_error first
      | ok result =>
          obtain ⟨indirect, addrs', disk'⟩ := result
          rw [first] at failed
          cases second : disk'.wordBlock indirect (bn - NDIRECT) with
          | error other =>
              simp only [bind, Except.bind, second] at failed
              cases failed
              exact wordBlock_error second
          | ok result =>
              simp only [bind, Except.bind, second] at failed
              cases failed
    · cases failed
      exact Or.inr ⟨rfl, by simp only [MAXFILE]; omega⟩

theorem word_zero (bn : Nat) : word (fun _ => 0) bn = 0 := by
  have zero : ∀ offset width, getField (fun _ => 0 : Block) offset width = 0 := by
    intro offset width
    induction width generalizing offset with
    | zero => rfl
    | succ width ih => simp [getField, byteAt, ih]
  exact zero _ _

theorem word_setWord_self (block : Block) {bn addr : Nat} (inside : bn < NINDIRECT)
    (fits : addr < 2 ^ 32) : word (setWord block bn addr) bn = addr := by
  have room : 4 * bn + 4 ≤ BSIZE := by
    simp only [NINDIRECT, BSIZE] at inside ⊢
    omega
  rw [word, setWord, getField_setField_self block addr room]
  exact Nat.mod_eq_of_lt fits

theorem word_setWord_of_ne (block : Block) {bn other addr : Nat} (distinct : other ≠ bn) :
    word (setWord block bn addr) other = word block other :=
  getField_setField_of_disjoint block addr (by omega)

end Disk

end Coursework.FileSystem
