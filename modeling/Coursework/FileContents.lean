import Coursework.InodeConsistency
import Coursework.OutcomeRules

/-!
# The contents of files

`readi` and `writei` as whole calls on a file or a directory, with the bytes that they move.
A byte of a file is a byte of the block that the inode lists for it.

An iteration of `writei` changes the bytes that it is to change and no others: the block that
`bmap` returns is listed in one place only, and where `bmap` has just allocated it the file
had no bytes in it so far.
-/

namespace Coursework.FileSystem

open ByteBlock State

variable {sb : Superblock}

/-! ## The calls -/

/-- The bytes that an iteration of `readi` copies. -/
def moveFrom (block : Block) (off m : Nat) : List UInt8 :=
  (List.range m).map fun i => byteAt block (off % BSIZE + i)

/-- The loop of `readi`: the bytes that it copies, and what `bmap` leaves. -/
def readLoop (disk : Disk sb) (addrs : Addrs) (off tot n : Nat) :
    Except Panic (List UInt8 × Addrs × Disk sb) :=
  if _ : tot < n then do
    let (addr, addrs, disk) ← disk.bmap addrs (off / BSIZE)
    let m := chunk off tot n
    let (rest, addrs, after) ← readLoop disk addrs (off + m) (tot + m) n
    return (moveFrom (disk.blocks addr) off m ++ rest, addrs, after)
  else return ([], addrs, disk)
termination_by n - tot
decreasing_by
  have := @chunk_pos off tot n ‹tot < n›
  omega

/-- The loop of `writei`: the offset that it reaches, and what `bmap` and the writes leave. -/
def writeLoop (disk : Disk sb) (addrs : Addrs) (off tot n : Nat) (src : Nat → UInt8) :
    Except Panic (Nat × Addrs × Disk sb) :=
  if _ : tot < n then do
    let (addr, addrs, disk) ← disk.bmap addrs (off / BSIZE)
    let m := chunk off tot n
    let disk := disk.writeBlock addr (moveInto (disk.blocks addr) off tot m src)
    writeLoop disk addrs (off + m) (tot + m) n src
  else return (off, addrs, disk)
termination_by n - tot
decreasing_by
  have := @chunk_pos off tot n ‹tot < n›
  omega

/-- The disk, and the inodes as the holders of their locks see them. -/
structure Volume (sb : Superblock) where
  disk : Disk sb
  inode : Fin sb.ninodes → Dinode

namespace Volume

variable (volume : Volume sb) (inum : Fin sb.ninodes)

/-- The blocks that the inodes list. -/
def held : Fin sb.ninodes × Position → Option Nat :=
  holdings volume.disk.blocks volume.inode fun _ => 0

def setAddrs (disk : Disk sb) (addrs : Addrs) : Volume sb where
  disk := disk
  inode := Function.update volume.inode inum { volume.inode inum with addrs := addrs }

/-- `iupdate` with a new size. -/
def setSize (size : Nat) : Volume sb :=
  let ip := { volume.inode inum with size := size }
  { disk := { volume.disk with dinodes := Function.update volume.disk.dinodes inum ip }
    inode := Function.update volume.inode inum ip }

/-- `readi` of an inode that is no device: the bytes that it copies, if it does not fail. -/
def readi (off n : UInt32) : Except Panic (Option (List UInt8) × Volume sb) :=
  let ip := volume.inode inum
  if off.toNat > ip.size ∨ off + n < off then .ok (none, volume)
  else do
    let n := if (off + n).toNat > ip.size then ip.size - off.toNat else n.toNat
    let (bytes, addrs, disk) ← readLoop volume.disk ip.addrs off.toNat 0 n
    return (some bytes, volume.setAddrs inum disk addrs)

/-- `writei` to an inode that is no device. -/
def writei (off n : UInt32) (src : Nat → UInt8) : Except Panic (Int × Volume sb) :=
  let ip := volume.inode inum
  if off.toNat > ip.size ∨ off + n < off then .ok (-1, volume)
  else if (off + n).toNat > MAXFILE * BSIZE then .ok (-1, volume)
  else do
    let (off, addrs, disk) ← writeLoop volume.disk ip.addrs off.toNat 0 n.toNat src
    let volume := volume.setAddrs inum disk addrs
    return (n.toNat, if 0 < n ∧ off > ip.size then volume.setSize inum off else volume)

/-- The byte at an offset of a file. -/
def byte (off : Nat) : UInt8 :=
  match filePosition (off / BSIZE) with
  | none => 0
  | some position =>
      byteAt (volume.disk.blocks (address volume.disk.blocks (volume.inode inum) 0 position))
        (off % BSIZE)

/-- The bytes of a file. -/
def contents : List UInt8 := (List.range (volume.inode inum).size).map (volume.byte inum)

/-- The inode is that of a file or of a directory. -/
def IsFile : Prop := (volume.inode inum).type = .file ∨ (volume.inode inum).type = .dir

/-- The block invariants: the bitmap agrees with the blocks that the inodes list, and every
block of a file is listed. -/
structure Sound : Prop where
  accounts : volume.disk.Accounts volume.inode fun _ => 0
  backed : ∀ inum, volume.IsFile inum →
    Backed (fun position => volume.held (inum, position)) (volume.inode inum).size

end Volume

/-! ## What blocks hold -/

section Holds

variable {Inum : Type*} {disk after : Disk sb} {inodes : Inum → Dinode} {released : Inum → Nat}
  {inum other : Inum} {len : Nat} {byte : Nat → UInt8}

/-- The listed blocks of an inode have the bytes of a file of some length. -/
def Holds (blocks : Nat → Block) (inodes : Inum → Dinode) (released : Inum → Nat) (inum : Inum)
    (len : Nat) (byte : Nat → UInt8) : Prop :=
  ∀ i < len, ∃ position blockno, filePosition (i / BSIZE) = some position ∧
    holdings blocks inodes released (inum, position) = some blockno ∧
      byteAt (blocks blockno) (i % BSIZE) = byte i

theorem Holds.backed (holds : Holds disk.blocks inodes released inum len byte) :
    Backed (fun position => holdings disk.blocks inodes released (inum, position)) len := by
  intro bn below
  obtain ⟨position, blockno, isPosition, isHeld, -⟩ := holds _ below
  rw [Nat.mul_div_cancel _ (show 0 < BSIZE by decide)] at isPosition
  refine ⟨position, isPosition, ?_⟩
  simp only
  rw [isHeld]
  simp

/-- A store into a file's block keeps the accounts. -/
theorem Disk.Accounts.stored (accounts : disk.Accounts inodes released) {place : Inum × Position}
    {blockno : Nat} (full : holdings disk.blocks inodes released place = some blockno)
    (leaf : place.2 ≠ .slot indirectSlot) (block : Block) :
    (disk.writeBlock blockno block).Accounts inodes released := by
  have same := accounts.writeBlock full leaf block
  refine ⟨?_, accounts.marked⟩
  rw [same]
  exact accounts.owns

theorem byteAt_moveInto (block : Block) {off m : Nat} (tot : Nat) (src : Nat → UInt8)
    (inBlock : off % BSIZE + m ≤ BSIZE) (i : Nat) :
    byteAt (moveInto block off tot m src) i =
      if off % BSIZE ≤ i ∧ i < off % BSIZE + m then src (tot + (i - off % BSIZE))
      else byteAt block i := by
  unfold byteAt moveInto
  by_cases inside : i < BSIZE
  · rw [dif_pos inside, dif_pos inside]
  · rw [dif_neg inside, dif_neg inside, if_neg (by omega)]

variable [DecidableEq Inum] {addr bn : Nat} {addrs' : Addrs}

/-- `bmap` changes no byte of a file. -/
theorem Holds.bmap (accounts : disk.Accounts inodes released)
    (allocated : (inodes inum).type ≠ .free) (nothing : released inum = 0)
    (mapped : disk.bmap (inodes inum).addrs bn = .ok (addr, addrs', after))
    (holds : Holds disk.blocks inodes released other len byte) :
    Holds after.blocks (Function.update inodes inum { inodes inum with addrs := addrs' }) released
      other len byte := by
  obtain ⟨filled, -, grows⟩ := bmap_grows accounts allocated nothing mapped
  intro i below
  obtain ⟨position, blockno, isPosition, isHeld, isByte⟩ := holds i below
  have leaf : (other, position) ≠ (inum, .slot indirectSlot) := by
    intro same
    exact filePosition_leaf isPosition (congrArg Prod.snd same)
  refine ⟨position, blockno, isPosition, grows.kept _ _ isHeld, ?_⟩
  rw [bmap_blocks accounts allocated mapped isHeld leaf]
  exact isByte

omit [DecidableEq Inum] in
/-- A store into a file's block changes no byte of another block. -/
theorem Holds.stored (accounts : disk.Accounts inodes released) {place : Inum × Position}
    (full : holdings disk.blocks inodes released place = some addr)
    (leaf : place.2 ≠ .slot indirectSlot) (block : Block) {i : Nat} {value : UInt8}
    (holds : ∃ position blockno, filePosition (i / BSIZE) = some position ∧
      holdings disk.blocks inodes released (other, position) = some blockno ∧
        byteAt (disk.blocks blockno) (i % BSIZE) = value)
    (apart : ∀ position, filePosition (i / BSIZE) = some position → (other, position) ≠ place) :
    ∃ position blockno, filePosition (i / BSIZE) = some position ∧
      holdings (disk.writeBlock addr block).blocks inodes released (other, position) =
        some blockno ∧ byteAt ((disk.writeBlock addr block).blocks blockno) (i % BSIZE) = value := by
  obtain ⟨position, blockno, isPosition, isHeld, isByte⟩ := holds
  have distinct : blockno ≠ addr := by
    rintro rfl
    exact apart position isPosition (accounts.owns.unique _ _ _ isHeld full)
  refine ⟨position, blockno, isPosition, ?_, ?_⟩
  · rw [accounts.writeBlock full leaf block]
    exact isHeld
  · have same : (disk.writeBlock addr block).blocks blockno = disk.blocks blockno :=
      Function.update_of_ne distinct _ _
    rw [same]
    exact isByte

/-- The bytes with others written over them. -/
def overwrite (byte : Nat → UInt8) (off count : Nat) (src : Nat → UInt8) : Nat → UInt8 :=
  fun i => if off ≤ i ∧ i < off + count then src (i - off) else byte i

/-- What writing to one file leaves: its bytes, and those of all other files. -/
structure Wrote (disk : Disk sb) (inodes : Inum → Dinode) (released : Inum → Nat) (inum : Inum)
    (len : Nat) (byte : Nat → UInt8) (after : Disk sb) (inodes' : Inum → Dinode) : Prop where
  accounts : after.Accounts inodes' released
  holds : Holds after.blocks inodes' released inum len byte
  others : ∀ other ≠ inum, ∀ len byte, Holds disk.blocks inodes released other len byte →
    Holds after.blocks inodes' released other len byte

omit [DecidableEq Inum] in
theorem Wrote.refl (accounts : disk.Accounts inodes released)
    (holds : Holds disk.blocks inodes released inum len byte) :
    Wrote disk inodes released inum len byte disk inodes :=
  ⟨accounts, holds, fun _ _ _ _ held => held⟩

omit [DecidableEq Inum] in
theorem Wrote.trans {middle : Disk sb} {inodes' inodes'' : Inum → Dinode} {len' : Nat}
    {byte' : Nat → UInt8} (first : Wrote disk inodes released inum len byte middle inodes')
    (second : Wrote middle inodes' released inum len' byte' after inodes'') :
    Wrote disk inodes released inum len' byte' after inodes'' :=
  ⟨second.accounts, second.holds, fun other distinct len byte held =>
    second.others other distinct len byte (first.others other distinct len byte held)⟩

/-- An iteration of `writei`. -/
theorem write_step {off m tot : Nat} {src : Nat → UInt8}
    (accounts : disk.Accounts inodes released) (allocated : (inodes inum).type ≠ .free)
    (nothing : released inum = 0) (holds : Holds disk.blocks inodes released inum len byte)
    (reached : off ≤ len) (inBlock : off % BSIZE + m ≤ BSIZE)
    (mapped : disk.bmap (inodes inum).addrs (off / BSIZE) = .ok (addr, addrs', after)) :
    Wrote disk inodes released inum (max len (off + m))
      (overwrite byte off m fun i => src (tot + i))
      (after.writeBlock addr (moveInto (after.blocks addr) off tot m src))
      (Function.update inodes inum { inodes inum with addrs := addrs' }) := by
  obtain ⟨position, isPosition, grows⟩ := bmap_grows accounts allocated nothing mapped
  have leaf : (inum, position).2 ≠ .slot indirectSlot := filePosition_leaf isPosition
  have kept : ∀ other len byte, Holds disk.blocks inodes released other len byte → Holds after.blocks
      (Function.update inodes inum { inodes inum with addrs := addrs' }) released other len byte :=
    fun _ _ _ held => held.bmap accounts allocated nothing mapped
  have sameBlock : ∀ i, off ≤ i ∧ i < off + m → i / BSIZE = off / BSIZE := by
    intro i inside
    simp only [BSIZE] at *
    omega
  refine ⟨grows.accounts.stored grows.result leaf _, ?_, ?_⟩
  · intro i below
    simp only [overwrite]
    by_cases isBlock : i / BSIZE = off / BSIZE
    · refine ⟨position, addr, isBlock ▸ isPosition, ?_, ?_⟩
      · rw [grows.accounts.writeBlock grows.result leaf]
        exact grows.result
      · have stored : (after.writeBlock addr (moveInto (after.blocks addr) off tot m src)).blocks
            addr = moveInto (after.blocks addr) off tot m src := Function.update_self _ _ _
        have start := Nat.div_add_mod i BSIZE
        have startOff := Nat.div_add_mod off BSIZE
        rw [isBlock] at start
        rw [stored, byteAt_moveInto _ _ _ inBlock]
        by_cases inside : off ≤ i ∧ i < off + m
        · rw [if_pos inside, if_pos (by omega)]
          congr 2
          omega
        · rw [if_neg inside, if_neg (by omega)]
          obtain ⟨position', blockno, isPosition', isHeld, isByte⟩ :=
            kept inum len byte holds i (by omega)
          rw [isBlock, isPosition] at isPosition'
          cases isPosition'
          rw [grows.result] at isHeld
          cases isHeld
          exact isByte
    · have inside : ¬ (off ≤ i ∧ i < off + m) := fun within => isBlock (sameBlock i within)
      rw [if_neg inside]
      apply Holds.stored grows.accounts grows.result leaf _ (kept inum len byte holds i (by omega))
      intro position' isPosition' same
      have samePosition : position' = position := congrArg Prod.snd same
      rw [samePosition] at isPosition'
      exact isBlock (filePosition_inj isPosition' isPosition)
  · intro other distinct len byte held i below
    apply Holds.stored grows.accounts grows.result leaf _ (kept other len byte held i below)
    intro position' _ same
    exact distinct (congrArg Prod.fst same)

/-! ## The loops -/

theorem chunk_inBlock (off tot n : Nat) : off % BSIZE + chunk off tot n ≤ BSIZE := by
  simp only [chunk, BSIZE]
  omega

theorem overwrite_overwrite (byte : Nat → UInt8) {off first count : Nat} (src : Nat → UInt8)
    (tot : Nat) (le : first ≤ count) :
    overwrite (overwrite byte off first fun i => src (tot + i)) (off + first) (count - first)
        (fun i => src (tot + first + i)) =
      overwrite byte off count fun i => src (tot + i) := by
  funext i
  simp only [overwrite]
  by_cases isLater : off + first ≤ i ∧ i < off + first + (count - first)
  · rw [if_pos isLater, if_pos (by omega)]
    congr 1
    omega
  · rw [if_neg isLater]
    by_cases isFirst : off ≤ i ∧ i < off + first
    · rw [if_pos isFirst, if_pos (by omega)]
    · rw [if_neg isFirst, if_neg (by omega)]

theorem slotBlock_present {addrs : Addrs} {slot : Fin (NDIRECT + 1)} (present : addrs slot ≠ 0) :
    disk.slotBlock addrs slot = .ok (addrs slot, addrs, disk) :=
  if_neg present

theorem wordBlock_present {indirect : Nat} (present : Disk.word (disk.blocks indirect) bn ≠ 0) :
    disk.wordBlock indirect bn = .ok (Disk.word (disk.blocks indirect) bn, disk) :=
  if_neg present

/-- `bmap` finds a block that the inode lists. -/
theorem bmap_listed {inode : Dinode} {position : Position} {blockno : Nat}
    (isPosition : filePosition bn = some position)
    (isListed : listed disk.blocks inode 0 position = some blockno) :
    disk.bmap inode.addrs bn = .ok (blockno, inode.addrs, disk) := by
  obtain ⟨-, nonzero, isAddress⟩ := listed_eq_some.mp isListed
  unfold Disk.bmap
  by_cases direct : bn < NDIRECT
  · rw [filePosition, dif_pos direct] at isPosition
    cases isPosition
    have isSlot : inode.addrs ⟨bn, by omega⟩ = blockno := isAddress
    rw [dif_pos direct, slotBlock_present (isSlot ▸ nonzero), isSlot]
  · rw [filePosition, dif_neg direct] at isPosition
    rw [dif_neg direct]
    by_cases indirect : bn - NDIRECT < NINDIRECT
    · rw [dif_pos indirect] at isPosition
      cases isPosition
      simp only [address] at isAddress
      rw [if_pos indirect]
      by_cases missing : inode.addrs indirectSlot = 0
      · rw [if_pos (Or.inl missing)] at isAddress
        exact (nonzero isAddress.symm).elim
      · rw [if_neg (by simp [missing])] at isAddress
        rw [slotBlock_present missing, ok_bind]
        simp only
        rw [wordBlock_present (isAddress ▸ nonzero), isAddress]
        rfl
    · rw [dif_neg indirect] at isPosition
      cases isPosition

/-- The loop of `writei` writes all bytes, unless the file grows and the disk is full. -/
theorem writeLoop_spec {off tot n : Nat} {src : Nat → UInt8}
    (accounts : disk.Accounts inodes released) (allocated : (inodes inum).type ≠ .free)
    (nothing : released inum = 0) (holds : Holds disk.blocks inodes released inum len byte)
    (reached : off ≤ len) (room : off + (n - tot) ≤ MAXFILE * BSIZE) :
    Outcome (fun panic => panic = .outOfBlocks ∧ len < off + (n - tot))
      (fun result => result.1 = off + (n - tot) ∧
        Wrote disk inodes released inum (max len (off + (n - tot)))
          (overwrite byte off (n - tot) fun i => src (tot + i)) result.2.2
          (Function.update inodes inum { inodes inum with addrs := result.2.1 }))
      (writeLoop disk (inodes inum).addrs off tot n src) := by
  induction left : n - tot using Nat.strong_induction_on
    generalizing disk inodes off tot len byte with
  | _ left ih =>
    subst left
    rw [writeLoop]
    by_cases more : tot < n
    · rw [dif_pos more]
      have positive := @chunk_pos off tot n more
      have fewer := chunk_le off tot n
      cases mapped : disk.bmap (inodes inum).addrs (off / BSIZE) with
      | error panic =>
          rw [error_bind]
          rcases Disk.bmap_error mapped with full | ⟨-, beyond⟩
          · refine ⟨full, Nat.lt_of_not_le fun covered => ?_⟩
            obtain ⟨position, blockno, isPosition, isHeld, -⟩ := holds off (by omega)
            have isListed : listed disk.blocks (inodes inum) 0 position = some blockno := by
              rw [← nothing]
              exact isHeld
            rw [bmap_listed isPosition isListed] at mapped
            cases mapped
          · simp only [BSIZE] at *
            omega
      | ok result =>
          obtain ⟨addr, addrs', middle⟩ := result
          rw [ok_bind]
          simp only
          have wrote := @write_step sb _ disk middle inodes released inum len byte _ addr addrs' off
            (chunk off tot n) tot src accounts allocated nothing holds reached
            (chunk_inBlock off tot n) mapped
          have later := ih (n - (tot + chunk off tot n)) (by omega) wrote.accounts
            (by rw [Function.update_self]; exact allocated) wrote.holds (Nat.le_max_right _ _)
            (by omega) rfl
          rw [Function.update_self] at later
          have count : n - (tot + chunk off tot n) = n - tot - chunk off tot n := by omega
          have size : max (max len (off + chunk off tot n))
              (off + chunk off tot n + (n - tot - chunk off tot n)) =
              max len (off + (n - tot)) := by omega
          rw [count, size, overwrite_overwrite byte src tot fewer] at later
          apply later.mono fun _ failed => ⟨failed.1, by omega⟩
          rintro result ⟨isEnd, rewrote⟩
          rw [Function.update_idem] at rewrote
          exact ⟨by omega, wrote.trans rewrote⟩
    · rw [dif_neg more]
      have nothingLeft : n - tot = 0 := by omega
      have sameBytes : overwrite byte off 0 (fun i => src (tot + i)) = byte := by
        funext i
        exact if_neg (by omega)
      rw [nothingLeft, Nat.add_zero, Nat.max_eq_left reached, sameBytes]
      refine ⟨rfl, ?_⟩
      simp only
      rw [update_addrs_self]
      exact Wrote.refl accounts holds

omit [DecidableEq Inum] in
/-- The loop of `readi` copies the bytes of the file, and changes nothing. -/
theorem readLoop_spec {off tot n : Nat} (holds : Holds disk.blocks inodes released inum len byte)
    (nothing : released inum = 0) (inside : off + (n - tot) ≤ len) :
    readLoop disk (inodes inum).addrs off tot n =
      .ok ((List.range (n - tot)).map fun i => byte (off + i), (inodes inum).addrs, disk) := by
  induction left : n - tot using Nat.strong_induction_on generalizing off tot with
  | _ left ih =>
    subst left
    rw [readLoop]
    by_cases more : tot < n
    · rw [dif_pos more]
      have positive := @chunk_pos off tot n more
      have fewer := chunk_le off tot n
      have inBlock := chunk_inBlock off tot n
      obtain ⟨position, blockno, isPosition, isHeld, -⟩ := holds off (by omega)
      have isListed : listed disk.blocks (inodes inum) 0 position = some blockno := by
        rw [← nothing]
        exact isHeld
      rw [bmap_listed isPosition isListed, ok_bind]
      simp only
      rw [ih (n - (tot + chunk off tot n)) (by omega) (by omega) rfl, ok_bind]
      have bytes : moveFrom (disk.blocks blockno) off (chunk off tot n) =
          (List.range (chunk off tot n)).map fun i => byte (off + i) := by
        apply List.map_congr_left
        intro i member
        have below := List.mem_range.mp member
        obtain ⟨position', blockno', isPosition', isHeld', isByte⟩ := holds (off + i) (by omega)
        have sameBlock : (off + i) / BSIZE = off / BSIZE := by
          simp only [BSIZE] at *
          omega
        have place : (off + i) % BSIZE = off % BSIZE + i := by
          simp only [BSIZE] at *
          omega
        rw [sameBlock, isPosition] at isPosition'
        cases isPosition'
        rw [isHeld] at isHeld'
        cases isHeld'
        rw [← isByte, place]
      have count : n - tot = chunk off tot n + (n - (tot + chunk off tot n)) := by omega
      rw [bytes, count, List.range_add, List.map_append, List.map_map]
      simp only [Function.comp_def, Nat.add_assoc]
      rfl
    · rw [dif_neg more, show n - tot = 0 by omega]
      rfl

end Holds

end Coursework.FileSystem
