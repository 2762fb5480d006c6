import Coursework.FsDisk

/-!
# Operations on inodes

The inode cache of `fs.c` and the calls that read and change it.  A call on an
inode runs under `ip->lock`, so an inode has at most one call in progress, but
calls on different inodes interleave: a step performs one iteration of a loop of
`readi`, `writei` or `itrunc`.  The cache is keyed by inode number, since `iget`
never makes a second entry for a number in use.
-/

namespace Coursework.FileSystem

/-- What the holder of `ip->lock` is doing. -/
inductive Activity where
  | unlocked
  /-- the lock is held and no call is in progress -/
  | locked
  /-- fields were changed and `iupdate` was not called yet -/
  | changed
  /-- the loop of `readi` -/
  | reading (off tot n : Nat)
  /-- the loop of `writei` -/
  | writing (off tot n : Nat) (src : Nat → UInt8)
  /-- the first loop of `itrunc` -/
  | truncating (i : Nat)
  /-- the loop of `itrunc` over the indirect block -/
  | truncatingIndirect (j : Nat)
  /-- the end of `itrunc` -/
  | truncated
  /-- back in `iput` -/
  | freeing

/-- No call is in progress. -/
def Activity.quiet : Activity → Bool
  | .unlocked | .locked => true
  | _ => false

/-- An entry of the inode cache: `ref`, `valid`, the copy of the disk inode, what
the lock's holder does, and the number of processes that left the locked part of
`iput` and have not decremented `ref` yet. -/
structure Inode where
  ref : Nat
  valid : Bool
  copy : Dinode
  activity : Activity
  dropping : Nat

structure State (sb : Superblock) where
  disk : Disk sb
  icache : Fin sb.ninodes → Inode
  panic : Option Panic

/-- The calls on an inode, and `advance` for the next step of the call in
progress. -/
inductive Action (sb : Superblock) where
  | iget (inum : Fin sb.ninodes)
  | ilock (inum : Fin sb.ninodes)
  | iunlock (inum : Fin sb.ninodes)
  | ialloc (type : FileType)
  | modify (inum : Fin sb.ninodes) (major minor nlink : Int)
  | readi (inum : Fin sb.ninodes) (off n : UInt32)
  | writei (inum : Fin sb.ninodes) (off n : UInt32) (src : Nat → UInt8)
  | iput (inum : Fin sb.ninodes)
  | drop (inum : Fin sb.ninodes)
  | advance (inum : Fin sb.ninodes)

namespace State

variable {sb : Superblock}

def setInode (state : State sb) (inum : Fin sb.ninodes) (inode : Inode) : State sb :=
  { state with icache := Function.update state.icache inum inode }

def fail (state : State sb) (panic : Panic) : State sb :=
  { state with panic := some panic }

/-- Copy a modified in-memory inode to disk. -/
def iupdate (state : State sb) (inum : Fin sb.ninodes) (inode : Inode) : State sb :=
  { state.setInode inum inode with
    disk := { state.disk with
      dinodes := Function.update state.disk.dinodes inum inode.copy } }

/-- The number of cache entries in use. -/
def active (state : State sb) : Nat :=
  (List.finRange sb.ninodes).countP fun inum => decide (0 < (state.icache inum).ref)

/-- Find the cache entry of an inode and take a reference, or recycle an entry. -/
def iget (state : State sb) (inum : Fin sb.ninodes) : State sb :=
  let inode := state.icache inum
  if 0 < inode.ref then state.setInode inum { inode with ref := inode.ref + 1 }
  else if state.active < NINODE then
    state.setInode inum { inode with ref := 1, valid := false }
  else state.fail .cacheFull

/-- Allocate an inode: the first free one from number 1 on. -/
def ialloc (state : State sb) (type : FileType) : State sb :=
  match (List.finRange sb.ninodes).find? fun inum =>
      decide (1 ≤ inum.val) && decide ((state.disk.dinodes inum).type = .free) with
  | some inum =>
      iget { state with
        disk := { state.disk with
          dinodes := Function.update state.disk.dinodes inum (.blank type) } } inum
  | none => state.fail .noInodes

/-- Lock the given inode and read it from disk if necessary. -/
def ilock (state : State sb) (inum : Fin sb.ninodes) : State sb :=
  let inode := state.icache inum
  if inode.valid then state.setInode inum { inode with activity := .locked }
  else if (state.disk.dinodes inum).type = .free then state.fail .noType
  else state.setInode inum
    { inode with copy := state.disk.dinodes inum, valid := true, activity := .locked }

/-- The checks of `readi` before its loop; a device is read by its driver. -/
def readi (state : State sb) (inum : Fin sb.ninodes) (off n : UInt32) : State sb :=
  let inode := state.icache inum
  if inode.copy.type = .dev then state
  else if off.toNat > inode.copy.size ∨ off + n < off then state
  else
    let n := if (off + n).toNat > inode.copy.size then inode.copy.size - off.toNat
      else n.toNat
    state.setInode inum { inode with activity := .reading off.toNat 0 n }

/-- The checks of `writei` before its loop; a device is written by its driver. -/
def writei (state : State sb) (inum : Fin sb.ninodes) (off n : UInt32)
    (src : Nat → UInt8) : State sb :=
  let inode := state.icache inum
  if inode.copy.type = .dev then state
  else if off.toNat > inode.copy.size ∨ off + n < off then state
  else if (off + n).toNat > MAXFILE * BSIZE then state
  else state.setInode inum { inode with activity := .writing off.toNat 0 n.toNat src }

/-- The bytes that one iteration of `readi` or `writei` moves. -/
def chunk (off tot n : Nat) : Nat := min (n - tot) (BSIZE - off % BSIZE)

theorem chunk_pos {off tot n : Nat} (more : tot < n) : 0 < chunk off tot n := by
  simp only [chunk, BSIZE]
  omega

theorem chunk_le (off tot n : Nat) : chunk off tot n ≤ n - tot := Nat.min_le_left _ _

/-- `memmove` of `m` bytes of the source into a block at `off % BSIZE`. -/
def moveInto (block : Block) (off tot m : Nat) (src : Nat → UInt8) : Block :=
  fun index =>
    if off % BSIZE ≤ index.val ∧ index.val < off % BSIZE + m then
      src (tot + (index.val - off % BSIZE))
    else block index

/-- An iteration of the loop of `readi`. -/
def readStep (state : State sb) (inum : Fin sb.ninodes) (off tot n : Nat) : State sb :=
  let inode := state.icache inum
  if tot < n then
    match state.disk.bmap inode.copy.addrs (off / BSIZE) with
    | .error panic => state.fail panic
    | .ok (_, addrs, disk) =>
        let m := chunk off tot n
        { state with disk := disk }.setInode inum
          { inode with copy := { inode.copy with addrs := addrs },
                       activity := .reading (off + m) (tot + m) n }
  else state.setInode inum { inode with activity := .locked }

/-- An iteration of the loop of `writei`, or its end. -/
def writeStep (state : State sb) (inum : Fin sb.ninodes) (off tot n : Nat)
    (src : Nat → UInt8) : State sb :=
  let inode := state.icache inum
  if tot < n then
    match state.disk.bmap inode.copy.addrs (off / BSIZE) with
    | .error panic => state.fail panic
    | .ok (addr, addrs, disk) =>
        let m := chunk off tot n
        { state with
          disk := disk.writeBlock addr (moveInto (disk.blocks addr) off tot m src) }.setInode inum
          { inode with copy := { inode.copy with addrs := addrs },
                       activity := .writing (off + m) (tot + m) n src }
  else if 0 < n ∧ off > inode.copy.size then
    state.iupdate inum { inode with copy := { inode.copy with size := off },
                                    activity := .locked }
  else state.setInode inum { inode with activity := .locked }

/-- Free the block listed in `addrs` and clear the number. -/
def freeSlot (state : State sb) (inum : Fin sb.ninodes) (slot : Fin (NDIRECT + 1))
    (next : Activity) : State sb :=
  let inode := state.icache inum
  match state.disk.bfree (inode.copy.addrs slot) with
  | .error panic => state.fail panic
  | .ok disk =>
      { state with disk := disk }.setInode inum
        { inode with
          copy := { inode.copy with addrs := Function.update inode.copy.addrs slot 0 },
          activity := next }

/-- An iteration of the first loop of `itrunc`, or the test after it. -/
def truncateStep (state : State sb) (inum : Fin sb.ninodes) (i : Nat) : State sb :=
  let inode := state.icache inum
  if direct : i < NDIRECT then
    if inode.copy.addrs ⟨i, Nat.lt_succ_of_lt direct⟩ = 0 then
      state.setInode inum { inode with activity := .truncating (i + 1) }
    else state.freeSlot inum ⟨i, Nat.lt_succ_of_lt direct⟩ (.truncating (i + 1))
  else if inode.copy.addrs indirectSlot = 0 then
    state.setInode inum { inode with activity := .truncated }
  else state.setInode inum { inode with activity := .truncatingIndirect 0 }

/-- An iteration of the loop of `itrunc` over the indirect block, or the step that
frees the indirect block itself. -/
def truncateIndirectStep (state : State sb) (inum : Fin sb.ninodes) (j : Nat) : State sb :=
  let inode := state.icache inum
  if j < NINDIRECT then
    let addr := Disk.word (state.disk.blocks (inode.copy.addrs indirectSlot)) j
    if addr = 0 then
      state.setInode inum { inode with activity := .truncatingIndirect (j + 1) }
    else
      match state.disk.bfree addr with
      | .error panic => state.fail panic
      | .ok disk =>
          { state with disk := disk }.setInode inum
            { inode with activity := .truncatingIndirect (j + 1) }
  else state.freeSlot inum indirectSlot .truncated

/-- The next step of the call in progress. -/
def advance (state : State sb) (inum : Fin sb.ninodes) : Option (State sb) :=
  let inode := state.icache inum
  match inode.activity with
  | .unlocked | .locked => none
  | .changed => some (state.iupdate inum { inode with activity := .locked })
  | .reading off tot n => some (state.readStep inum off tot n)
  | .writing off tot n src => some (state.writeStep inum off tot n src)
  | .truncating i => some (state.truncateStep inum i)
  | .truncatingIndirect j => some (state.truncateIndirectStep inum j)
  | .truncated =>
      some (state.iupdate inum
        { inode with copy := { inode.copy with size := 0 }, activity := .freeing })
  | .freeing =>
      some (state.iupdate inum
        { inode with copy := { inode.copy with type := .free }, valid := false,
                     activity := .unlocked, dropping := inode.dropping + 1 })

/-- The locked part of `iput`: the last reference to an inode without links frees
it, any other reference is only dropped. -/
def iput (state : State sb) (inum : Fin sb.ninodes) : State sb :=
  let inode := state.icache inum
  if inode.valid = true ∧ inode.copy.nlink = 0 ∧ inode.ref = 1 then
    state.setInode inum { inode with activity := .truncating 0 }
  else state.setInode inum { inode with dropping := inode.dropping + 1 }

/-- One call or one step of a call.  The callers' rules are guards: a caller of
`ilock` and `iput` has a reference of its own, and only the holder of the lock
changes the inode. -/
def step (state : State sb) (action : Action sb) : Option (State sb) :=
  if state.panic.isSome then none
  else
    match action with
    | .iget inum => some (state.iget inum)
    | .ilock inum =>
        let inode := state.icache inum
        match inode.activity with
        | .unlocked =>
            if inode.dropping < inode.ref then some (state.ilock inum) else none
        | _ => none
    | .iunlock inum =>
        let inode := state.icache inum
        match inode.activity with
        | .locked => some (state.setInode inum { inode with activity := .unlocked })
        | _ => none
    | .ialloc type => if type = .free then none else some (state.ialloc type)
    | .modify inum major minor nlink =>
        let inode := state.icache inum
        match inode.activity with
        | .locked =>
            some (state.setInode inum
              { inode with
                copy := { inode.copy with major := major, minor := minor, nlink := nlink },
                activity := .changed })
        | _ => none
    | .readi inum off n =>
        match (state.icache inum).activity with
        | .locked => some (state.readi inum off n)
        | _ => none
    | .writei inum off n src =>
        match (state.icache inum).activity with
        | .locked => some (state.writei inum off n src)
        | _ => none
    | .iput inum =>
        let inode := state.icache inum
        match inode.activity with
        | .unlocked =>
            if inode.dropping < inode.ref then some (state.iput inum) else none
        | _ => none
    | .drop inum =>
        let inode := state.icache inum
        if 0 < inode.dropping then
          some (state.setInode inum
            { inode with ref := inode.ref - 1, dropping := inode.dropping - 1 })
        else none
    | .advance inum => state.advance inum

end State

/-- The state after boot: the disk, and an empty inode cache. -/
def State.boot {sb : Superblock} (disk : Disk sb) : State sb where
  disk := disk
  icache := fun _ =>
    { ref := 0, valid := false, copy := .blank .free, activity := .unlocked, dropping := 0 }
  panic := none

end Coursework.FileSystem
