import Coursework.InodeConsistency
import Coursework.TransitionRuns

/-!
# Disk block ownership

`itrunc` frees a block in the step in which the inode gives it up, and counts
the numbers of an indirect block off before it frees the indirect block itself.
With the other calls this makes the invariant of `InodeConsistency` hold in
every run that starts from a sound disk.  Soundness of the disk alone is not
enough: the bits of the metadata blocks must be set, as `mkfs` sets them, or
`balloc` hands these blocks out.
-/

namespace Coursework.FileSystem

variable {sb : Superblock}

namespace State

variable {state after : State sb} {inum : Fin sb.ninodes}

/-! ## Truncation -/

/-- Freeing a block that the inode under truncation gives up. -/
theorem Consistent.release (consistent : state.Consistent) {position : Position} {blockno : Nat} (full : state.held (inum, position) = some blockno)
    {inode : Inode}
    (emptied : holdings state.disk.blocks
        (Function.update state.inodes inum (inode.view (state.disk.dinodes inum)))
        (Function.update state.released inum inode.activity.released) =
      Function.update state.held (inum, position) none)
    (entry : inode.Consistent (state.disk.dinodes inum) fun _ => none) :
    ({ state with disk := state.disk.markFree blockno }.setInode inum inode).Consistent := by
  set after := ({ state with disk := state.disk.markFree blockno } : State sb).setInode inum inode
    with isAfter
  obtain ⟨views, releases⟩ : after.inodes = _ ∧ after.released = _ :=
    views_setInode state rfl inum inode
  have held : after.held = Function.update state.held (inum, position) none := by
    rw [State.held, views, releases]
    exact emptied
  refine consistent.of_change inum ?_ ?_ ?_ ?_ rfl
  · intro other distinct
    exact ⟨Function.update_of_ne distinct _ _, rfl⟩
  · rw [views, releases]
    exact consistent.accounts.clear full emptied
  · intro other distinct place
    rw [held, Function.update_of_ne (by simp [distinct])]
    exact id
  · have here : after.icache inum = inode := Function.update_self _ _ _
    rw [here]
    exact entry.mono fun _ impossible => (impossible rfl).elim

theorem bfree_held (consistent : state.Consistent) {position : Position} {blockno : Nat}
    (full : state.held (inum, position) = some blockno) :
    state.disk.bfree blockno = .ok (state.disk.markFree blockno) :=
  consistent.accounts.bfree_eq_ok full

theorem Consistent.freeSlot (consistent : state.Consistent)
    (truncates : (state.icache inum).activity.truncates = true) {slot : Fin (NDIRECT + 1)}
    (present : (state.icache inum).copy.addrs slot ≠ 0)
    (last : slot = indirectSlot → NINDIRECT ≤ state.released inum) {next : Activity}
    (nextTruncates : next.truncates = true)
    (released : slot ≠ indirectSlot → next.released = state.released inum)
    (progress : Inode.Progress { state.icache inum with
      copy := { (state.icache inum).copy with
        addrs := Function.update (state.icache inum).copy.addrs slot 0 },
      activity := next } (state.disk.dinodes inum) fun _ => none) :
    (state.freeSlot inum slot next).Consistent := by
  have entry := consistent.entry inum
  have isLocked : (state.icache inum).activity ≠ .unlocked := by
    intro idle
    rw [idle] at truncates
    cases truncates
  obtain ⟨own, valid⟩ := entry.locked isLocked
  have view := inodes_of_valid valid
  have full : state.held (inum, .slot slot) = some ((state.icache inum).copy.addrs slot) := by
    apply listed_eq_some.mpr
    rw [view]
    exact ⟨(entry.typed valid).2, present, rfl⟩
  unfold State.freeSlot
  simp only [bfree_held consistent full]
  apply consistent.release full
  · have cleared := @holdings_clearSlot _ state.disk.blocks state.inodes state.released _ inum slot
      (Function.update state.released inum next.released)
      (fun other distinct => Function.update_of_ne distinct _ _) last
      (fun direct => (Function.update_self _ _ _).trans (released direct))
    rw [view] at cleared
    simp only [Inode.view, valid, if_true]
    exact cleared
  · refine ⟨entry.dropping, fun _ => ⟨own, valid⟩, entry.typed, progress, fun whole => ?_⟩
    simp only at whole
    rw [nextTruncates] at whole
    cases whole

/-- A new activity of the lock's holder while the inode is taken apart. -/
theorem Consistent.setTruncating (consistent : state.Consistent)
    (truncates : (state.icache inum).activity.truncates = true) {next : Activity}
    (nextTruncates : next.truncates = true)
    (same : next.released = state.released inum)
    (progress : Inode.Progress { state.icache inum with activity := next }
      (state.disk.dinodes inum) fun position => state.held (inum, position)) :
    (state.setInode inum { state.icache inum with activity := next }).Consistent := by
  have entry := consistent.entry inum
  have isLocked : (state.icache inum).activity ≠ .unlocked := by
    intro idle
    rw [idle] at truncates
    cases truncates
  apply consistent.setInode (by rfl) (by rfl) same
  refine ⟨entry.dropping, fun _ => entry.locked isLocked, entry.typed, progress, fun whole => ?_⟩
  simp only at whole
  rw [nextTruncates] at whole
  cases whole

/-- One more number of `addrs` is zero. -/
theorem cleared_succ {addrs : Addrs} {i : Nat} {inside : i < NDIRECT + 1}
    (cleared : ∀ slot : Fin (NDIRECT + 1), slot.val < i → addrs slot = 0)
    (zero : addrs ⟨i, inside⟩ = 0) :
    ∀ slot : Fin (NDIRECT + 1), slot.val < i + 1 → addrs slot = 0 := by
  intro slot below
  rcases Nat.lt_succ_iff_lt_or_eq.mp below with before | here
  · exact cleared slot before
  · rw [show slot = ⟨i, inside⟩ from Fin.ext here]
    exact zero

theorem cleared_update {addrs : Addrs} {i : Nat} {place : Fin (NDIRECT + 1)}
    (cleared : ∀ slot : Fin (NDIRECT + 1), slot.val < i → addrs slot = 0) :
    ∀ slot : Fin (NDIRECT + 1), slot.val < i → Function.update addrs place 0 slot = 0 := by
  intro slot below
  rcases eq_or_ne slot place with rfl | distinct
  · exact Function.update_self _ _ _
  · rw [Function.update_of_ne distinct]
    exact cleared slot below

theorem Consistent.truncateStep (consistent : state.Consistent) {i : Nat}
    (activity : (state.icache inum).activity = .truncating i) :
    (state.truncateStep inum i).Consistent := by
  have cleared : ∀ slot : Fin (NDIRECT + 1), slot.val < i →
      (state.icache inum).copy.addrs slot = 0 := by
    simpa only [Inode.Progress, activity] using (consistent.entry inum).progress
  have truncates : (state.icache inum).activity.truncates = true := by rw [activity]; rfl
  have released : state.released inum = 0 := by
    simp [State.released, Activity.released, activity]
  unfold State.truncateStep
  simp only
  split
  · next direct =>
      split
      · next zero =>
          exact consistent.setTruncating truncates rfl released.symm
            (cleared_succ cleared zero)
      · next present =>
          refine consistent.freeSlot truncates present ?_ rfl (fun _ => released.symm) ?_
          · intro isIndirect
            have := congrArg Fin.val isIndirect
            simp only [indirectSlot, Fin.val_last] at this
            omega
          · exact cleared_succ (cleared_update cleared) (Function.update_self _ _ _)
  · next done =>
      have direct : ∀ slot : Fin (NDIRECT + 1), slot.val < NDIRECT →
          (state.icache inum).copy.addrs slot = 0 := fun slot below => cleared slot (by omega)
      split
      · next zero =>
          refine consistent.setTruncating truncates rfl released.symm ?_
          intro slot
          exact cleared_succ direct zero slot slot.isLt
      · next present =>
          exact consistent.setTruncating truncates rfl released.symm ⟨present, direct⟩

theorem Consistent.truncateIndirectStep (consistent : state.Consistent) {j : Nat}
    (activity : (state.icache inum).activity = .truncatingIndirect j) :
    (state.truncateIndirectStep inum j).Consistent := by
  have entry := consistent.entry inum
  obtain ⟨present, direct⟩ : _ ∧ _ := by
    simpa only [Inode.Progress, activity] using entry.progress
  have truncates : (state.icache inum).activity.truncates = true := by rw [activity]; rfl
  have released : state.released inum = j := by
    simp [State.released, Activity.released, activity]
  obtain ⟨own, valid⟩ := entry.locked (by simp [activity])
  have view := inodes_of_valid valid
  unfold State.truncateIndirectStep
  simp only
  split
  · next inside =>
      -- counting the number off empties its position, whether or not it was zero
      have counted := @holdings_releaseWord _ state.disk.blocks state.inodes state.released _ inum
        ⟨j, inside⟩ released
      have value : address state.disk.blocks (state.inodes inum) (state.released inum)
          (.word ⟨j, inside⟩) =
          Disk.word (state.disk.blocks ((state.icache inum).copy.addrs indirectSlot)) j := by
        simp [address, view, present, released]
      have same : Function.update state.inodes inum (state.icache inum).copy =
          state.inodes := by
        rw [← view]
        exact Function.update_eq_self _ _
      have next : Inode.Consistent
          { state.icache inum with activity := .truncatingIndirect (j + 1) }
          (state.disk.dinodes inum) fun _ => none := by
        refine ⟨entry.dropping, fun _ => ⟨own, valid⟩, entry.typed, ⟨present, direct⟩, ?_⟩
        intro whole
        cases whole
      split
      · next zero =>
          have empty : state.held (inum, .word ⟨j, inside⟩) = none :=
            listed_eq_none.mpr (Or.inr (value.trans zero))
          obtain ⟨views, releases⟩ := views_setInode state rfl inum
            { state.icache inum with activity := .truncatingIndirect (j + 1) }
          refine consistent.of_held inum (setInode_others _ _ _) rfl ?_ ?_ rfl
          · rw [State.held, views, releases]
            simp only [Inode.view, valid, if_true, same]
            refine counted.trans ?_
            rw [← empty]
            exact Function.update_eq_self _ _
          · rw [setInode_same]
            exact next.mono fun _ impossible => (impossible rfl).elim
      · next nonzero =>
          have full : state.held (inum, .word ⟨j, inside⟩) = some (Disk.word
              (state.disk.blocks ((state.icache inum).copy.addrs indirectSlot)) j) := by
            apply listed_eq_some.mpr
            refine ⟨?_, nonzero, value⟩
            rw [view]
            exact (entry.typed valid).2
          rw [bfree_held consistent full]
          refine consistent.release full ?_ next
          simp only [Inode.view, valid, if_true, same]
          exact counted
  · next done =>
      refine consistent.freeSlot truncates present (fun _ => by omega) rfl
        (fun distinct => (distinct rfl).elim) ?_
      intro slot
      exact cleared_succ (cleared_update direct) (Function.update_self _ _ _) slot slot.isLt

/-! ## Every run -/

theorem Consistent.advance (consistent : state.Consistent)
    (taken : state.advance inum = some after) : after.Consistent := by
  have entry := consistent.entry inum
  unfold State.advance at taken
  simp only at taken
  split at taken
  · cases taken
  · cases taken
  · next activity =>
      cases taken
      obtain ⟨own, valid⟩ := entry.locked (by simp [activity])
      have backed := entry.backed (by rw [activity]; rfl)
      simp only [Inode.view, valid, if_true] at backed
      apply consistent.iupdate
      · rw [inodes_of_valid valid]
      · rw [inodes_of_valid valid]
      · simp [State.released, Activity.released, activity]
      · refine ⟨entry.dropping, fun _ => ⟨own, valid⟩, fun _ => ⟨rfl, (entry.typed valid).2⟩,
          fun _ => rfl, fun _ => ?_⟩
        simpa [Inode.view] using backed
  · next activity =>
      cases taken
      exact consistent.readStep activity
  · next activity =>
      cases taken
      exact consistent.writeStep activity
  · next activity =>
      cases taken
      exact consistent.truncateStep activity
  · next activity =>
      cases taken
      exact consistent.truncateIndirectStep activity
  · next activity =>
      cases taken
      obtain ⟨own, valid⟩ := entry.locked (by simp [activity])
      have cleared : ∀ slot, (state.icache inum).copy.addrs slot = 0 := by
        simpa only [Inode.Progress, activity] using entry.progress
      apply consistent.iupdate
      · rw [inodes_of_valid valid]
      · rw [inodes_of_valid valid]
      · simp [State.released, Activity.released, activity]
      · refine ⟨entry.dropping, fun _ => ⟨own, valid⟩, fun _ => ⟨rfl, (entry.typed valid).2⟩,
          cleared, ?_⟩
        intro whole
        cases whole
  · next activity =>
      cases taken
      obtain ⟨own, valid⟩ := entry.locked (by simp [activity])
      have cleared : ∀ slot, (state.icache inum).copy.addrs slot = 0 := by
        simpa only [Inode.Progress, activity] using entry.progress
      refine consistent.of_empty inum (iupdate_others _ _ _) (by rfl) (by rfl) ?_ ?_ ?_ (by rfl)
      · intro position
        apply listed_eq_none.mpr
        right
        rw [inodes_of_valid valid]
        cases position with
        | slot slot => exact cleared slot
        | word bn => simp [address, cleared]
      · intro position
        apply listed_eq_none.mpr
        left
        simp [State.inodes, State.iupdate, State.setInode, Inode.view]
      · simp only [State.iupdate, State.setInode, Function.update_self]
        refine ⟨own, fun isLocked => (isLocked rfl).elim, ?_, ?_, ?_⟩
        · intro impossible
          cases impossible
        · intro impossible
          cases impossible
        · simp [Inode.view]

theorem Consistent.step (consistent : state.Consistent) {action : Action sb}
    (taken : state.step action = some after) : after.Consistent := by
  unfold State.step at taken
  split at taken
  · cases taken
  · cases action with
    | iget inum =>
        cases taken
        exact consistent.iget inum
    | ilock inum =>
        simp only at taken
        split at taken
        · next idle =>
            split at taken
            · next own =>
                cases taken
                exact consistent.ilock idle own
            · cases taken
        · cases taken
    | iunlock inum =>
        simp only at taken
        split at taken
        · next isLocked =>
            cases taken
            have entry := consistent.entry inum
            have valid := (entry.locked (by simp [isLocked])).2
            have synced := consistent.synced (by rw [isLocked]; rfl) valid
            exact consistent.setActivity (by simp [isLocked]) (by rw [isLocked]; rfl) rfl
              fun _ => synced
        · cases taken
    | ialloc type =>
        simp only at taken
        split at taken
        · cases taken
        · cases taken
          exact consistent.ialloc type
    | modify inum major minor nlink =>
        simp only at taken
        split at taken
        · next isLocked =>
            cases taken
            exact consistent.modify isLocked major minor nlink
        · cases taken
    | readi inum off n =>
        simp only at taken
        split at taken
        · next isLocked =>
            cases taken
            exact consistent.readi isLocked off n
        · cases taken
    | writei inum off n src =>
        simp only at taken
        split at taken
        · next isLocked =>
            cases taken
            exact consistent.writei isLocked off n src
        · cases taken
    | iput inum =>
        simp only at taken
        split at taken
        · next idle =>
            split at taken
            · next own =>
                cases taken
                exact consistent.iput idle own
            · cases taken
        · cases taken
    | drop inum =>
        simp only at taken
        split at taken
        · next dropping =>
            cases taken
            exact consistent.drop dropping
        · cases taken
    | advance inum => exact consistent.advance taken

end State

/-- A sound disk: the bitmap and the block numbers of the allocated inodes agree,
and every block below the size of a file or directory is listed. -/
structure Disk.Sound (disk : Disk sb) : Prop where
  owns : Owns (· < sb.size) sb.isMeta disk.isUsed
    (holdings disk.blocks disk.dinodes fun _ => 0)
  backed : ∀ inum, (disk.dinodes inum).type = .file ∨ (disk.dinodes inum).type = .dir →
    ∀ bn, bn < ((disk.dinodes inum).size + BSIZE - 1) / BSIZE →
      ∃ position, filePosition bn = some position ∧
        holdings disk.blocks disk.dinodes (fun _ => 0) (inum, position) ≠ none

/-- The state after boot from a disk. -/
def Disk.IsBoot (disk : Disk sb) (state : State sb) : Prop := state = State.boot disk

/-- No operation is in progress. -/
def State.Quiet (state : State sb) : Prop :=
  ∀ inum, (state.icache inum).activity.quiet = true

theorem below_iff_ceil {bn size : Nat} :
    bn < (size + BSIZE - 1) / BSIZE ↔ bn * BSIZE < size := by
  simp only [BSIZE]
  omega

theorem boot_consistent {disk : Disk sb} (sound : disk.Sound) (marked : disk.MetaMarked) :
    (State.boot disk).Consistent where
  accounts := ⟨sound.owns, marked⟩
  entry := by
    intro inum
    refine ⟨le_rfl, fun isLocked => (isLocked rfl).elim, ?_, ?_, ?_⟩
    · intro impossible
      cases impossible
    · intro impossible
      cases impossible
    · intro _ allocated notDev bn below
      refine sound.backed inum ?_ bn (below_iff_ceil.mpr below)
      change (disk.dinodes inum).type ≠ .free at allocated
      change (disk.dinodes inum).type ≠ .dev at notDev
      generalize (disk.dinodes inum).type = type at allocated notDev
      cases type <;> simp_all
  panic := by simp [State.boot]

theorem State.Consistent.quiet_sound {state : State sb} (consistent : state.Consistent)
    (quiet : state.Quiet) : state.disk.Sound := by
  have views : state.inodes = state.disk.dinodes := by
    funext inum
    by_cases valid : (state.icache inum).valid = true
    · rw [State.inodes_of_valid valid, consistent.synced (quiet inum) valid]
    · simp [State.inodes, Inode.view, valid]
  have whole : ∀ inum, (state.icache inum).activity.truncates = false := by
    intro inum
    have isQuiet := quiet inum
    cases activity : (state.icache inum).activity with
    | unlocked | locked => rfl
    | _ =>
        rw [activity] at isQuiet
        cases isQuiet
  have releases : state.released = fun _ => 0 := by
    funext inum
    exact State.released_of_not_truncating (whole inum)
  have held : state.held = holdings state.disk.blocks state.disk.dinodes fun _ => 0 := by
    rw [State.held, views, releases]
  constructor
  · have owns := consistent.accounts.owns
    rw [views, releases] at owns
    exact owns
  · intro inum isContent bn below
    have backed := (consistent.entry inum).backed (whole inum)
    change (state.inodes inum).type ≠ _ → (state.inodes inum).type ≠ _ →
      Backed _ (state.inodes inum).size at backed
    rw [views, held] at backed
    apply backed _ _ bn (below_iff_ceil.mp below)
    · rcases isContent with isFile | isDir
      · simp [isFile]
      · simp [isDir]
    · rcases isContent with isFile | isDir
      · simp [isFile]
      · simp [isDir]

theorem consistent_of_run {disk : Disk sb} (sound : disk.Sound) (marked : disk.MetaMarked)
    {state : State sb} (run : Run State.step anyStep disk.IsBoot state) :
    state.Consistent := by
  apply run.invariant
  · rintro _ rfl
    exact boot_consistent sound marked
  · intro _ _ _ consistent _ taken
    exact consistent.step taken

/-- Block ownership in every run from a sound disk whose metadata blocks are
marked: the disk is sound and equal to the cached inodes whenever no operation is
in progress, the metadata blocks stay marked, `bfree` never finds its block free,
and `balloc` only hands out blocks that are neither metadata nor in use. -/
theorem ownership_preserved {disk : Disk sb} (sound : disk.Sound) (marked : disk.MetaMarked)
    {state : State sb} (run : Run State.step anyStep disk.IsBoot state) :
    (state.Quiet → state.disk.Sound ∧ ∀ inum, (state.icache inum).valid = true →
        (state.icache inum).copy = state.disk.dinodes inum) ∧
      Owns (· < sb.size) sb.isMeta state.disk.isUsed state.held ∧
      state.disk.MetaMarked ∧
      state.panic ≠ some .freeingFreeBlock ∧
      ∀ blockno after, state.disk.balloc = .ok (blockno, after) →
        ¬ sb.isMeta blockno ∧ ∀ place, state.held place ≠ some blockno := by
  have consistent := consistent_of_run sound marked run
  refine ⟨fun quiet => ⟨consistent.quiet_sound quiet, fun inum => consistent.synced (quiet inum)⟩,
    consistent.accounts.owns, consistent.accounts.marked, consistent.panic.1, ?_⟩
  intro blockno after allocated
  obtain ⟨picked, -⟩ := Disk.balloc_ok allocated
  obtain ⟨-, notMeta, -, -, unheld⟩ := consistent.accounts.fresh picked
  exact ⟨notMeta, unheld⟩

/-! ## A small disk -/

/-- Eight blocks, of which the first five are metadata, and two inodes. -/
def smallSuperblock : Superblock where
  size := 8
  ninodes := 2
  nlog := 1
  logstart := 2
  inodestart := 3
  bmapstart := 4
  sizeFits := by decide

/-- A disk without files, with a given first byte of the bitmap. -/
def emptyDisk (bits : UInt8) : Disk smallSuperblock where
  bitmap := fun _ index => if index.val = 0 then bits else 0
  dinodes := fun _ => .blank .free
  blocks := fun _ _ => 0

def firstInum : Fin smallSuperblock.ninodes := ⟨1, by decide⟩

/-- A process makes a file of one byte. -/
def oneByteFile : List (Action smallSuperblock) :=
  [.ialloc .file, .ilock firstInum, .writei firstInum 0 1 fun _ => 7, .advance firstInum,
    .advance firstInum, .iunlock firstInum]

theorem oneByteFile_enabled : ∀ bits ∈ [0, 0x1f], (execute State.step (fun _ _ => true)
    (State.boot (emptyDisk bits)) oneByteFile).isSome = true := by
  decide +kernel

theorem unmarkedFile_enabled : (execute State.step (fun _ _ => true)
    (State.boot (emptyDisk 0)) oneByteFile).isSome = true :=
  oneByteFile_enabled 0 (by simp)

/-- The state after that on a disk without marks. -/
def unmarkedFile : State smallSuperblock :=
  lastState State.step (fun _ _ => true) (State.boot (emptyDisk 0)) oneByteFile
    unmarkedFile_enabled

theorem markedFile_enabled : (execute State.step (fun _ _ => true)
    (State.boot (emptyDisk 0x1f)) oneByteFile).isSome = true :=
  oneByteFile_enabled 0x1f (by simp)

/-- The state after that on a disk whose metadata blocks are marked. -/
def markedFile : State smallSuperblock :=
  lastState State.step (fun _ _ => true) (State.boot (emptyDisk 0x1f)) oneByteFile
    markedFile_enabled

theorem emptyDisk_held (bits : UInt8) (place : Fin smallSuperblock.ninodes × Position) :
    holdings (emptyDisk bits).blocks (emptyDisk bits).dinodes (fun _ => 0) place = none :=
  listed_eq_none.mpr (Or.inl rfl)

/-- A disk without files is sound if only metadata blocks are marked. -/
theorem emptyDisk_sound {bits : UInt8}
    (onlyMeta : ∀ blockno < smallSuperblock.size, (emptyDisk bits).isUsed blockno = true →
      smallSuperblock.isMeta blockno) : (emptyDisk bits).Sound where
  owns := by
    refine ⟨?_, ?_, ?_, ?_, ?_⟩
    · intro place blockno full
      rw [emptyDisk_held] at full
      cases full
    · intro place blockno full
      rw [emptyDisk_held] at full
      cases full
    · intro place blockno full
      rw [emptyDisk_held] at full
      cases full
    · intro first second blockno full
      rw [emptyDisk_held] at full
      cases full
    · intro blockno inside notMeta used
      exact (notMeta (onlyMeta blockno inside used)).elim
  backed := by
    rintro inum (impossible | impossible) <;> cases impossible

/-- Only metadata is marked, all of it if the byte says so, and the calls end with a file that is
given the first free block. -/
theorem oneByteFile_left :
    (∀ bits ∈ [0, 0x1f], ∀ blockno < smallSuperblock.size,
        (emptyDisk bits).isUsed blockno = true → smallSuperblock.isMeta blockno) ∧
      (emptyDisk 0x1f).MetaMarked ∧ unmarkedFile.Quiet ∧ markedFile.Quiet ∧
      (unmarkedFile.disk.dinodes firstInum).type = .file ∧
      0 < ((unmarkedFile.disk.dinodes firstInum).size + BSIZE - 1) / BSIZE ∧
      holdings unmarkedFile.disk.blocks unmarkedFile.disk.dinodes (fun _ => 0)
        (firstInum, .slot 0) = none ∧
      markedFile.held (firstInum, .slot 0) = some 5 := by
  unfold Disk.MetaMarked State.Quiet
  decide +kernel

/-- On a sound disk whose metadata blocks are not marked, the first file is given
block zero, and the disk is not sound any more. -/
theorem unmarked_metadata_handed_out :
    ∃ disk : Disk smallSuperblock, disk.Sound ∧
      ∃ state, Run State.step anyStep disk.IsBoot state ∧ state.Quiet ∧
        ¬ state.disk.Sound := by
  obtain ⟨onlyMeta, -, quiet, -, isFile, hasByte, noBlock, -⟩ := oneByteFile_left
  have sound : (emptyDisk 0).Sound := emptyDisk_sound (onlyMeta 0 (by simp))
  have isBoot : (emptyDisk 0).IsBoot (State.boot (emptyDisk 0)) := rfl
  have run := run_lastState isBoot oneByteFile unmarkedFile_enabled
  refine ⟨emptyDisk 0, sound, unmarkedFile, run.mono fun _ _ _ => trivial, quiet, ?_⟩
  intro soundAfter
  obtain ⟨position, isPosition, full⟩ := soundAfter.backed firstInum (Or.inl isFile) 0 hasByte
  obtain rfl : Position.slot 0 = position := Option.some.inj isPosition
  exact full noBlock

theorem ownership_preserved_markedFile :
    markedFile.Quiet ∧ markedFile.disk.Sound ∧
      markedFile.held (firstInum, .slot 0) = some 5 := by
  obtain ⟨onlyMeta, marked, -, quiet, -, -, -, isFirst⟩ := oneByteFile_left
  have sound : (emptyDisk 0x1f).Sound := emptyDisk_sound (onlyMeta 0x1f (by simp))
  have isBoot : (emptyDisk 0x1f).IsBoot (State.boot (emptyDisk 0x1f)) := rfl
  have run := run_lastState isBoot oneByteFile markedFile_enabled
  have preserved := ownership_preserved sound marked (run.mono fun _ _ _ => trivial)
  exact ⟨quiet, (preserved.1 quiet).1, isFirst⟩

end Coursework.FileSystem
