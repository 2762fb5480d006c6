import Coursework.BlockGrowth
import Coursework.InodeOperations

/-!
# Consistency of inodes and blocks

The blocks that inodes list, the bitmap and the cached inodes stay consistent
under any interleaving of the operations of `fs.c`.  The invariant speaks about
the inode as its lock's holder sees it: the cached copy where there is a valid
one, otherwise the inode on disk.  A write inside a file allocates nothing,
because every block below the size is listed; so the size grows whenever `bmap`
changed the cached inode, and `writei` then writes it to disk.
-/

namespace Coursework.FileSystem

variable {sb : Superblock}

/-- Every block of a file of the given length is listed. -/
def Backed (held : Position → Option Nat) (bytes : Nat) : Prop :=
  ∀ bn, bn * BSIZE < bytes → ∃ position, filePosition bn = some position ∧
    held position ≠ none

/-- The inode as the holder of its lock sees it. -/
def Inode.view (inode : Inode) (onDisk : Dinode) : Dinode :=
  if inode.valid then inode.copy else onDisk

/-- The numbers of the indirect block that `itrunc` has freed already. -/
def Activity.released : Activity → Nat
  | .truncatingIndirect j => j
  | _ => 0

/-- `itrunc` is taking the inode apart. -/
def Activity.truncates : Activity → Bool
  | .truncating _ | .truncatingIndirect _ | .truncated | .freeing => true
  | _ => false

/-- What a call in progress guarantees. -/
def Inode.Progress (inode : Inode) (onDisk : Dinode) (held : Position → Option Nat) : Prop :=
  match inode.activity with
  | .unlocked | .locked => inode.valid = true → inode.copy = onDisk
  | .changed => True
  | .reading off tot n =>
      inode.copy = onDisk ∧ inode.copy.type ≠ .dev ∧ off + (n - tot) ≤ inode.copy.size
  | .writing off tot n _ =>
      (off ≤ inode.copy.size → inode.copy = onDisk) ∧ inode.copy.type ≠ .dev ∧
        (n = 0 → off ≤ inode.copy.size) ∧ off + (n - tot) ≤ MAXFILE * BSIZE ∧
        Backed held off
  | .truncating i => ∀ slot : Fin (NDIRECT + 1), slot.val < i → inode.copy.addrs slot = 0
  | .truncatingIndirect _ =>
      inode.copy.addrs indirectSlot ≠ 0 ∧
        ∀ slot : Fin (NDIRECT + 1), slot.val < NDIRECT → inode.copy.addrs slot = 0
  | .truncated | .freeing => ∀ slot, inode.copy.addrs slot = 0

/-- A cache entry is consistent with its inode on disk and the listed blocks. -/
structure Inode.Consistent (inode : Inode) (onDisk : Dinode)
    (held : Position → Option Nat) : Prop where
  dropping : inode.dropping ≤ inode.ref
  locked : inode.activity ≠ .unlocked → inode.dropping < inode.ref ∧ inode.valid = true
  typed : inode.valid = true → inode.copy.type = onDisk.type ∧ inode.copy.type ≠ .free
  progress : inode.Progress onDisk held
  backed : inode.activity.truncates = false → (inode.view onDisk).type ≠ .free →
    (inode.view onDisk).type ≠ .dev → Backed held (inode.view onDisk).size

namespace State

def inodes (state : State sb) (inum : Fin sb.ninodes) : Dinode :=
  (state.icache inum).view (state.disk.dinodes inum)

def released (state : State sb) (inum : Fin sb.ninodes) : Nat :=
  (state.icache inum).activity.released

/-- The blocks that the inodes list, as seen under their locks. -/
def held (state : State sb) : Fin sb.ninodes × Position → Option Nat :=
  holdings state.disk.blocks state.inodes state.released

/-- The invariant. -/
structure Consistent (state : State sb) : Prop where
  accounts : state.disk.Accounts state.inodes state.released
  entry : ∀ inum, (state.icache inum).Consistent (state.disk.dinodes inum)
    fun position => state.held (inum, position)
  panic : state.panic ≠ some .freeingFreeBlock ∧ state.panic ≠ some .outOfRange

end State

theorem Backed.mono {held held' : Position → Option Nat} {bytes bytes' : Nat}
    (backed : Backed held bytes) (shorter : bytes' ≤ bytes)
    (kept : ∀ position, held position ≠ none → held' position ≠ none) :
    Backed held' bytes' := by
  intro bn below
  obtain ⟨position, isPosition, full⟩ := backed bn (lt_of_lt_of_le below shorter)
  exact ⟨position, isPosition, kept position full⟩

theorem Inode.Consistent.mono {inode : Inode} {onDisk : Dinode}
    {held held' : Position → Option Nat} (consistent : inode.Consistent onDisk held)
    (kept : ∀ position, held position ≠ none → held' position ≠ none) :
    inode.Consistent onDisk held' where
  dropping := consistent.dropping
  locked := consistent.locked
  typed := consistent.typed
  progress := by
    have progress := consistent.progress
    unfold Inode.Progress at progress ⊢
    cases activity : inode.activity with
    | writing off tot n src =>
        rw [activity] at progress
        obtain ⟨synced, notDev, started, room, backed⟩ := progress
        exact ⟨synced, notDev, started, room, backed.mono le_rfl kept⟩
    | _ =>
        rw [activity] at progress
        exact progress
  backed := by
    intro whole allocated notDev
    exact (consistent.backed whole allocated notDev).mono le_rfl kept

namespace State

variable {state after : State sb} {inum : Fin sb.ninodes}

/-- A step that touches one inode keeps the invariant of the others as long as
their blocks stay listed. -/
theorem Consistent.of_change (consistent : state.Consistent) (inum : Fin sb.ninodes)
    (others : ∀ other, other ≠ inum → after.icache other = state.icache other ∧
      after.disk.dinodes other = state.disk.dinodes other)
    (accounts : after.disk.Accounts after.inodes after.released)
    (kept : ∀ other, other ≠ inum → ∀ position, state.held (other, position) ≠ none →
      after.held (other, position) ≠ none)
    (entry : (after.icache inum).Consistent (after.disk.dinodes inum)
      fun position => after.held (inum, position))
    (panic : after.panic = state.panic) : after.Consistent where
  accounts := accounts
  entry := by
    intro other
    rcases eq_or_ne other inum with rfl | distinct
    · exact entry
    · obtain ⟨sameEntry, sameDisk⟩ := others other distinct
      rw [sameEntry, sameDisk]
      exact (consistent.entry other).mono (kept other distinct)
  panic := by
    rw [panic]
    exact consistent.panic

/-- A step that neither moves a bit of the bitmap nor a listed block. -/
theorem Consistent.of_held (consistent : state.Consistent) (inum : Fin sb.ninodes)
    (others : ∀ other, other ≠ inum → after.icache other = state.icache other ∧
      after.disk.dinodes other = state.disk.dinodes other)
    (bitmap : after.disk.bitmap = state.disk.bitmap) (held : after.held = state.held)
    (entry : (after.icache inum).Consistent (after.disk.dinodes inum)
      fun position => state.held (inum, position))
    (panic : after.panic = state.panic) : after.Consistent := by
  have used : after.disk.isUsed = state.disk.isUsed := by
    funext blockno
    simp only [Disk.isUsed, bitmap]
  refine consistent.of_change inum others ⟨?_, ?_⟩ (fun other _ position => ?_) ?_ panic
  · rw [used]
    have owns := consistent.accounts.owns
    change Owns _ _ _ state.held at owns
    rw [← held] at owns
    exact owns
  · intro blockno
    rw [used]
    exact consistent.accounts.marked blockno
  · rw [held]
    exact id
  · rw [held]
    exact entry

/-- What is listed depends on the inodes seen under the locks. -/
theorem held_ext (blocks : after.disk.blocks = state.disk.blocks)
    (others : ∀ other, other ≠ inum → after.icache other = state.icache other ∧
      after.disk.dinodes other = state.disk.dinodes other)
    (here : ∀ position, after.held (inum, position) = state.held (inum, position)) :
    after.held = state.held := by
  funext ⟨other, position⟩
  rcases eq_or_ne other inum with rfl | distinct
  · exact here position
  · obtain ⟨sameEntry, sameDisk⟩ := others other distinct
    simp only [State.held, holdings, blocks, State.inodes, State.released, sameEntry, sameDisk]

/-- A step that keeps the type and the block numbers of an inode. -/
theorem Consistent.of_same (consistent : state.Consistent) (inum : Fin sb.ninodes)
    (others : ∀ other, other ≠ inum → after.icache other = state.icache other ∧
      after.disk.dinodes other = state.disk.dinodes other)
    (bitmap : after.disk.bitmap = state.disk.bitmap)
    (blocks : after.disk.blocks = state.disk.blocks)
    (type : (after.inodes inum).type = (state.inodes inum).type)
    (addrs : (after.inodes inum).addrs = (state.inodes inum).addrs)
    (released : after.released inum = state.released inum)
    (entry : (after.icache inum).Consistent (after.disk.dinodes inum)
      fun position => state.held (inum, position))
    (panic : after.panic = state.panic) : after.Consistent := by
  refine consistent.of_held inum others bitmap (held_ext blocks others ?_) entry panic
  intro position
  simp only [State.held, holdings, blocks, released]
  exact listed_congr type addrs fun _ _ => rfl

@[simp]
theorem setInode_disk (state : State sb) (inum : Fin sb.ninodes) (inode : Inode) :
    (state.setInode inum inode).disk = state.disk :=
  rfl

@[simp]
theorem setInode_same (state : State sb) (inum : Fin sb.ninodes) (inode : Inode) :
    (state.setInode inum inode).icache inum = inode :=
  Function.update_self _ _ _

theorem setInode_others (state : State sb) (inum : Fin sb.ninodes) (inode : Inode) :
    ∀ other, other ≠ inum → (state.setInode inum inode).icache other = state.icache other ∧
      (state.setInode inum inode).disk.dinodes other = state.disk.dinodes other := by
  intro other distinct
  exact ⟨Function.update_of_ne distinct _ _, rfl⟩

theorem iupdate_others (state : State sb) (inum : Fin sb.ninodes) (inode : Inode) :
    ∀ other, other ≠ inum → (state.iupdate inum inode).icache other = state.icache other ∧
      (state.iupdate inum inode).disk.dinodes other = state.disk.dinodes other := by
  intro other distinct
  exact ⟨Function.update_of_ne distinct _ _, Function.update_of_ne distinct _ _⟩

/-- The inodes seen under the locks after a change of one cache entry. -/
theorem views_setInode (state : State sb) {disk : Disk sb}
    (dinodes : disk.dinodes = state.disk.dinodes) (inum : Fin sb.ninodes) (inode : Inode) :
    ({ state with disk := disk }.setInode inum inode).inodes =
        Function.update state.inodes inum (inode.view (state.disk.dinodes inum)) ∧
      ({ state with disk := disk }.setInode inum inode).released =
        Function.update state.released inum inode.activity.released := by
  constructor
  · funext other
    rcases eq_or_ne other inum with rfl | distinct
    · simp [State.inodes, State.setInode, dinodes]
    · simp [State.inodes, State.setInode, dinodes, distinct]
  · funext other
    rcases eq_or_ne other inum with rfl | distinct
    · simp [State.released, State.setInode]
    · simp [State.released, State.setInode, distinct]

/-- A change of a cache entry that keeps the type and the listed blocks. -/
theorem Consistent.setInode (consistent : state.Consistent) {inode : Inode}
    (type : (inode.view (state.disk.dinodes inum)).type = (state.inodes inum).type)
    (addrs : (inode.view (state.disk.dinodes inum)).addrs = (state.inodes inum).addrs)
    (released : inode.activity.released = state.released inum)
    (entry : inode.Consistent (state.disk.dinodes inum)
      fun position => state.held (inum, position)) :
    (state.setInode inum inode).Consistent := by
  have here := setInode_same state inum inode
  refine consistent.of_same inum (setInode_others state inum inode) rfl rfl ?_ ?_ ?_ ?_ rfl
  · simpa only [State.inodes, here, setInode_disk] using type
  · simpa only [State.inodes, here, setInode_disk] using addrs
  · simpa only [State.released, here] using released
  · rw [here]
    exact entry

/-- `iupdate` of a cache entry that keeps the type and the listed blocks. -/
theorem Consistent.iupdate (consistent : state.Consistent) {inode : Inode}
    (type : inode.copy.type = (state.inodes inum).type)
    (addrs : inode.copy.addrs = (state.inodes inum).addrs)
    (released : inode.activity.released = state.released inum)
    (entry : inode.Consistent inode.copy fun position => state.held (inum, position)) :
    (state.iupdate inum inode).Consistent := by
  have here : (state.iupdate inum inode).icache inum = inode := Function.update_self _ _ _
  have onDisk : (state.iupdate inum inode).disk.dinodes inum = inode.copy :=
    Function.update_self _ _ _
  have view : (state.iupdate inum inode).inodes inum = inode.copy := by
    simp [State.inodes, here, onDisk, Inode.view]
  refine consistent.of_same inum (iupdate_others state inum inode) rfl rfl ?_ ?_ ?_ ?_ rfl
  · rw [view, type]
  · rw [view, addrs]
  · simpa only [State.released, here] using released
  · rw [here, onDisk]
    exact entry

theorem Consistent.fail (consistent : state.Consistent) {panic : Panic}
    (other : panic ≠ .freeingFreeBlock ∧ panic ≠ .outOfRange) :
    (state.fail panic).Consistent where
  accounts := consistent.accounts
  entry := consistent.entry
  panic := by simpa [State.fail] using other

/-! ## Calls that move no block -/

theorem Consistent.iget (consistent : state.Consistent) (inum : Fin sb.ninodes) :
    (state.iget inum).Consistent := by
  have entry := consistent.entry inum
  unfold State.iget
  simp only
  split
  · apply consistent.setInode (by rfl) (by rfl) (by rfl)
    constructor
    · exact Nat.le_succ_of_le entry.dropping
    · intro isLocked
      exact ⟨Nat.lt_succ_of_lt (entry.locked isLocked).1, (entry.locked isLocked).2⟩
    · exact entry.typed
    · exact entry.progress
    · exact entry.backed
  · next unused =>
      split
      · have idle : (state.icache inum).activity = .unlocked := by
          by_contra isLocked
          have := (entry.locked isLocked).1
          omega
        -- the recycled entry forgets a copy that equals the inode on disk
        have same : state.inodes inum = state.disk.dinodes inum := by
          have progress := entry.progress
          simp only [Inode.Progress, idle] at progress
          by_cases valid : (state.icache inum).valid = true
          · simp [State.inodes, Inode.view, valid, progress valid]
          · simp [State.inodes, Inode.view, valid]
        apply consistent.setInode
        · simp [Inode.view, same]
        · simp [Inode.view, same]
        · rfl
        · constructor
          · have := entry.dropping
            simp only
            omega
          · intro isLocked
            exact (isLocked idle).elim
          · intro impossible
            cases impossible
          · simp [Inode.Progress, idle]
          · have backed := entry.backed (by rw [idle]; rfl)
            change (state.inodes inum).type ≠ _ → (state.inodes inum).type ≠ _ →
              Backed _ (state.inodes inum).size at backed
            rw [same] at backed
            intro _
            exact backed
      · exact consistent.fail (by decide)

theorem Consistent.ilock (consistent : state.Consistent) {inum : Fin sb.ninodes}
    (idle : (state.icache inum).activity = .unlocked)
    (own : (state.icache inum).dropping < (state.icache inum).ref) :
    (state.ilock inum).Consistent := by
  have entry := consistent.entry inum
  have progress := entry.progress
  have released : state.released inum = 0 := by
    simp [State.released, Activity.released, idle]
  have backed := entry.backed (by rw [idle]; rfl)
  simp only [Inode.Progress, idle] at progress
  unfold State.ilock
  simp only
  split
  · next valid =>
      apply consistent.setInode (by rfl) (by rfl) (by exact released.symm)
      exact ⟨le_of_lt own, fun _ => ⟨own, valid⟩, entry.typed, progress, fun _ => backed⟩
  · next invalid =>
      have same : state.inodes inum = state.disk.dinodes inum := by
        simp [State.inodes, Inode.view, invalid]
      split
      · exact consistent.fail (by decide)
      · next allocated =>
          apply consistent.setInode
          · simp [Inode.view, same]
          · simp [Inode.view, same]
          · exact released.symm
          · refine ⟨le_of_lt own, fun _ => ⟨own, rfl⟩, fun _ => ⟨rfl, allocated⟩,
              fun _ => rfl, fun _ => ?_⟩
            change (state.inodes inum).type ≠ _ → (state.inodes inum).type ≠ _ →
              Backed _ (state.inodes inum).size at backed
            rw [same] at backed
            exact backed

/-- Between two calls of the lock's holder the copy is the inode on disk. -/
theorem Consistent.synced (consistent : state.Consistent) {inum : Fin sb.ninodes}
    (quiet : (state.icache inum).activity.quiet = true)
    (valid : (state.icache inum).valid = true) :
    (state.icache inum).copy = state.disk.dinodes inum := by
  have progress := (consistent.entry inum).progress
  unfold Inode.Progress at progress
  cases activity : (state.icache inum).activity with
  | unlocked | locked =>
      rw [activity] at progress
      exact progress valid
  | _ =>
      rw [activity] at quiet
      cases quiet

theorem released_of_not_truncating {activity : Activity}
    (whole : activity.truncates = false) : activity.released = 0 := by
  cases activity with
  | truncatingIndirect j => cases whole
  | _ => rfl

/-- A new activity of the lock's holder that does not take the inode apart. -/
theorem Consistent.setActivity (consistent : state.Consistent) {inum : Fin sb.ninodes}
    (isLocked : (state.icache inum).activity ≠ .unlocked)
    (whole : (state.icache inum).activity.truncates = false)
    {activity : Activity} (wholeAfter : activity.truncates = false)
    (progress : { state.icache inum with activity := activity }.Progress
      (state.disk.dinodes inum) fun position => state.held (inum, position)) :
    (state.setInode inum { state.icache inum with activity := activity }).Consistent := by
  have entry := consistent.entry inum
  apply consistent.setInode (by rfl) (by rfl)
  · rw [State.released, released_of_not_truncating whole]
    exact released_of_not_truncating wholeAfter
  · exact ⟨entry.dropping, fun _ => entry.locked isLocked, entry.typed, progress,
      fun _ => entry.backed whole⟩

theorem Consistent.modify (consistent : state.Consistent) {inum : Fin sb.ninodes}
    (isLocked : (state.icache inum).activity = .locked) (major minor nlink : Int) :
    (state.setInode inum
      { state.icache inum with
        copy := { (state.icache inum).copy with major := major, minor := minor, nlink := nlink },
        activity := .changed }).Consistent := by
  have entry := consistent.entry inum
  obtain ⟨own, valid⟩ := entry.locked (by simp [isLocked])
  have view : state.inodes inum = (state.icache inum).copy := by
    simp [State.inodes, Inode.view, valid]
  have backed := entry.backed (by rw [isLocked]; rfl)
  change (state.inodes inum).type ≠ _ → (state.inodes inum).type ≠ _ →
    Backed _ (state.inodes inum).size at backed
  rw [view] at backed
  apply consistent.setInode
  · simp [Inode.view, valid, view]
  · simp [Inode.view, valid, view]
  · simp [State.released, Activity.released, isLocked]
  · refine ⟨entry.dropping, fun _ => ⟨own, valid⟩, entry.typed, trivial, fun _ => ?_⟩
    simpa [Inode.view, valid] using backed

theorem toNat_add_of_not_lt {off n : UInt32} (noWrap : ¬ off + n < off) :
    (off + n).toNat = off.toNat + n.toNat := by
  have offBound := off.toNat_lt
  have nBound := n.toNat_lt
  rw [UInt32.lt_iff_toNat_lt, UInt32.toNat_add] at noWrap
  rw [UInt32.toNat_add]
  omega

theorem Consistent.readi (consistent : state.Consistent) {inum : Fin sb.ninodes}
    (isLocked : (state.icache inum).activity = .locked) (off n : UInt32) :
    (state.readi inum off n).Consistent := by
  obtain ⟨-, valid⟩ := (consistent.entry inum).locked (by simp [isLocked])
  have synced := consistent.synced (by rw [isLocked]; rfl) valid
  unfold State.readi
  simp only
  split
  · exact consistent
  · next notDev =>
      split
      · exact consistent
      · next inRange =>
          rw [not_or, not_lt] at inRange
          have sum := toNat_add_of_not_lt inRange.2
          refine consistent.setActivity (by simp [isLocked]) (by rw [isLocked]; rfl) rfl
            ⟨synced, notDev, ?_⟩
          simp only
          split <;> omega

theorem Consistent.writei (consistent : state.Consistent) {inum : Fin sb.ninodes}
    (isLocked : (state.icache inum).activity = .locked) (off n : UInt32)
    (src : Nat → UInt8) : (state.writei inum off n src).Consistent := by
  have entry := consistent.entry inum
  obtain ⟨-, valid⟩ := entry.locked (by simp [isLocked])
  have synced := consistent.synced (by rw [isLocked]; rfl) valid
  unfold State.writei
  simp only
  split
  · exact consistent
  · next notDev =>
      split
      · exact consistent
      · next inRange =>
          split
          · exact consistent
          · next room =>
              rw [not_or, not_lt] at inRange
              have sum := toNat_add_of_not_lt inRange.2
              have backed := entry.backed (by rw [isLocked]; rfl)
              simp only [Inode.view, valid, if_true] at backed
              refine consistent.setActivity (by simp [isLocked]) (by rw [isLocked]; rfl) rfl
                ⟨fun _ => synced, notDev, fun _ => inRange.1, by omega, ?_⟩
              exact (backed (entry.typed valid).2 notDev).mono inRange.1 fun _ => id

theorem Consistent.iput (consistent : state.Consistent) {inum : Fin sb.ninodes}
    (idle : (state.icache inum).activity = .unlocked)
    (own : (state.icache inum).dropping < (state.icache inum).ref) :
    (state.iput inum).Consistent := by
  have entry := consistent.entry inum
  have released : state.released inum = 0 := by
    simp [State.released, Activity.released, idle]
  unfold State.iput
  simp only
  split
  · next last =>
      apply consistent.setInode (by rfl) (by rfl) (by exact released.symm)
      refine ⟨entry.dropping, fun _ => ⟨own, last.1⟩, entry.typed, ?_, ?_⟩
      · intro slot impossible
        omega
      · intro impossible
        cases impossible
  · apply consistent.setInode (by rfl) (by rfl) (by rfl)
    exact ⟨own, fun isLocked => (isLocked idle).elim, entry.typed, entry.progress, entry.backed⟩

theorem Consistent.drop (consistent : state.Consistent) {inum : Fin sb.ninodes}
    (dropping : 0 < (state.icache inum).dropping) :
    (state.setInode inum
      { state.icache inum with
        ref := (state.icache inum).ref - 1,
        dropping := (state.icache inum).dropping - 1 }).Consistent := by
  have entry := consistent.entry inum
  apply consistent.setInode (by rfl) (by rfl) (by rfl)
  refine ⟨?_, ?_, entry.typed, entry.progress, entry.backed⟩
  · have := entry.dropping
    simp only
    omega
  · intro isLocked
    obtain ⟨own, valid⟩ := entry.locked isLocked
    refine ⟨?_, valid⟩
    simp only
    omega

/-- A change of one inode on disk or in the cache where it lists nothing before and
after. -/
theorem Consistent.of_empty (consistent : state.Consistent) (inum : Fin sb.ninodes)
    (others : ∀ other, other ≠ inum → after.icache other = state.icache other ∧
      after.disk.dinodes other = state.disk.dinodes other)
    (bitmap : after.disk.bitmap = state.disk.bitmap)
    (blocks : after.disk.blocks = state.disk.blocks)
    (before : ∀ position, state.held (inum, position) = none)
    (emptyAfter : ∀ position, after.held (inum, position) = none)
    (entry : (after.icache inum).Consistent (after.disk.dinodes inum) fun _ => none)
    (panic : after.panic = state.panic) : after.Consistent := by
  refine consistent.of_held inum others bitmap (held_ext blocks others ?_) ?_ panic
  · intro position
    rw [before position, emptyAfter position]
  · exact entry.mono fun _ impossible => (impossible rfl).elim

theorem Consistent.ialloc (consistent : state.Consistent) (type : FileType) :
    (state.ialloc type).Consistent := by
  unfold State.ialloc
  split
  · next inum found =>
      have isFree := List.find?_some found
      simp only [Bool.and_eq_true, decide_eq_true_eq] at isFree
      have entry := consistent.entry inum
      have invalid : (state.icache inum).valid = false := by
        by_contra valid
        have typed := entry.typed (by simpa using valid)
        exact typed.2 (typed.1.trans isFree.2)
      have idle : (state.icache inum).activity = .unlocked := by
        by_contra isLocked
        have valid := (entry.locked isLocked).2
        rw [invalid] at valid
        cases valid
      refine Consistent.iget ?_ inum
      refine consistent.of_empty inum ?_ (by rfl) (by rfl) ?_ ?_ ?_ (by rfl)
      · intro other distinct
        exact ⟨rfl, Function.update_of_ne distinct _ _⟩
      · intro position
        apply listed_eq_none.mpr
        left
        simpa [State.inodes, Inode.view, invalid] using isFree.2
      · intro position
        apply listed_eq_none.mpr
        right
        cases position with
        | slot slot => simp [State.inodes, Inode.view, invalid, address, Dinode.blank]
        | word bn => simp [State.inodes, Inode.view, invalid, address, Dinode.blank]
      · refine ⟨entry.dropping, entry.locked, ?_, ?_, ?_⟩
        · intro valid
          rw [invalid] at valid
          cases valid
        · simp [Inode.Progress, idle, invalid]
        · intro _ _ _ bn below
          simp [Inode.view, invalid, Dinode.blank] at below
  · exact consistent.fail (by decide)

/-! ## The loops of `readi` and `writei` -/

theorem inodes_of_valid (valid : (state.icache inum).valid = true) :
    state.inodes inum = (state.icache inum).copy := by
  simp [State.inodes, Inode.view, valid]

/-- `bmap` on an inode that is not being truncated. -/
theorem Consistent.bmap (consistent : state.Consistent)
    (isLocked : (state.icache inum).activity ≠ .unlocked)
    (whole : (state.icache inum).activity.truncates = false) {bn addr : Nat}
    {addrs : Addrs} {disk : Disk sb}
    (mapped : state.disk.bmap (state.icache inum).copy.addrs bn = .ok (addr, addrs, disk)) :
    ∃ position, filePosition bn = some position ∧
      Grows state.disk disk state.inodes state.released inum addrs position addr := by
  have entry := consistent.entry inum
  have valid := (entry.locked isLocked).2
  have view := inodes_of_valid valid
  apply bmap_grows consistent.accounts
  · rw [view]
    exact (entry.typed valid).2
  · exact released_of_not_truncating whole
  · rw [view]
    exact mapped

/-- The state after one iteration of a loop that called `bmap`. -/
def grown (state : State sb) (inum : Fin sb.ninodes) (disk : Disk sb) (addrs : Addrs)
    (activity : Activity) : State sb :=
  { state with disk := disk }.setInode inum
    { state.icache inum with
      copy := { (state.icache inum).copy with addrs := addrs }, activity := activity }

theorem held_grown (valid : (state.icache inum).valid = true)
    (whole : (state.icache inum).activity.truncates = false) {disk : Disk sb} {addrs : Addrs}
    {activity : Activity} (wholeAfter : activity.truncates = false)
    (dinodes : disk.dinodes = state.disk.dinodes) :
    (state.grown inum disk addrs activity).inodes =
        Function.update state.inodes inum { state.inodes inum with addrs := addrs } ∧
      (state.grown inum disk addrs activity).released = state.released := by
  obtain ⟨views, releases⟩ := views_setInode state dinodes inum
    { state.icache inum with
      copy := { (state.icache inum).copy with addrs := addrs }, activity := activity }
  constructor
  · rw [grown, views, inodes_of_valid valid]
    simp [Inode.view, valid]
  · rw [grown, releases, released_of_not_truncating wholeAfter,
      ← released_of_not_truncating whole]
    exact Function.update_eq_self inum state.released

/-- An iteration keeps the invariant if the content it writes lies in the block
that `bmap` returned. -/
theorem Consistent.grown (consistent : state.Consistent)
    (isLocked : (state.icache inum).activity ≠ .unlocked)
    (whole : (state.icache inum).activity.truncates = false)
    {disk disk' : Disk sb} {addrs : Addrs} {position : Position} {addr bn : Nat}
    (isPosition : filePosition bn = some position)
    (grows : Grows state.disk disk state.inodes state.released inum addrs position addr)
    (written : disk' = disk ∨ ∃ block, disk' = disk.writeBlock addr block)
    {activity : Activity} (wholeAfter : activity.truncates = false)
    (progress : ∀ held : Position → Option Nat,
      (∀ place, state.held (inum, place) ≠ none → held place ≠ none) →
      held position ≠ none →
      Inode.Progress { state.icache inum with
        copy := { (state.icache inum).copy with addrs := addrs }, activity := activity }
        (state.disk.dinodes inum) held) :
    (state.grown inum disk' addrs activity).Consistent := by
  have entry := consistent.entry inum
  obtain ⟨own, valid⟩ := entry.locked isLocked
  have view := inodes_of_valid valid
  have leaf : position ≠ .slot indirectSlot := by
    rintro rfl
    unfold filePosition at isPosition
    split at isPosition
    · next direct =>
        simp only [indirectSlot, Option.some.injEq, Position.slot.injEq, Fin.ext_iff,
          Fin.val_last] at isPosition
        omega
    · split at isPosition <;> simp at isPosition
  obtain ⟨bitmap, dinodes, held⟩ : disk'.bitmap = disk.bitmap ∧ disk'.dinodes = disk.dinodes ∧
      holdings disk'.blocks (Function.update state.inodes inum
        { state.inodes inum with addrs := addrs }) state.released =
      holdings disk.blocks (Function.update state.inodes inum
        { state.inodes inum with addrs := addrs }) state.released := by
    rcases written with rfl | ⟨block, rfl⟩
    · exact ⟨rfl, rfl, rfl⟩
    · exact ⟨rfl, rfl, grows.accounts.writeBlock grows.result leaf block⟩
  obtain ⟨views, releases⟩ : (state.grown inum disk' addrs activity).inodes = _ ∧
      (state.grown inum disk' addrs activity).released = _ :=
    held_grown valid whole wholeAfter (dinodes.trans grows.dinodes)
  have isHeld : (state.grown inum disk' addrs activity).held =
      holdings disk.blocks (Function.update state.inodes inum
        { state.inodes inum with addrs := addrs }) state.released := by
    rw [State.held, views, releases]
    exact held
  have kept : ∀ place, state.held place ≠ none →
      (state.grown inum disk' addrs activity).held place ≠ none := by
    intro place full
    obtain ⟨blockno, isHeldHere⟩ := Option.ne_none_iff_exists'.mp full
    rw [isHeld, grows.kept place blockno isHeldHere]
    simp
  have onDisk : (state.grown inum disk' addrs activity).disk.dinodes = state.disk.dinodes :=
    dinodes.trans grows.dinodes
  have used : disk'.isUsed = disk.isUsed := by
    funext blockno
    simp only [Disk.isUsed, bitmap]
  refine consistent.of_change inum ?_ ?_ (fun other _ place => kept (other, place)) ?_ rfl
  · intro other distinct
    exact ⟨Function.update_of_ne distinct _ _, congrFun onDisk other⟩
  · refine ⟨?_, ?_⟩
    · change Owns _ _ disk'.isUsed (state.grown inum disk' addrs activity).held
      rw [used, isHeld]
      exact grows.accounts.owns
    · intro blockno
      change _ → _ → disk'.isUsed blockno = true
      rw [used]
      exact grows.accounts.marked blockno
  · have here : (state.grown inum disk' addrs activity).icache inum =
        { state.icache inum with
          copy := { (state.icache inum).copy with addrs := addrs }, activity := activity } :=
      Function.update_self _ _ _
    rw [here, congrFun onDisk inum]
    refine ⟨entry.dropping, fun _ => ⟨own, valid⟩, entry.typed, ?_, fun _ => ?_⟩
    · apply progress _ fun place => kept (inum, place)
      rw [isHeld, grows.result]
      simp
    · have backed := entry.backed whole
      simp only [Inode.view, valid, if_true] at backed ⊢
      intro allocated notDev
      exact (backed allocated notDev).mono le_rfl fun place => kept (inum, place)

/-- The file block that holds an offset inside a file is listed. -/
theorem Consistent.listed_below_size (consistent : state.Consistent)
    (isLocked : (state.icache inum).activity ≠ .unlocked)
    (whole : (state.icache inum).activity.truncates = false)
    (notDev : (state.icache inum).copy.type ≠ .dev) {off : Nat}
    (below : off < (state.icache inum).copy.size) {position : Position}
    (isPosition : filePosition (off / BSIZE) = some position) :
    state.held (inum, position) ≠ none := by
  have entry := consistent.entry inum
  have valid := (entry.locked isLocked).2
  have backed := entry.backed whole
  simp only [Inode.view, valid, if_true] at backed
  obtain ⟨place, isPlace, full⟩ := backed (entry.typed valid).2 notDev (off / BSIZE)
    (lt_of_le_of_lt (Nat.div_mul_le_self off BSIZE) below)
  rw [isPosition] at isPlace
  exact Option.some.inj isPlace ▸ full

/-- A file block that starts before the end of the chunk at `off` starts before
`off` or holds `off`. -/
theorem block_of_chunk {off tot n bn : Nat} (below : bn * BSIZE < off + chunk off tot n) :
    bn * BSIZE < off ∨ bn = off / BSIZE := by
  have short : chunk off tot n ≤ BSIZE - off % BSIZE := Nat.min_le_right _ _
  simp only [BSIZE] at below short ⊢
  omega

theorem Consistent.readStep (consistent : state.Consistent) {off tot n : Nat}
    (activity : (state.icache inum).activity = .reading off tot n) :
    (state.readStep inum off tot n).Consistent := by
  have entry := consistent.entry inum
  have isLocked : (state.icache inum).activity ≠ .unlocked := by simp [activity]
  have whole : (state.icache inum).activity.truncates = false := by rw [activity]; rfl
  obtain ⟨synced, notDev, inside⟩ : _ ∧ _ ∧ _ := by
    simpa only [Inode.Progress, activity] using entry.progress
  unfold State.readStep
  simp only
  split
  · next more =>
      split
      · next panic failed =>
          rcases Disk.bmap_error failed with rfl | ⟨rfl, tooFar⟩
          · exact consistent.fail (by decide)
          · obtain ⟨place, isPlace, -⟩ := entry.backed whole
              (by simpa [Inode.view, (entry.locked isLocked).2] using
                (entry.typed (entry.locked isLocked).2).2)
              (by simpa [Inode.view, (entry.locked isLocked).2] using notDev) (off / BSIZE)
              (by
                simp only [Inode.view, (entry.locked isLocked).2, if_true]
                have := Nat.div_mul_le_self off BSIZE
                omega)
            simp only [MAXFILE] at tooFar
            rw [filePosition, dif_neg (by omega), dif_neg (by omega)] at isPlace
            cases isPlace
      · next addr addrs disk mapped =>
          obtain ⟨position, isPosition, grows⟩ := consistent.bmap isLocked whole mapped
          have full := consistent.listed_below_size isLocked whole notDev (by omega) isPosition
          obtain ⟨sameAddrs, -⟩ := grows.unchanged full
          rw [inodes_of_valid (entry.locked isLocked).2] at sameAddrs
          refine consistent.grown isLocked whole isPosition grows (Or.inl rfl) rfl
            fun held _ _ => ⟨?_, notDev, ?_⟩
          · simp only [sameAddrs]
            exact synced
          · have := chunk_le off tot n
            simp only
            omega
  · exact consistent.setActivity isLocked whole rfl fun _ => synced

theorem Consistent.writeStep (consistent : state.Consistent) {off tot n : Nat}
    {src : Nat → UInt8} (activity : (state.icache inum).activity = .writing off tot n src) :
    (state.writeStep inum off tot n src).Consistent := by
  have entry := consistent.entry inum
  have isLocked : (state.icache inum).activity ≠ .unlocked := by simp [activity]
  have whole : (state.icache inum).activity.truncates = false := by rw [activity]; rfl
  obtain ⟨own, valid⟩ := entry.locked isLocked
  obtain ⟨synced, notDev, started, room, backed⟩ : _ ∧ _ ∧ _ ∧ _ ∧ _ := by
    simpa only [Inode.Progress, activity] using entry.progress
  unfold State.writeStep
  simp only
  split
  · next more =>
      split
      · next panic failed =>
          rcases Disk.bmap_error failed with rfl | ⟨rfl, tooFar⟩
          · exact consistent.fail (by decide)
          · have : off / BSIZE < MAXFILE := Nat.div_lt_of_lt_mul (by rw [Nat.mul_comm]; omega)
            omega
      · next addr addrs disk mapped =>
          obtain ⟨position, isPosition, grows⟩ := consistent.bmap isLocked whole mapped
          refine consistent.grown isLocked whole isPosition grows (Or.inr ⟨_, rfl⟩) rfl
            fun held kept filled => ⟨?_, notDev, ?_, ?_, ?_⟩
          · -- inside the file `bmap` allocated nothing
            intro inside
            have positive : 0 < chunk off tot n := chunk_pos more
            simp only at inside
            have full := consistent.listed_below_size isLocked whole notDev (by omega) isPosition
            obtain ⟨sameAddrs, -⟩ := grows.unchanged full
            rw [inodes_of_valid valid] at sameAddrs
            simp only [sameAddrs]
            exact synced (by omega)
          · omega
          · have := chunk_le off tot n
            omega
          · intro bn below
            rcases block_of_chunk below with before | rfl
            · exact backed.mono le_rfl kept bn before
            · exact ⟨position, isPosition, filled⟩
  · split
    · next extended =>
        apply consistent.iupdate
        · simp [inodes_of_valid valid]
        · simp [inodes_of_valid valid]
        · rw [State.released, released_of_not_truncating whole]
          rfl
        · refine ⟨entry.dropping, fun _ => ⟨own, valid⟩, fun _ => ⟨rfl, (entry.typed valid).2⟩,
            fun _ => rfl, fun _ _ _ => ?_⟩
          simpa [Inode.view, valid] using backed
    · next notExtended =>
        refine consistent.setActivity isLocked whole rfl fun _ => synced ?_
        rw [not_and] at notExtended
        by_cases empty : n = 0
        · exact started empty
        · have := notExtended (by omega)
          omega

end State

end Coursework.FileSystem
