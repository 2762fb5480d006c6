import Coursework.DirectoryEntries
import Coursework.ReferenceTables

/-!
# The table of cached inodes

`iget` takes a reference to an inode in a table of `NINODE` entries, and panics if it needs a
vacant entry and there is none; `idup` takes one more, and `iput` drops one.  An inode without
links goes with its last reference.  The calls change references as those of a table of
references do.

All inodes are on the device `ROOTDEV`.  What an entry has of an inode, once it is valid, is what
the volume has of it.
-/

namespace Coursework.FileSystem

open References

variable {sb : Superblock}

/-- An entry of the inode cache; `locked` is its sleep lock. -/
structure CacheEntry where
  inum : Nat
  ref : Nat
  valid : Bool
  locked : Bool

/-- The volume, and the table of cached inodes. -/
structure InodeCache (sb : Superblock) where
  volume : Volume sb
  icache : Fin NINODE → CacheEntry

/-- The panics of the calls.  A lock that is held is not released while a single process runs, and
an inode number behind the inode table is not modelled. -/
inductive NamexPanic where
  | igetNoInodes
  | ilock
  | ilockNoType
  | iunlock
  | fs (panic : Panic)
  | dir (panic : DirPanic)
  | asleep
  | outside
  deriving DecidableEq

/-- A block number in an inode or in its indirect block is freed, if there is one. -/
def Disk.freeAddr (disk : Disk sb) (addr : Nat) : Except Panic (Disk sb) :=
  if addr = 0 then .ok disk else disk.bfree addr

/-- `itrunc` with the `iupdate` at its end. -/
def Volume.itrunc (volume : Volume sb) (ip : Fin sb.ninodes) : Except Panic (Volume sb) := do
  let addrs := (volume.inode ip).addrs
  let disk ← (List.finRange NDIRECT).foldlM (fun disk i => disk.freeAddr (addrs i.castSucc))
    volume.disk
  let disk ←
    if addrs indirectSlot = 0 then .ok disk
    else do
      let a := volume.disk.blocks (addrs indirectSlot)
      let disk ← (List.range NINDIRECT).foldlM (fun disk j => disk.freeAddr (Disk.word a j)) disk
      disk.bfree (addrs indirectSlot)
  let dip := { volume.inode ip with addrs := fun _ => 0, size := 0 }
  return ⟨{ disk with dinodes := Function.update disk.dinodes ip dip },
    Function.update volume.inode ip dip⟩

/-- `iupdate` with type 0. -/
def Volume.clearType (volume : Volume sb) (ip : Fin sb.ninodes) : Volume sb :=
  let dip := { volume.inode ip with type := .free }
  ⟨{ volume.disk with dinodes := Function.update volume.disk.dinodes ip dip },
    Function.update volume.inode ip dip⟩

namespace InodeCache

def setEntry (cache : InodeCache sb) (ip : Fin NINODE) (entry : CacheEntry) : InodeCache sb :=
  { cache with icache := Function.update cache.icache ip entry }

/-- The inode of an entry. -/
def number (cache : InodeCache sb) (ip : Fin NINODE) : Except NamexPanic (Fin sb.ninodes) :=
  if inside : (cache.icache ip).inum < sb.ninodes then .ok ⟨(cache.icache ip).inum, inside⟩
  else .error .outside

/-- `iget`: the entry that has the inode, or else the first vacant one. -/
def iget (cache : InodeCache sb) (inum : Nat) : Except NamexPanic (Fin NINODE × InodeCache sb) :=
  match (List.finRange NINODE).find? fun ip =>
      decide (0 < (cache.icache ip).ref ∧ (cache.icache ip).inum = inum) with
  | some ip =>
      let inode := cache.icache ip
      .ok (ip, cache.setEntry ip { inode with ref := inode.ref + 1 })
  | none =>
      match (List.finRange NINODE).find? fun ip => decide ((cache.icache ip).ref = 0) with
      | some ip =>
          let empty := cache.icache ip
          .ok (ip, cache.setEntry ip { empty with inum := inum, ref := 1, valid := false })
      | none => .error .igetNoInodes

def idup (cache : InodeCache sb) (ip : Fin NINODE) : InodeCache sb :=
  let inode := cache.icache ip
  cache.setEntry ip { inode with ref := inode.ref + 1 }

def ilock (cache : InodeCache sb) (ip : Fin NINODE) : Except NamexPanic (InodeCache sb) := do
  let inode := cache.icache ip
  if inode.ref < 1 then throw .ilock
  else if inode.locked then throw .asleep
  else if inode.valid then return cache.setEntry ip { inode with locked := true }
  else
    let inum ← cache.number ip
    if (cache.volume.inode inum).type = .free then throw .ilockNoType
    else return cache.setEntry ip { inode with valid := true, locked := true }

def iunlock (cache : InodeCache sb) (ip : Fin NINODE) : Except NamexPanic (InodeCache sb) :=
  let inode := cache.icache ip
  if inode.locked = false ∨ inode.ref < 1 then .error .iunlock
  else .ok (cache.setEntry ip { inode with locked := false })

/-- `iput`: the last reference to an inode without links frees it. -/
def iput (cache : InodeCache sb) (ip : Fin NINODE) : Except NamexPanic (InodeCache sb) := do
  let inode := cache.icache ip
  let inum ← cache.number ip
  if inode.locked then throw .asleep
  else if inode.valid ∧ (cache.volume.inode inum).nlink = 0 ∧ inode.ref = 1 then
    let volume ← (cache.volume.itrunc inum).mapError .fs
    return { cache with volume := volume.clearType inum }.setEntry ip
      { inode with valid := false, ref := inode.ref - 1 }
  else return cache.setEntry ip { inode with ref := inode.ref - 1 }

def iunlockput (cache : InodeCache sb) (ip : Fin NINODE) : Except NamexPanic (InodeCache sb) := do
  let cache ← cache.iunlock ip
  cache.iput ip

/-- The references of the entries. -/
def counts (cache : InodeCache sb) (ip : Fin NINODE) : Nat × Nat :=
  ((cache.icache ip).inum, (cache.icache ip).ref)

variable {cache : InodeCache sb} {ip : Fin NINODE}

/-! ## The calls on the table -/

theorem counts_setEntry (cache : InodeCache sb) (ip : Fin NINODE) (entry : CacheEntry) :
    (cache.setEntry ip entry).counts = Function.update cache.counts ip (entry.inum, entry.ref) := by
  funext j
  rcases eq_or_ne j ip with rfl | other
  · simp [counts, setEntry]
  · simp [counts, setEntry, Function.update_of_ne other]

@[simp]
theorem setEntry_self (cache : InodeCache sb) (ip : Fin NINODE) (entry : CacheEntry) :
    (cache.setEntry ip entry).icache ip = entry :=
  Function.update_self ..

theorem setEntry_of_ne {j : Fin NINODE} (other : j ≠ ip) (entry : CacheEntry) :
    (cache.setEntry ip entry).icache j = cache.icache j :=
  Function.update_of_ne other ..

/-- Changes of the other fields leave the references alone. -/
theorem counts_setEntry_same (cache : InodeCache sb) (ip : Fin NINODE) (valid locked : Bool) :
    (cache.setEntry ip { cache.icache ip with valid := valid, locked := locked }).counts =
      cache.counts := by
  rw [counts_setEntry]
  exact Function.update_eq_self ip cache.counts

theorem locked_setEntry {entry : CacheEntry} (same : entry.locked = (cache.icache ip).locked)
    (j : Fin NINODE) : ((cache.setEntry ip entry).icache j).locked = (cache.icache j).locked := by
  rcases eq_or_ne j ip with rfl | other
  · rw [setEntry_self, same]
  · rw [setEntry_of_ne other]

/-- `iget` takes a reference, or it panics since no entry is vacant. -/
theorem iget_spec (cache : InodeCache sb) (inum : Nat) :
    cache.iget inum = .error .igetNoInodes ∧ vacant cache.counts = 0 ∨
    ∃ ip after, cache.iget inum = .ok (ip, after) ∧ Acquires cache.counts inum ip after.counts ∧
      after.volume = cache.volume ∧
      ∀ j, (after.icache j).locked = (cache.icache j).locked := by
  unfold iget
  cases found : (List.finRange NINODE).find? fun ip =>
      decide (0 < (cache.icache ip).ref ∧ (cache.icache ip).inum = inum) with
  | some ip =>
      have passes := List.find?_some found
      obtain ⟨isLive, isInum⟩ := of_decide_eq_true passes
      refine .inr ⟨ip, _, rfl, ?_, rfl, locked_setEntry rfl⟩
      rw [counts_setEntry]
      exact .found isLive isInum
  | none =>
      have absent : ∀ j, live (cache.counts j) → (cache.counts j).1 ≠ inum := by
        intro j isLive isInum
        have passes := List.find?_eq_none.mp found j (List.mem_finRange j)
        exact passes (decide_eq_true ⟨isLive, isInum⟩)
      cases empty : (List.finRange NINODE).find? fun ip => decide ((cache.icache ip).ref = 0) with
      | some ip =>
          have isVacant := List.find?_some empty
          refine .inr ⟨ip, _, rfl, ?_, rfl, locked_setEntry rfl⟩
          rw [counts_setEntry]
          exact .recycled absent (of_decide_eq_true isVacant)
      | none =>
          refine .inl ⟨rfl, countWhere_eq_zero.mpr fun j => ?_⟩
          have passes := List.find?_eq_none.mp empty j (List.mem_finRange j)
          exact decide_eq_false fun isZero => passes (decide_eq_true isZero)

/-- Without a vacant entry, `iget` of an inode without references panics. -/
theorem iget_full {inum : Nat} (one : OneEntry cache.counts) (full : vacant cache.counts = 0)
    (absent : refs inum cache.counts = 0) : cache.iget inum = .error .igetNoInodes := by
  obtain ⟨panics, -⟩ | ⟨ip, after, -, acquires, -⟩ := cache.iget_spec inum
  · exact panics
  · generalize after.counts = table at acquires
    cases acquires with
    | found isLive isKey =>
        have count := one.refs_eq isLive
        rw [isKey, absent] at count
        exact absurd count (Nat.ne_of_lt isLive)
    | recycled _ isVacant =>
        have inUse := countWhere_eq_zero.mp full ip
        exact absurd isVacant (of_decide_eq_false inUse)

theorem ilock_spec (isLive : live (cache.counts ip)) (unlocked : (cache.icache ip).locked = false)
    {inum : Fin sb.ninodes} (isInum : cache.number ip = .ok inum)
    (allocated : (cache.volume.inode inum).type ≠ .free) :
    ∃ valid, cache.ilock ip =
      .ok (cache.setEntry ip { cache.icache ip with valid := valid, locked := true }) := by
  have positive : ¬(cache.icache ip).ref < 1 := Nat.not_lt.mpr isLive
  unfold ilock
  simp only [positive, if_false, unlocked, Bool.false_eq_true]
  cases isValid : (cache.icache ip).valid with
  | true => exact ⟨true, rfl⟩
  | false =>
      refine ⟨true, ?_⟩
      simp only [Bool.false_eq_true, if_false, isInum]
      change (if (cache.volume.inode inum).type = .free then _ else _) = _
      rw [if_neg allocated]
      rfl

/-- `iput` of a reference that is not the last one to an inode without links. -/
theorem iput_spec {inum : Fin sb.ninodes} (isInum : cache.number ip = .ok inum)
    (unlocked : (cache.icache ip).locked = false)
    (kept : (cache.volume.inode inum).nlink ≠ 0 ∨ (cache.icache ip).ref ≠ 1) :
    cache.iput ip =
      .ok (cache.setEntry ip { cache.icache ip with ref := (cache.icache ip).ref - 1 }) := by
  unfold iput
  simp only [isInum, unlocked, Bool.false_eq_true, if_false]
  change (if _ then _ else _) = _
  rw [if_neg]
  · rfl
  · rintro ⟨-, noLinks, last⟩
    exact kept.elim (fun links => links noLinks) fun more => more last

theorem iunlockput_spec {inum : Fin sb.ninodes} (isInum : cache.number ip = .ok inum)
    (isLive : live (cache.counts ip)) (isLocked : (cache.icache ip).locked = true)
    (kept : (cache.volume.inode inum).nlink ≠ 0 ∨ (cache.icache ip).ref ≠ 1) :
    cache.iunlockput ip = .ok (cache.setEntry ip
      { cache.icache ip with ref := (cache.icache ip).ref - 1, locked := false }) := by
  have positive : ¬(cache.icache ip).ref < 1 := Nat.not_lt.mpr isLive
  set released := cache.setEntry ip { cache.icache ip with locked := false } with isReleased
  have unlocks : cache.iunlock ip = .ok released := by
    unfold iunlock
    simp only [isLocked, positive, or_false, Bool.true_eq_false, if_false]
    rfl
  have here : released.icache ip = { cache.icache ip with locked := false } := setEntry_self ..
  have sameNumber : released.number ip = .ok inum := by
    unfold number at isInum ⊢
    rw [here]
    exact isInum
  have puts : released.iput ip = .ok (released.setEntry ip
      { released.icache ip with ref := (released.icache ip).ref - 1 }) :=
    iput_spec sameNumber (by rw [here]) (by rw [here]; exact kept)
  unfold iunlockput
  rw [unlocks]
  change released.iput ip = _
  rw [puts, here]
  simp only [isReleased, setEntry, Function.update_idem]

end InodeCache

end Coursework.FileSystem
