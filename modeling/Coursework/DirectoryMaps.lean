import Coursework.DirectoryEntries
import Coursework.TransitionRuns

/-!
# Directories are finite maps

Processes look up, add and remove the entries of one directory; each of them does this while it
has the directory locked, and what others do to other files in between leaves the directory as it
is.  After any run the directory is the finite map that the history of the changes tells: no name
stands twice, a name is found where it was stored last, and the first two entries are those that
`mkdir` wrote.

A name is what fits into the buffer of an entry, so two names are the same if they have the same
first `DIRSIZ` bytes.
-/

namespace Coursework.FileSystem

open CString

variable {sb : Superblock}

/-- A volume, and what was done to one of its directories, the latest change first. -/
structure DirectoryState (sb : Superblock) where
  volume : Volume sb
  log : List (SlotChange (List UInt8) Nat)

/-- What a process does while it has the directory locked, and what processes do to other files. -/
inductive DirectoryAction (sb : Superblock) where
  | dirlookup (name : List UInt8)
  | dirlink (name : List UInt8) (inum : Nat)
  | unlink (name : List UInt8) (inUse : Bool)
  | isdirempty
  | other (after : Volume sb)

namespace DirectoryState

/-- A successful call is recorded; after a panic nothing happens. -/
def step (dp : Fin sb.ninodes) (state : DirectoryState sb) :
    DirectoryAction sb → Option (DirectoryState sb)
  | .dirlookup name =>
      match state.volume.dirlookup dp name with
      | .ok (_, volume) => some { state with volume := volume }
      | .error _ => none
  | .dirlink name inum =>
      match state.volume.dirlink dp name inum with
      | .ok (none, volume) => some { state with volume := volume }
      | .ok (some off, volume) =>
          some ⟨volume, .insert (stringOf DIRSIZ name) off inum :: state.log⟩
      | .error _ => none
  | .unlink name inUse =>
      match state.volume.unlinkEntry dp name inUse with
      | .ok (none, volume) => some { state with volume := volume }
      | .ok (some _, volume) => some ⟨volume, .clear (stringOf DIRSIZ name) :: state.log⟩
      | .error _ => none
  | .isdirempty =>
      match state.volume.isdirempty dp with
      | .ok (_, volume) => some { state with volume := volume }
      | .error _ => none
  | .other after => some { state with volume := after }

end DirectoryState

/-- There is a free slot, or the directory is below its maximum size. -/
def Volume.HasRoom (volume : Volume sb) (dp : Fin sb.ninodes) : Prop :=
  direntSize * freeSlot (volume.slots dp) < MAXFILE * BSIZE

/-- Entries are for inode numbers of 16 bits, and what is done to other files leaves the
directory alone. -/
def allowedInDirectory (dp : Fin sb.ninodes) (state : DirectoryState sb) :
    DirectoryAction sb → Prop
  | .dirlink _ inum => 0 < inum ∧ inum < 2 ^ 16 ∧ state.volume.HasRoom dp
  | .other after => after.Sound ∧ (after.inode dp).type = (state.volume.inode dp).type ∧
      after.contents dp = state.volume.contents dp
  | _ => True

/-- `create` has made the directory in a parent directory. -/
def IsMadeDirectory (dp : Fin sb.ninodes) (parent : Nat) (state : DirectoryState sb) : Prop :=
  ∃ (fresh middle : Volume sb) (off off' : Nat),
    fresh.Sound ∧ (fresh.inode dp).type = .dir ∧ (fresh.inode dp).size = 0 ∧
    fresh.dirlink dp dotName dp.val = .ok (some off, middle) ∧
    middle.dirlink dp dotdotName parent = .ok (some off', state.volume) ∧
    state.log = [.insert dotdotName off' parent, .insert dotName off dp.val]

/-- What a run keeps. -/
structure DirectoryInv (dp : Fin sb.ninodes) (parent : Nat) (state : DirectoryState sb) : Prop where
  directory : state.volume.IsDirectory dp
  tracks : SlotsTrack direntSize state.log (state.volume.slots dp)
  dot : (state.volume.slots dp)[0]? = some (some (dotName, dp.val))
  dotdot : (state.volume.slots dp)[1]? = some (some (dotdotName, parent))

namespace DirectoryInv

variable {dp : Fin sb.ninodes} {parent : Nat} {state after : DirectoryState sb}

theorem stringOf_dotName : stringOf DIRSIZ dotName = dotName := by decide

theorem stringOf_dotdotName : stringOf DIRSIZ dotdotName = dotdotName := by decide

/-- The slots are those of the bytes of the directory. -/
theorem slots_congr {before after : Volume sb} (same : after.contents dp = before.contents dp) :
    after.slots dp = before.slots dp := by
  rw [Volume.slots, Volume.table, same]
  rfl

/-- Making a directory. -/
theorem of_made (isSelf : 0 < dp.val ∧ dp.val < 2 ^ 16) (isParent : 0 < parent ∧ parent < 2 ^ 16)
    (made : IsMadeDirectory dp parent state) : DirectoryInv dp parent state := by
  obtain ⟨fresh, middle, off, off', sound, isDir, isEmpty, dot, dotdot, log⟩ := made
  have directory : fresh.IsDirectory dp := ⟨sound, isDir, isEmpty ▸ Nat.dvd_zero _⟩
  have noTable : fresh.table dp = [] := by
    rw [← List.length_eq_zero_iff, Volume.IsDirectory.length_table, isEmpty, Nat.zero_div]
  have noSlots : fresh.slots dp = [] := by rw [Volume.slots, noTable, List.map_nil]
  have first := directory.dirlink dotName isSelf.1 isSelf.2 (by
    rw [noSlots]
    decide)
  rw [dot, noSlots, stringOf_dotName] at first
  obtain ⟨isFirst, directory', slots, -⟩ := first
  have second := directory'.dirlink dotdotName isParent.1 isParent.2 (by
    rw [slots]
    change direntSize * 1 < MAXFILE * BSIZE
    decide)
  rw [dotdot, slots, stringOf_dotdotName] at second
  obtain ⟨isSecond, directory'', slots', -⟩ := second
  cases isFirst
  cases isSecond
  have nothing : SlotsTrack direntSize ([] : List (SlotChange (List UInt8) Nat)) [] := .nil
  have self := nothing.insert (rfl : slotLookup dotName _ = none) dp.val
  have both := self.insert (rfl : slotLookup dotdotName _ = none) parent
  refine ⟨directory'', ?_, ?_, ?_⟩
  · rw [slots', log]
    exact both
  · rw [slots']
    rfl
  · rw [slots']
    rfl

/-- What `dirlink` does if it returns. -/
theorem dirlink_cases (inv : DirectoryInv dp parent state) {name : List UInt8} {inum : Nat}
    (used : 0 < inum) (isShort : inum < 2 ^ 16) (room : state.volume.HasRoom dp)
    {result : Option Nat × Volume sb} (links : state.volume.dirlink dp name inum = .ok result) :
    (latest (stringOf DIRSIZ name) state.log ≠ none ∧ result = (none, state.volume)) ∨
      (latest (stringOf DIRSIZ name) state.log = none ∧
        result.1 = some (direntSize * freeSlot (state.volume.slots dp)) ∧
        result.2.slots dp = slotInsert (stringOf DIRSIZ name, inum) (state.volume.slots dp) ∧
        DirectoryInv dp parent ⟨result.2, .insert (stringOf DIRSIZ name)
          (direntSize * freeSlot (state.volume.slots dp)) inum :: state.log⟩) := by
  have spec := inv.directory.dirlink name used isShort room
  rw [links] at spec
  simp only [Outcome] at spec
  by_cases absent : slotLookup (stringOf DIRSIZ name) (state.volume.slots dp) = none
  · rw [if_pos absent] at spec
    obtain ⟨isOff, directory, slots, -⟩ := spec
    refine .inr ⟨inv.tracks.absent_iff.mp absent, isOff, slots, directory, ?_, ?_, ?_⟩
    · exact slots ▸ inv.tracks.insert absent inum
    · exact slots ▸ getElem?_insert_taken inv.dot
    · exact slots ▸ getElem?_insert_taken inv.dotdot
  · rw [if_neg absent] at spec
    exact .inl ⟨fun none => absent (inv.tracks.absent_iff.mpr none), spec⟩

/-- A slot in use that has another name than the one that is removed. -/
theorem kept {slots : List (Option (List UInt8 × Nat))} {name other : List UInt8}
    {i j target target' : Nat} (here : slots[i]? = some (some (name, target)))
    (there : slots[j]? = some (some (other, target'))) (distinct : name ≠ other) :
    (slots.set j none)[i]? = some (some (name, target)) := by
  rw [List.getElem?_set_ne, here]
  rintro rfl
  rw [here] at there
  cases there
  exact distinct rfl

/-- What the removal of `sys_unlink` does. -/
theorem unlink_cases (inv : DirectoryInv dp parent state) (name : List UInt8) (inUse : Bool) :
    ∃ result, state.volume.unlinkEntry dp name inUse = .ok result ∧
      (((latest (stringOf DIRSIZ name) state.log = none ∨ stringOf DIRSIZ name = dotName ∨
          stringOf DIRSIZ name = dotdotName ∨ inUse = true) ∧ result = (none, state.volume)) ∨
        ((stringOf DIRSIZ name ≠ dotName ∧ stringOf DIRSIZ name ≠ dotdotName ∧ inUse ≠ true) ∧
          ∃ index inum,
            latest (stringOf DIRSIZ name) state.log = some (direntSize * index, inum) ∧
            result.1 = some (direntSize * index) ∧
            result.2.slots dp = (state.volume.slots dp).set index none ∧
            DirectoryInv dp parent ⟨result.2, .clear (stringOf DIRSIZ name) :: state.log⟩)) := by
  obtain ⟨result, unlinks, spec⟩ := inv.directory.unlinkEntry name inUse
  refine ⟨result, unlinks, ?_⟩
  cases found : slotLookup (stringOf DIRSIZ name) (state.volume.slots dp) with
  | none =>
      simp only [found] at spec
      exact .inl ⟨.inl (inv.tracks.absent_iff.mp found), spec⟩
  | some entry =>
      obtain ⟨index, inum⟩ := entry
      simp only [found] at spec
      split at spec
      · next refused => exact .inl ⟨.inr refused, spec⟩
      · next accepted =>
          rw [not_or, not_or] at accepted
          obtain ⟨isOff, directory, slots, -⟩ := spec
          have there := slotLookup_get found
          have isLatest := inv.tracks.lookup (stringOf DIRSIZ name)
          rw [found] at isLatest
          refine .inr ⟨accepted, index, inum, isLatest.symm, isOff, slots, directory, ?_, ?_, ?_⟩
          · exact slots ▸ inv.tracks.clear found
          · exact slots ▸ kept inv.dot there (Ne.symm accepted.1)
          · exact slots ▸ kept inv.dotdot there (Ne.symm accepted.2.1)

theorem step (inv : DirectoryInv dp parent state) {action : DirectoryAction sb}
    (allowed : allowedInDirectory dp state action) (taken : state.step dp action = some after) :
    DirectoryInv dp parent after := by
  cases action with
  | dirlookup name =>
      simp only [DirectoryState.step, inv.directory.dirlookup] at taken
      cases taken
      exact inv
  | dirlink name inum =>
      obtain ⟨used, isShort, room⟩ := allowed
      simp only [DirectoryState.step] at taken
      cases links : state.volume.dirlink dp name inum with
      | error panic =>
          rw [links] at taken
          cases taken
      | ok result =>
          rw [links] at taken
          rcases inv.dirlink_cases used isShort room links with
            ⟨-, rfl⟩ | ⟨-, isOff, -, inserted⟩
          · cases taken
            exact inv
          · obtain ⟨off, volume⟩ := result
            cases isOff
            cases taken
            exact inserted
  | unlink name inUse =>
      obtain ⟨result, unlinks, cases⟩ := inv.unlink_cases name inUse
      simp only [DirectoryState.step, unlinks] at taken
      rcases cases with ⟨-, rfl⟩ | ⟨-, index, inum, -, isOff, -, cleared⟩
      · cases taken
        exact inv
      · obtain ⟨off, volume⟩ := result
        cases isOff
        cases taken
        exact cleared
  | isdirempty =>
      simp only [DirectoryState.step, inv.directory.isdirempty] at taken
      cases taken
      exact inv
  | other volume =>
      obtain ⟨sound, type, same⟩ := allowed
      cases taken
      have size : (volume.inode dp).size = (state.volume.inode dp).size := by
        rw [← Volume.length_contents, same, Volume.length_contents]
      have slots := slots_congr same
      refine ⟨⟨sound, type.trans inv.directory.isDir, size ▸ inv.directory.aligned⟩, ?_, ?_, ?_⟩
      · exact slots ▸ inv.tracks
      · exact slots ▸ inv.dot
      · exact slots ▸ inv.dotdot

theorem of_run (isSelf : 0 < dp.val ∧ dp.val < 2 ^ 16) (isParent : 0 < parent ∧ parent < 2 ^ 16)
    (run : Run (DirectoryState.step dp) (allowedInDirectory dp) (IsMadeDirectory dp parent) state) :
    DirectoryInv dp parent state :=
  run.invariant (fun _ made => of_made isSelf isParent made)
    fun _ _ _ inv allowed taken => inv.step allowed taken

end DirectoryInv

/-- The volume after `dirlink`. -/
def linked (volume : Volume smallSuperblock) (name : List UInt8) : Volume smallSuperblock :=
  match volume.dirlink firstInum name 1 with
  | .ok (_, volume) => volume
  | .error _ => volume

end Coursework.FileSystem
