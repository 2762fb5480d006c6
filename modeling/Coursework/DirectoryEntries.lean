import Coursework.CStrings
import Coursework.FileRefinement
import Coursework.LittleEndian
import Coursework.SlotMaps

/-!
# Directory entries

A directory is a file of entries, each an inode number and a buffer with a name.  The loops
of `dirlookup`, `dirlink` and `isdirempty` read the entries one after the other until they
come to one that they look for.  On a directory that keeps the block invariants they find the
first such entry of the table that the bytes of the directory spell, and writing an entry
changes one place of this table or adds one at its end.
-/

namespace Coursework.FileSystem

open CString

variable {sb : Superblock}

/-- `sizeof(struct dirent)`. -/
def direntSize : Nat := 2 + DIRSIZ

structure Dirent where
  inum : Nat
  name : List UInt8
  deriving DecidableEq

namespace Dirent

def ofBytes (bytes : List UInt8) : Dirent where
  inum := LittleEndian.ofBytes (bytes.take 2)
  name := bytes.drop 2

def toBytes (de : Dirent) : List UInt8 := LittleEndian.toBytes 2 de.inum ++ de.name

/-- An entry full of zero bytes. -/
def blank : Dirent where
  inum := 0
  name := List.replicate DIRSIZ 0

end Dirent

def namecmp (s t : List UInt8) : Int := strncmp DIRSIZ s t

/-- The entry is in use and has this name. -/
def isNamed (name : List UInt8) (de : Dirent) : Bool :=
  decide (de.inum ≠ 0) && decide (namecmp name de.name = 0)

inductive DirPanic where
  | fs (panic : Panic)
  | dirlookupNotDir
  | dirlookupRead
  | dirlinkRead
  | dirlink
  | isdirempty
  | unlinkWritei
  deriving DecidableEq

def dotName : List UInt8 := [46]

def dotdotName : List UInt8 := [46, 46]

namespace Volume

/-- The loop over the entries of a directory of some size: the entry where it stops, the offset
that it has reached, and what `readi` leaves. -/
def scanEntries (volume : Volume sb) (dp : Fin sb.ninodes) (size : Nat) (unread : DirPanic)
    (stops : Dirent → Bool) (off : Nat) : Except DirPanic (Option Dirent × Nat × Volume sb) :=
  if _ : off < size then do
    let (read, volume) ←
      (volume.readi dp (UInt32.ofNat off) (UInt32.ofNat direntSize)).mapError .fs
    let bytes := read.getD []
    if bytes.length ≠ direntSize then throw unread
    else
      let de := Dirent.ofBytes bytes
      if stops de then return (some de, off, volume)
      else scanEntries volume dp size unread stops (off + direntSize)
  else return (none, off, volume)
termination_by size - off
decreasing_by
  simp only [direntSize, DIRSIZ]
  omega

/-- `dirlookup` up to its call of `iget`: the inode number and the offset of the entry. -/
def dirlookup (volume : Volume sb) (dp : Fin sb.ninodes) (name : List UInt8) :
    Except DirPanic (Option (Nat × Nat) × Volume sb) :=
  if (volume.inode dp).type ≠ .dir then .error .dirlookupNotDir
  else do
    let (found, off, volume) ←
      volume.scanEntries dp (volume.inode dp).size .dirlookupRead (isNamed name) 0
    return (found.map fun de => (de.inum, off), volume)

/-- Write an entry; the panic is for a write that fails. -/
def writeEntry (volume : Volume sb) (dp : Fin sb.ninodes) (off : Nat) (de : Dirent)
    (unwritten : DirPanic) : Except DirPanic (Volume sb) := do
  let (written, volume) ← (volume.writei dp (UInt32.ofNat off) (UInt32.ofNat direntSize)
    fun i => de.toBytes.getD i 0).mapError .fs
  if written ≠ direntSize then throw unwritten else return volume

/-- `dirlink`: the offset of the new entry, or nothing if it fails. -/
def dirlink (volume : Volume sb) (dp : Fin sb.ninodes) (name : List UInt8) (inum : Nat) :
    Except DirPanic (Option Nat × Volume sb) := do
  let (found, volume) ← volume.dirlookup dp name
  if found.isSome then return (none, volume)
  else
    let (_, off, volume) ← volume.scanEntries dp (volume.inode dp).size .dirlinkRead
      (fun de => decide (de.inum = 0)) 0
    let volume ← volume.writeEntry dp off ⟨inum % 2 ^ 16, strncpy DIRSIZ name⟩ .dirlink
    return (some off, volume)

def isdirempty (volume : Volume sb) (dp : Fin sb.ninodes) :
    Except DirPanic (Bool × Volume sb) := do
  let (found, _, volume) ← volume.scanEntries dp (volume.inode dp).size .isdirempty
    (fun de => decide (de.inum ≠ 0)) (2 * direntSize)
  return (found.isNone, volume)

/-- `sys_unlink` while it has the directory locked: the offset of the entry that it removes, or
nothing if it fails.  It can find that the inode is a directory in use. -/
def unlinkEntry (volume : Volume sb) (dp : Fin sb.ninodes) (name : List UInt8) (inUse : Bool) :
    Except DirPanic (Option Nat × Volume sb) :=
  if namecmp name dotName = 0 ∨ namecmp name dotdotName = 0 then .ok (none, volume)
  else do
    let (found, volume) ← volume.dirlookup dp name
    match found with
    | none => return (none, volume)
    | some (_, off) =>
        if inUse then return (none, volume)
        else
          let volume ← volume.writeEntry dp off .blank .unlinkWritei
          return (some off, volume)

end Volume

/-! ## Tables of entries -/

/-- An entry by its number. -/
def slot (content : List UInt8) (k : Nat) : Dirent :=
  .ofBytes ((content.drop (direntSize * k)).take direntSize)

/-- The entries of a directory. -/
def entries (content : List UInt8) : List Dirent :=
  (List.range (content.length / direntSize)).map (slot content)

/-- The first entry with a name: its inode number and its offset. -/
def lookup (table : List Dirent) (name : List UInt8) : Option (Nat × Nat) :=
  (table.find? (isNamed name)).map fun de =>
    (de.inum, direntSize * table.findIdx (isNamed name))

/-- The table with an entry at a place, or at its end. -/
def put (table : List Dirent) (k : Nat) (de : Dirent) : List Dirent :=
  table.take k ++ de :: table.drop (k + 1)

theorem namecmp_eq_zero_iff (s t : List UInt8) :
    namecmp s t = 0 ↔ stringOf DIRSIZ s = stringOf DIRSIZ t :=
  strncmp_eq_zero_iff ..

theorem isNamed_iff {name : List UInt8} {de : Dirent} :
    isNamed name de = true ↔ de.inum ≠ 0 ∧ stringOf DIRSIZ name = stringOf DIRSIZ de.name := by
  simp only [isNamed, Bool.and_eq_true, decide_eq_true_eq, namecmp_eq_zero_iff]

theorem direntSize_pos : 0 < direntSize := by decide

theorem Dirent.length_toBytes {de : Dirent} (isBuffer : de.name.length = DIRSIZ) :
    de.toBytes.length = direntSize := by
  rw [toBytes, List.length_append, LittleEndian.length_toBytes, isBuffer, direntSize]

theorem Dirent.ofBytes_toBytes {de : Dirent} (isShort : de.inum < 2 ^ 16) :
    ofBytes de.toBytes = de := by
  have start : (LittleEndian.toBytes 2 de.inum).length = 2 := LittleEndian.length_toBytes ..
  unfold ofBytes toBytes
  rw [List.take_append_of_le_length start.ge, List.take_of_length_le start.le,
    LittleEndian.ofBytes_toBytes, Nat.mod_eq_of_lt (by simpa using isShort), List.drop_append_of_le_length start.ge,
    List.drop_of_length_le start.le, List.nil_append]

section Tables

variable {content : List UInt8} {table : List Dirent} {k : Nat} {de : Dirent}

@[simp]
theorem length_entries (content : List UInt8) :
    (entries content).length = content.length / direntSize := by
  simp [entries]

theorem getElem?_entries (content : List UInt8) (i : Nat) : (entries content)[i]? =
    if i < content.length / direntSize then some (slot content i) else none := by
  unfold entries
  split
  · next inside => rw [List.getElem?_map, List.getElem?_range inside, Option.map_some]
  · next outside =>
      rw [List.getElem?_eq_none]
      simpa using outside

theorem getElem?_put (inside : k ≤ table.length) (i : Nat) :
    (put table k de)[i]? = if i = k then some de else table[i]? := by
  have start : (table.take k).length = k := List.length_take_of_le inside
  unfold put
  rcases Nat.lt_trichotomy i k with before | rfl | after
  · rw [List.getElem?_append_left (by omega), List.getElem?_take_of_lt before,
      if_neg (Nat.ne_of_lt before)]
  · rw [List.getElem?_append_right start.le, start, Nat.sub_self, if_pos rfl,
      List.getElem?_cons_zero]
  · obtain ⟨j, rfl⟩ := Nat.exists_eq_add_of_lt after
    rw [List.getElem?_append_right (by omega), start, if_neg (Nat.ne_of_gt after),
      show k + j + 1 - k = j + 1 by omega, List.getElem?_cons_succ, List.getElem?_drop]
    congr 1
    omega

/-- Entries that have the same bytes. -/
theorem slot_congr {content' : List UInt8} {i : Nat}
    (same : ∀ j < direntSize, content'[direntSize * i + j]? = content[direntSize * i + j]?) :
    slot content' i = slot content i := by
  unfold slot
  congr 1
  apply List.ext_getElem?
  intro j
  rw [List.getElem?_take, List.getElem?_take, List.getElem?_drop, List.getElem?_drop]
  split
  · next inside => exact same j inside
  · rfl

/-- Writing the bytes of an entry puts it into the table. -/
theorem entries_splice (aligned : direntSize ∣ content.length)
    (inside : k ≤ content.length / direntSize) (isBuffer : de.name.length = DIRSIZ)
    (isShort : de.inum < 2 ^ 16) :
    entries (splice content (direntSize * k) de.toBytes) = put (entries content) k de := by
  obtain ⟨count, isCount⟩ := aligned
  have positive := direntSize_pos
  have isLength := Dirent.length_toBytes isBuffer
  rw [isCount, Nat.mul_div_cancel_left _ positive] at inside
  have within : direntSize * k ≤ content.length := by
    rw [isCount]
    exact Nat.mul_le_mul_left _ inside
  have length : (splice content (direntSize * k) de.toBytes).length =
      direntSize * max count (k + 1) := by
    rw [length_splice within, isLength, isCount, ← Nat.mul_succ]
    exact (Nat.mul_max_mul_left ..).symm ▸ rfl
  apply List.ext_getElem?
  intro i
  rw [getElem?_put (by rw [length_entries, isCount, Nat.mul_div_cancel_left _ positive]; exact inside),
    getElem?_entries, getElem?_entries, length, isCount, Nat.mul_div_cancel_left _ positive,
    Nat.mul_div_cancel_left _ positive]
  by_cases here : i = k
  · subst here
    rw [if_pos (by omega), if_pos rfl]
    congr 1
    have isBytes : ((splice content (direntSize * i) de.toBytes).drop (direntSize * i)).take
        direntSize = de.toBytes := by
      have start : (content.take (direntSize * i)).length = direntSize * i :=
        List.length_take_of_le within
      rw [splice, List.append_assoc, List.drop_append_of_le_length start.ge,
        List.drop_of_length_le start.le, List.nil_append,
        List.take_append_of_le_length isLength.ge, List.take_of_length_le isLength.le]
    rw [slot, isBytes, Dirent.ofBytes_toBytes isShort]
  · rw [if_neg here]
    by_cases old : i < count
    · rw [if_pos (by omega), if_pos old]
      congr 1
      apply slot_congr
      intro j less
      rw [getElem?_splice within, if_neg]
      rw [isLength]
      rintro ⟨lower, upper⟩
      rw [← Nat.mul_succ] at upper
      rcases Nat.lt_or_gt_of_ne here with before | after
      · have := Nat.mul_le_mul_left direntSize before
        rw [Nat.mul_succ] at this
        omega
      · have := Nat.mul_le_mul_left direntSize after
        omega
    · rw [if_neg (by omega), if_neg old]

/-! ## Slots -/

/-- The slot that an entry is: its name, as far as the buffer holds it, and its inode number. -/
def Dirent.slot (de : Dirent) : Option (List UInt8 × Nat) :=
  if de.inum = 0 then none else some (stringOf DIRSIZ de.name, de.inum)

theorem slotLookup_table (table : List Dirent) (name : List UInt8) :
    slotLookup (stringOf DIRSIZ name) (table.map Dirent.slot) =
      (table.find? (isNamed name)).map fun de => (table.findIdx (isNamed name), de.inum) := by
  induction table with
  | nil => rfl
  | cons de rest ih =>
      rw [List.map_cons, List.find?_cons, List.findIdx_cons]
      by_cases free : de.inum = 0
      · have passes : isNamed name de = false := by simp [isNamed, free]
        rw [Dirent.slot, if_pos free, slotLookup, ih, passes]
        simp [Option.map_map, Function.comp_def]
      · rw [Dirent.slot, if_neg free, slotLookup]
        by_cases same : stringOf DIRSIZ name = stringOf DIRSIZ de.name
        · have stops : isNamed name de = true := isNamed_iff.mpr ⟨free, same⟩
          rw [if_pos same.symm, stops]
          rfl
        · have passes : isNamed name de = false := by
            rw [Bool.eq_false_iff]
            exact fun stops => same (isNamed_iff.mp stops).2
          rw [if_neg (Ne.symm same), ih, passes]
          simp [Option.map_map, Function.comp_def]

theorem freeSlot_table (table : List Dirent) :
    freeSlot (table.map Dirent.slot) = table.findIdx fun de => decide (de.inum = 0) := by
  induction table with
  | nil => rfl
  | cons de rest ih =>
      rw [List.map_cons, freeSlot, List.findIdx_cons, List.findIdx_cons]
      rw [freeSlot] at ih
      by_cases free : de.inum = 0 <;> simp [Dirent.slot, free, ih]

theorem map_put (inside : k ≤ table.length) (i : Nat) :
    ((put table k de).map Dirent.slot)[i]? =
      if i = k then some de.slot else (table.map Dirent.slot)[i]? := by
  rw [List.getElem?_map, getElem?_put inside, List.getElem?_map]
  split <;> rfl

/-- A new entry is inserted. -/
theorem map_put_free (used : de.inum ≠ 0) :
    (put table (table.findIdx fun de => decide (de.inum = 0)) de).map Dirent.slot =
      slotInsert (stringOf DIRSIZ de.name, de.inum) (table.map Dirent.slot) := by
  apply List.ext_getElem?
  intro i
  rw [map_put List.findIdx_le_length, getElem?_slotInsert, freeSlot_table, Dirent.slot,
    if_neg used]

/-- A blank entry frees the slot. -/
theorem map_put_blank (inside : k < table.length) :
    (put table k .blank).map Dirent.slot = (table.map Dirent.slot).set k none := by
  apply List.ext_getElem?
  intro i
  rw [map_put (Nat.le_of_lt inside), List.getElem?_set, List.length_map]
  by_cases here : k = i
  · subst here
    rw [if_pos rfl, if_pos rfl, if_pos inside]
    rfl
  · rw [if_neg (Ne.symm here), if_neg here]

end Tables

/-! ## The loops on a directory -/

namespace Volume

variable {volume : Volume sb} {dp : Fin sb.ninodes}

/-- The entries of a directory. -/
def table (volume : Volume sb) (dp : Fin sb.ninodes) : List Dirent :=
  entries (volume.contents dp)

/-- The slots of a directory. -/
def slots (volume : Volume sb) (dp : Fin sb.ninodes) : List (Option (List UInt8 × Nat)) :=
  (volume.table dp).map Dirent.slot

/-- The entries that `readi` returns one after the other. -/
def ReadsEntries (volume : Volume sb) (dp : Fin sb.ninodes) (table : List Dirent) : Prop :=
  ∀ k de, table[k]? = some de → ∃ bytes,
    volume.readi dp (UInt32.ofNat (direntSize * k)) (UInt32.ofNat direntSize) =
      .ok (some bytes, volume) ∧
    bytes.length = direntSize ∧ Dirent.ofBytes bytes = de

/-- A loop stops at the first entry that it looks for, or comes to the end of these entries. -/
theorem ReadsEntries.scanEntries {table : List Dirent} (reads : volume.ReadsEntries dp table)
    {size : Nat} (inside : direntSize * table.length ≤ size) (unread : DirPanic)
    (stops : Dirent → Bool) {k : Nat} (below : k ≤ table.length) :
    volume.scanEntries dp size unread stops (direntSize * k) =
      match (table.drop k).find? stops with
      | some de => .ok (some de, direntSize * (k + (table.drop k).findIdx stops), volume)
      | none => volume.scanEntries dp size unread stops (direntSize * table.length) := by
  induction left : table.length - k generalizing k with
  | zero =>
      obtain rfl : k = table.length := by omega
      rw [List.drop_length]
      rfl
  | succ left ih =>
      have here : k < table.length := by omega
      have within := Nat.mul_le_mul_left direntSize (Nat.succ_le_of_lt here)
      have positive := direntSize_pos
      rw [Nat.mul_succ] at within
      obtain ⟨bytes, isRead, isLength, isEntry⟩ := reads k table[k] (List.getElem?_eq_getElem here)
      rw [Volume.scanEntries, dif_pos (by omega), isRead, List.drop_eq_getElem_cons here,
        List.find?_cons, List.findIdx_cons]
      simp only [Except.mapError, ok_bind, Option.getD_some, isLength, ne_eq, not_true_eq_false,
        if_false, isEntry]
      cases isStop : stops table[k] with
      | true => rfl
      | false =>
          rw [if_neg Bool.false_ne_true, ← Nat.mul_succ, ih here (by omega)]
          simp only [cond_false, Nat.succ_eq_add_one]
          rw [Nat.add_assoc, Nat.add_comm 1]

/-- A directory of whole entries on a volume that keeps the block invariants. -/
structure IsDirectory (volume : Volume sb) (dp : Fin sb.ninodes) : Prop where
  sound : volume.Sound
  isDir : (volume.inode dp).type = .dir
  aligned : direntSize ∣ (volume.inode dp).size

namespace IsDirectory

theorem length_table (volume : Volume sb) (dp : Fin sb.ninodes) :
    (volume.table dp).length = (volume.inode dp).size / direntSize := by
  rw [table, length_entries, length_contents]

theorem size_eq (directory : volume.IsDirectory dp) :
    (volume.inode dp).size = direntSize * (volume.table dp).length := by
  rw [length_table, Nat.mul_div_cancel' directory.aligned]

theorem size_le (directory : volume.IsDirectory dp) :
    direntSize * (volume.table dp).length ≤ MAXFILE * BSIZE := by
  rw [← directory.size_eq]
  exact directory.sound.size_le (.inr directory.isDir)

theorem toNat_offset (directory : volume.IsDirectory dp) {k : Nat}
    (inside : k ≤ (volume.table dp).length) :
    (UInt32.ofNat (direntSize * k)).toNat = direntSize * k := by
  have small := (Nat.mul_le_mul_left direntSize inside).trans directory.size_le
  rw [UInt32.toNat_ofNat']
  refine Nat.mod_eq_of_lt (lt_of_le_of_lt small ?_)
  decide

/-- An entry is read. -/
theorem readi (directory : volume.IsDirectory dp) {k : Nat}
    (inside : k < (volume.table dp).length) :
    volume.readi dp (UInt32.ofNat (direntSize * k)) (UInt32.ofNat direntSize) =
      .ok (some (((volume.contents dp).drop (direntSize * k)).take direntSize), volume) := by
  have size := directory.size_eq
  have small := directory.size_le
  have within := Nat.mul_le_mul_left direntSize (Nat.succ_le_of_lt inside)
  rw [Nat.mul_succ] at within
  have isSize : (UInt32.ofNat direntSize).toNat = direntSize := by decide
  rw [readi_spec directory.sound (.inr directory.isDir), ByteFile.read,
    directory.toNat_offset (Nat.le_of_lt inside), isSize, length_contents, if_pos]
  have limit : MAXFILE * BSIZE < 2 ^ 32 := by decide
  omega

theorem reads (directory : volume.IsDirectory dp) :
    volume.ReadsEntries dp (volume.table dp) := by
  intro k de isEntry
  have size := directory.size_eq
  obtain ⟨inside, -⟩ := List.getElem?_eq_some_iff.mp isEntry
  have within := Nat.mul_le_mul_left direntSize (Nat.succ_le_of_lt inside)
  rw [Nat.mul_succ] at within
  refine ⟨_, directory.readi inside, ?_, ?_⟩
  · rw [List.length_take, List.length_drop, length_contents]
    omega
  · rw [table, getElem?_entries, if_pos (by rwa [table, length_entries] at inside)] at isEntry
    exact Option.some.inj isEntry

/-- A loop over the entries stops at the first one that it looks for. -/
theorem scanEntries (directory : volume.IsDirectory dp) (unread : DirPanic)
    (stops : Dirent → Bool) (k : Nat) :
    volume.scanEntries dp (volume.inode dp).size unread stops (direntSize * k) =
      .ok (((volume.table dp).drop k).find? stops,
        direntSize * (k + ((volume.table dp).drop k).findIdx stops), volume) := by
  have size := directory.size_eq
  have ends : ∀ k, (volume.table dp).length ≤ k →
      volume.scanEntries dp (volume.inode dp).size unread stops (direntSize * k) =
        .ok (none, direntSize * k, volume) := by
    intro k beyond
    have above := Nat.mul_le_mul_left direntSize beyond
    rw [Volume.scanEntries, dif_neg (by omega)]
    rfl
  rcases Nat.le_total k (volume.table dp).length with below | beyond
  · rw [directory.reads.scanEntries size.ge unread stops below]
    cases found : ((volume.table dp).drop k).find? stops with
    | some de => rfl
    | none =>
        have passes : ((volume.table dp).drop k).findIdx stops = (volume.table dp).length - k := by
          rw [List.findIdx_eq_length_of_false, List.length_drop]
          intro de member
          exact Bool.eq_false_iff.mpr (List.find?_eq_none.mp found de member)
        rw [passes, Nat.add_sub_cancel' below]
        exact ends _ (Nat.le_refl _)
  · rw [ends k beyond, List.drop_of_length_le beyond]
    rfl

theorem dirlookup (directory : volume.IsDirectory dp) (name : List UInt8) :
    volume.dirlookup dp name =
      .ok ((slotLookup (stringOf DIRSIZ name) (volume.slots dp)).map fun found =>
        (found.2, direntSize * found.1), volume) := by
  have scans := directory.scanEntries .dirlookupRead (isNamed name) 0
  rw [Nat.mul_zero, Nat.zero_add, List.drop_zero] at scans
  rw [Volume.dirlookup, if_neg (by simp [directory.isDir]), scans, slots, slotLookup_table]
  simp [Option.map_map, Function.comp_def]

/-- `isdirempty` looks at the slots from the third on. -/
theorem isdirempty (directory : volume.IsDirectory dp) :
    volume.isdirempty dp = .ok (((volume.slots dp).drop 2).all (·.isNone), volume) := by
  have scans := directory.scanEntries .isdirempty (fun de => decide (de.inum ≠ 0)) 2
  rw [Nat.mul_comm] at scans
  have free : ∀ de : Dirent, de.slot.isNone = !decide (de.inum ≠ 0) := by
    intro de
    by_cases unused : de.inum = 0 <;> simp [Dirent.slot, unused]
  have all : (((volume.table dp).drop 2).find? fun de => decide (de.inum ≠ 0)).isNone =
      ((volume.table dp).drop 2).all fun de => de.slot.isNone := by
    rw [Bool.eq_iff_iff, Option.isNone_iff_eq_none, List.find?_eq_none, List.all_eq_true]
    simp only [free, Bool.not_eq_true, Bool.not_eq_eq_eq_not, Bool.not_true]
  rw [Volume.isdirempty, scans, slots, ← List.map_drop, List.all_map]
  exact congrArg (fun found => Except.ok (found, volume)) all

/-- An entry is written, unless the directory grows and the disk is full. -/
theorem writeEntry (directory : volume.IsDirectory dp) {k : Nat} (de : Dirent)
    (inside : k ≤ (volume.table dp).length) (room : direntSize * k < MAXFILE * BSIZE)
    (isBuffer : de.name.length = DIRSIZ) (isShort : de.inum < 2 ^ 16) (unwritten : DirPanic) :
    Outcome (fun panic => panic = .fs .outOfBlocks ∧ k = (volume.table dp).length)
      (fun after => after.IsDirectory dp ∧ after.table dp = put (volume.table dp) k de ∧
        SameOthers dp volume after)
      (volume.writeEntry dp (direntSize * k) de unwritten) := by
  have size := directory.size_eq
  have offset := directory.toNat_offset inside
  have isSize : (UInt32.ofNat direntSize).toNat = direntSize := by decide
  have wholeEntries : MAXFILE * BSIZE = direntSize * 4480 := by decide
  have fits : direntSize * k + direntSize ≤ MAXFILE * BSIZE := by
    rw [wholeEntries] at room ⊢
    exact Nat.mul_le_mul_left direntSize (Nat.lt_of_mul_lt_mul_left room)
  have within : direntSize * k ≤ (volume.contents dp).length := by
    rw [length_contents, size]
    exact Nat.mul_le_mul_left direntSize inside
  have limit : MAXFILE * BSIZE < 2 ^ 32 := by decide
  have bytes : ((List.range direntSize).map fun i => de.toBytes.getD i 0) = de.toBytes := by
    have isLength := Dirent.length_toBytes isBuffer
    apply List.ext_getElem
    · rw [List.length_map, List.length_range, isLength]
    · intro i below below'
      rw [List.getElem_map, List.getElem_range, List.getD_eq_getElem _ _ below']
  have spec := writei_spec directory.sound (.inr directory.isDir)
    (UInt32.ofNat (direntSize * k)) (UInt32.ofNat direntSize) fun i => de.toBytes.getD i 0
  rw [offset, isSize, ByteFile.write, offset, isSize, bytes,
    if_pos ⟨within, by omega, fits⟩] at spec
  unfold Volume.writeEntry
  refine Outcome.bind (spec.mapError fun panic failed => ⟨congrArg DirPanic.fs failed.1, ?_⟩) ?_
  · obtain ⟨-, -, grows, -⟩ := failed
    rw [size, ← Nat.mul_succ] at grows
    have above := Nat.lt_of_mul_lt_mul_left grows
    omega
  · rintro ⟨written, after⟩ ⟨result, sound, same, -⟩
    obtain ⟨rfl, contents⟩ := Prod.mk.inj result
    simp only [ne_eq, not_true_eq_false, if_false]
    have length := length_contents after dp
    have aligned : direntSize ∣ (volume.contents dp).length := by
      rw [length_contents]
      exact directory.aligned
    refine ⟨⟨sound, same.type.trans directory.isDir, ?_⟩, ?_, same⟩
    · rw [← length, contents, length_splice within, Dirent.length_toBytes isBuffer, ← Nat.mul_succ]
      rcases Nat.le_total (volume.contents dp).length (direntSize * (k + 1)) with less | less
      · rw [Nat.max_eq_right less]
        exact Nat.dvd_mul_right ..
      · rwa [Nat.max_eq_left less]
    · rw [table, contents]
      apply entries_splice aligned _ isBuffer isShort
      rwa [table, length_entries] at inside

/-- `dirlink` fails on a name that is present.  Otherwise it inserts the entry, unless the disk is
full. -/
theorem dirlink (directory : volume.IsDirectory dp) (name : List UInt8) {inum : Nat}
    (used : 0 < inum) (isShort : inum < 2 ^ 16)
    (room : direntSize * freeSlot (volume.slots dp) < MAXFILE * BSIZE) :
    Outcome (fun panic => panic = .fs .outOfBlocks ∧
        freeSlot (volume.slots dp) = (volume.slots dp).length)
      (fun result =>
        if slotLookup (stringOf DIRSIZ name) (volume.slots dp) = none then
          result.1 = some (direntSize * freeSlot (volume.slots dp)) ∧ result.2.IsDirectory dp ∧
            result.2.slots dp =
              slotInsert (stringOf DIRSIZ name, inum) (volume.slots dp) ∧
            SameOthers dp volume result.2
        else result = (none, volume))
      (volume.dirlink dp name inum) := by
  unfold Volume.dirlink
  rw [directory.dirlookup, ok_bind]
  simp only
  cases found : slotLookup (stringOf DIRSIZ name) (volume.slots dp) with
  | some entry =>
      simp only [Option.map_some, Option.isSome_some, if_true, reduceCtorEq, if_false]
      exact rfl
  | none =>
      have scans := directory.scanEntries .dirlinkRead (fun de => decide (de.inum = 0)) 0
      rw [Nat.mul_zero, Nat.zero_add, List.drop_zero, ← freeSlot_table] at scans
      change direntSize * freeSlot ((volume.table dp).map Dirent.slot) < _ at room
      have inside : freeSlot ((volume.table dp).map Dirent.slot) ≤ (volume.table dp).length := by
        rw [freeSlot_table]
        exact List.findIdx_le_length
      have isMod : inum % 2 ^ 16 = inum := Nat.mod_eq_of_lt isShort
      have spec := directory.writeEntry ⟨inum % 2 ^ 16, strncpy DIRSIZ name⟩ inside room
        (length_strncpy ..) (by rwa [isMod]) .dirlink
      simp only [Option.map_none, Option.isSome_none, Bool.false_eq_true, if_false, scans, ok_bind,
        if_true]
      refine Outcome.bind (spec.mono (fun panic failed => ⟨failed.1, ?_⟩) fun _ same => same) ?_
      · rw [slots, List.length_map]
        exact failed.2
      · rintro after ⟨isDirectory, table, same⟩
        refine ⟨rfl, isDirectory, ?_, same⟩
        rw [slots, table, freeSlot_table, map_put_free (by rw [isMod]; exact Nat.ne_of_gt used),
          stringOf_strncpy, isMod]
        rfl

/-- `sys_unlink` removes the entry of a name that is present, unless what it names is in use; it
never removes the first two names. -/
theorem unlinkEntry (directory : volume.IsDirectory dp) (name : List UInt8) (inUse : Bool) :
    ∃ result, volume.unlinkEntry dp name inUse = .ok result ∧
      match slotLookup (stringOf DIRSIZ name) (volume.slots dp) with
      | none => result = (none, volume)
      | some found =>
          if stringOf DIRSIZ name = dotName ∨ stringOf DIRSIZ name = dotdotName ∨ inUse = true then
            result = (none, volume)
          else result.1 = some (direntSize * found.1) ∧ result.2.IsDirectory dp ∧
            result.2.slots dp = (volume.slots dp).set found.1 none ∧
            SameOthers dp volume result.2 := by
  have isDot : namecmp name dotName = 0 ↔ stringOf DIRSIZ name = dotName := by
    rw [namecmp_eq_zero_iff]
    rfl
  have isDotdot : namecmp name dotdotName = 0 ↔ stringOf DIRSIZ name = dotdotName := by
    rw [namecmp_eq_zero_iff]
    rfl
  unfold Volume.unlinkEntry
  by_cases dots : namecmp name dotName = 0 ∨ namecmp name dotdotName = 0
  · rw [if_pos dots]
    rw [isDot, isDotdot] at dots
    refine ⟨_, rfl, ?_⟩
    split
    · rfl
    · rw [if_pos (by rw [← or_assoc]; exact .inl dots)]
  · rw [if_neg dots, directory.dirlookup, ok_bind]
    rw [isDot, isDotdot, not_or] at dots
    cases found : slotLookup (stringOf DIRSIZ name) (volume.slots dp) with
    | none => exact ⟨_, rfl, rfl⟩
    | some entry =>
        have taken := slotLookup_get found
        obtain ⟨below, -⟩ := List.getElem?_eq_some_iff.mp taken
        rw [slots, List.length_map] at below
        have small := (Nat.mul_le_mul_left direntSize (Nat.succ_le_of_lt below)).trans
          directory.size_le
        rw [Nat.mul_succ] at small
        have positive := direntSize_pos
        cases inUse with
        | true =>
            refine ⟨(none, volume), rfl, ?_⟩
            simp only [or_true, if_true]
        | false =>
            have spec := directory.writeEntry .blank (Nat.le_of_lt below) (by omega)
              (by decide) (by decide) .unlinkWritei
            obtain ⟨after, writes, isDirectory, table, same⟩ :=
              (spec.mono (fun _ failed => absurd failed.2 (Nat.ne_of_lt below))
                fun _ same => same).exists_ok
            refine ⟨(some (direntSize * entry.1), after), ?_, ?_⟩
            · simp only [Option.map_some, writes, ok_bind, Bool.false_eq_true, if_false]
              rfl
            · simp only [dots.1, dots.2, Bool.false_eq_true, or_self, if_false]
              refine ⟨trivial, isDirectory, ?_, same⟩
              rw [slots, table, map_put_blank below]
              rfl

end IsDirectory

end Volume

end Coursework.FileSystem
