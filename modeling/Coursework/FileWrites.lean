import Coursework.FileRefinement

/-!
# Writing to an open file

`filewrite` cuts a write into pieces, each in a transaction of its own, and stops at the first
piece that `writei` refuses.  What is left then is the pieces before it, with the offset behind
them, although the call returns -1.
-/

namespace Coursework.FileSystem

variable {sb : Superblock}

inductive WritePanic where
  | fs (panic : Panic)
  | shortFilewrite
  deriving DecidableEq

/-- The fields of a `struct file` of type `FD_INODE` that `filewrite` uses. -/
structure OpenFile (sb : Superblock) where
  writable : Bool
  ip : Fin sb.ninodes
  off : UInt32

/-- The number of bytes that `filewrite` writes at a time. -/
def maxWrite : Nat := (MAXOPBLOCKS - 1 - 1 - 2) / 2 * 512

/-- The loop of `filewrite`. -/
def writeChunks (volume : Volume sb) (f : OpenFile sb) (i n : Nat) (addr : Nat → UInt8) :
    Except WritePanic (Nat × OpenFile sb × Volume sb) :=
  if _ : i < n then do
    let n1 := if n - i > maxWrite then maxWrite else n - i
    let (r, volume) ← (volume.writei f.ip f.off (UInt32.ofNat n1) fun j => addr (i + j)).mapError .fs
    let f := if 0 < r then { f with off := f.off + UInt32.ofNat r.toNat } else f
    if r < 0 then return (i, f, volume)
    else if r ≠ n1 then throw .shortFilewrite
    else writeChunks volume f (i + n1) n addr
  else return (i, f, volume)
termination_by n - i
decreasing_by
  have positive : 0 < maxWrite := by decide
  split <;> omega

/-- `filewrite` of a number of bytes to a file that is no pipe. -/
def filewrite (volume : Volume sb) (f : OpenFile sb) (addr : Nat → UInt8) (n : Nat) :
    Except WritePanic (Int × OpenFile sb × Volume sb) :=
  if f.writable = false then .ok (-1, f, volume)
  else do
    let (i, f, volume) ← writeChunks volume f 0 n addr
    return (if i = n then n else -1, f, volume)

/-! ## What is stored -/

/-- The number of bytes that a write stores: all of them where they end within the largest size
of a file, else the pieces that do. -/
def stored (size off n : Nat) : Nat :=
  if size < off then 0
  else if off + n ≤ MAXFILE * BSIZE then n
  else (MAXFILE * BSIZE - off) / maxWrite * maxWrite

theorem maxWrite_eq : maxWrite = 1536 := by decide

theorem largest_eq : MAXFILE * BSIZE = 71680 := by decide

/-- A piece that is accepted. -/
theorem stored_add {size off n n1 : Nat} (reached : off ≤ size)
    (isPiece : n1 = if n > maxWrite then maxWrite else n) (room : off + n1 ≤ MAXFILE * BSIZE) :
    stored size off n = n1 + stored (max size (off + n1)) (off + n1) (n - n1) := by
  simp only [stored, maxWrite_eq, largest_eq] at *
  split at isPiece <;> split_ifs <;> omega

/-- A piece that is refused. -/
theorem stored_refused {size off n n1 : Nat} (more : 0 < n)
    (isPiece : n1 = if n > maxWrite then maxWrite else n)
    (refused : ¬ (off ≤ size ∧ off + n1 < 2 ^ 32 ∧ off + n1 ≤ MAXFILE * BSIZE)) :
    stored size off n = 0 := by
  simp only [stored, maxWrite_eq, largest_eq] at *
  split at isPiece <;> split_ifs <;> omega

/-! ## The loop -/

variable {volume : Volume sb} {f : OpenFile sb} {addr : Nat → UInt8}

/-- What a write of a number of bytes leaves when it stores some of them. -/
structure Stores (volume : Volume sb) (f : OpenFile sb) (bytes : List UInt8) (f' : OpenFile sb)
    (after : Volume sb) : Prop where
  sound : after.Sound
  contents : after.contents f.ip = splice (volume.contents f.ip) f.off.toNat bytes
  off : f'.off.toNat = f.off.toNat + bytes.length
  file : f' = { f with off := f'.off }
  others : Volume.SameOthers f.ip volume after

theorem Stores.nothing (sound : volume.Sound) : Stores volume f [] f volume := by
  refine ⟨sound, ?_, rfl, rfl, .refl f.ip volume⟩
  simp [splice]

theorem Stores.trans {bytes later : List UInt8} {f' f'' : OpenFile sb} {middle after : Volume sb}
    (inside : f.off.toNat ≤ (volume.contents f.ip).length)
    (first : Stores volume f bytes f' middle) (second : Stores middle f' later f'' after) :
    Stores volume f (bytes ++ later) f'' after := by
  have sameIp : f'.ip = f.ip := by rw [first.file]
  have others := second.others
  have contents := second.contents
  rw [sameIp] at others contents
  refine ⟨second.sound, ?_, ?_, ?_, ?_, ?_, ?_⟩
  · rw [contents, first.contents, first.off, splice_splice inside]
  · rw [second.off, first.off, List.length_append, Nat.add_assoc]
  · rw [second.file, first.file]
  · exact others.type.trans first.others.type
  · intro other distinct
    exact (others.inode other distinct).trans (first.others.inode other distinct)
  · intro other distinct isFile
    have stillFile := (first.others.isFile other).mpr isFile
    exact (others.contents other distinct stillFile).trans
      (first.others.contents other distinct isFile)

/-- The bytes of a source from a place on. -/
def bytesFrom (addr : Nat → UInt8) (i count : Nat) : List UInt8 :=
  (List.range count).map fun j => addr (i + j)

theorem bytesFrom_add (addr : Nat → UInt8) (i first later : Nat) :
    bytesFrom addr i (first + later) = bytesFrom addr i first ++ bytesFrom addr (i + first) later := by
  simp only [bytesFrom, List.range_add, List.map_append, List.map_map, Function.comp_def,
    Nat.add_assoc]

/-- The loop of `filewrite` stores the pieces before the first one that is refused. -/
theorem writeChunks_spec (sound : volume.Sound) (isFile : volume.IsFile f.ip) (i n : Nat)
    (le : i ≤ n) :
    Outcome (fun panic => panic = .fs .outOfBlocks ∧ (volume.inode f.ip).size <
        f.off.toNat + stored (volume.inode f.ip).size f.off.toNat (n - i))
      (fun result => result.1 = i + stored (volume.inode f.ip).size f.off.toNat (n - i) ∧
        Stores volume f (bytesFrom addr i (stored (volume.inode f.ip).size f.off.toNat (n - i)))
          result.2.1 result.2.2)
      (writeChunks volume f i n addr) := by
  induction left : n - i using Nat.strong_induction_on generalizing volume f i with
  | _ left ih =>
    subst left
    rw [writeChunks]
    by_cases more : i < n
    · rw [dif_pos more]
      obtain ⟨n1, isPiece⟩ : ∃ n1, n1 = if n - i > maxWrite then maxWrite else n - i := ⟨_, rfl⟩
      rw [← isPiece]
      have small : n1 ≤ 1536 ∧ 0 < n1 ∧ n1 ≤ n - i := by
        rw [maxWrite_eq] at isPiece
        split at isPiece <;> omega
      have toNat : (UInt32.ofNat n1).toNat = n1 := by
        rw [UInt32.toNat_ofNat']
        exact Nat.mod_eq_of_lt (by omega)
      have spec := Volume.writei_spec sound isFile f.off (UInt32.ofNat n1) fun j => addr (i + j)
      unfold ByteFile.write at spec
      rw [toNat, Volume.length_contents] at spec
      apply Outcome.bind
      · apply spec.mapError
        rintro panic ⟨isFull, reached, grows, room⟩
        have split_ := stored_add reached isPiece room
        exact ⟨congrArg WritePanic.fs isFull, by omega⟩
      rintro ⟨r, middle⟩ ⟨isWrite, middleSound, others, refusedSame⟩
      simp only at isWrite middleSound others refusedSame ⊢
      by_cases accepted : f.off.toNat ≤ (volume.inode f.ip).size ∧ f.off.toNat + n1 < 2 ^ 32 ∧
          f.off.toNat + n1 ≤ MAXFILE * BSIZE
      · rw [if_pos accepted] at isWrite
        obtain ⟨isCount, isContents⟩ := Prod.ext_iff.mp isWrite
        simp only at isCount isContents
        subst isCount
        have inside : f.off.toNat ≤ (volume.contents f.ip).length := by
          rw [Volume.length_contents]
          exact accepted.1
        have moved : (f.off + UInt32.ofNat n1).toNat = f.off.toNat + n1 := by
          rw [toNat_add_of_lt (by rw [toNat]; exact accepted.2.1), toNat]
        have length : (bytesFrom addr i n1).length = n1 := by simp [bytesFrom]
        have size : (middle.inode f.ip).size = max (volume.inode f.ip).size (f.off.toNat + n1) := by
          have isLength := congrArg List.length isContents
          rw [Volume.length_contents, length_splice inside, Volume.length_contents] at isLength
          simpa using isLength
        have split_ := stored_add accepted.1 isPiece accepted.2.2
        have rest : n - i - n1 = n - (i + n1) := by omega
        have stores : Stores volume f (bytesFrom addr i n1)
            { f with off := f.off + UInt32.ofNat n1 } middle :=
          ⟨middleSound, isContents, by rw [length]; exact moved, rfl, others⟩
        have positive : (0 : Int) < (n1 : Int) := by omega
        have noError : ¬ (n1 : Int) < 0 := by omega
        rw [if_pos positive, if_neg noError, if_neg (not_not.mpr rfl), Int.toNat_natCast]
        have later := @ih (n - (i + n1)) (by omega) middle
          { f with off := f.off + UInt32.ofNat n1 } middleSound
          ((others.isFile f.ip).mpr isFile) (i + n1) (by omega) rfl
        simp only [moved, size] at later
        rw [← rest] at later
        apply later.mono
        · rintro panic ⟨isPanic, small⟩
          exact ⟨isPanic, by omega⟩
        · rintro result ⟨isCount, restStores⟩
          rw [split_, bytesFrom_add]
          exact ⟨by omega, stores.trans inside restStores⟩
      · rw [if_neg accepted] at isWrite
        obtain ⟨isCount, -⟩ := Prod.ext_iff.mp isWrite
        simp only at isCount
        subst isCount
        obtain rfl := refusedSame rfl
        rw [if_neg (show ¬ (0 : Int) < -1 by decide), if_pos (show (-1 : Int) < 0 by decide),
          stored_refused (by omega) isPiece accepted]
        exact ⟨rfl, .nothing sound⟩
    · rw [dif_neg more]
      have nothing : n - i = 0 := by omega
      have isZero : stored (volume.inode f.ip).size f.off.toNat 0 = 0 := by
        simp only [stored, maxWrite_eq, largest_eq]
        split_ifs <;> omega
      rw [nothing, isZero]
      exact ⟨rfl, .nothing sound⟩

theorem filewrite_spec (sound : volume.Sound) (isFile : volume.IsFile f.ip)
    (writable : f.writable = true) (addr : Nat → UInt8) (n : Nat) :
    Outcome (fun panic => panic = .fs .outOfBlocks ∧ (volume.inode f.ip).size <
        f.off.toNat + stored (volume.inode f.ip).size f.off.toNat n)
      (fun result =>
        result.1 = (if stored (volume.inode f.ip).size f.off.toNat n = n then (n : Int) else -1) ∧
        Stores volume f (bytesFrom addr 0 (stored (volume.inode f.ip).size f.off.toNat n))
          result.2.1 result.2.2)
      (filewrite volume f addr n) := by
  unfold filewrite
  rw [if_neg (show ¬ f.writable = false by simp [writable])]
  apply Outcome.bind (writeChunks_spec sound isFile 0 n (Nat.zero_le n))
  rintro ⟨i, f', after⟩ ⟨isCount, stores⟩
  simp only [Nat.zero_add, Nat.sub_zero] at isCount stores ⊢
  subst isCount
  exact ⟨rfl, stores⟩

/-- Two hundred blocks, of which the first five are metadata, and two inodes. -/
def wideSuperblock : Superblock where
  size := 200
  ninodes := 2
  nlog := 1
  logstart := 2
  inodestart := 3
  bmapstart := 4
  sizeFits := by decide

def wideInum : Fin wideSuperblock.ninodes := ⟨1, by decide⟩

/-- The block of a file at a position. -/
def Position.wideBlock : Position → Nat
  | .slot i => 10 + i.val
  | .word i => 23 + i.val

/-- One file, in the blocks from 10 to 150. -/
def wideVolume : Volume wideSuperblock where
  disk :=
    { bitmap := fun _ index =>
        if index.val = 0 then 0x1f else if index.val = 1 then 0xfc
        else if index.val < 18 then 0xff else if index.val = 18 then 0x7f else 0
      dinodes := fun inum =>
        if inum.val = 1 then ⟨.file, 0, 0, 1, MAXFILE * BSIZE, fun slot => 10 + slot.val⟩
        else .blank .free
      blocks := fun blockno index =>
        if blockno = 22 ∧ index.val % 4 = 0 then UInt8.ofNat (23 + index.val / 4) else 0 }
  inode := fun inum =>
    if inum.val = 1 then ⟨.file, 0, 0, 1, MAXFILE * BSIZE, fun slot => 10 + slot.val⟩
    else .blank .free

theorem wideVolume_word : ∀ bn : Fin NINDIRECT,
    Disk.word (wideVolume.disk.blocks 22) bn = 23 + bn.val := by
  decide +kernel

theorem wideVolume_held (inum : Fin wideSuperblock.ninodes) (position : Position) :
    wideVolume.held (inum, position) =
      if inum = wideInum then some position.wideBlock else none := by
  by_cases isFirst : inum = wideInum
  · subst isFirst
    rw [if_pos rfl]
    apply listed_eq_some.mpr
    cases position with
    | slot i => exact ⟨nofun, by simp [Position.wideBlock], rfl⟩
    | word i =>
        refine ⟨nofun, by simp [Position.wideBlock], ?_⟩
        have present : (wideVolume.inode wideInum).addrs indirectSlot = 22 := rfl
        simp only [address, present, Nat.not_lt_zero, or_false]
        rw [if_neg (by decide), wideVolume_word]
        rfl
  · rw [if_neg isFirst]
    apply listed_eq_none.mpr
    left
    have notOne : inum.val ≠ 1 := fun isOne => isFirst (Fin.ext isOne)
    simp only [wideVolume, if_neg notOne]
    rfl

theorem wideVolume_used : ∀ blockno < wideSuperblock.size,
    wideVolume.disk.isUsed blockno = decide (blockno < 5 ∨ 10 ≤ blockno ∧ blockno ≤ 150) := by
  decide +kernel

theorem wideVolume_meta : ∀ blockno < wideSuperblock.size,
    wideSuperblock.isMeta blockno ↔ blockno < 5 := by
  decide +kernel

theorem wideBlock_bounds (position : Position) :
    10 ≤ position.wideBlock ∧ position.wideBlock ≤ 150 := by
  cases position with
  | slot i =>
      have below := i.isLt
      simp only [Position.wideBlock, NDIRECT] at *
      omega
  | word i =>
      have below := i.isLt
      simp only [Position.wideBlock, NINDIRECT, BSIZE] at *
      omega

theorem wideBlock_inj {first second : Position} (same : first.wideBlock = second.wideBlock) :
    first = second := by
  cases first with
  | slot i =>
      cases second with
      | slot j =>
          simp only [Position.wideBlock, Nat.add_left_cancel_iff] at same
          rw [Fin.ext same]
      | word j =>
          have below := i.isLt
          simp only [Position.wideBlock, NDIRECT] at *
          omega
  | word i =>
      cases second with
      | slot j =>
          have below := j.isLt
          simp only [Position.wideBlock, NDIRECT] at *
          omega
      | word j =>
          simp only [Position.wideBlock, Nat.add_left_cancel_iff] at same
          rw [Fin.ext same]

theorem wideBlock_surj {blockno : Nat} (lower : 10 ≤ blockno) (upper : blockno ≤ 150) :
    ∃ position : Position, position.wideBlock = blockno := by
  by_cases direct : blockno < 23
  · refine ⟨.slot ⟨blockno - 10, by simp only [NDIRECT]; omega⟩, ?_⟩
    simp only [Position.wideBlock]
    omega
  · refine ⟨.word ⟨blockno - 23, by simp only [NINDIRECT, BSIZE]; omega⟩, ?_⟩
    simp only [Position.wideBlock]
    omega

theorem wideVolume_sound : wideVolume.Sound := by
  have isHeld : ∀ place blockno, wideVolume.held place = some blockno →
      place.1 = wideInum ∧ place.2.wideBlock = blockno := by
    rintro ⟨inum, position⟩ blockno full
    rw [wideVolume_held] at full
    split at full
    · next isFirst => exact ⟨isFirst, Option.some.inj full⟩
    · cases full
  refine ⟨⟨⟨?_, ?_, ?_, ?_, ?_⟩, ?_⟩, ?_⟩
  · intro place blockno full
    obtain ⟨-, rfl⟩ := isHeld place blockno full
    have bounds := wideBlock_bounds place.2
    simp only [wideSuperblock]
    omega
  · intro place blockno full isMeta
    obtain ⟨-, rfl⟩ := isHeld place blockno full
    have bounds := wideBlock_bounds place.2
    have small := (wideVolume_meta _ (by simp only [wideSuperblock]; omega)).mp isMeta
    omega
  · intro place blockno full
    obtain ⟨-, rfl⟩ := isHeld place blockno full
    have bounds := wideBlock_bounds place.2
    rw [wideVolume_used _ (by simp only [wideSuperblock]; omega)]
    exact decide_eq_true (Or.inr bounds)
  · intro first second blockno isFirst isSecond
    obtain ⟨firstInum, firstBlock⟩ := isHeld first blockno isFirst
    obtain ⟨secondInum, secondBlock⟩ := isHeld second blockno isSecond
    exact Prod.ext (firstInum.trans secondInum.symm)
      (wideBlock_inj (firstBlock.trans secondBlock.symm))
  · intro blockno below notMeta used
    rw [wideVolume_used _ below, decide_eq_true_eq] at used
    rw [wideVolume_meta _ below] at notMeta
    obtain ⟨position, rfl⟩ := @wideBlock_surj blockno (by omega) (by omega)
    exact ⟨(wideInum, position), (wideVolume_held _ _).trans (if_pos rfl)⟩
  · intro blockno below isMeta
    rw [wideVolume_used _ below]
    exact decide_eq_true (Or.inl ((wideVolume_meta _ below).mp isMeta))
  · intro inum isFile bn below
    have isFirst : inum = wideInum := by
      by_contra other
      have notOne : inum.val ≠ 1 := fun isOne => other (Fin.ext isOne)
      simp only [Volume.IsFile, wideVolume, if_neg notOne, Dinode.blank] at isFile
      rcases isFile with impossible | impossible <;> cases impossible
    subst isFirst
    have inside : bn < NDIRECT ∨ bn - NDIRECT < NINDIRECT := by
      change bn * BSIZE < MAXFILE * BSIZE at below
      simp only [MAXFILE, NINDIRECT, NDIRECT, BSIZE] at *
      omega
    have full : ∀ position, wideVolume.held (wideInum, position) ≠ none := by
      intro position
      rw [wideVolume_held, if_pos rfl]
      simp
    unfold filePosition
    split
    · exact ⟨_, rfl, full _⟩
    · next notDirect =>
        rw [dif_pos (inside.resolve_left notDirect)]
        exact ⟨_, rfl, full _⟩

/-- The file is open for writing, 1536 bytes before its end. -/
def wideFile : OpenFile wideSuperblock := ⟨true, wideInum, 70144⟩

end Coursework.FileSystem
