import Coursework.FileWrites

/-!
# The blocks of a write transaction

`filewrite` writes a piece of a file in each transaction, so that a transaction changes no
more blocks than the log has reserved for it.  Here the calls below `writei` come with the
block numbers that they pass to `log_write`.

A piece lies in at most four blocks of the file, and in four only if it starts inside the
first one.  Then this block is there already, so at most three blocks and the indirect block
are new, each with a bitmap block; the block of the inode is the tenth.
-/

namespace Coursework.FileSystem

open State

variable {sb : Superblock}

/-- The block of the free map with the bit of a block. -/
def BBLOCK (sb : Superblock) (b : Nat) : Nat := b / BPB + sb.bmapstart

/-- The block with an inode. -/
def IBLOCK (sb : Superblock) (i : Nat) : Nat := i / IPB + sb.inodestart

/-! ## The calls with what they log -/

namespace Disk

/-- `balloc`, which logs the bitmap block and, in `bzero`, the block itself. -/
def ballocLogged (disk : Disk sb) : Except Panic (List Nat × Nat × Disk sb) :=
  match disk.freeBlock with
  | some blockno =>
      .ok ([BBLOCK sb blockno, blockno], blockno, (disk.markUsed blockno).bzero blockno)
  | none => .error .outOfBlocks

def slotBlockLogged (disk : Disk sb) (addrs : Addrs) (slot : Fin (NDIRECT + 1)) :
    Except Panic (List Nat × Nat × Addrs × Disk sb) :=
  if addrs slot = 0 then do
    let (log, addr, disk) ← disk.ballocLogged
    return (log, addr, Function.update addrs slot addr, disk)
  else return ([], addrs slot, addrs, disk)

/-- The block listed in an indirect block, which is logged when it changes. -/
def wordBlockLogged (disk : Disk sb) (indirect bn : Nat) :
    Except Panic (List Nat × Nat × Disk sb) :=
  let block := disk.blocks indirect
  if word block bn = 0 then do
    let (log, addr, disk) ← disk.ballocLogged
    return (log ++ [indirect], addr, disk.writeBlock indirect (setWord block bn addr))
  else return ([], word block bn, disk)

def bmapLogged (disk : Disk sb) (addrs : Addrs) (bn : Nat) :
    Except Panic (List Nat × Nat × Addrs × Disk sb) :=
  if direct : bn < NDIRECT then disk.slotBlockLogged addrs ⟨bn, Nat.lt_add_one_of_lt direct⟩
  else if bn - NDIRECT < NINDIRECT then do
    let (log, indirect, addrs, disk) ← disk.slotBlockLogged addrs indirectSlot
    let (log', addr, disk) ← disk.wordBlockLogged indirect (bn - NDIRECT)
    return (log ++ log', addr, addrs, disk)
  else .error .outOfRange

end Disk

def writeLoopLogged (disk : Disk sb) (addrs : Addrs) (off tot n : Nat) (src : Nat → UInt8) :
    Except Panic (List Nat × Nat × Addrs × Disk sb) :=
  if _ : tot < n then do
    let (log, addr, addrs, disk) ← disk.bmapLogged addrs (off / BSIZE)
    let m := chunk off tot n
    let disk := disk.writeBlock addr (moveInto (disk.blocks addr) off tot m src)
    let (log', result) ← writeLoopLogged disk addrs (off + m) (tot + m) n src
    return (log ++ addr :: log', result)
  else return ([], off, addrs, disk)
termination_by n - tot
decreasing_by
  have := @chunk_pos off tot n ‹tot < n›
  omega

namespace Volume

/-- `writei`, which logs the block of the inode if the file has grown. -/
def writeiLogged (volume : Volume sb) (inum : Fin sb.ninodes) (off n : UInt32)
    (src : Nat → UInt8) : Except Panic (List Nat × Int × Volume sb) :=
  let ip := volume.inode inum
  if off.toNat > ip.size ∨ off + n < off then .ok ([], -1, volume)
  else if (off + n).toNat > MAXFILE * BSIZE then .ok ([], -1, volume)
  else do
    let (log, off, addrs, disk) ← writeLoopLogged volume.disk ip.addrs off.toNat 0 n.toNat src
    let volume := volume.setAddrs inum disk addrs
    if 0 < n ∧ off > ip.size then
      return (log ++ [IBLOCK sb inum], n.toNat, volume.setSize inum off)
    else return (log, n.toNat, volume)

/-- An iteration of the loop of `filewrite`, between `begin_op` and `end_op`. -/
def transaction (volume : Volume sb) (f : OpenFile sb) (n1 : Nat) (addr : Nat → UInt8) :
    Except Panic (List Nat × Int × OpenFile sb × Volume sb) := do
  let (log, r, volume) ← volume.writeiLogged f.ip f.off (UInt32.ofNat n1) addr
  return (log, r, if 0 < r then { f with off := f.off + UInt32.ofNat r.toNat } else f, volume)

end Volume

/-! ## The results are the same -/

theorem map_ballocLogged (disk : Disk sb) : disk.ballocLogged.map Prod.snd = disk.balloc := by
  unfold Disk.ballocLogged Disk.balloc
  cases disk.freeBlock <;> rfl

theorem map_slotBlockLogged (disk : Disk sb) (addrs : Addrs) (slot : Fin (NDIRECT + 1)) :
    (disk.slotBlockLogged addrs slot).map Prod.snd = disk.slotBlock addrs slot := by
  unfold Disk.slotBlockLogged Disk.slotBlock
  split
  · exact Outcome.map_bind (map_ballocLogged disk) fun _ => rfl
  · rfl

theorem map_wordBlockLogged (disk : Disk sb) (indirect bn : Nat) :
    (disk.wordBlockLogged indirect bn).map Prod.snd = disk.wordBlock indirect bn := by
  unfold Disk.wordBlockLogged Disk.wordBlock
  simp only
  split
  · exact Outcome.map_bind (map_ballocLogged disk) fun _ => rfl
  · rfl

theorem map_bmapLogged (disk : Disk sb) (addrs : Addrs) (bn : Nat) :
    (disk.bmapLogged addrs bn).map Prod.snd = disk.bmap addrs bn := by
  unfold Disk.bmapLogged Disk.bmap
  split
  · exact map_slotBlockLogged ..
  · split
    · refine Outcome.map_bind (map_slotBlockLogged ..) fun _ => ?_
      exact Outcome.map_bind (map_wordBlockLogged ..) fun _ => rfl
    · rfl

theorem map_writeLoopLogged (disk : Disk sb) (addrs : Addrs) (off tot n : Nat)
    (src : Nat → UInt8) :
    (writeLoopLogged disk addrs off tot n src).map Prod.snd =
      writeLoop disk addrs off tot n src := by
  induction left : n - tot using Nat.strong_induction_on generalizing disk addrs off tot with
  | _ left ih =>
    rw [writeLoopLogged, writeLoop]
    split
    · next more =>
        have positive := @chunk_pos off tot n more
        apply Outcome.map_bind (map_bmapLogged ..)
        rintro ⟨log, addr, addrs, disk⟩
        refine Eq.trans ?_ (ih (n - (tot + chunk off tot n)) (by omega) _ addrs _ _ rfl)
        simp only
        generalize writeLoopLogged _ _ _ _ _ _ = result
        cases result <;> rfl
    · rfl

theorem Volume.map_writeiLogged (volume : Volume sb) (inum : Fin sb.ninodes) (off n : UInt32)
    (src : Nat → UInt8) :
    (volume.writeiLogged inum off n src).map Prod.snd = volume.writei inum off n src := by
  unfold writeiLogged writei
  simp only
  split
  · rfl
  · split
    · rfl
    · refine Outcome.map_bind (map_writeLoopLogged ..) fun value => ?_
      split <;> rfl

/-! ## What a call of `bmap` logs -/

section Counts

variable {disk after : Disk sb} {addrs addrs' : Addrs} {log : List Nat} {addr : Nat}

/-- The bitmap does not offer block zero. -/
def Disk.BootMarked (disk : Disk sb) : Prop := 0 < sb.size → disk.isUsed 0 = true

/-- The number of indirect blocks that can still be allocated. -/
def pending (addrs : Addrs) : Nat := if addrs indirectSlot = 0 then 1 else 0

theorem pending_le_one (addrs : Addrs) : pending addrs ≤ 1 := by
  unfold pending
  split <;> omega

theorem ballocLogged_ok (boot : disk.BootMarked)
    (allocated : disk.ballocLogged = .ok (log, addr, after)) :
    log = [BBLOCK sb addr, addr] ∧ addr ≠ 0 ∧ after.BootMarked := by
  unfold Disk.ballocLogged at allocated
  split at allocated
  · next blockno picked =>
      cases allocated
      obtain ⟨below, notUsed⟩ := Disk.freeBlock_spec picked
      refine ⟨rfl, ?_, ?_⟩
      · rintro rfl
        rw [boot below] at notUsed
        cases notUsed
      · intro positive
        have marked := congrFun (disk.isUsed_markUsed addr) 0
        rw [Function.update_apply, boot positive, ite_self] at marked
        exact marked
  · cases allocated

theorem slotBlockLogged_ok {slot : Fin (NDIRECT + 1)} (boot : disk.BootMarked)
    (mapped : disk.slotBlockLogged addrs slot = .ok (log, addr, addrs', after)) :
    after.BootMarked ∧ addrs' slot = addr ∧ addr ≠ 0 ∧
      (∀ other, addrs other ≠ 0 → addrs' other = addrs other) ∧
      (∀ other ≠ slot, addrs' other = addrs other) ∧
      (log = [] ∧ addrs slot ≠ 0 ∨ log = [BBLOCK sb addr, addr] ∧ addrs slot = 0) := by
  unfold Disk.slotBlockLogged at mapped
  split at mapped
  · next missing =>
      cases allocated : disk.ballocLogged with
      | error panic => rw [allocated] at mapped; cases mapped
      | ok result =>
          obtain ⟨log, blockno, middle⟩ := result
          rw [allocated] at mapped
          cases mapped
          obtain ⟨isLog, nonzero, boot'⟩ := ballocLogged_ok boot allocated
          refine ⟨boot', Function.update_self .., nonzero, ?_, ?_, .inr ⟨isLog, missing⟩⟩
          · intro other present
            apply Function.update_of_ne
            rintro rfl
            exact present missing
          · exact fun other distinct => Function.update_of_ne distinct ..
  · next present =>
      cases mapped
      exact ⟨boot, rfl, present, fun _ _ => rfl, fun _ _ => rfl, .inl ⟨rfl, present⟩⟩

theorem wordBlockLogged_ok {indirect bn : Nat} (boot : disk.BootMarked)
    (mapped : disk.wordBlockLogged indirect bn = .ok (log, addr, after)) :
    after.BootMarked ∧ ∀ b ∈ log, b = addr ∨ b = indirect ∨ b = BBLOCK sb addr := by
  unfold Disk.wordBlockLogged at mapped
  simp only at mapped
  split at mapped
  · cases allocated : disk.ballocLogged with
    | error panic => rw [allocated] at mapped; cases mapped
    | ok result =>
        obtain ⟨log, blockno, middle⟩ := result
        rw [allocated] at mapped
        cases mapped
        obtain ⟨rfl, -, boot'⟩ := ballocLogged_ok boot allocated
        refine ⟨boot', ?_⟩
        intro b member
        simp only [List.cons_append, List.nil_append, List.mem_cons, List.not_mem_nil,
          or_false] at member
        rcases member with isBitmap | isBlock | isIndirect
        · exact .inr (.inr isBitmap)
        · exact .inl isBlock
        · exact .inr (.inl isIndirect)
  · cases mapped
    exact ⟨boot, by simp⟩

/-- What a part of a transaction logs: blocks of the file, the indirect block and bitmap
blocks, of which there is one for each block of the file and one more if it allocates the
indirect block. -/
structure Spends (log : List Nat) (addrs addrs' : Addrs) (data bitmaps : Finset Nat)
    (k : Nat) : Prop where
  indirect : addrs indirectSlot ≠ 0 → addrs' indirectSlot = addrs indirectSlot
  blocks : data.card ≤ k
  maps : bitmaps.card + pending addrs' ≤ k + pending addrs
  logs : ∀ b ∈ log, b ∈ data ∨ addrs' indirectSlot ≠ 0 ∧ b = addrs' indirectSlot ∨ b ∈ bitmaps

/-- `bmap` logs what belongs to one block of the file. -/
theorem bmapLogged_spends {bn : Nat} (boot : disk.BootMarked)
    (mapped : disk.bmapLogged addrs bn = .ok (log, addr, addrs', after)) :
    after.BootMarked ∧ ∃ bitmaps, Spends log addrs addrs' {addr} bitmaps 1 := by
  unfold Disk.bmapLogged at mapped
  split at mapped
  · next direct =>
      obtain ⟨boot', -, -, -, others, isLog⟩ := slotBlockLogged_ok boot mapped
      have sameIndirect : addrs' indirectSlot = addrs indirectSlot := by
        apply others
        intro same
        have isIndex := congrArg Fin.val same
        simp only [indirectSlot, Fin.val_last] at isIndex
        omega
      have samePending : pending addrs' = pending addrs := by rw [pending, sameIndirect, pending]
      refine ⟨boot', {BBLOCK sb addr}, fun _ => sameIndirect, by simp, by simp [samePending], ?_⟩
      intro b member
      rcases isLog with ⟨rfl, -⟩ | ⟨rfl, -⟩
      · cases member
      · simp only [List.mem_cons, List.not_mem_nil, or_false] at member
        simp only [Finset.mem_singleton]
        exact member.elim (.inr ∘ .inr) .inl
  · split at mapped
    · cases first : disk.slotBlockLogged addrs indirectSlot with
      | error panic => rw [first] at mapped; cases mapped
      | ok result =>
          obtain ⟨log₁, indirect, addrs₁, middle⟩ := result
          rw [first] at mapped
          simp only [ok_bind] at mapped
          cases second : middle.wordBlockLogged indirect (bn - NDIRECT) with
          | error panic => rw [second] at mapped; cases mapped
          | ok result =>
              obtain ⟨log₂, addr₂, last⟩ := result
              rw [second] at mapped
              cases mapped
              obtain ⟨boot', isIndirect, nonzero, kept, -, isLog⟩ := slotBlockLogged_ok boot first
              obtain ⟨boot'', words⟩ := wordBlockLogged_ok boot' second
              have settled : pending addrs' = 0 := if_neg (isIndirect ▸ nonzero)
              refine ⟨boot'', ?_⟩
              rcases isLog with ⟨rfl, present⟩ | ⟨rfl, missing⟩
              · refine ⟨{BBLOCK sb addr₂}, kept indirectSlot, by simp, by simp [settled], ?_⟩
                intro b member
                rw [isIndirect]
                simp only [Finset.mem_singleton]
                exact (words b member).imp_right (.imp_left (⟨nonzero, ·⟩))
              · have opens : pending addrs = 1 := if_pos missing
                refine ⟨{BBLOCK sb indirect, BBLOCK sb addr₂}, kept indirectSlot, by simp, ?_, ?_⟩
                · rw [settled, opens]
                  exact Finset.card_le_two
                · intro b member
                  rw [isIndirect]
                  simp only [Finset.mem_singleton, Finset.mem_insert]
                  rcases List.mem_append.mp member with inFirst | inSecond
                  · simp only [List.mem_cons, List.not_mem_nil, or_false] at inFirst
                    rcases inFirst with isBitmap | isBlock
                    · exact .inr (.inr (.inl isBitmap))
                    · exact .inr (.inl ⟨nonzero, isBlock⟩)
                  · rcases words b inSecond with isData | isBlock | isBitmap
                    · exact .inl isData
                    · exact .inr (.inl ⟨nonzero, isBlock⟩)
                    · exact .inr (.inr (.inr isBitmap))
    · cases mapped

/-- `bmap` logs nothing for a block that is there. -/
theorem bmapLogged_mapped {inode : Dinode} {bn : Nat} {position : Position}
    (isPosition : filePosition bn = some position)
    (full : address disk.blocks inode 0 position ≠ 0) :
    ∃ addr, disk.bmapLogged inode.addrs bn = .ok ([], addr, inode.addrs, disk) := by
  unfold filePosition at isPosition
  unfold Disk.bmapLogged
  split at isPosition
  · next direct =>
      cases isPosition
      rw [dif_pos direct]
      exact ⟨_, if_neg full⟩
  · next notDirect =>
      rw [dif_neg notDirect]
      split at isPosition
      · next inside =>
          cases isPosition
          simp only [address, Nat.not_lt_zero, or_false] at full
          by_cases missing : inode.addrs indirectSlot = 0
          · rw [if_pos missing] at full
            exact absurd rfl full
          · rw [if_neg missing] at full
            have word : disk.wordBlockLogged (inode.addrs indirectSlot) (bn - NDIRECT) =
                .ok ([], Disk.word (disk.blocks (inode.addrs indirectSlot)) (bn - NDIRECT),
                  disk) := if_neg full
            have slot : disk.slotBlockLogged inode.addrs indirectSlot =
                .ok ([], inode.addrs indirectSlot, inode.addrs, disk) := if_neg missing
            rw [if_pos inside, slot, ok_bind]
            simp only
            rw [word]
            exact ⟨_, rfl⟩
      · cases isPosition

end Counts

/-! ## What the loop of `writei` logs -/

section Loop

variable {disk after : Disk sb} {addrs addrs' : Addrs} {log : List Nat} {src : Nat → UInt8}

/-- The blocks of two parts of a transaction. -/
theorem Spends.append {log' : List Nat} {middle : Addrs} {data data' bitmaps bitmaps' : Finset Nat}
    {k k' : Nat} (first : Spends log addrs middle data bitmaps k)
    (second : Spends log' middle addrs' data' bitmaps' k') :
    Spends (log ++ log') addrs addrs' (data ∪ data') (bitmaps ∪ bitmaps') (k + k') where
  indirect present := by
    have same := first.indirect present
    rw [second.indirect (same ▸ present), same]
  blocks := (Finset.card_union_le data data').trans (Nat.add_le_add first.blocks second.blocks)
  maps := by
    have both := Finset.card_union_le bitmaps bitmaps'
    have := first.maps
    have := second.maps
    omega
  logs := by
    intro b member
    simp only [Finset.mem_union]
    rcases List.mem_append.mp member with inFirst | inSecond
    · rcases first.logs b inFirst with isData | ⟨present, isIndirect⟩ | isBitmap
      · exact .inl (.inl isData)
      · have same := second.indirect present
        exact .inr (.inl ⟨same ▸ present, same ▸ isIndirect⟩)
      · exact .inr (.inr (.inl isBitmap))
    · rcases second.logs b inSecond with isData | isIndirect | isBitmap
      · exact .inl (.inr isData)
      · exact .inr (.inl isIndirect)
      · exact .inr (.inr (.inr isBitmap))

/-- Logging a block of the file. -/
theorem Spends.data {data bitmaps : Finset Nat} {k : Nat} {addr : Nat}
    (spends : Spends log addrs addrs' data bitmaps k) (isData : addr ∈ data) :
    Spends (log ++ [addr]) addrs addrs' data bitmaps k where
  indirect := spends.indirect
  blocks := spends.blocks
  maps := spends.maps
  logs b member := by
    rcases List.mem_append.mp member with inLog | isAddr
    · exact spends.logs b inLog
    · rw [List.mem_singleton.mp isAddr]
      exact .inl isData

theorem writeLoopLogged_step {off off' tot n : Nat} (more : tot < n)
    (writes : writeLoopLogged disk addrs off tot n src = .ok (log, off', addrs', after)) :
    ∃ first addr middle disk' rest, log = first ++ [addr] ++ rest ∧
      disk.bmapLogged addrs (off / BSIZE) = .ok (first, addr, middle, disk') ∧
      writeLoopLogged (disk'.writeBlock addr (moveInto (disk'.blocks addr) off tot
        (chunk off tot n) src)) middle (off + chunk off tot n) (tot + chunk off tot n) n src =
          .ok (rest, off', addrs', after) := by
  rw [writeLoopLogged, dif_pos more] at writes
  cases mapped : disk.bmapLogged addrs (off / BSIZE) with
  | error panic => rw [mapped] at writes; cases writes
  | ok result =>
      obtain ⟨first, addr, middle, disk'⟩ := result
      rw [mapped, ok_bind] at writes
      simp only at writes
      cases later : writeLoopLogged (disk'.writeBlock addr (moveInto (disk'.blocks addr) off tot
          (chunk off tot n) src)) middle (off + chunk off tot n) (tot + chunk off tot n) n src with
      | error panic => rw [later] at writes; cases writes
      | ok result =>
          obtain ⟨rest, result⟩ := result
          rw [later] at writes
          cases writes
          exact ⟨first, addr, middle, disk', rest, by simp, rfl, later⟩

theorem writeLoopLogged_done {off off' tot n : Nat} (done : ¬ tot < n)
    (writes : writeLoopLogged disk addrs off tot n src = .ok (log, off', addrs', after)) :
    log = [] ∧ addrs' = addrs := by
  rw [writeLoopLogged, dif_neg done] at writes
  cases writes
  exact ⟨rfl, rfl⟩

theorem Spends.nothing (addrs : Addrs) (k : Nat) : Spends [] addrs addrs ∅ ∅ k :=
  ⟨fun _ => rfl, by simp, by simp, by simp⟩

/-- The loop logs what belongs to the blocks it passes. -/
theorem writeLoopLogged_spends {off off' tot n k : Nat} (boot : disk.BootMarked)
    (short : tot < n → off % BSIZE + (n - tot) ≤ k * BSIZE)
    (writes : writeLoopLogged disk addrs off tot n src = .ok (log, off', addrs', after)) :
    ∃ data bitmaps, Spends log addrs addrs' data bitmaps k := by
  induction k generalizing disk addrs off tot log with
  | zero =>
      have done : ¬ tot < n := fun more => by
        have := short more
        omega
      obtain ⟨rfl, rfl⟩ := writeLoopLogged_done done writes
      exact ⟨∅, ∅, .nothing _ 0⟩
  | succ k ih =>
      by_cases more : tot < n
      · obtain ⟨first, addr, middle, disk', rest, rfl, mapped, later⟩ :=
          writeLoopLogged_step more writes
        obtain ⟨boot', bitmaps, spends⟩ := bmapLogged_spends boot mapped
        have remaining : tot + chunk off tot n < n →
            (off + chunk off tot n) % BSIZE + (n - (tot + chunk off tot n)) ≤ k * BSIZE := by
          intro still
          have total := short more
          simp only [chunk, BSIZE] at *
          omega
        have boot'' : (disk'.writeBlock addr (moveInto (disk'.blocks addr) off tot
            (chunk off tot n) src)).BootMarked := boot'
        obtain ⟨data, bitmaps', spends'⟩ := ih boot'' remaining later
        rw [Nat.add_comm k 1]
        exact ⟨_, _, (spends.data (Finset.mem_singleton_self addr)).append spends'⟩
      · obtain ⟨rfl, rfl⟩ := writeLoopLogged_done more writes
        exact ⟨∅, ∅, .nothing _ _⟩

end Loop

/-! ## Transactions -/

variable {volume : Volume sb} {f : OpenFile sb}

/-- The file of an inode has no holes: every block that it has bytes in is there. -/
def Volume.NoHoles (volume : Volume sb) (inum : Fin sb.ninodes) : Prop :=
  ∀ bn, bn * BSIZE < (volume.inode inum).size → ∃ position, filePosition bn = some position ∧
    address volume.disk.blocks (volume.inode inum) 0 position ≠ 0

theorem Volume.Sound.noHoles (sound : volume.Sound) {inum : Fin sb.ninodes}
    (isFile : volume.IsFile inum) : volume.NoHoles inum := by
  intro bn below
  obtain ⟨position, isPosition, full⟩ := sound.backed inum isFile bn below
  obtain ⟨blockno, isHeld⟩ := Option.ne_none_iff_exists'.mp full
  obtain ⟨-, nonzero, isAddress⟩ := listed_eq_some.mp isHeld
  exact ⟨position, isPosition, isAddress ▸ nonzero⟩

theorem Volume.Sound.bootMarked (sound : volume.Sound) : volume.disk.BootMarked :=
  fun positive => sound.accounts.marked 0 positive (Or.inl rfl)

/-- The blocks of a transaction. -/
theorem card_le_of_spends {log : List Nat} {addrs addrs' : Addrs} {data bitmaps : Finset Nat}
    {k : Nat} (spends : Spends log addrs addrs' data bitmaps k) :
    log.toFinset.card ≤ data.card + bitmaps.card + 1 := by
  have subset : log.toFinset ⊆ data ∪ bitmaps ∪ {addrs' indirectSlot} := by
    intro b member
    simp only [Finset.mem_union, Finset.mem_singleton]
    rcases spends.logs b (List.mem_toFinset.mp member) with isData | ⟨-, isIndirect⟩ | isBitmap
    · exact .inl (.inl isData)
    · exact .inr isIndirect
    · exact .inl (.inr isBitmap)
  calc log.toFinset.card ≤ (data ∪ bitmaps ∪ {addrs' indirectSlot}).card :=
        Finset.card_le_card subset
    _ ≤ (data ∪ bitmaps).card + 1 := Finset.card_union_le ..
    _ ≤ data.card + bitmaps.card + 1 := Nat.add_le_add_right (Finset.card_union_le ..) 1

/-- A file without holes: the loop logs one block less than the log has room for. -/
theorem writeLoopLogged_card {inode : Dinode} {disk after : Disk sb} {off off' n : Nat}
    {addrs' : Addrs} {log : List Nat} {src : Nat → UInt8} (boot : disk.BootMarked)
    (mapped : ∀ bn, bn * BSIZE < inode.size → ∃ position, filePosition bn = some position ∧
      address disk.blocks inode 0 position ≠ 0)
    (reached : off ≤ inode.size) (piece : n ≤ maxWrite)
    (writes : writeLoopLogged disk inode.addrs off 0 n src = .ok (log, off', addrs', after)) :
    log.toFinset.card + 1 ≤ MAXOPBLOCKS := by
  have isMax := maxWrite_eq
  by_cases aligned : off % BSIZE = 0
  · obtain ⟨data, bitmaps, spends⟩ := writeLoopLogged_spends (k := 3) boot (fun _ => by
      simp only [BSIZE] at *
      omega) writes
    have blocks := spends.blocks
    have maps := spends.maps
    have total := card_le_of_spends spends
    have one := pending_le_one inode.addrs
    simp only [MAXOPBLOCKS]
    omega
  · by_cases more : 0 < n
    · -- the first block is there, so only the later ones can be new
      obtain ⟨first, addr, middle, disk', rest, rfl, isMapped, later⟩ :=
        writeLoopLogged_step more writes
      obtain ⟨position, isPosition, full⟩ := mapped (off / BSIZE) (by
        simp only [BSIZE] at *
        omega)
      obtain ⟨addr', isThere⟩ := bmapLogged_mapped isPosition full
      rw [isThere] at isMapped
      cases isMapped
      have boot' : (disk.writeBlock addr (moveInto (disk.blocks addr) off 0 (chunk off 0 n)
          src)).BootMarked := boot
      obtain ⟨data, bitmaps, spends⟩ := writeLoopLogged_spends (k := 3) boot' (fun still => by
        simp only [chunk, BSIZE] at *
        omega) later
      have blocks := spends.blocks
      have maps := spends.maps
      have total := card_le_of_spends spends
      have whole : ([] ++ [addr] ++ rest).toFinset.card ≤ rest.toFinset.card + 1 := by
        rw [List.nil_append, List.singleton_append, List.toFinset_cons]
        exact Finset.card_insert_le ..
      have one := pending_le_one inode.addrs
      simp only [MAXOPBLOCKS]
      omega
    · obtain ⟨rfl, -⟩ := writeLoopLogged_done more writes
      simp [MAXOPBLOCKS]

theorem transaction_card {n1 : Nat} {addr : Nat → UInt8} {log : List Nat}
    {result : Int × OpenFile sb × Volume sb} (noHoles : volume.NoHoles f.ip)
    (boot : volume.disk.BootMarked) (piece : n1 ≤ maxWrite)
    (writes : volume.transaction f n1 addr = .ok (log, result)) :
    log.toFinset.card ≤ MAXOPBLOCKS := by
  have isMax := maxWrite_eq
  unfold Volume.transaction at writes
  cases isWrite : volume.writeiLogged f.ip f.off (UInt32.ofNat n1) addr with
  | error panic => rw [isWrite] at writes; cases writes
  | ok written =>
      obtain ⟨log', r, after⟩ := written
      rw [isWrite] at writes
      cases writes
      have small : (UInt32.ofNat n1).toNat = n1 := by
        rw [UInt32.toNat_ofNat']
        exact Nat.mod_eq_of_lt (by omega)
      unfold Volume.writeiLogged at isWrite
      simp only at isWrite
      split at isWrite
      · cases isWrite
        simp [MAXOPBLOCKS]
      · next accepted =>
          split at isWrite
          · cases isWrite
            simp [MAXOPBLOCKS]
          · rw [small] at isWrite
            rw [not_or, Nat.not_lt] at accepted
            cases loop : writeLoopLogged volume.disk (volume.inode f.ip).addrs f.off.toNat 0 n1
                addr with
            | error panic => rw [loop] at isWrite; cases isWrite
            | ok written =>
                obtain ⟨log, off', addrs', disk⟩ := written
                rw [loop, ok_bind] at isWrite
                have room := writeLoopLogged_card boot noHoles accepted.1 piece loop
                simp only at isWrite
                split at isWrite
                · cases isWrite
                  rw [List.toFinset_append]
                  exact (Finset.card_union_le ..).trans room
                · cases isWrite
                  omega

/-! ## Whole writes -/

/-- The loop of `filewrite`, with what each transaction logs. -/
def writeChunksLogged (volume : Volume sb) (f : OpenFile sb) (i n : Nat) (addr : Nat → UInt8) :
    Except WritePanic (List (List Nat) × Nat × OpenFile sb × Volume sb) :=
  if _ : i < n then do
    let n1 := if n - i > maxWrite then maxWrite else n - i
    let (log, r, f, volume) ← (volume.transaction f n1 fun j => addr (i + j)).mapError .fs
    if r < 0 then return ([log], i, f, volume)
    else if r ≠ n1 then throw .shortFilewrite
    else do
      let (logs, result) ← writeChunksLogged volume f (i + n1) n addr
      return (log :: logs, result)
  else return ([], i, f, volume)
termination_by n - i
decreasing_by
  have positive : 0 < maxWrite := by decide
  split <;> omega

theorem map_writeChunksLogged (volume : Volume sb) (f : OpenFile sb) (i n : Nat)
    (addr : Nat → UInt8) :
    (writeChunksLogged volume f i n addr).map Prod.snd = writeChunks volume f i n addr := by
  induction left : n - i using Nat.strong_induction_on generalizing volume f i with
  | _ left ih =>
    rw [writeChunksLogged, writeChunks]
    split
    · next more =>
        generalize isPiece : (if n - i > maxWrite then maxWrite else n - i) = n1
        have positive : 0 < n1 := by
          rw [maxWrite_eq] at isPiece
          split at isPiece <;> omega
        have same := volume.map_writeiLogged f.ip f.off (UInt32.ofNat n1) fun j => addr (i + j)
        unfold Volume.transaction
        simp only
        rw [← same]
        cases volume.writeiLogged f.ip f.off (UInt32.ofNat n1) fun j => addr (i + j) with
        | error panic => rfl
        | ok written =>
            obtain ⟨log, r, after⟩ := written
            have rest := fun f' => ih (n - (i + n1)) (by omega) after f' (i + n1) rfl
            simp only [Except.map, Except.mapError, bind, Except.bind, pure, Except.pure]
            by_cases refused : r < 0
            · rw [if_pos refused, if_pos refused]
            · rw [if_neg refused, if_neg refused]
              by_cases short : r ≠ n1
              · rw [if_pos short, if_pos short]
                rfl
              · rw [if_neg short, if_neg short, ← rest]
                cases writeChunksLogged after _ (i + n1) n addr <;> rfl
    · rfl

/-- A transaction keeps the block invariants. -/
theorem transaction_sound {n1 : Nat} {addr : Nat → UInt8} {log : List Nat} {r : Int}
    {f' : OpenFile sb} {after : Volume sb} (sound : volume.Sound) (isFile : volume.IsFile f.ip)
    (writes : volume.transaction f n1 addr = .ok (log, r, f', after)) :
    after.Sound ∧ after.IsFile f'.ip := by
  have same := volume.map_writeiLogged f.ip f.off (UInt32.ofNat n1) addr
  have spec := Volume.writei_spec sound isFile f.off (UInt32.ofNat n1) addr
  unfold Volume.transaction at writes
  cases isWrite : volume.writeiLogged f.ip f.off (UInt32.ofNat n1) addr with
  | error panic => rw [isWrite] at writes; cases writes
  | ok written =>
      obtain ⟨log', r', after'⟩ := written
      rw [isWrite] at writes same
      rw [← same] at spec
      obtain ⟨-, afterSound, others, -⟩ := spec
      cases writes
      refine ⟨afterSound, ?_⟩
      split <;> exact (others.isFile f.ip).mpr isFile

/-- Every transaction of a write to a file fits into the log. -/
theorem filewrite_transactions_fit {i n : Nat} {addr : Nat → UInt8} {logs : List (List Nat)}
    {result : Nat × OpenFile sb × Volume sb} (sound : volume.Sound) (isFile : volume.IsFile f.ip)
    (writes : writeChunksLogged volume f i n addr = .ok (logs, result)) :
    ∀ log ∈ logs, log.toFinset.card ≤ MAXOPBLOCKS := by
  induction left : n - i using Nat.strong_induction_on generalizing volume f i logs with
  | _ left ih =>
    rw [writeChunksLogged] at writes
    split at writes
    · next more =>
        generalize isPiece : (if n - i > maxWrite then maxWrite else n - i) = n1 at writes
        have piece : 0 < n1 ∧ n1 ≤ maxWrite := by
          rw [maxWrite_eq] at isPiece ⊢
          split at isPiece <;> omega
        simp only at writes
        cases isFirst : volume.transaction f n1 fun j => addr (i + j) with
        | error panic => rw [isFirst] at writes; cases writes
        | ok written =>
            obtain ⟨log, r, f', after⟩ := written
            have fits := transaction_card (sound.noHoles isFile) sound.bootMarked piece.2 isFirst
            obtain ⟨afterSound, afterFile⟩ := transaction_sound sound isFile isFirst
            rw [isFirst] at writes
            simp only [Except.mapError, bind, Except.bind, pure, Except.pure] at writes
            by_cases refused : r < 0
            · rw [if_pos refused] at writes
              cases writes
              intro log' member
              rw [List.mem_singleton.mp member]
              exact fits
            · rw [if_neg refused] at writes
              by_cases short : r ≠ n1
              · rw [if_pos short] at writes
                cases writes
              · rw [if_neg short] at writes
                cases later : writeChunksLogged after f' (i + n1) n addr with
                | error panic => rw [later] at writes; cases writes
                | ok rest =>
                    obtain ⟨logs', result'⟩ := rest
                    rw [later] at writes
                    cases writes
                    intro log' member
                    rcases List.mem_cons.mp member with rfl | inRest
                    · exact fits
                    · exact ih (n - (i + n1)) (by omega) afterSound afterFile later rfl log' inRest
    · cases writes
      simp

end Coursework.FileSystem
