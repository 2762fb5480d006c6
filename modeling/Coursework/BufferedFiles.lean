import Coursework.BufferedWrites

/-!
# The disk that the buffers show

The functions over the buffers refine those of `FsDisk` and `TransactionBlocks`:
where the buffers show a disk before a call they show the disk of the result after
it.  A new block is none of the metadata, so that setting its bit, zeroing it and
entering it change what the buffers show at these places only; `iupdate` changes one
inode of its block, which is loaded as it was stored because its values fit.
-/

namespace Coursework.FileSystem.Buffered

open State
open RedoLog (Machine LogArea)

variable {sb : Superblock} {area : LogArea} {machine : Machine}

/-- The buffers have the bitmap, the inodes and the blocks of a disk. -/
structure Shows (view : Nat → Block) (disk : Disk sb) : Prop where
  bitmap : ∀ k ≤ sb.size / BPB, view (k + sb.bmapstart) = disk.bitmap k
  dinodes : ∀ inum : Fin sb.ninodes,
    loadDinode (view (IBLOCK sb inum)) inum = some (disk.dinodes inum)
  blocks : ∀ blockno < sb.size, ¬ sb.isMeta blockno → view blockno = disk.blocks blockno

/-! ## The regions of the disk -/

theorem bblock_bounds {blockno : Nat} (below : blockno < sb.size) :
    sb.bmapstart ≤ BBLOCK sb blockno ∧
      BBLOCK sb blockno < sb.bmapstart + (sb.size / BPB + 1) := by
  have block := Nat.div_le_div_right (c := BPB) below.le
  generalize sb.size / BPB = last at *
  unfold BBLOCK
  generalize blockno / BPB = step at *
  omega

theorem iblock_bounds (inum : Fin sb.ninodes) :
    sb.inodestart ≤ IBLOCK sb inum ∧
      IBLOCK sb inum < sb.inodestart + (sb.ninodes / IPB + 1) := by
  have block := Nat.div_le_div_right (c := IPB) inum.isLt.le
  generalize sb.ninodes / IPB = last at *
  unfold IBLOCK
  generalize inum.val / IPB = step at *
  omega

theorem bblock_meta {blockno : Nat} (below : blockno < sb.size) :
    sb.isMeta (BBLOCK sb blockno) :=
  .inr (.inr (.inr (.inr (bblock_bounds below))))

theorem iblock_meta (inum : Fin sb.ninodes) : sb.isMeta (IBLOCK sb inum) :=
  .inr (.inr (.inr (.inl (iblock_bounds inum))))

/-- Blocks that are not metadata are outside the log. -/
theorem Layout.data_home (layout : Layout sb area) {blockno : Nat} (below : blockno < sb.size)
    (notMeta : ¬ sb.isMeta blockno) : Home sb area blockno := by
  refine ⟨below, fun inside => notMeta (.inr (.inr (.inl ?_)))⟩
  rw [← layout.start, ← layout.size]
  exact inside

/-- Blocks behind the log and before the end of the bitmap. -/
theorem Layout.meta_home (layout : Layout sb area) {blockno : Nat}
    (lower : sb.inodestart ≤ blockno) (upper : blockno < sb.bmapstart + (sb.size / BPB + 1)) :
    Home sb area blockno := by
  refine ⟨Nat.lt_of_lt_of_le upper layout.bitmap, fun inside => ?_⟩
  have inLog := inside.2
  rw [layout.start, layout.size] at inLog
  have := layout.log
  omega

theorem Layout.bblock_home (layout : Layout sb area) {blockno : Nat} (below : blockno < sb.size) :
    Home sb area (BBLOCK sb blockno) := by
  have bounds := bblock_bounds below
  have := Nat.le_add_right sb.inodestart (sb.ninodes / IPB + 1)
  have := layout.inodes
  exact layout.meta_home (by omega) bounds.2

theorem Layout.iblock_home (layout : Layout sb area) (inum : Fin sb.ninodes) :
    Home sb area (IBLOCK sb inum) := by
  have bounds := iblock_bounds inum
  have := Nat.le_add_right sb.bmapstart (sb.size / BPB + 1)
  have := layout.inodes
  exact layout.meta_home bounds.1 (by omega)

theorem Layout.iblock_ne (layout : Layout sb area) (inum : Fin sb.ninodes) (k : Nat) :
    IBLOCK sb inum ≠ k + sb.bmapstart := by
  have bounds := iblock_bounds inum
  have := layout.inodes
  omega

/-! ## Changes of a block -/

section Changes

variable {view : Nat → Block} {disk : Disk sb}

theorem Shows.writeBlock (shown : Shows view disk) {blockno : Nat} (below : blockno < sb.size)
    (notMeta : ¬ sb.isMeta blockno) (block : Block) :
    Shows (Function.update view blockno block) (disk.writeBlock blockno block) where
  bitmap := by
    intro k inside
    rw [Function.update_of_ne]
    · exact shown.bitmap k inside
    · rintro rfl
      exact notMeta (.inr (.inr (.inr (.inr ⟨Nat.le_add_left .., by omega⟩))))
  dinodes := by
    intro inum
    rw [Function.update_of_ne]
    · exact shown.dinodes inum
    · rintro rfl
      exact notMeta (iblock_meta inum)
  blocks := by
    intro other otherBelow otherNotMeta
    change _ = Function.update disk.blocks blockno block other
    by_cases same : other = blockno
    · rw [same, Function.update_self, Function.update_self]
    · rw [Function.update_of_ne same, Function.update_of_ne same]
      exact shown.blocks other otherBelow otherNotMeta

theorem Shows.markUsed (shown : Shows view disk) (layout : Layout sb area) {blockno : Nat}
    (below : blockno < sb.size) :
    Shows (Function.update view (BBLOCK sb blockno)
      (setBit (disk.bitmap (blockno / BPB)) (blockno % BPB))) (disk.markUsed blockno) where
  bitmap := by
    intro k inside
    change _ = Function.update disk.bitmap (blockno / BPB) _ k
    by_cases same : k = blockno / BPB
    · rw [same, BBLOCK, Function.update_self, Function.update_self]
    · rw [Function.update_of_ne same, Function.update_of_ne]
      · exact shown.bitmap k inside
      · unfold BBLOCK
        omega
  dinodes := by
    intro inum
    have apart : IBLOCK sb inum ≠ BBLOCK sb blockno := layout.iblock_ne inum (blockno / BPB)
    rw [Function.update_of_ne apart]
    exact shown.dinodes inum
  blocks := by
    intro other otherBelow otherNotMeta
    rw [Function.update_of_ne]
    · exact shown.blocks other otherBelow otherNotMeta
    · rintro rfl
      exact otherNotMeta (bblock_meta below)

theorem Shows.iupdate (shown : Shows view disk) (layout : Layout sb area) {ip : Dinode}
    (fits : ip.Fits) (inum : Fin sb.ninodes) :
    Shows (Function.update view (IBLOCK sb inum) (storeDinode (view (IBLOCK sb inum)) inum ip))
      { disk with dinodes := Function.update disk.dinodes inum ip } where
  bitmap := by
    intro k inside
    rw [Function.update_of_ne (layout.iblock_ne inum k).symm]
    exact shown.bitmap k inside
  dinodes := by
    intro other
    change _ = some (Function.update disk.dinodes inum ip other)
    by_cases same : other = inum
    · rw [same, Function.update_self, Function.update_self]
      exact loadDinode_storeDinode _ _ fits
    · rw [Function.update_of_ne same]
      by_cases sameBlock : IBLOCK sb other = IBLOCK sb inum
      · rw [sameBlock, Function.update_self, loadDinode_storeDinode_of_ne, ← sameBlock]
        · exact shown.dinodes other
        · intro sameIndex
          apply same
          apply Fin.ext
          unfold IBLOCK at sameBlock
          rw [← Nat.div_add_mod other.val IPB, ← Nat.div_add_mod inum.val IPB, sameIndex,
            Nat.add_right_cancel sameBlock]
      · rw [Function.update_of_ne sameBlock]
        exact shown.dinodes other
  blocks := by
    intro other otherBelow otherNotMeta
    rw [Function.update_of_ne]
    · exact shown.blocks other otherBelow otherNotMeta
    · rintro rfl
      exact otherNotMeta (iblock_meta inum)

end Changes

/-! ## Allocation -/

section Allocation

variable {disk : Disk sb}

/-- A block that the bitmap offers is no metadata. -/
theorem free_not_meta (marked : disk.MetaMarked) {blockno : Nat}
    (below : blockno < sb.size) (free : disk.isUsed blockno = false) : ¬ sb.isMeta blockno := by
  intro isMeta
  rw [marked blockno below isMeta] at free
  cases free

/-- What `balloc` does with the block it picks, if there is one. -/
def allocated (disk : Disk sb) : Option Nat → Except Panic (List Nat × Nat × Disk sb)
  | some blockno =>
      .ok ([BBLOCK sb blockno, blockno], blockno, (disk.markUsed blockno).bzero blockno)
  | none => .error .outOfBlocks

/-- The end of `balloc`: mark the block and zero it. -/
theorem take_refines (layout : Layout sb area) (marked : disk.MetaMarked)
    (shown : Shows machine.view disk) {blockno : Nat} (below : blockno < sb.size)
    (unused : disk.isUsed blockno = false) :
    Refines sb area machine (allocated disk (some blockno))
      (fun addr after result => addr = result.1 ∧ Shows after.view result.2)
      ((do
        logWrite area (BBLOCK sb blockno) (setBit (disk.bitmap (blockno / BPB)) (blockno % BPB))
        bzero area blockno
        return blockno : Kernel Nat) machine) := by
  have notMeta := free_not_meta marked below unused
  have isSeq : allocated disk (some blockno) =
      seqLogged (.ok ([BBLOCK sb blockno], ())) fun _ : Unit =>
        seqLogged (.ok ([blockno], ())) fun _ : Unit =>
          .ok ([], blockno, (disk.markUsed blockno).bzero blockno) := rfl
  rw [isSeq]
  refine (Refines.logWrite layout (layout.bblock_home below)).bind ?_
  intro _ middle _ _ _ _ isView
  have isMarked := shown.markUsed layout below
  rw [← isView] at isMarked
  have zeroes : Refines sb area middle (.ok ([blockno], ()))
      (fun (_ : Unit) after _ => after.view = Function.update middle.view blockno fun _ => 0)
      (bzero area blockno middle) := by
    rw [bzero]
    apply Refines.bread
    intro _ _ sameView
    rw [← sameView]
    exact Refines.logWrite layout (layout.data_home below notMeta)
  refine zeroes.bind ?_
  intro _ after _ _ _ _ isZeroed
  refine .pure ⟨rfl, ?_⟩
  rw [isZeroed]
  exact isMarked.writeBlock below notMeta _

theorem freeBit_eq (disk : Disk sb) (step : Nat) :
    freeBit sb (disk.bitmap step) (step * BPB) = disk.freeBit (step * BPB) := by
  have isStep : step * BPB / BPB = step := Nat.mul_div_cancel _ (by decide)
  unfold freeBit Disk.freeBit
  simp only [isStep]

theorem ballocFrom_refines (layout : Layout sb area) (marked : disk.MetaMarked)
    (shown : Shows machine.view disk) (steps : List Nat)
    (inside : ∀ step ∈ steps, step ≤ sb.size / BPB) :
    Refines sb area machine
      (allocated disk (steps.findSome? fun step =>
        (disk.freeBit (step * BPB)).map (step * BPB + ·)))
      (fun addr after result => addr = result.1 ∧ Shows after.view result.2)
      (ballocFrom sb area (steps.map (· * BPB)) machine) := by
  induction steps generalizing machine with
  | nil =>
      change Refines sb area machine (.error .outOfBlocks) _ (.error (.fs .outOfBlocks) machine)
      exact .panic rfl rfl rfl
  | cons step steps ih =>
      have positive : 0 < BPB := by decide
      have isStep : step * BPB / BPB = step := Nat.mul_div_cancel _ positive
      have bitmap : machine.view (BBLOCK sb (step * BPB)) = disk.bitmap step := by
        rw [BBLOCK, isStep]
        exact shown.bitmap step (inside step (List.mem_cons_self ..))
      rw [List.map_cons, ballocFrom]
      apply Refines.bread
      intro after logs view
      rw [bitmap, freeBit_eq, List.findSome?_cons]
      cases isFree : disk.freeBit (step * BPB) with
      | none =>
          exact ih (view ▸ shown) fun other member => inside other (List.mem_cons_of_mem _ member)
      | some bi =>
          obtain ⟨inBlock, below, clear⟩ := Disk.freeBit_spec isFree
          obtain ⟨blockno, isBlock⟩ : ∃ blockno, blockno = step * BPB + bi := ⟨_, rfl⟩
          have block : blockno / BPB = step := by
            rw [isBlock, Nat.mul_comm, Nat.mul_add_div positive, Nat.div_eq_of_lt inBlock,
              Nat.add_zero]
          have index : blockno % BPB = bi := by
            rw [isBlock, Nat.mul_comm, Nat.mul_add_mod, Nat.mod_eq_of_lt inBlock]
          have unused : disk.isUsed blockno = false := by
            rw [Disk.isUsed, block, index]
            rwa [isStep] at clear
          have sameBlock : BBLOCK sb (step * BPB) = BBLOCK sb blockno := by
            rw [BBLOCK, BBLOCK, isStep, block]
          rw [← isBlock] at below
          have taken := take_refines layout marked (view ▸ shown : Shows after.view disk) below
            unused
          rw [block, index] at taken
          rw [Option.map_some, sameBlock]
          dsimp only
          rw [← isBlock]
          exact taken

theorem ballocLogged_eq (disk : Disk sb) : disk.ballocLogged = allocated disk disk.freeBlock := by
  unfold Disk.ballocLogged
  cases disk.freeBlock <;> rfl

theorem balloc_refines (layout : Layout sb area) (marked : disk.MetaMarked)
    (shown : Shows machine.view disk) :
    Refines sb area machine disk.ballocLogged
      (fun addr after result => addr = result.1 ∧ Shows after.view result.2)
      (balloc sb area machine) := by
  rw [ballocLogged_eq]
  apply ballocFrom_refines layout marked shown
  intro step member
  have := List.mem_range.mp member
  simp only [BPB, BSIZE] at *
  omega

theorem slotBlock_refines (layout : Layout sb area) (marked : disk.MetaMarked)
    (shown : Shows machine.view disk) (addrs : Addrs) (slot : Fin (NDIRECT + 1)) :
    Refines sb area machine (disk.slotBlockLogged addrs slot)
      (fun value after result => value = (result.1, result.2.1) ∧ Shows after.view result.2.2)
      (slotBlock sb area addrs slot machine) := by
  unfold slotBlock Disk.slotBlockLogged
  split
  · have isSeq : (disk.ballocLogged >>= fun result => pure (result.1, result.2.1,
        Function.update addrs slot result.2.1, result.2.2)) =
        seqLogged disk.ballocLogged fun result =>
          .ok ([], result.1, Function.update addrs slot result.1, result.2) := by
      cases disk.ballocLogged with
      | error panic => rfl
      | ok result =>
          change Except.ok _ = Except.ok _
          rw [List.append_nil]
    refine Eq.mpr (congrArg (fun call => Refines sb area machine call _ _) isSeq) ?_
    refine (balloc_refines layout marked shown).bind ?_
    rintro _ after log result - - ⟨rfl, shown⟩
    exact .pure ⟨rfl, shown⟩
  · exact .pure ⟨rfl, shown⟩

theorem wordBlock_refines (layout : Layout sb area) (marked : disk.MetaMarked)
    (shown : Shows machine.view disk) {indirect : Nat} (below : indirect < sb.size)
    (notMeta : ¬ sb.isMeta indirect) (bn : Nat) :
    Refines sb area machine (disk.wordBlockLogged indirect bn)
      (fun value after result => value = result.1 ∧ Shows after.view result.2)
      (wordBlock sb area indirect bn machine) := by
  unfold wordBlock Disk.wordBlockLogged
  apply Refines.bread
  intro after logs view
  rw [shown.blocks indirect below notMeta]
  simp only
  split
  · have isSeq : (disk.ballocLogged >>= fun result => pure (result.1 ++ [indirect], result.2.1,
        result.2.2.writeBlock indirect (Disk.setWord (disk.blocks indirect) bn result.2.1))) =
        seqLogged disk.ballocLogged fun result =>
          seqLogged (.ok ([indirect], ())) fun _ => .ok ([], result.1,
            result.2.writeBlock indirect (Disk.setWord (disk.blocks indirect) bn result.1)) := by
      cases disk.ballocLogged <;> rfl
    refine Eq.mpr (congrArg (fun call => Refines sb area after call _ _) isSeq) ?_
    refine (balloc_refines layout marked (view ▸ shown)).bind ?_
    rintro _ middle log result - - ⟨rfl, shown⟩
    refine (Refines.logWrite layout (layout.data_home below notMeta)).bind ?_
    intro _ written _ _ _ _ isView
    refine .pure ⟨rfl, ?_⟩
    rw [isView]
    exact shown.writeBlock below notMeta _
  · exact .pure ⟨rfl, view ▸ shown⟩

end Allocation

/-! ## Files -/

section Files

variable {disk after : Disk sb} {inodes : Fin sb.ninodes → Dinode} {inum : Fin sb.ninodes}
  {log : List Nat}

theorem ok_of_logged {Value : Type} {logged : Except Panic (List Nat × Value)}
    {call : Except Panic Value} (same : logged.map Prod.snd = call) {value : Value}
    (isCall : logged = .ok (log, value)) : call = .ok value := by
  rw [← same, isCall]
  rfl

/-- Blocks of a file can be changed in a transaction. -/
theorem held_data {released : Fin sb.ninodes → Nat} (accounts : disk.Accounts inodes released)
    {place : Fin sb.ninodes × Position} {blockno : Nat}
    (isHeld : holdings disk.blocks inodes released place = some blockno) :
    blockno < sb.size ∧ ¬ sb.isMeta blockno :=
  ⟨accounts.owns.inside place blockno isHeld, accounts.owns.unreserved place blockno isHeld⟩

/-- Two calls in a row whose logs are put together. -/
theorem bind_logged {First Second Value : Type} (first : Except Panic (List Nat × First))
    (second : First → Except Panic (List Nat × Second)) (value : First → Second → Value) :
    (first >>= fun a => second a.2 >>= fun b => pure (a.1 ++ b.1, value a.2 b.2)) =
      seqLogged first fun a => seqLogged (second a) fun b => .ok ([], value a b) := by
  cases first with
  | error panic => rfl
  | ok a =>
      simp only [seqLogged, ok_bind]
      cases second a.2 with
      | error panic => rfl
      | ok b =>
          simp only [ok_bind, List.append_nil]
          rfl

theorem bmap_refines (layout : Layout sb area) (accounts : disk.Accounts inodes fun _ => 0)
    (allocated : (inodes inum).type ≠ .free) (shown : Shows machine.view disk) (bn : Nat) :
    Refines sb area machine (disk.bmapLogged (inodes inum).addrs bn)
      (fun value after result => value = (result.1, result.2.1) ∧ Shows after.view result.2.2)
      (bmap sb area (inodes inum).addrs bn machine) := by
  unfold bmap Disk.bmapLogged
  split
  · exact slotBlock_refines layout accounts.marked shown _ _
  · split
    · have isSeq : (disk.slotBlockLogged (inodes inum).addrs indirectSlot >>= fun first =>
          first.2.2.2.wordBlockLogged first.2.1 (bn - NDIRECT) >>= fun second =>
            pure (first.1 ++ second.1, second.2.1, first.2.2.1, second.2.2)) =
          seqLogged (disk.slotBlockLogged (inodes inum).addrs indirectSlot) fun first =>
            seqLogged (first.2.2.wordBlockLogged first.1 (bn - NDIRECT)) fun second =>
              .ok ([], second.1, first.2.1, second.2) :=
        bind_logged (disk.slotBlockLogged (inodes inum).addrs indirectSlot)
          (fun first => first.2.2.wordBlockLogged first.1 (bn - NDIRECT))
          fun first second => (second.1, first.2.1, second.2)
      refine Eq.mpr (congrArg (fun call => Refines sb area machine call _ _) isSeq) ?_
      refine (slotBlock_refines layout accounts.marked shown _ _).bind ?_
      rintro _ middle log ⟨indirect, addrs, disk'⟩ isFirst - ⟨rfl, shown'⟩
      have grows := slotBlock_grows accounts allocated
        (ok_of_logged (map_slotBlockLogged ..) isFirst)
      obtain ⟨below, notMeta⟩ := held_data grows.accounts grows.result
      refine (wordBlock_refines layout grows.accounts.marked shown' below notMeta _).bind ?_
      rintro _ last log ⟨addr, disk''⟩ - - ⟨rfl, shown''⟩
      exact .pure ⟨rfl, shown''⟩
    · exact .panic rfl rfl rfl

/-- The loop of `writei`, with the accounts of the disk that it leaves. -/
theorem writeLoop_refines (layout : Layout sb area) (accounts : disk.Accounts inodes fun _ => 0)
    (allocated : (inodes inum).type ≠ .free) (shown : Shows machine.view disk)
    (off tot n : Nat) (src : Nat → UInt8) :
    Refines sb area machine (writeLoopLogged disk (inodes inum).addrs off tot n src)
      (fun value after result => value = (result.1, result.2.1) ∧ Shows after.view result.2.2 ∧
        result.2.2.Accounts
          (Function.update inodes inum { inodes inum with addrs := result.2.1 }) fun _ => 0)
      (writeLoop sb area (inodes inum).addrs off tot n src machine) := by
  induction left : n - tot using Nat.strong_induction_on
    generalizing machine disk inodes off tot with
  | _ left ih =>
    subst left
    rw [writeLoop, writeLoopLogged]
    split
    · next more =>
        have positive := @chunk_pos off tot n more
        have isSeq : (disk.bmapLogged (inodes inum).addrs (off / BSIZE) >>= fun first =>
            writeLoopLogged (first.2.2.2.writeBlock first.2.1
              (moveInto (first.2.2.2.blocks first.2.1) off tot (chunk off tot n) src))
              first.2.2.1 (off + chunk off tot n) (tot + chunk off tot n) n src >>= fun rest =>
            pure (first.1 ++ first.2.1 :: rest.1, rest.2)) =
            seqLogged (disk.bmapLogged (inodes inum).addrs (off / BSIZE)) fun first =>
              seqLogged (.ok ([first.1], ())) fun _ : Unit =>
                writeLoopLogged (first.2.2.writeBlock first.1
                  (moveInto (first.2.2.blocks first.1) off tot (chunk off tot n) src))
                  first.2.1 (off + chunk off tot n) (tot + chunk off tot n) n src := by
          cases disk.bmapLogged (inodes inum).addrs (off / BSIZE) with
          | error panic => rfl
          | ok first =>
              simp only [seqLogged, ok_bind]
              cases writeLoopLogged (first.2.2.2.writeBlock first.2.1
                (moveInto (first.2.2.2.blocks first.2.1) off tot (chunk off tot n) src))
                first.2.2.1 (off + chunk off tot n) (tot + chunk off tot n) n src <;> rfl
        refine Eq.mpr (congrArg (fun call => Refines sb area machine call _ _) isSeq) ?_
        refine (bmap_refines layout accounts allocated shown _).bind ?_
        rintro _ middle log ⟨addr, addrs', disk'⟩ isFirst - ⟨rfl, shown'⟩
        obtain ⟨position, isPosition, grows⟩ := bmap_grows accounts allocated rfl
          (ok_of_logged (map_bmapLogged ..) isFirst)
        have leaf : (inum, position).2 ≠ .slot indirectSlot := filePosition_leaf isPosition
        obtain ⟨below, notMeta⟩ := held_data grows.accounts grows.result
        apply Refines.bread
        intro filled _ sameView
        rw [shown'.blocks addr below notMeta]
        refine (Refines.logWrite layout (layout.data_home below notMeta)).bind ?_
        intro _ written _ _ _ _ isView
        have shown'' := shown'.writeBlock below notMeta
          (moveInto (disk'.blocks addr) off tot (chunk off tot n) src)
        rw [← sameView, ← isView] at shown''
        have later := ih (n - (tot + chunk off tot n)) (by omega)
          (grows.accounts.stored grows.result leaf _) (by rw [Function.update_self]; exact allocated)
          shown'' (off + chunk off tot n) (tot + chunk off tot n) rfl
        rw [Function.update_self] at later
        refine later.mono ?_
        rintro value last log result - ⟨isValue, isShown, kept⟩
        rw [Function.update_idem] at kept
        exact ⟨isValue, isShown, kept⟩
    · refine .pure ⟨rfl, shown, ?_⟩
      rw [update_addrs_self]
      exact accounts

/-- The loop ends behind the last byte. -/
theorem writeLoopLogged_end {addrs addrs' : Addrs} {off off' tot n : Nat} {src : Nat → UInt8}
    (writes : writeLoopLogged disk addrs off tot n src = .ok (log, off', addrs', after)) :
    off' = off + (n - tot) := by
  induction left : n - tot using Nat.strong_induction_on generalizing disk addrs off tot log with
  | _ left ih =>
    subst left
    by_cases more : tot < n
    · have positive := @chunk_pos off tot n more
      have fewer := chunk_le off tot n
      obtain ⟨first, addr, middle, disk', rest, -, -, later⟩ := writeLoopLogged_step more writes
      have isEnd := ih (n - (tot + chunk off tot n)) (by omega) later rfl
      omega
    · rw [writeLoopLogged, dif_neg more] at writes
      cases writes
      omega

end Files

end Coursework.FileSystem.Buffered
