import Coursework.BufferedFiles

/-!
# Writes that survive a crash

`filewrite` over the buffers and the log.  Each piece of a write is a transaction
that `end_op` commits, so that the disk writes of the call are those of its commits
in order.  The call returns what `filewrite` on a volume returns, and `log_write`
always has room.

A crash between two of the disk writes, with any number of further crashes inside
`recover_from_log`, leaves after a recovery the blocks of a volume in which a
number of whole pieces of the write is stored: those whose commits were complete,
and perhaps the piece of the commit that was under way.
-/

namespace Coursework.FileSystem.Buffered

open State
open RedoLog (Machine LogArea RecoveryCrashes recoveredDisk Recoverable commit commitWrites)

variable {sb : Superblock} {area : LogArea} {machine : Machine}

/-! ## The calls -/

/-- `end_op` of the only operation in progress. -/
def endOp (area : LogArea) : Kernel Unit := fun machine => .ok () (commit area machine)

section Calls

variable (sb : Superblock) (area : LogArea)

/-- The loop of `filewrite`, with the inode of the file. -/
def writeChunks (ip : Dinode) (f : OpenFile sb) (i n : Nat) (addr : Nat → UInt8) :
    Kernel (Nat × OpenFile sb × Dinode) :=
  if _ : i < n then do
    let n1 := if n - i > maxWrite then maxWrite else n - i
    let (r, ip) ← writei sb area f.ip ip f.off (UInt32.ofNat n1) fun j => addr (i + j)
    let f := if 0 < r then { f with off := f.off + UInt32.ofNat r.toNat } else f
    endOp area
    if r < 0 then return (i, f, ip)
    else if r ≠ n1 then throw .shortFilewrite
    else writeChunks ip f (i + n1) n addr
  else return (i, f, ip)
termination_by n - i
decreasing_by
  have positive : 0 < maxWrite := by decide
  split <;> omega

/-- `filewrite` of a number of bytes to a file that is no pipe. -/
def filewrite (ip : Dinode) (f : OpenFile sb) (addr : Nat → UInt8) (n : Nat) :
    Kernel (Int × OpenFile sb × Dinode) :=
  if f.writable = false then return (-1, f, ip)
  else do
    let (i, f, ip) ← writeChunks sb area ip f 0 n addr
    return (if i = n then n else -1, f, ip)

end Calls

/-! ## One call of `writei` -/

section Writei

variable {volume : Volume sb} {inum : Fin sb.ninodes}

theorem iupdate_refines (layout : Layout sb area) {disk : Disk sb}
    (shown : Shows machine.view disk) {ip : Dinode} (fits : ip.Fits) (inum : Fin sb.ninodes) :
    Refines sb area machine (.ok ([IBLOCK sb inum], ()))
      (fun _ after _ => Shows after.view
        { disk with dinodes := Function.update disk.dinodes inum ip })
      (iupdate sb area inum ip machine) := by
  rw [iupdate]
  apply Refines.bread
  intro filled _ sameView
  refine (Refines.logWrite layout (layout.iblock_home inum)).mono ?_
  intro _ written _ _ _ isView
  rw [isView, sameView]
  exact shown.iupdate layout fits inum

/-- The block numbers of an allocated inode are those of blocks of the disk. -/
theorem addrs_lt {inodes : Fin sb.ninodes → Dinode} {disk : Disk sb}
    (accounts : disk.Accounts inodes fun _ => 0) (allocated : (inodes inum).type ≠ .free)
    (slot : Fin (NDIRECT + 1)) : (inodes inum).addrs slot < 2 ^ 32 := by
  by_cases missing : (inodes inum).addrs slot = 0
  · omega
  · have isHeld : holdings disk.blocks inodes (fun _ => 0) (inum, .slot slot) =
        some ((inodes inum).addrs slot) := listed_eq_some.mpr ⟨allocated, missing, rfl⟩
    have below := (held_data accounts isHeld).1
    have := sb.sizeFits
    omega

theorem writei_refines (layout : Layout sb area)
    (accounts : volume.disk.Accounts volume.inode fun _ => 0)
    (allocated : (volume.inode inum).type ≠ .free) (fits : (volume.inode inum).Fits)
    (shown : Shows machine.view volume.disk) (off n : UInt32) (src : Nat → UInt8) :
    Refines sb area machine (volume.writeiLogged inum off n src)
      (fun value after result =>
        value = (result.1, result.2.inode inum) ∧ Shows after.view result.2.disk)
      (writei sb area inum (volume.inode inum) off n src machine) := by
  unfold writei Volume.writeiLogged
  simp only
  split
  · exact .pure ⟨rfl, shown⟩
  · next accepted =>
      split
      · exact .pure ⟨rfl, shown⟩
      · next inside =>
          set ip := volume.inode inum with isIp
          set start := writeLoopLogged volume.disk ip.addrs off.toNat 0 n.toNat src with isStart
          have isSeq : (start >>= fun first =>
              if 0 < n ∧ first.2.1 > ip.size then
                pure (first.1 ++ [IBLOCK sb inum], (n.toNat : Int),
                  (volume.setAddrs inum first.2.2.2 first.2.2.1).setSize inum first.2.1)
              else pure (first.1, (n.toNat : Int),
                volume.setAddrs inum first.2.2.2 first.2.2.1)) =
              seqLogged start fun first =>
                if 0 < n ∧ first.1 > ip.size then
                  seqLogged (.ok ([IBLOCK sb inum], ())) fun _ : Unit => .ok ([], (n.toNat : Int),
                    (volume.setAddrs inum first.2.2 first.2.1).setSize inum first.1)
                else .ok ([], (n.toNat : Int), volume.setAddrs inum first.2.2 first.2.1) := by
            cases start with
            | error panic => rfl
            | ok first =>
                simp only [seqLogged, ok_bind]
                split
                · rfl
                · simp only [ok_bind, List.append_nil]
          refine Eq.mpr (congrArg (fun call => Refines sb area machine call _ _) isSeq) ?_
          refine (writeLoop_refines layout accounts allocated shown _ _ _ src).bind ?_
          rintro _ after log ⟨off', addrs', disk'⟩ isFirst - ⟨rfl, shown', kept⟩
          have isEnd : off' = off.toNat + n.toNat := by
            rw [writeLoopLogged_end isFirst, Nat.sub_zero]
          simp only
          split
          · have small : off' < 2 ^ 32 := by
              rw [not_or, UInt32.not_lt, UInt32.le_iff_toNat_le] at accepted
              have := UInt32.toNat_add off n
              have := off.toNat_lt
              have := n.toNat_lt
              omega
            have fits' : ({ ip with addrs := addrs', size := off' } : Dinode).Fits := by
              refine ⟨fits.major, fits.minor, fits.nlink, small, ?_⟩
              have still : (Function.update volume.inode inum { ip with addrs := addrs' } inum).type ≠
                  .free := by
                rw [Function.update_self]
                exact allocated
              have below := addrs_lt kept still
              rwa [Function.update_self] at below
            refine (iupdate_refines layout shown' fits' inum).bind ?_
            intro _ last _ _ _ _ isLast
            refine .pure ⟨?_, ?_⟩
            · simp [Volume.setSize, Volume.setAddrs, isIp]
            · simpa [Volume.setSize, Volume.setAddrs] using isLast
          · refine .pure ⟨?_, shown'⟩
            simp [Volume.setAddrs, isIp]

/-! ## The inodes on disk -/

/-- The loop of `writei` changes no inode on disk, and lists no other block while it stays within
the file. -/
theorem writeLoop_kept {inodes : Fin sb.ninodes → Dinode} {disk after : Disk sb}
    {addrs' : Addrs} {off off' tot n : Nat} {src : Nat → UInt8}
    (accounts : disk.Accounts inodes fun _ => 0) (allocated : (inodes inum).type ≠ .free)
    (writes : FileSystem.writeLoop disk (inodes inum).addrs off tot n src = .ok (off', addrs', after)) :
    after.dinodes = disk.dinodes ∧ ∀ len, off + (n - tot) ≤ len →
      Backed (fun position => holdings disk.blocks inodes (fun _ => 0) (inum, position)) len →
      addrs' = (inodes inum).addrs := by
  induction left : n - tot using Nat.strong_induction_on
    generalizing disk inodes off tot with
  | _ left ih =>
    subst left
    rw [FileSystem.writeLoop] at writes
    split at writes
    · next more =>
        have positive := @chunk_pos off tot n more
        have fewer := chunk_le off tot n
        cases mapped : disk.bmap (inodes inum).addrs (off / BSIZE) with
        | error panic => rw [mapped] at writes; cases writes
        | ok first =>
            obtain ⟨addr, addrs, middle⟩ := first
            rw [mapped, ok_bind] at writes
            obtain ⟨position, isPosition, grows⟩ := bmap_grows accounts allocated rfl mapped
            have leaf : (inum, position).2 ≠ .slot indirectSlot := filePosition_leaf isPosition
            have updated : Function.update inodes inum { inodes inum with addrs := addrs } inum =
                { inodes inum with addrs := addrs } := Function.update_self ..
            simp only at writes
            have later := ih (n - (tot + chunk off tot n)) (by omega)
              (grows.accounts.stored grows.result leaf _) (by rw [updated]; exact allocated)
              (by rw [updated]; exact writes) rfl
            rw [updated] at later
            obtain ⟨dinodes, within⟩ := later
            refine ⟨dinodes.trans grows.dinodes, fun len inside backed => ?_⟩
            obtain ⟨position', isPosition', full⟩ := backed (off / BSIZE) (by
              simp only [BSIZE] at *
              omega)
            rw [isPosition] at isPosition'
            cases isPosition'
            obtain ⟨rfl, rfl⟩ := grows.unchanged full
            refine within len (by omega) ?_
            have same := grows.accounts.writeBlock grows.result leaf
              (moveInto (middle.blocks addr) off tot (chunk off tot n) src)
            rw [same, update_addrs_self]
            exact backed
    · cases writes
      exact ⟨rfl, fun _ _ _ => rfl⟩

theorem logged_of_ok {Value : Type} {logged : Except Panic (List Nat × Value)}
    {call : Except Panic Value} (same : logged.map Prod.snd = call) {value : Value}
    (isCall : call = .ok value) : ∃ log, logged = .ok (log, value) := by
  subst same
  cases logged with
  | error panic => cases isCall
  | ok result =>
      cases isCall
      exact ⟨result.1, rfl⟩

/-- `writei` writes the inode whenever it changes it. -/
theorem writei_synced {after : Volume sb} {off n : UInt32} {src : Nat → UInt8} {r : Int}
    (sound : volume.Sound) (isFile : volume.IsFile inum)
    (synced : volume.disk.dinodes = volume.inode)
    (writes : volume.writei inum off n src = .ok (r, after)) :
    after.disk.dinodes = after.inode := by
  unfold Volume.writei at writes
  simp only at writes
  split at writes
  · cases writes
    exact synced
  · next accepted =>
      split at writes
      · cases writes
        exact synced
      · cases loop : FileSystem.writeLoop volume.disk (volume.inode inum).addrs off.toNat 0 n.toNat
            src with
        | error panic => rw [loop] at writes; cases writes
        | ok first =>
            obtain ⟨off', addrs', disk'⟩ := first
            rw [loop, ok_bind] at writes
            cases writes
            have allocated : (volume.inode inum).type ≠ .free := by
              rcases isFile with isType | isType <;> rw [isType] <;> decide
            obtain ⟨dinodes, within⟩ := writeLoop_kept sound.accounts allocated loop
            split
            · simp only [Volume.setSize, Volume.setAddrs, Function.update_self,
                Function.update_idem, dinodes, synced]
            · next notGrown =>
                have isEnd : off' = off.toNat + n.toNat := by
                  obtain ⟨log, isLogged⟩ := logged_of_ok (map_writeLoopLogged ..) loop
                  rw [writeLoopLogged_end isLogged, Nat.sub_zero]
                have inside : off.toNat + (n.toNat - 0) ≤ (volume.inode inum).size := by
                  rw [not_or] at accepted
                  rcases Nat.eq_zero_or_pos n.toNat with isZero | positive
                  · omega
                  · have more : 0 < n := positive
                    rw [not_and] at notGrown
                    have := notGrown more
                    omega
                have sameAddrs := within _ inside (sound.backed inum isFile)
                simp only [Volume.setAddrs, sameAddrs, Function.update_eq_self, dinodes, synced]

end Writei

/-! ## The disk writes of a commit -/

section Commit

/-- A machine that has issued other disk writes before. -/
def behind (issued : List (Nat × Block)) (machine : Machine) : Machine :=
  { machine with writes := issued ++ machine.writes }

variable (issued : List (Nat × Block)) (machine : Machine)

theorem bread_behind (blockno : Nat) : RedoLog.bread (behind issued machine) blockno =
    ((RedoLog.bread machine blockno).1, behind issued (RedoLog.bread machine blockno).2) := by
  unfold RedoLog.bread behind
  simp only
  cases machine.cache blockno <;> rfl

theorem bwrite_behind (blockno : Nat) (data : Block) :
    RedoLog.bwrite (behind issued machine) blockno data =
      behind issued (RedoLog.bwrite machine blockno data) := by
  simp only [RedoLog.bwrite, behind, List.append_assoc]

theorem installTrans_behind : RedoLog.installTrans area (behind issued machine) =
    behind issued (RedoLog.installTrans area machine) := by
  unfold RedoLog.installTrans
  refine List.foldl_hom (behind issued) fun current tail => ?_
  rw [RedoLog.installBlock, bread_behind]
  simp only
  rw [bread_behind]
  exact bwrite_behind issued _ _ _

theorem writeLog_behind : RedoLog.writeLog area (behind issued machine) =
    behind issued (RedoLog.writeLog area machine) := by
  unfold RedoLog.writeLog
  refine List.foldl_hom (behind issued) fun current tail => ?_
  rw [RedoLog.writeLogBlock, bread_behind]
  simp only
  rw [bread_behind]
  exact bwrite_behind issued _ _ _

theorem writeHead_behind : RedoLog.writeHead area (behind issued machine) =
    behind issued (RedoLog.writeHead area machine) := by
  rw [RedoLog.writeHead, bread_behind]
  exact bwrite_behind issued _ _ _

theorem clearHead_behind : RedoLog.clearHead area (behind issued machine) =
    behind issued (RedoLog.clearHead area machine) :=
  writeHead_behind issued { machine with lh := [] }

theorem commit_behind : commit area (behind issued machine) =
    behind issued (commit area machine) := by
  have same : (behind issued machine).lh = machine.lh := rfl
  unfold commit
  rw [same]
  split
  · dsimp only
    rw [writeLog_behind, writeHead_behind, installTrans_behind, clearHead_behind]
  · rfl

variable {issued machine}

/-- What `commit` leaves: its disk writes are applied to the disk and to the buffers. -/
theorem commit_spec (fits : RedoLog.Fits area machine.lh) :
    (commit area machine).writes = machine.writes ++ commitWrites area machine ∧
      (commit area machine).disk = applyWrites (commitWrites area machine) machine.disk ∧
      (commit area machine).view = applyWrites (commitWrites area machine) machine.view ∧
      (commit area machine).lh = [] := by
  obtain ⟨base, isBase⟩ : ∃ base : Machine, base = { machine with writes := [] } := ⟨_, rfl⟩
  have isBehind : machine = behind machine.writes base := by
    rw [isBase, behind, List.append_nil]
  have commits : commit area machine = behind machine.writes (commit area base) := by
    rw [← commit_behind, ← isBehind]
  have issued : commitWrites area machine = (commit area base).writes := by rw [isBase]; rfl
  have sameLh : base.lh = machine.lh := by rw [isBase]
  have emits : ∃ writes, RedoLog.Emits { base with lh := [] } (commit area base) writes := by
    unfold commit
    split
    · next nonempty =>
        have logged := RedoLog.writeLog_emits area base (sameLh ▸ fits)
        have headed := logged.trans (RedoLog.writeHead_emits area _)
        have installed := headed.trans (RedoLog.installTrans_emits area _
          (headed.lh_eq ▸ sameLh ▸ fits))
        obtain ⟨last, isLast⟩ : ∃ last, last = RedoLog.installTrans area
          (RedoLog.writeHead area (RedoLog.writeLog area base)) := ⟨_, rfl⟩
        rw [← isLast] at installed
        have moved : RedoLog.Emits { base with lh := [] } { last with lh := [] } _ :=
          ⟨installed.writes_eq, installed.disk_eq, installed.view_eq, rfl⟩
        dsimp only
        rw [← isLast]
        exact ⟨_, moved.trans (RedoLog.writeHead_emits area { last with lh := [] })⟩
    · next isEmpty =>
        have noBlocks : base.lh = [] := List.length_eq_zero_iff.mp (Nat.eq_zero_of_not_pos isEmpty)
        refine ⟨[], ⟨by simp, rfl, rfl, noBlocks⟩⟩
  obtain ⟨writes, emits⟩ := emits
  have isWrites : commitWrites area machine = writes := by
    rw [issued, emits.writes_eq, isBase]
    rfl
  have disk : (commit area base).disk = applyWrites writes machine.disk := by
    rw [emits.disk_eq, isBase]
  have view : (commit area base).view = applyWrites writes machine.view := by
    rw [emits.view_eq, isBase]
    rfl
  rw [commits, isWrites]
  exact ⟨by rw [← isWrites, issued]; rfl, disk, view, emits.lh_eq⟩

/-- What an address holds after a list of writes depends on its old value only if no write names
it. -/
theorem applyWrites_congr {writes : List (Nat × Block)} {first second : Nat → Block}
    {blockno : Nat}
    (agree : (∃ write ∈ writes, write.1 = blockno) ∨ first blockno = second blockno) :
    applyWrites writes first blockno = applyWrites writes second blockno := by
  induction writes generalizing first second with
  | nil =>
      rcases agree with ⟨write, member, -⟩ | same
      · cases member
      · exact same
  | cons head writes ih =>
      rw [applyWrites_cons, applyWrites_cons]
      apply ih
      by_cases isHead : blockno = head.1
      · right
        rw [isHead, Function.update_self, Function.update_self]
      · rw [Function.update_of_ne isHead, Function.update_of_ne isHead]
        refine agree.imp_left ?_
        rintro ⟨write, member, isWrite⟩
        rcases List.mem_cons.mp member with rfl | later
        · exact absurd isWrite.symm isHead
        · exact ⟨write, later, isWrite⟩

/-- The disk after the writes of a commit. -/
theorem commitWrites_apply (fits : RedoLog.Fits area machine.lh)
    (size : machine.lh.length ≤ LOGSIZE) (words : ∀ blockno ∈ machine.lh, blockno < 2 ^ 32)
    (distinct : machine.lh.Nodup) (store : Nat → Block) :
    (RedoLog.headN (store area.start) = 0 →
      RedoLog.headN (applyWrites (commitWrites area machine) store area.start) = 0) ∧
    (∀ blockno ∈ machine.lh, ∃ write ∈ commitWrites area machine, write.1 = blockno) ∧
    ∀ blockno, ¬ area.Contains blockno → applyWrites (commitWrites area machine) store blockno =
      if blockno ∈ machine.lh then machine.view blockno else store blockno := by
  by_cases nonempty : 0 < machine.lh.length
  · obtain ⟨head, cleared, -, zero, issued⟩ :=
      RedoLog.commit_writes area { machine with writes := [] } fits size words nonempty
    have shape : commitWrites area machine =
        RedoLog.slotWrites area machine.lh machine.view ++ ((area.start, head) ::
          (machine.lh.map (fun blockno => (blockno, machine.view blockno)) ++
            [(area.start, cleared)])) := issued
    have inArea : area.Contains area.start := ⟨le_refl _, by have := area.hasHeader; omega⟩
    refine ⟨fun _ => ?_, fun blockno member => ?_, fun blockno outside => ?_⟩
    · rw [shape, applyWrites_append, applyWrites_cons, applyWrites_append, applyWrites_cons,
        applyWrites_nil, Function.update_self]
      exact zero
    · refine ⟨(blockno, machine.view blockno), ?_, rfl⟩
      rw [shape]
      exact List.mem_append_right _ (List.mem_cons_of_mem _
        (List.mem_append_left _ (List.mem_map.mpr ⟨blockno, member, rfl⟩)))
    · have notStart : blockno ≠ area.start := by
        rintro rfl
        exact outside inArea
      rw [shape, applyWrites_append, applyWrites_cons, applyWrites_append, applyWrites_cons,
        applyWrites_nil, Function.update_of_ne notStart]
      split
      · next member =>
          have keys : ((machine.lh.map fun home => (home, machine.view home)).map
              Prod.fst).Nodup := by
            simpa [Function.comp_def] using distinct
          exact applyWrites_of_mem keys (List.mem_map.mpr ⟨blockno, member, rfl⟩) _
      · next notMember =>
          rw [applyWrites_of_forall_ne, Function.update_of_ne notStart, applyWrites_of_forall_ne]
          · rintro write isSlot rfl
            obtain ⟨tail, inside, rfl⟩ := RedoLog.mem_slotWrites.mp isSlot
            exact outside (fits.slot_contains inside)
          · rintro write isHome rfl
            obtain ⟨home, member, rfl⟩ := List.mem_map.mp isHome
            exact notMember member
  · have noBlocks : machine.lh = [] :=
      List.length_eq_zero_iff.mp (Nat.eq_zero_of_not_pos nonempty)
    have nothing : commitWrites area machine = [] := by
      simp [commitWrites, commit, noBlocks]
    rw [nothing, noBlocks]
    simp

end Commit

/-! ## Crashes -/

/-- A disk with the blocks of a volume, and no transaction in its log. -/
structure OnDisk (area : LogArea) (raw : Nat → Block) (volume : Volume sb) : Prop where
  header : RedoLog.headN (raw area.start) = 0
  shown : Shows raw volume.disk
  synced : volume.disk.dinodes = volume.inode

/-- The machine between two operations. -/
structure Mounted (area : LogArea) (machine : Machine) (volume : Volume sb) : Prop where
  disk : OnDisk area machine.disk volume
  cached : machine.view = machine.disk
  empty : machine.lh = []

/-- A machine comes from another one by disk writes, and a crash between two of them leaves after a
recovery a disk of some kind. -/
def CrashSafe (area : LogArea) (before after : Machine) (good : (Nat → Block) → Prop) : Prop :=
  ∃ writes, after.writes = before.writes ++ writes ∧
    after.disk = applyWrites writes before.disk ∧
    ∀ count crashed, RecoveryCrashes area (applyWrites (writes.take count) before.disk) crashed →
      good (recoveredDisk area crashed)

section Crashes

variable {volume volume' : Volume sb} {after last : Machine} {log : List Nat}
  {good good' : (Nat → Block) → Prop}

theorem CrashSafe.mono (safe : CrashSafe area machine after good)
    (weaker : ∀ raw, good raw → good' raw) : CrashSafe area machine after good' := by
  obtain ⟨writes, issued, disk, crashes⟩ := safe
  exact ⟨writes, issued, disk, fun count crashed crash => weaker _ (crashes count crashed crash)⟩

theorem CrashSafe.trans (first : CrashSafe area machine after good)
    (second : CrashSafe area after last good) : CrashSafe area machine last good := by
  obtain ⟨early, earlyIssued, earlyDisk, earlyCrashes⟩ := first
  obtain ⟨late, lateIssued, lateDisk, lateCrashes⟩ := second
  refine ⟨early ++ late, ?_, ?_, fun count crashed crash => ?_⟩
  · rw [lateIssued, earlyIssued, List.append_assoc]
  · rw [lateDisk, earlyDisk, applyWrites_append]
  · rcases applyWrites_take_append early late count machine.disk with inEarly | ⟨rest, inLate⟩
    · rw [inEarly] at crash
      exact earlyCrashes count crashed crash
    · rw [inLate, ← earlyDisk] at crash
      exact lateCrashes rest crashed crash

/-- Blocks that a transaction can change are all that a volume has. -/
theorem Shows.congr {first second : Nat → Block} {disk : Disk sb} (shown : Shows first disk)
    (layout : Layout sb area) (agree : ∀ blockno, Home sb area blockno →
      second blockno = first blockno) : Shows second disk where
  bitmap := by
    intro k inside
    rw [agree]
    · exact shown.bitmap k inside
    · have := Nat.le_add_right sb.inodestart (sb.ninodes / IPB + 1)
      have := layout.inodes
      exact layout.meta_home (by omega) (by omega)
  dinodes := by
    intro inum
    rw [agree _ (layout.iblock_home inum)]
    exact shown.dinodes inum
  blocks := by
    intro blockno below notMeta
    rw [agree _ (layout.data_home below notMeta)]
    exact shown.blocks blockno below notMeta

theorem Mounted.fits (mounted : Mounted area machine volume) (inum : Fin sb.ninodes) :
    (volume.inode inum).Fits := by
  have loaded := mounted.disk.shown.dinodes inum
  rw [mounted.disk.synced] at loaded
  exact fits_of_loadDinode loaded

/-- The end of a transaction. -/
theorem Mounted.commit (layout : Layout sb area) (mounted : Mounted area machine volume)
    (logs : Logs sb area machine after log) (few : log.toFinset.card ≤ MAXOPBLOCKS)
    (shown : Shows after.view volume'.disk) (synced : volume'.disk.dinodes = volume'.inode) :
    Mounted area (commit area after) volume' ∧
      CrashSafe area machine (RedoLog.commit area after) fun raw =>
        OnDisk area raw volume ∨ OnDisk area raw volume' := by
  have isLh : after.lh = record [] log := by rw [logs.lh, mounted.empty]
  have inLog : ∀ blockno, blockno ∈ after.lh ↔ blockno ∈ log := fun blockno => by
    rw [isLh, mem_record]
    simp
  have length : after.lh.length ≤ MAXOPBLOCKS := by rw [isLh, length_record]; exact few
  have distinct : after.lh.Nodup := isLh ▸ nodup_record log List.nodup_nil
  have home : ∀ blockno ∈ after.lh, Home sb area blockno := fun blockno member =>
    logs.home blockno ((inLog blockno).mp member)
  have words : ∀ blockno ∈ after.lh, blockno < 2 ^ 32 := fun blockno member => by
    have := (home blockno member).1
    have := sb.sizeFits
    omega
  have size : after.lh.length ≤ LOGSIZE := by
    simp only [LOGSIZE, MAXOPBLOCKS] at *
    omega
  have fits : RedoLog.Fits area after.lh := by
    refine ⟨?_, fun blockno member => (home blockno member).2⟩
    have := layout.room
    have := layout.size
    omega
  have header : RedoLog.headN (after.disk area.start) = 0 := logs.disk ▸ mounted.disk.header
  -- a block that is not logged has its contents on disk
  have unlogged : ∀ blockno, blockno ∉ after.lh → after.view blockno = after.disk blockno := by
    intro blockno notMember
    rw [logs.view blockno (fun member => notMember ((inLog blockno).mpr member)), logs.disk,
      mounted.cached]
  obtain ⟨isWrites, isDisk, isView, isEmpty⟩ := commit_spec fits
  obtain ⟨zero, covers, blocks⟩ := commitWrites_apply fits size words distinct after.disk
  have new : ∀ raw, RedoLog.headN (raw area.start) = 0 →
      (∀ blockno, ¬ area.Contains blockno → raw blockno = after.view blockno) →
      OnDisk area raw volume' := fun raw isZero same =>
    ⟨isZero, shown.congr layout fun blockno isHome => same blockno isHome.2, synced⟩
  refine ⟨⟨new _ (isDisk ▸ zero header) ?_, ?_, isEmpty⟩, ?_⟩
  · intro blockno outside
    rw [isDisk, blocks blockno outside]
    split
    · rfl
    · next notMember => exact (unlogged blockno notMember).symm
  · rw [isView, isDisk]
    funext blockno
    apply applyWrites_congr
    by_cases member : blockno ∈ after.lh
    · exact .inl (covers blockno member)
    · exact .inr (unlogged blockno member)
  · refine ⟨commitWrites area after, by rw [isWrites, logs.writes], by rw [isDisk, logs.disk],
      fun count crashed crash => ?_⟩
    rw [← logs.disk] at crash
    have recoverable := (RedoLog.commit_recoverable area after fits size words distinct header
      count).crashes fits distinct crash
    rcases (recoverable.recover fits distinct).2 with clean | clean
    · left
      refine ⟨clean.header, mounted.disk.shown.congr layout fun blockno isHome => ?_,
        mounted.disk.synced⟩
      rw [clean.home blockno isHome.2, logs.disk]
    · right
      refine new _ clean.header fun blockno outside => ?_
      rw [clean.home blockno outside, RedoLog.overlay]
      split
      · rfl
      · next notMember => exact (unlogged blockno notMember).symm

/-- A machine between operations that writes nothing. -/
theorem Mounted.refl (layout : Layout sb area) (mounted : Mounted area machine volume)
    (disk : after.disk = machine.disk) (writes : after.writes = machine.writes) :
    CrashSafe area machine after fun raw => OnDisk area raw volume := by
  have nothing := (mounted.commit layout (Logs.refl machine) (by simp) (mounted.cached ▸
    mounted.disk.shown) mounted.disk.synced).2
  obtain ⟨issued, -, -, crashes⟩ := nothing
  refine ⟨[], by rw [writes, List.append_nil], by rw [disk, applyWrites_nil],
    fun count crashed crash => ?_⟩
  have none := crashes 0 crashed (by simpa using crash)
  exact none.elim id id

end Crashes

/-! ## A piece -/

section Pieces

variable {volume : Volume sb} {f : OpenFile sb} {addr : Nat → UInt8}

/-- A transaction over the buffers does what `writei` does to the volume, and can be interrupted at
any time. -/
theorem piece_safe (layout : Layout sb area) (mounted : Mounted area machine volume)
    (sound : volume.Sound) (isFile : volume.IsFile f.ip) {n1 : Nat} (small : n1 ≤ maxWrite)
    (src : Nat → UInt8) :
    (∃ r after volume', writei sb area f.ip (volume.inode f.ip) f.off (UInt32.ofNat n1) src
        machine = .ok (r, volume'.inode f.ip) after ∧
      volume.writei f.ip f.off (UInt32.ofNat n1) src = .ok (r, volume') ∧
      Mounted area (commit area after) volume' ∧
      CrashSafe area machine (commit area after) fun raw =>
        OnDisk area raw volume ∨ OnDisk area raw volume') ∨
    ∃ panic after reason, writei sb area f.ip (volume.inode f.ip) f.off (UInt32.ofNat n1) src
        machine = .error panic after ∧
      volume.writei f.ip f.off (UInt32.ofNat n1) src = .error reason ∧
      after.disk = machine.disk ∧ after.writes = machine.writes := by
  have allocated : (volume.inode f.ip).type ≠ .free := by
    rcases isFile with isType | isType <;> rw [isType] <;> decide
  have logged := volume.map_writeiLogged f.ip f.off (UInt32.ofNat n1) src
  have few : ∀ log result, volume.writeiLogged f.ip f.off (UInt32.ofNat n1) src =
      .ok (log, result) → log.toFinset.card ≤ MAXOPBLOCKS := by
    intro log result isCall
    have isTransaction : ∃ written, volume.transaction f n1 src = .ok (log, written) := by
      rw [Volume.transaction, isCall]
      exact ⟨_, rfl⟩
    obtain ⟨written, isTransaction⟩ := isTransaction
    exact transaction_card (sound.noHoles isFile) sound.bootMarked small isTransaction
  have refines := writei_refines layout sound.accounts allocated (mounted.fits f.ip)
    (mounted.cached ▸ mounted.disk.shown) f.off (UInt32.ofNat n1) src
  generalize isRun : writei sb area f.ip (volume.inode f.ip) f.off (UInt32.ofNat n1) src
    machine = outcome at refines
  cases refines with
  | @ok value after log result isCall logs holds =>
      obtain ⟨rfl, shown⟩ := holds
      have isWrite : volume.writei f.ip f.off (UInt32.ofNat n1) src = .ok result := by
        rw [← logged, isCall]
        rfl
      have synced := writei_synced sound isFile mounted.disk.synced isWrite
      obtain ⟨mounted', safe⟩ := mounted.commit layout logs (few log result isCall) shown synced
      exact .inl ⟨result.1, after, result.2, rfl, isWrite, mounted', safe⟩
  | @panic reason after isCall disk writes =>
      refine .inr ⟨_, after, reason, rfl, ?_, disk, writes⟩
      rw [← logged, isCall]
      rfl
  | @tooBig after many disk writes =>
      cases isCall : volume.writeiLogged f.ip f.off (UInt32.ofNat n1) src with
      | error reason =>
          refine .inr ⟨_, after, reason, rfl, ?_, disk, writes⟩
          rw [← logged, isCall]
          rfl
      | ok result =>
          -- a transaction that is accepted has room
          have tooMany := many result.1 result.2 isCall
          rw [mounted.empty, length_record] at tooMany
          exact absurd (few result.1 result.2 isCall) (Nat.not_le.mpr tooMany)

/-- What a piece stores. -/
theorem piece_stores {after : Volume sb} {r : Int} {i m n1 : Nat} (sound : volume.Sound)
    (isFile : volume.IsFile f.ip) (more : 0 < m)
    (isPiece : n1 = if m > maxWrite then maxWrite else m)
    (isWrite : volume.writei f.ip f.off (UInt32.ofNat n1) (fun j => addr (i + j)) =
      .ok (r, after)) :
    (r = n1 ∧ f.off.toNat ≤ (volume.contents f.ip).length ∧
      Stores volume f (bytesFrom addr i n1) { f with off := f.off + UInt32.ofNat n1 } after ∧
      stored (volume.inode f.ip).size f.off.toNat m = n1 +
        stored (after.inode f.ip).size (f.off + UInt32.ofNat n1).toNat (m - n1)) ∨
    (r = -1 ∧ after = volume ∧ stored (volume.inode f.ip).size f.off.toNat m = 0) := by
  have small : n1 ≤ 1536 := by
    rw [maxWrite_eq] at isPiece
    split at isPiece <;> omega
  have toNat : (UInt32.ofNat n1).toNat = n1 := by
    rw [UInt32.toNat_ofNat']
    exact Nat.mod_eq_of_lt (by omega)
  have spec := Volume.writei_spec sound isFile f.off (UInt32.ofNat n1) fun j => addr (i + j)
  rw [isWrite] at spec
  obtain ⟨isResult, afterSound, others, refusedSame⟩ := spec
  unfold ByteFile.write at isResult
  rw [toNat, Volume.length_contents] at isResult
  simp only at isResult refusedSame
  by_cases accepted : f.off.toNat ≤ (volume.inode f.ip).size ∧ f.off.toNat + n1 < 2 ^ 32 ∧
      f.off.toNat + n1 ≤ MAXFILE * BSIZE
  · rw [if_pos accepted] at isResult
    obtain ⟨isCount, isContents⟩ := Prod.ext_iff.mp isResult
    simp only at isCount isContents
    have inside : f.off.toNat ≤ (volume.contents f.ip).length := by
      rw [Volume.length_contents]
      exact accepted.1
    have moved : (f.off + UInt32.ofNat n1).toNat = f.off.toNat + n1 := by
      rw [toNat_add_of_lt (by rw [toNat]; exact accepted.2.1), toNat]
    have size : (after.inode f.ip).size = max (volume.inode f.ip).size (f.off.toNat + n1) := by
      have isLength := congrArg List.length isContents
      rw [Volume.length_contents, length_splice inside, Volume.length_contents] at isLength
      simpa using isLength
    refine .inl ⟨isCount, inside, ⟨afterSound, isContents, ?_, rfl, others⟩, ?_⟩
    · rw [bytesFrom, List.length_map, List.length_range]
      exact moved
    · rw [size, moved]
      exact stored_add accepted.1 isPiece accepted.2.2
  · rw [if_neg accepted] at isResult
    obtain ⟨isCount, -⟩ := Prod.ext_iff.mp isResult
    exact .inr ⟨isCount, refusedSame isCount, stored_refused more isPiece accepted⟩

end Pieces

/-! ## Whole writes -/

/-- The machine that a call leaves, also in a panic. -/
def final {Value : Type} : EStateM.Result BlockPanic Machine Value → Machine
  | .ok _ after => after
  | .error _ after => after

/-- A call over the buffers agrees with the call on the volume that is mounted: it returns the same,
with the volume of the result mounted, and panics if that one finds the disk full. -/
inductive Agrees {Value : Type} (area : LogArea)
    (call : Except WritePanic (Value × OpenFile sb × Volume sb)) :
    EStateM.Result BlockPanic Machine (Value × OpenFile sb × Dinode) → Prop
  | ok {value : Value} {f : OpenFile sb} {volume : Volume sb} {after : Machine} :
      call = .ok (value, f, volume) → Mounted area after volume →
      Agrees area call (.ok (value, f, volume.inode f.ip) after)
  | error {panic : BlockPanic} {after : Machine} : call = .error (.fs .outOfBlocks) →
      Agrees area call (.error panic after)

/-- The disk has a volume in which a number of whole pieces of a write of `n` bytes are stored. -/
def Survives (area : LogArea) (volume : Volume sb) (f : OpenFile sb) (addr : Nat → UInt8)
    (i n : Nat) (raw : Nat → Block) : Prop :=
  ∃ pieces f' after, Stores volume f (bytesFrom addr i
      (min (pieces * maxWrite) (stored (volume.inode f.ip).size f.off.toNat n))) f' after ∧
    OnDisk area raw after

section Writes

variable {volume : Volume sb} {f : OpenFile sb} {addr : Nat → UInt8}

theorem Survives.nothing {raw : Nat → Block} (sound : volume.Sound)
    (onDisk : OnDisk area raw volume) (i n : Nat) : Survives area volume f addr i n raw := by
  refine ⟨0, f, volume, ?_, onDisk⟩
  rw [Nat.zero_mul, Nat.zero_min]
  exact .nothing sound

/-- The pieces after the first one. -/
theorem Survives.later {raw : Nat → Block} {middle : Volume sb} {f' : OpenFile sb} {i m n1 : Nat}
    (inside : f.off.toNat ≤ (volume.contents f.ip).length)
    (first : Stores volume f (bytesFrom addr i n1) f' middle)
    (isPiece : n1 = if m > maxWrite then maxWrite else m)
    (isStored : stored (volume.inode f.ip).size f.off.toNat m =
      n1 + stored (middle.inode f'.ip).size f'.off.toNat (m - n1))
    (rest : Survives area middle f' addr (i + n1) (m - n1) raw) :
    Survives area volume f addr i m raw := by
  obtain ⟨pieces, f'', after, stores, onDisk⟩ := rest
  have count : min ((pieces + 1) * maxWrite) (stored (volume.inode f.ip).size f.off.toNat m) =
      n1 + min (pieces * maxWrite) (stored (middle.inode f'.ip).size f'.off.toNat (m - n1)) := by
    have done : m - n1 = 0 → stored (middle.inode f'.ip).size f'.off.toNat (m - n1) = 0 := by
      intro nothing
      rw [nothing]
      simp only [stored, maxWrite_eq, largest_eq]
      split_ifs <;> omega
    rw [isStored]
    simp only [maxWrite_eq] at *
    split at isPiece <;> omega
  refine ⟨pieces + 1, f'', after, ?_, onDisk⟩
  rw [count, bytesFrom_add]
  exact first.trans inside stores

/-- The loop of `filewrite` over the buffers. -/
theorem writeChunks_safe (layout : Layout sb area) (mounted : Mounted area machine volume)
    (sound : volume.Sound) (isFile : volume.IsFile f.ip) (i n : Nat) :
    Agrees area (FileSystem.writeChunks volume f i n addr)
        (writeChunks sb area (volume.inode f.ip) f i n addr machine) ∧
      CrashSafe area machine
        (final (writeChunks sb area (volume.inode f.ip) f i n addr machine))
        (Survives area volume f addr i (n - i)) := by
  induction left : n - i using Nat.strong_induction_on generalizing machine volume f i with
  | _ left ih =>
    subst left
    rw [writeChunks, FileSystem.writeChunks]
    by_cases more : i < n
    · rw [dif_pos more, dif_pos more]
      obtain ⟨n1, isPiece⟩ : ∃ n1, n1 = if n - i > maxWrite then maxWrite else n - i := ⟨_, rfl⟩
      simp only [← isPiece]
      have small : n1 ≤ maxWrite ∧ 0 < n1 ∧ n1 ≤ n - i := by
        simp only [maxWrite_eq] at *
        split at isPiece <;> omega
      have old : ∀ raw, OnDisk area raw volume → Survives area volume f addr i (n - i) raw :=
        fun raw onDisk => .nothing sound onDisk i (n - i)
      rcases piece_safe layout mounted sound isFile small.1 fun j => addr (i + j) with
        ⟨r, after, volume', isRun, isWrite, mounted', safe⟩ |
        ⟨panic, after, reason, isRun, isWrite, disk, writes⟩
      · have ended : endOp area after = .ok () (commit area after) := rfl
        have isMapped : (volume.writei f.ip f.off (UInt32.ofNat n1) fun j =>
            addr (i + j)).mapError WritePanic.fs = .ok (r, volume') := by
          rw [isWrite]
          rfl
        rw [bind_ok isRun, isMapped, ok_bind]
        simp only
        rw [bind_ok ended]
        rcases piece_stores sound isFile (by omega) isPiece isWrite with
          ⟨rfl, inside, stores, isStored⟩ | ⟨rfl, rfl, -⟩
        · -- the piece is stored, and the loop goes on
          have positive : (0 : Int) < (n1 : Int) := by omega
          have noError : ¬ (n1 : Int) < 0 := by omega
          rw [if_pos positive, if_neg noError, if_neg noError, if_neg (not_not.mpr rfl),
            if_neg (not_not.mpr rfl), Int.toNat_natCast]
          have remaining : n - (i + n1) = n - i - n1 := by omega
          have stillFile : volume'.IsFile f.ip := (stores.others.isFile f.ip).mpr isFile
          have later := @ih (n - (i + n1)) (by omega) (commit area after) volume'
            { f with off := f.off + UInt32.ofNat n1 } mounted' stores.sound stillFile (i + n1) rfl
          obtain ⟨agrees, laterSafe⟩ := later
          refine ⟨agrees, (safe.mono ?_).trans (laterSafe.mono ?_)⟩
          · rintro raw (onDisk | onDisk)
            · exact old raw onDisk
            · exact Survives.later inside stores isPiece isStored
                (.nothing stores.sound onDisk _ _)
          · intro raw survives
            rw [remaining] at survives
            exact Survives.later inside stores isPiece isStored survives
        · -- the piece is refused
          rw [if_neg (show ¬ (0 : Int) < -1 by decide), if_pos (show (-1 : Int) < 0 by decide),
            if_pos (show (-1 : Int) < 0 by decide)]
          exact ⟨.ok rfl mounted', safe.mono fun raw onDisk => old raw (onDisk.elim id id)⟩
      · rw [bind_error isRun, isWrite]
        have full : reason = .outOfBlocks := by
          have spec := Volume.writei_spec sound isFile f.off (UInt32.ofNat n1) fun j => addr (i + j)
          rw [isWrite] at spec
          exact spec.1
        subst full
        exact ⟨.error rfl, (mounted.refl layout disk writes).mono old⟩
    · rw [dif_neg more, dif_neg more]
      refine ⟨.ok rfl mounted, (mounted.refl layout rfl rfl).mono fun raw onDisk => ?_⟩
      exact .nothing sound onDisk i (n - i)

/-- `filewrite` over the buffers. -/
theorem filewrite_safe (layout : Layout sb area) (mounted : Mounted area machine volume)
    (sound : volume.Sound) (isFile : volume.IsFile f.ip) (n : Nat) :
    Agrees area (FileSystem.filewrite volume f addr n)
        (filewrite sb area (volume.inode f.ip) f addr n machine) ∧
      CrashSafe area machine (final (filewrite sb area (volume.inode f.ip) f addr n machine))
        (Survives area volume f addr 0 n) := by
  rw [filewrite, FileSystem.filewrite]
  split
  · refine ⟨.ok rfl mounted, (mounted.refl layout rfl rfl).mono fun raw onDisk => ?_⟩
    exact .nothing sound onDisk 0 n
  · obtain ⟨agrees, safe⟩ := @writeChunks_safe sb area machine volume f addr layout mounted sound
      isFile 0 n
    generalize isRun : writeChunks sb area (volume.inode f.ip) f 0 n addr machine = outcome
      at agrees safe
    cases agrees with
    | ok isCall mounted' =>
        rw [bind_ok isRun, isCall, ok_bind]
        exact ⟨.ok rfl mounted', safe⟩
    | error isCall =>
        rw [bind_error isRun, isCall]
        exact ⟨.error rfl, safe⟩

/-- A crash at any time during `filewrite`, and any number of crashes during the recoveries after
it, leave a volume with a number of whole pieces of the write. -/
theorem filewrite_crash_safe (layout : Layout sb area) (mounted : Mounted area machine volume)
    (sound : volume.Sound) (isFile : volume.IsFile f.ip) (n : Nat) :
    CrashSafe area machine (final (filewrite sb area (volume.inode f.ip) f addr n machine))
      (Survives area volume f addr 0 n) :=
  (filewrite_safe layout mounted sound isFile n).2

/-- `filewrite` over the buffers and the log returns what it returns on the volume, and leaves the
volume of the result on disk. -/
theorem filewrite_agrees (layout : Layout sb area) (mounted : Mounted area machine volume)
    (sound : volume.Sound) (isFile : volume.IsFile f.ip) (n : Nat) :
    Agrees area (FileSystem.filewrite volume f addr n)
      (filewrite sb area (volume.inode f.ip) f addr n machine) :=
  (filewrite_safe layout mounted sound isFile n).1

end Writes

/-! ## A disk with one empty file -/

theorem small_sizeFits : 100 + BPB ≤ 2 ^ 31 := by decide

/-- One hundred blocks, of which the first 34 are metadata, and two inodes. -/
def smallSuperblock : Superblock where
  size := 100
  ninodes := 2
  nlog := 30
  logstart := 2
  inodestart := 32
  bmapstart := 33
  sizeFits := small_sizeFits

theorem smallSuperblock_log : 0 < smallSuperblock.nlog := by decide

def smallArea : LogArea := ⟨2, 30, smallSuperblock_log⟩

theorem small_layout : Layout smallSuperblock smallArea := by
  constructor <;> decide

def emptyInode : Dinode := ⟨.file, 0, 0, 1, 0, fun _ => 0⟩

def smallBitmap : Block := fun index =>
  if index.val < 4 then 0xff else if index.val = 4 then 0x03 else 0

def smallVolume : Volume smallSuperblock where
  disk :=
    { bitmap := fun _ => smallBitmap
      dinodes := fun inum => if inum.val = 1 then emptyInode else .blank .free
      blocks := fun _ _ => 0 }
  inode := fun inum => if inum.val = 1 then emptyInode else .blank .free

/-- The blocks of the disk. -/
def smallRaw : Nat → Block := fun blockno =>
  if blockno = 32 then storeDinode (fun _ => 0) 1 emptyInode
  else if blockno = 33 then smallBitmap
  else fun _ => 0

/-- The blocks in use are those of the metadata. -/
theorem small_blocks : ∀ blockno < smallSuperblock.size,
    (smallSuperblock.isMeta blockno ↔ blockno < 34) ∧
      smallVolume.disk.isUsed blockno = decide (blockno < 34) := by
  decide +kernel

theorem getField_zeroes (offset width : Nat) :
    ByteBlock.getField (fun _ => 0 : Block) offset width = 0 := by
  induction width generalizing offset with
  | zero => rfl
  | succ width ih => simp [ByteBlock.getField, ByteBlock.byteAt, ih]

theorem small_dinodes (inum : Fin smallSuperblock.ninodes) :
    loadDinode (smallRaw (IBLOCK smallSuperblock inum)) inum =
      some (smallVolume.disk.dinodes inum) := by
  have few : inum.val < 2 := inum.isLt
  have block : smallRaw (IBLOCK smallSuperblock inum) =
      storeDinode (fun _ => 0) 1 emptyInode := by
    have first : IBLOCK smallSuperblock inum = 32 := by
      simp only [IBLOCK, smallSuperblock, IPB, BSIZE]
      omega
    rw [first]
    rfl
  rw [block]
  by_cases isOne : inum.val = 1
  · have fits : emptyInode.Fits := by
      refine ⟨?_, ?_, ?_, ?_, fun _ => ?_⟩ <;> simp [IsShort, emptyInode]
    rw [isOne, loadDinode_storeDinode _ 1 fits]
    exact congrArg some (if_pos isOne).symm
  · have isZero : inum.val = 0 := by omega
    rw [isZero, loadDinode_storeDinode_of_ne _ _ (by decide)]
    refine Eq.trans ?_ (congrArg some (if_neg isOne).symm)
    simp [loadDinode, getField_zeroes, FileType.ofCode, ofShort, Dinode.blank]

theorem small_mounted : Mounted smallArea (RedoLog.boot smallRaw) smallVolume := by
  have header : RedoLog.headN (smallRaw smallArea.start) = 0 := by
    change RedoLog.headN (fun _ => 0) = 0
    rw [RedoLog.headN, getField_zeroes]
    rfl
  refine ⟨⟨header, ⟨?_, small_dinodes, ?_⟩, rfl⟩, rfl, rfl⟩
  · intro k inside
    have isFirst : k = 0 := Nat.le_zero.mp inside
    subst isFirst
    rfl
  · intro blockno below notMeta
    rw [(small_blocks blockno below).1] at notMeta
    change (if blockno = 32 then _ else if blockno = 33 then _ else _) = _
    rw [if_neg (by omega), if_neg (by omega)]
    rfl

theorem smallVolume_held (place : Fin smallSuperblock.ninodes × Position) :
    smallVolume.held place = none := by
  obtain ⟨inum, position⟩ := place
  apply listed_eq_none.mpr
  have addrs : ∀ slot, (smallVolume.inode inum).addrs slot = 0 := by
    intro slot
    simp only [smallVolume]
    split <;> rfl
  right
  cases position with
  | slot slot => exact addrs slot
  | word bn => exact if_pos (.inl (addrs indirectSlot))

theorem smallVolume_sound : smallVolume.Sound := by
  have nowhere : ∀ place blockno, smallVolume.held place ≠ some blockno := by
    intro place blockno isHeld
    rw [smallVolume_held] at isHeld
    cases isHeld
  refine ⟨⟨⟨?_, ?_, ?_, ?_, ?_⟩, ?_⟩, ?_⟩
  · exact fun place blockno isHeld => absurd isHeld (nowhere place blockno)
  · exact fun place blockno isHeld => absurd isHeld (nowhere place blockno)
  · exact fun place blockno isHeld => absurd isHeld (nowhere place blockno)
  · exact fun first second blockno isHeld => absurd isHeld (nowhere first blockno)
  · intro blockno below notMeta used
    rw [(small_blocks blockno below).2, decide_eq_true_eq] at used
    exact absurd ((small_blocks blockno below).1.mpr used) notMeta
  · intro blockno below isMeta
    rw [(small_blocks blockno below).2]
    exact decide_eq_true ((small_blocks blockno below).1.mp isMeta)
  · intro inum isFile bn below
    have isEmpty : (smallVolume.inode inum).size = 0 := by
      simp only [smallVolume]
      split <;> rfl
    rw [isEmpty] at below
    exact absurd below (Nat.not_lt_zero _)

def smallFile : OpenFile smallSuperblock := ⟨true, ⟨1, Nat.one_lt_two⟩, 0⟩

theorem filewrite_crash_safe_small :
    CrashSafe smallArea (RedoLog.boot smallRaw)
      (final (filewrite smallSuperblock smallArea (smallVolume.inode smallFile.ip) smallFile
        (fun _ => 7) 2000 (RedoLog.boot smallRaw)))
      (Survives smallArea smallVolume smallFile (fun _ => 7) 0 2000) :=
  filewrite_crash_safe small_layout small_mounted smallVolume_sound (.inl rfl) 2000

theorem filewrite_agrees_small :
    Agrees smallArea (FileSystem.filewrite smallVolume smallFile (fun _ => 7) 2000)
      (filewrite smallSuperblock smallArea (smallVolume.inode smallFile.ip) smallFile
        (fun _ => 7) 2000 (RedoLog.boot smallRaw)) :=
  filewrite_agrees small_layout small_mounted smallVolume_sound (.inl rfl) 2000

end Coursework.FileSystem.Buffered
