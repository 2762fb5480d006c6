import Coursework.DiskInodes
import Coursework.LogCrashAtomicity
import Coursework.TransactionBlocks

/-!
# Writing through the buffers

The functions of `fs.c` below `writei`, over the buffers and the log: they read
blocks with `bread` and hand each block that they change to `log_write`.  Nothing
reaches the disk before `commit`.

The buffers show a disk of `FsDisk` if the bitmap, the inodes and the other blocks
can be read from them.  Each function then does to the blocks what the function of
the same name does to that disk, it passes to `log_write` the block numbers that
the version with what it logs says, and `log_write` has room as long as these are
at most `MAXOPBLOCKS`.
-/

namespace Coursework.FileSystem.Buffered

open State
open RedoLog (Machine LogArea)

inductive BlockPanic where
  | fs (panic : Panic)
  | tooBig
  | shortFilewrite
  deriving DecidableEq

/-- A call that uses the buffers and returns or panics. -/
abbrev Kernel := EStateM BlockPanic Machine

/-! ## The functions -/

def bread (blockno : Nat) : Kernel Block := fun machine =>
  .ok (RedoLog.bread machine blockno).1 (RedoLog.bread machine blockno).2

section Functions

variable (sb : Superblock) (area : LogArea)

/-- `log_write` of a buffer with new contents, inside a transaction. -/
def logWrite (blockno : Nat) (data : Block) : Kernel Unit := fun machine =>
  if LOGSIZE ≤ machine.lh.length ∨ area.size - 1 ≤ machine.lh.length then .error .tooBig machine
  else
    .ok () { machine with
      cache := Function.update machine.cache blockno (some data)
      lh := if blockno ∈ machine.lh then machine.lh else machine.lh ++ [blockno] }

def bzero (bno : Nat) : Kernel Unit := do
  let _ ← bread bno
  logWrite area bno fun _ => 0

/-- The inner loop of `balloc`: a clear bit in a bitmap block. -/
@[irreducible]
def freeBit (data : Block) (b : Nat) : Option Nat :=
  (List.range BPB).find? fun bi => decide (b + bi < sb.size) && !testBit data bi

/-- The outer loop of `balloc`. -/
def ballocFrom : List Nat → Kernel Nat
  | [] => throw (.fs .outOfBlocks)
  | b :: rest => do
      let data ← bread (BBLOCK sb b)
      match freeBit sb data b with
      | some bi => do
          logWrite area (BBLOCK sb b) (setBit data bi)
          bzero area (b + bi)
          return b + bi
      | none => ballocFrom rest

def balloc : Kernel Nat :=
  ballocFrom sb area ((List.range ((sb.size + BPB - 1) / BPB)).map (· * BPB))

def slotBlock (addrs : Addrs) (slot : Fin (NDIRECT + 1)) : Kernel (Nat × Addrs) :=
  if addrs slot = 0 then do
    let addr ← balloc sb area
    return (addr, Function.update addrs slot addr)
  else return (addrs slot, addrs)

def wordBlock (indirect bn : Nat) : Kernel Nat := do
  let data ← bread indirect
  if Disk.word data bn = 0 then do
    let addr ← balloc sb area
    logWrite area indirect (Disk.setWord data bn addr)
    return addr
  else return Disk.word data bn

def bmap (addrs : Addrs) (bn : Nat) : Kernel (Nat × Addrs) :=
  if direct : bn < NDIRECT then slotBlock sb area addrs ⟨bn, Nat.lt_add_one_of_lt direct⟩
  else if bn - NDIRECT < NINDIRECT then do
    let (indirect, addrs) ← slotBlock sb area addrs indirectSlot
    let addr ← wordBlock sb area indirect (bn - NDIRECT)
    return (addr, addrs)
  else throw (.fs .outOfRange)

/-- The loop of `writei`: the offset that it reaches, and the block numbers of the inode. -/
def writeLoop (addrs : Addrs) (off tot n : Nat) (src : Nat → UInt8) : Kernel (Nat × Addrs) :=
  if _ : tot < n then do
    let (addr, addrs) ← bmap sb area addrs (off / BSIZE)
    let data ← bread addr
    let m := chunk off tot n
    logWrite area addr (moveInto data off tot m src)
    writeLoop addrs (off + m) (tot + m) n src
  else return (off, addrs)
termination_by n - tot
decreasing_by
  have := @chunk_pos off tot n ‹tot < n›
  omega

def iupdate (inum : Nat) (ip : Dinode) : Kernel Unit := do
  let data ← bread (IBLOCK sb inum)
  logWrite area (IBLOCK sb inum) (storeDinode data inum ip)

/-- `writei` to an inode that is no device. -/
def writei (inum : Nat) (ip : Dinode) (off n : UInt32) (src : Nat → UInt8) :
    Kernel (Int × Dinode) :=
  if off.toNat > ip.size ∨ off + n < off then return (-1, ip)
  else if (off + n).toNat > MAXFILE * BSIZE then return (-1, ip)
  else do
    let (off, addrs) ← writeLoop sb area ip.addrs off.toNat 0 n.toNat src
    let ip := { ip with addrs := addrs }
    if 0 < n ∧ off > ip.size then do
      let ip := { ip with size := off }
      iupdate sb area inum ip
      return (n.toNat, ip)
    else return (n.toNat, ip)

end Functions

theorem bind_ok {First Second : Type} {first : Kernel First} {rest : First → Kernel Second}
    {machine after : Machine} {value : First} (run : first machine = .ok value after) :
    (first >>= rest) machine = rest value after := by
  change EStateM.bind first rest machine = _
  rw [EStateM.bind, run]

theorem bind_error {First Second : Type} {first : Kernel First} {rest : First → Kernel Second}
    {machine after : Machine} {panic : BlockPanic} (run : first machine = .error panic after) :
    (first >>= rest) machine = .error panic after := by
  change EStateM.bind first rest machine = _
  rw [EStateM.bind, run]

/-! ## What a call logs -/

/-- The block numbers in the header of the log after more of them. -/
def record (lh log : List Nat) : List Nat :=
  log.foldl (fun lh blockno => if blockno ∈ lh then lh else lh ++ [blockno]) lh

theorem record_append (lh first later : List Nat) :
    record lh (first ++ later) = record (record lh first) later :=
  List.foldl_append ..

theorem length_le_record (lh log : List Nat) : lh.length ≤ (record lh log).length := by
  induction log generalizing lh with
  | nil => exact le_refl _
  | cons blockno log ih =>
      refine le_trans ?_ (ih _)
      dsimp only
      split
      · exact le_refl _
      · rw [List.length_append]
        exact Nat.le_add_right ..

theorem nodup_record {lh : List Nat} (log : List Nat) (distinct : lh.Nodup) :
    (record lh log).Nodup := by
  induction log generalizing lh with
  | nil => exact distinct
  | cons blockno log ih =>
      apply ih
      dsimp only
      split
      · exact distinct
      · next isNew =>
          refine distinct.append (List.nodup_singleton _) ?_
          intro other isOld isLast
          rw [List.mem_singleton.mp isLast] at isOld
          exact isNew isOld

theorem mem_record {lh log : List Nat} {blockno : Nat} :
    blockno ∈ record lh log ↔ blockno ∈ lh ∨ blockno ∈ log := by
  induction log generalizing lh with
  | nil => simp [record]
  | cons first log ih =>
      refine (@ih (if first ∈ lh then lh else lh ++ [first])).trans ?_
      rw [List.mem_cons]
      split
      · next isOld =>
          constructor
          · rintro (inOld | inLog)
            · exact .inl inOld
            · exact .inr (.inr inLog)
          · rintro (inOld | rfl | inLog)
            · exact .inl inOld
            · exact .inl isOld
            · exact .inr inLog
      · rw [List.mem_append, List.mem_singleton, or_assoc]

/-- As many blocks are in the header as were logged. -/
theorem length_record (log : List Nat) : (record [] log).length = log.toFinset.card := by
  rw [← List.toFinset_card_of_nodup (nodup_record log List.nodup_nil)]
  congr 1
  ext blockno
  simp [mem_record]

/-- The layout of the disk that `mkfs` writes: the log, the inodes and the bitmap follow one
another, and the log has room for a transaction. -/
structure Layout (sb : Superblock) (area : LogArea) : Prop where
  start : area.start = sb.logstart
  size : area.size = sb.nlog
  room : MAXOPBLOCKS + 1 < sb.nlog
  log : sb.logstart + sb.nlog ≤ sb.inodestart
  inodes : sb.inodestart + (sb.ninodes / IPB + 1) ≤ sb.bmapstart
  bitmap : sb.bmapstart + (sb.size / BPB + 1) ≤ sb.size

/-- A block that a transaction may change. -/
def Home (sb : Superblock) (area : LogArea) (blockno : Nat) : Prop :=
  blockno < sb.size ∧ ¬ area.Contains blockno

/-- A part of a transaction: it changes blocks in the buffers that it logs. -/
structure Logs (sb : Superblock) (area : LogArea) (before after : Machine) (log : List Nat) :
    Prop where
  disk : after.disk = before.disk
  writes : after.writes = before.writes
  lh : after.lh = record before.lh log
  view : ∀ blockno ∉ log, after.view blockno = before.view blockno
  home : ∀ blockno ∈ log, Home sb area blockno

/-- One call after another, with what both log. -/
def seqLogged {First Second : Type} (first : Except Panic (List Nat × First))
    (next : First → Except Panic (List Nat × Second)) : Except Panic (List Nat × Second) := do
  let (log, value) ← first
  let (log', result) ← next value
  return (log ++ log', result)

section Refinement

variable {sb : Superblock} {area : LogArea} {machine middle after : Machine} {log : List Nat}

theorem Logs.refl (machine : Machine) : Logs sb area machine machine [] :=
  ⟨rfl, rfl, rfl, fun _ _ => rfl, by simp⟩

theorem Logs.trans {log' : List Nat} (first : Logs sb area machine middle log)
    (second : Logs sb area middle after log') : Logs sb area machine after (log ++ log') where
  disk := second.disk.trans first.disk
  writes := second.writes.trans first.writes
  lh := by rw [second.lh, first.lh, record_append]
  view := by
    intro blockno notLogged
    rw [List.mem_append, not_or] at notLogged
    rw [second.view blockno notLogged.2, first.view blockno notLogged.1]
  home := by
    intro blockno member
    rcases List.mem_append.mp member with inFirst | inSecond
    · exact first.home blockno inFirst
    · exact second.home blockno inSecond

/-- A call on the buffers agrees with a call on the disk that they show.  It panics as that one,
or because the transaction is too big. -/
inductive Refines (sb : Superblock) (area : LogArea) {Value Result : Type} (machine : Machine)
    (call : Except Panic (List Nat × Result)) (related : Value → Machine → Result → Prop) :
    EStateM.Result BlockPanic Machine Value → Prop
  | ok {value : Value} {after : Machine} {log : List Nat} {result : Result} : call = .ok (log, result) → Logs sb area machine after log →
      related value after result → Refines sb area machine call related (.ok value after)
  | panic {panic : Panic} {after : Machine} : call = .error panic → after.disk = machine.disk →
      after.writes = machine.writes →
      Refines sb area machine call related (.error (.fs panic) after)
  | tooBig {after : Machine} :
      (∀ log result, call = .ok (log, result) → MAXOPBLOCKS < (record machine.lh log).length) →
      after.disk = machine.disk → after.writes = machine.writes →
      Refines sb area machine call related (.error .tooBig after)

variable {Value Result Value' Result' : Type} {call : Except Panic (List Nat × Result)}
  {related : Value → Machine → Result → Prop}

namespace Refines

theorem pure {value : Value} {result : Result} (holds : related value machine result) :
    Refines sb area machine (.ok ([], result)) related ((pure value : Kernel Value) machine) :=
  .ok rfl (.refl machine) holds

theorem mono {related' : Value → Machine → Result → Prop}
    {outcome : EStateM.Result BlockPanic Machine Value}
    (refines : Refines sb area machine call related outcome)
    (weaker : ∀ value after log result, call = .ok (log, result) → related value after result →
      related' value after result) :
    Refines sb area machine call related' outcome := by
  cases refines with
  | ok isCall logs holds => exact .ok isCall logs (weaker _ _ _ _ isCall holds)
  | panic isCall disk writes => exact .panic isCall disk writes
  | tooBig many disk writes => exact .tooBig many disk writes

/-- A call after a part of the transaction. -/
theorem after_logs {value : Result} {next : Result → Except Panic (List Nat × Result')}
    {related' : Value' → Machine → Result' → Prop}
    {outcome : EStateM.Result BlockPanic Machine Value'} (logs : Logs sb area machine middle log)
    (refines : Refines sb area middle (next value) related' outcome) :
    Refines sb area machine (seqLogged (.ok (log, value)) next) related' outcome := by
  cases refines with
  | ok isCall later holds =>
      refine .ok ?_ (logs.trans later) holds
      change (next value >>= fun pair => _) = _
      rw [isCall]
      rfl
  | panic isCall disk writes =>
      refine .panic ?_ (disk.trans logs.disk) (writes.trans logs.writes)
      change (next value >>= fun pair => _) = _
      rw [isCall]
      rfl
  | tooBig many disk writes =>
      refine .tooBig ?_ (disk.trans logs.disk) (writes.trans logs.writes)
      intro log' result isCall
      change (next value >>= fun pair => _) = _ at isCall
      cases isNext : next value with
      | error panic => rw [isNext] at isCall; cases isCall
      | ok pair =>
          rw [isNext] at isCall
          cases isCall
          rw [record_append, ← logs.lh]
          exact many _ _ isNext

theorem bind {first : Kernel Value} {rest : Value → Kernel Value'}
    {next : Result → Except Panic (List Nat × Result')}
    {related' : Value' → Machine → Result' → Prop}
    (start : Refines sb area machine call related (first machine))
    (later : ∀ value after log result, call = .ok (log, result) →
      Logs sb area machine after log → related value after result →
      Refines sb area after (next result) related' (rest value after)) :
    Refines sb area machine (seqLogged call next) related' ((first >>= rest) machine) := by
  generalize isRun : first machine = outcome at start
  cases start with
  | ok isCall logs holds =>
      rw [bind_ok isRun, isCall]
      exact after_logs logs (later _ _ _ _ isCall logs holds)
  | panic isCall disk writes =>
      rw [bind_error isRun, isCall]
      exact .panic rfl disk writes
  | tooBig many disk writes =>
      rw [bind_error isRun]
      refine .tooBig ?_ disk writes
      intro log result isCall
      cases isFirst : call with
      | error panic => rw [isFirst] at isCall; cases isCall
      | ok pair =>
          rw [isFirst] at isCall
          change (next pair.2 >>= fun pair' => _) = _ at isCall
          cases isNext : next pair.2 with
          | error panic => rw [isNext] at isCall; cases isCall
          | ok pair' =>
              rw [isNext] at isCall
              cases isCall
              rw [record_append]
              exact Nat.lt_of_lt_of_le (many _ _ isFirst) (length_le_record _ _)

theorem seqLogged_nil (value : Result) (next : Result → Except Panic (List Nat × Result')) :
    seqLogged (.ok ([], value)) next = next value := by
  change (next value >>= fun pair => _) = _
  cases next value <;> rfl

theorem bread {blockno : Nat} {rest : Block → Kernel Value}
    (later : ∀ after, Logs sb area machine after [] → after.view = machine.view →
      Refines sb area after call related (rest (machine.view blockno) after)) :
    Refines sb area machine call related ((Buffered.bread blockno >>= rest) machine) := by
  have emits := RedoLog.bread_emits machine blockno
  have view : (RedoLog.bread machine blockno).2.view = machine.view := emits.view_eq
  have logs : Logs sb area machine (RedoLog.bread machine blockno).2 [] :=
    ⟨emits.disk_eq, by simpa using emits.writes_eq, emits.lh_eq, fun _ _ => by rw [view], by simp⟩
  have refines := later _ logs view
  rw [← RedoLog.bread_fst machine blockno] at refines
  have isSeq : seqLogged (.ok ([], ())) (fun _ : Unit => call) = call := seqLogged_nil () _
  rw [← isSeq]
  exact after_logs logs refines

/-- `log_write` has room, or the transaction is too big. -/
theorem logWrite (layout : Layout sb area) {blockno : Nat} {data : Block}
    (home : Home sb area blockno) :
    Refines sb area machine (.ok ([blockno], ()))
      (fun _ after _ => after.view = Function.update machine.view blockno data)
      (Buffered.logWrite area blockno data machine) := by
  unfold Buffered.logWrite
  split
  · next full =>
      refine .tooBig (fun log result isCall => ?_) rfl rfl
      have := layout.room
      have := layout.size
      refine Nat.lt_of_lt_of_le ?_ (length_le_record _ _)
      simp only [LOGSIZE, MAXOPBLOCKS] at *
      omega
  · have view : Machine.view { machine with
        cache := Function.update machine.cache blockno (some data)
        lh := if blockno ∈ machine.lh then machine.lh else machine.lh ++ [blockno] } =
          Function.update machine.view blockno data := by
      funext other
      by_cases same : other = blockno
      · subst same
        simp [Machine.view]
      · simp [Machine.view, Function.update_of_ne same]
    refine .ok rfl ⟨rfl, rfl, rfl, fun other notLogged => ?_, fun other member => ?_⟩ view
    · rw [view]
      exact Function.update_of_ne (fun same => notLogged (List.mem_singleton.mpr same)) ..
    · rw [List.mem_singleton.mp member]
      exact home

end Refines

end Refinement

end Coursework.FileSystem.Buffered
