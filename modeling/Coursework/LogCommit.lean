import Coursework.BlockBytes
import Coursework.KernelParam
import Coursework.StoreWrites

/-!
# The redo log on disk

`log.c` keeps a header block followed by log data blocks.  `commit` copies the
transaction's blocks from the buffer cache to the log, writes the header,
installs the logged blocks at their home locations, and clears the header.
`recover_from_log` repeats the installation after a crash.

The machine state below records every single-block disk write, in order, so a
crash is a prefix of that list.  Buffers are modelled by their contents: the
cache holds the contents of the cached blocks, and a clean buffer that is
evicted would be read back from the disk with the same contents.
-/

namespace Coursework

/-- The contents of one disk block. -/
abbrev Block := ByteBlock BSIZE

/-- The contents of a disk, by block number. -/
abbrev Disk := Nat → Block

namespace RedoLog

open ByteBlock

/-- The blocks `log.start .. log.start + log.size - 1`, the first of which is
the header. -/
structure LogArea where
  start : Nat
  size : Nat
  hasHeader : 0 < size

def LogArea.Contains (area : LogArea) (blockno : Nat) : Prop :=
  area.start ≤ blockno ∧ blockno < area.start + area.size

instance (area : LogArea) (blockno : Nat) : Decidable (area.Contains blockno) :=
  inferInstanceAs (Decidable (_ ∧ _))

/-- The state of the machine while the log code runs: the disk, the buffer
cache, the block numbers `log.lh.block[0 .. log.lh.n - 1]`, and the disk writes
issued so far, oldest first. -/
structure Machine where
  disk : Disk
  cache : Nat → Option Block
  lh : List Nat
  writes : List (Nat × Block)

/-- What a process reads from a block: the cached contents, or the disk's. -/
def Machine.view (machine : Machine) (blockno : Nat) : Block :=
  (machine.cache blockno).getD (machine.disk blockno)

/-- Return the contents of a block, reading it from the disk if it is not
cached. -/
def bread (machine : Machine) (blockno : Nat) : Block × Machine :=
  match machine.cache blockno with
  | some data => (data, machine)
  | none =>
      let data := machine.disk blockno
      (data, { machine with cache := Function.update machine.cache blockno (some data) })

/-- Write a buffer's contents to the disk. -/
def bwrite (machine : Machine) (blockno : Nat) (data : Block) : Machine :=
  { machine with
    disk := Function.update machine.disk blockno data
    cache := Function.update machine.cache blockno (some data)
    writes := machine.writes ++ [(blockno, data)] }

/-! ## The header block: `int n; int block[LOGSIZE]` -/

/-- A 32-bit word read as a C `int`. -/
def toInt32 (word : Nat) : Int :=
  if word < 2 ^ 31 then word else (word : Int) - 2 ^ 32

/-- The field `n` of a header block. -/
def headN (block : Block) : Int :=
  toInt32 (getField block 0 4)

/-- The field `block[index]` of a header block. -/
def headBlock (block : Block) (index : Nat) : Nat :=
  getField block (4 + 4 * index) 4

/-- The in-memory header that `read_head` copies out of a header block. -/
def decodeHead (block : Block) : List Nat :=
  (List.range (headN block).toNat).map (headBlock block)

/-- The header block after `write_head` stores `n` and the first `n` entries
over its old bytes. -/
def encodeHead (block : Block) (lh : List Nat) : Block :=
  (List.range lh.length).foldl
    (fun current index => setField current (4 + 4 * index) 4 (lh.getD index 0))
    (setField block 0 4 lh.length)

/-! ## The functions of `log.c` -/

/-- One iteration of `install_trans`: read the log block, read the destination,
overwrite it and write it to disk. -/
def installBlock (area : LogArea) (machine : Machine) (tail : Nat) : Machine :=
  let (lbuf, machine) := bread machine (area.start + tail + 1)
  let (_, machine) := bread machine (machine.lh.getD tail 0)
  bwrite machine (machine.lh.getD tail 0) lbuf

/-- Copy committed blocks from the log to their home location. -/
def installTrans (area : LogArea) (machine : Machine) : Machine :=
  (List.range machine.lh.length).foldl (installBlock area) machine

/-- Read the log header from disk into the in-memory log header. -/
def readHead (area : LogArea) (machine : Machine) : Machine :=
  let (buf, machine) := bread machine area.start
  { machine with lh := decodeHead buf }

/-- Write the in-memory log header to disk. -/
def writeHead (area : LogArea) (machine : Machine) : Machine :=
  let (buf, machine) := bread machine area.start
  bwrite machine area.start (encodeHead buf machine.lh)

/-- The statements `log.lh.n = 0; write_head();` that end `recover_from_log` and
`commit`. -/
def clearHead (area : LogArea) (machine : Machine) : Machine :=
  writeHead area { machine with lh := [] }

/-- Install a committed transaction, if the header on disk holds one, and clear
the log. -/
def recoverFromLog (area : LogArea) (machine : Machine) : Machine :=
  let machine := readHead area machine
  let machine := installTrans area machine
  clearHead area machine

/-- One iteration of `write_log`: read the log block, read the cached block,
overwrite the log block and write it to disk. -/
def writeLogBlock (area : LogArea) (machine : Machine) (tail : Nat) : Machine :=
  let (_, machine) := bread machine (area.start + tail + 1)
  let (frm, machine) := bread machine (machine.lh.getD tail 0)
  bwrite machine (area.start + tail + 1) frm

/-- Copy modified blocks from the cache to the log. -/
def writeLog (area : LogArea) (machine : Machine) : Machine :=
  (List.range machine.lh.length).foldl (writeLogBlock area) machine

/-- Commit the in-memory transaction. -/
def commit (area : LogArea) (machine : Machine) : Machine :=
  if 0 < machine.lh.length then
    let machine := writeLog area machine
    let machine := writeHead area machine
    let machine := installTrans area machine
    clearHead area machine
  else machine

/-! ## What each function writes -/

/-- `after` results from `before` by the disk writes `writes`, with the same
in-memory header. -/
structure Emits (before after : Machine) (writes : List (Nat × Block)) : Prop where
  writes_eq : after.writes = before.writes ++ writes
  disk_eq : after.disk = applyWrites writes before.disk
  view_eq : after.view = applyWrites writes before.view
  lh_eq : after.lh = before.lh

namespace Emits

theorem refl (machine : Machine) : Emits machine machine [] :=
  ⟨by simp, rfl, rfl, rfl⟩

theorem trans {first second third : Machine}
    {early late : List (Nat × Block)}
    (before : Emits first second early) (after : Emits second third late) :
    Emits first third (early ++ late) where
  writes_eq := by rw [after.writes_eq, before.writes_eq, List.append_assoc]
  disk_eq := by rw [after.disk_eq, before.disk_eq, applyWrites_append]
  view_eq := by rw [after.view_eq, before.view_eq, applyWrites_append]
  lh_eq := after.lh_eq.trans before.lh_eq

end Emits

@[simp]
theorem bread_fst (machine : Machine) (blockno : Nat) :
    (bread machine blockno).1 = machine.view blockno := by
  unfold bread Machine.view
  cases machine.cache blockno <;> rfl

theorem bread_emits (machine : Machine) (blockno : Nat) :
    Emits machine (bread machine blockno).2 [] := by
  unfold bread
  cases cached : machine.cache blockno with
  | some data => exact Emits.refl machine
  | none =>
      refine ⟨by simp, rfl, ?_, rfl⟩
      funext other
      -- the filled buffer holds what the disk holds
      by_cases same : other = blockno
      · subst same; simp [Machine.view, cached]
      · simp [Machine.view, Function.update_of_ne same]

@[simp]
theorem bread_lh (machine : Machine) (blockno : Nat) :
    (bread machine blockno).2.lh = machine.lh :=
  (bread_emits machine blockno).lh_eq

@[simp]
theorem bread_view (machine : Machine) (blockno : Nat) :
    (bread machine blockno).2.view = machine.view :=
  (bread_emits machine blockno).view_eq

theorem bwrite_emits (machine : Machine) (blockno : Nat) (data : Block) :
    Emits machine (bwrite machine blockno data) [(blockno, data)] := by
  refine ⟨rfl, rfl, ?_, rfl⟩
  funext other
  by_cases same : other = blockno
  · subst same; simp [bwrite, Machine.view]
  · simp [bwrite, Machine.view, Function.update_of_ne same]

theorem installBlock_emits (area : LogArea) (machine : Machine) (tail : Nat) :
    Emits machine (installBlock area machine tail)
      [(machine.lh.getD tail 0, machine.view (area.start + tail + 1))] := by
  have readLog := bread_emits machine (area.start + tail + 1)
  have readHome := bread_emits (bread machine (area.start + tail + 1)).2
    (machine.lh.getD tail 0)
  have written := (readLog.trans readHome).trans (bwrite_emits _
    (machine.lh.getD tail 0) (machine.view (area.start + tail + 1)))
  simpa [installBlock] using written

theorem writeLogBlock_emits (area : LogArea) (machine : Machine) (tail : Nat) :
    Emits machine (writeLogBlock area machine tail)
      [(area.start + tail + 1, machine.view (machine.lh.getD tail 0))] := by
  have readLog := bread_emits machine (area.start + tail + 1)
  have readHome := bread_emits (bread machine (area.start + tail + 1)).2
    (machine.lh.getD tail 0)
  have written := (readLog.trans readHome).trans (bwrite_emits _
    (area.start + tail + 1) (machine.view (machine.lh.getD tail 0)))
  simpa [writeLogBlock] using written

theorem writeHead_emits (area : LogArea) (machine : Machine) :
    Emits machine (writeHead area machine)
      [(area.start, encodeHead (machine.view area.start) machine.lh)] := by
  have read := bread_emits machine area.start
  have written := read.trans (bwrite_emits _ area.start
    (encodeHead (machine.view area.start) machine.lh))
  simpa [writeHead] using written

end RedoLog

end Coursework
