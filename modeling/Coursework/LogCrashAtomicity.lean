import Coursework.LogCommit
import Mathlib.Data.List.GetD

/-!
# Crash atomicity of the redo log

A crash stops `commit` after any prefix of its disk writes, and may stop
`recover_from_log` again and again before one recovery completes.  The disk then
is always in one of three kinds of state: clean with the old contents, committed
with the new contents in the log, or clean with the new contents installed.
-/

namespace Coursework.RedoLog

open ByteBlock

/-! ## The header block -/

theorem getField_encodeHead_entries (block : Block) (lh : List Nat)
    (count : Nat) (fits : count ≤ LOGSIZE) :
    let encoded := (List.range count).foldl
      (fun current index => setField current (4 + 4 * index) 4 (lh.getD index 0)) block
    getField encoded 0 4 = getField block 0 4 ∧
      ∀ index < count, headBlock encoded index = lh.getD index 0 % 256 ^ 4 := by
  induction count with
  | zero => simp
  | succ count ih =>
      obtain ⟨first, entries⟩ := ih (by omega)
      have entryFits : 4 + 4 * count + 4 ≤ BSIZE := by
        simp only [LOGSIZE, MAXOPBLOCKS] at fits
        simp only [BSIZE]
        omega
      simp only [List.range_succ, List.foldl_append, List.foldl_cons, List.foldl_nil]
      refine ⟨?_, fun index indexLt => ?_⟩
      · rw [getField_setField_of_disjoint _ _ (Or.inl (by omega)), first]
      · by_cases last : index = count
        · subst last
          exact getField_setField_self _ _ entryFits
        · rw [headBlock, getField_setField_of_disjoint _ _ (Or.inl (by omega))]
          exact entries index (by omega)

theorem headN_encodeHead (block : Block) (lh : List Nat)
    (fits : lh.length ≤ LOGSIZE) :
    headN (encodeHead block lh) = lh.length := by
  have counted := (getField_encodeHead_entries (setField block 0 4 lh.length) lh
    lh.length fits).1
  have small : lh.length < 2 ^ 31 := by
    simp only [LOGSIZE, MAXOPBLOCKS] at fits
    omega
  rw [headN, encodeHead, counted, getField_setField_self _ _ (by decide),
    Nat.mod_eq_of_lt (by omega), toInt32, if_pos small]

/-- The header that `write_head` stores is the one `read_head` finds. -/
theorem decodeHead_encodeHead (block : Block) {lh : List Nat}
    (fits : lh.length ≤ LOGSIZE) (words : ∀ blockno ∈ lh, blockno < 2 ^ 32) :
    decodeHead (encodeHead block lh) = lh := by
  have entries := (getField_encodeHead_entries (setField block 0 4 lh.length) lh
    lh.length fits).2
  rw [decodeHead, headN_encodeHead block lh fits, Int.toNat_natCast]
  apply List.ext_getElem (by simp)
  intro index inRange inList
  have entry := entries index inList
  have word := words _ (List.getElem_mem inList)
  rw [List.getElem_map, List.getElem_range]
  change headBlock (encodeHead block lh) index = _ at entry
  rw [entry, List.getD_eq_getElem lh 0 inList]
  exact Nat.mod_eq_of_lt (by omega)

theorem decodeHead_of_headN_zero {block : Block} (zero : headN block = 0) :
    decodeHead block = [] := by
  simp [decodeHead, zero]

/-! ## The writes of each loop -/

theorem foldl_range_emits {machine : Machine} {body : Machine → Nat → Machine}
    {write : Nat → Nat × Block} (count : Nat)
    (each : ∀ index < count, ∀ current,
      Emits machine current ((List.range index).map write) →
      Emits current (body current index) [write index]) :
    Emits machine ((List.range count).foldl body machine)
      ((List.range count).map write) := by
  induction count with
  | zero => exact Emits.refl machine
  | succ count ih =>
      have earlier := ih fun index indexLt => each index (by omega)
      have last := each count (by omega) _ earlier
      simpa [List.range_succ] using earlier.trans last

/-- The writes of `write_log`: block `start + tail + 1` gets the data of the
transaction's block `tail`. -/
def slotWrites (area : LogArea) (lh : List Nat) (data : Nat → Block) :
    List (Nat × Block) :=
  (List.range lh.length).map fun tail =>
    (area.start + tail + 1, data (lh.getD tail 0))

/-- The writes of `install_trans`: the transaction's block `tail` gets the
contents of block `start + tail + 1`. -/
def homeWrites (area : LogArea) (lh : List Nat) (logged : Nat → Block) :
    List (Nat × Block) :=
  (List.range lh.length).map fun tail =>
    (lh.getD tail 0, logged (area.start + tail + 1))

/-- A header whose blocks lie outside the log area, with room for them in it. -/
structure Fits (area : LogArea) (lh : List Nat) : Prop where
  room : lh.length ≤ area.size - 1
  outside : ∀ blockno ∈ lh, ¬ area.Contains blockno

namespace Fits

variable {area : LogArea} {lh : List Nat}

theorem getD_mem (lh : List Nat) {tail : Nat} (inside : tail < lh.length) :
    lh.getD tail 0 ∈ lh := by
  rw [List.getD_eq_getElem lh 0 inside]
  exact List.getElem_mem inside

theorem slot_contains (fits : Fits area lh) {tail : Nat}
    (inside : tail < lh.length) : area.Contains (area.start + tail + 1) := by
  have := fits.room
  constructor <;> omega

theorem home_ne_slot (fits : Fits area lh) {blockno tail : Nat}
    (member : blockno ∈ lh) (inside : tail < lh.length) :
    blockno ≠ area.start + tail + 1 := by
  rintro rfl
  exact fits.outside _ member (fits.slot_contains inside)

theorem home_ne_start (fits : Fits area lh) {blockno : Nat}
    (member : blockno ∈ lh) : blockno ≠ area.start := by
  rintro rfl
  have := area.hasHeader
  exact fits.outside _ member ⟨le_refl _, by omega⟩

end Fits

theorem mem_slotWrites {area : LogArea} {lh : List Nat} {data : Nat → Block}
    {write : Nat × Block} :
    write ∈ slotWrites area lh data ↔ ∃ tail < lh.length,
      write = (area.start + tail + 1, data (lh.getD tail 0)) := by
  simp [slotWrites, eq_comm]

theorem slotWrites_nodup (area : LogArea) (lh : List Nat) (data : Nat → Block) :
    ((slotWrites area lh data).map Prod.fst).Nodup := by
  simp only [slotWrites, List.map_map]
  refine List.Nodup.map ?_ List.nodup_range
  intro first second equal
  simpa using equal

theorem map_range_getD {α : Type*} (lh : List Nat) (f : Nat → α) :
    (List.range lh.length).map (fun tail => f (lh.getD tail 0)) = lh.map f := by
  apply List.ext_getElem (by simp)
  intro index inRange inList
  simp only [List.length_map] at inList
  simp [List.getElem?_eq_getElem inList]

theorem writeLog_emits (area : LogArea) (machine : Machine)
    (fits : Fits area machine.lh) :
    Emits machine (writeLog area machine)
      (slotWrites area machine.lh machine.view) := by
  apply foldl_range_emits
  intro index indexLt current reached
  have written := writeLogBlock_emits area current index
  -- earlier iterations wrote log blocks only
  have unchanged : current.view (machine.lh.getD index 0) =
      machine.view (machine.lh.getD index 0) := by
    rw [reached.view_eq, applyWrites_of_forall_ne]
    simp only [List.mem_map, List.mem_range, forall_exists_index, and_imp]
    rintro _ tail tailLt rfl
    exact (fits.home_ne_slot (Fits.getD_mem _ indexLt) (by omega)).symm
  rwa [reached.lh_eq, unchanged] at written

theorem installTrans_emits (area : LogArea) (machine : Machine)
    (fits : Fits area machine.lh) :
    Emits machine (installTrans area machine)
      (homeWrites area machine.lh machine.view) := by
  apply foldl_range_emits
  intro index indexLt current reached
  have written := installBlock_emits area current index
  -- earlier iterations wrote home blocks only
  have unchanged : current.view (area.start + index + 1) =
      machine.view (area.start + index + 1) := by
    rw [reached.view_eq, applyWrites_of_forall_ne]
    simp only [List.mem_map, List.mem_range, forall_exists_index, and_imp]
    rintro _ tail tailLt rfl
    exact fits.home_ne_slot (Fits.getD_mem _ (by omega)) indexLt
  rwa [reached.lh_eq, unchanged] at written

theorem clearHead_writes (area : LogArea) (machine : Machine) :
    ∃ cleared, headN cleared = 0 ∧
      (clearHead area machine).writes = machine.writes ++ [(area.start, cleared)] ∧
      (clearHead area machine).disk =
        Function.update machine.disk area.start cleared := by
  have written := writeHead_emits area { machine with lh := [] }
  exact ⟨_, headN_encodeHead _ [] (by simp), written.writes_eq,
    written.disk_eq⟩

/-- The disk writes of `commit`: the log blocks, the header, the home blocks,
and the cleared header. -/
theorem commit_writes (area : LogArea) (machine : Machine)
    (fits : Fits area machine.lh) (size : machine.lh.length ≤ LOGSIZE)
    (words : ∀ blockno ∈ machine.lh, blockno < 2 ^ 32)
    (nonempty : 0 < machine.lh.length) :
    ∃ head cleared, decodeHead head = machine.lh ∧ headN cleared = 0 ∧
      (commit area machine).writes = machine.writes ++
        (slotWrites area machine.lh machine.view ++
          ((area.start, head) ::
            (machine.lh.map (fun blockno => (blockno, machine.view blockno)) ++
              [(area.start, cleared)]))) := by
  have logged := writeLog_emits area machine fits
  have committed := logged.trans (writeHead_emits area (writeLog area machine))
  have headLh := committed.lh_eq
  have installed := committed.trans (installTrans_emits area
    (writeHead area (writeLog area machine)) (headLh ▸ fits))
  rw [headLh] at installed
  -- the log blocks that `install_trans` reads are the ones `write_log` wrote
  have homes : homeWrites area machine.lh
      (writeHead area (writeLog area machine)).view =
      machine.lh.map (fun blockno => (blockno, machine.view blockno)) := by
    rw [← map_range_getD machine.lh fun blockno => (blockno, machine.view blockno),
      homeWrites]
    apply List.map_congr_left
    intro tail tailMem
    have tailLt : tail < machine.lh.length := List.mem_range.mp tailMem
    have slot := applyWrites_of_mem (slotWrites_nodup area machine.lh machine.view)
      (mem_slotWrites.mpr ⟨tail, tailLt, rfl⟩) machine.view
    have notStart : area.start + tail + 1 ≠ area.start := by omega
    rw [committed.view_eq, applyWrites_append, applyWrites_cons, applyWrites_nil,
      Function.update_of_ne notStart, slot]
  obtain ⟨cleared, zero, allWrites, _⟩ := clearHead_writes area
    (installTrans area (writeHead area (writeLog area machine)))
  refine ⟨encodeHead ((writeLog area machine).view area.start) machine.lh, cleared,
    decodeHead_encodeHead _ size words, zero, ?_⟩
  simp only [commit, nonempty, if_true]
  rw [allWrites, installed.writes_eq, homes, logged.lh_eq]
  simp

/-! ## Recovery -/

/-- The machine after a crash: only the disk survives. -/
def boot (disk : Disk) : Machine :=
  { disk := disk, cache := fun _ => none, lh := [], writes := [] }

/-- The disk writes of a complete `recover_from_log`. -/
def recoveryWrites (area : LogArea) (disk : Disk) : List (Nat × Block) :=
  (recoverFromLog area (boot disk)).writes

/-- The disk after a complete `recover_from_log`. -/
def recoveredDisk (area : LogArea) (disk : Disk) : Disk :=
  (recoverFromLog area (boot disk)).disk

theorem recoverFromLog_writes (area : LogArea) (disk : Disk)
    (fits : Fits area (decodeHead (disk area.start))) :
    ∃ cleared, headN cleared = 0 ∧
      recoveryWrites area disk =
        homeWrites area (decodeHead (disk area.start)) disk ++ [(area.start, cleared)] ∧
      recoveredDisk area disk = applyWrites (recoveryWrites area disk) disk := by
  have read := bread_emits (boot disk) area.start
  have headLh : (readHead area (boot disk)).lh = decodeHead (disk area.start) := by
    simp [readHead, boot, Machine.view]
  have headView : (readHead area (boot disk)).view = disk := by
    change (bread (boot disk) area.start).2.view = disk
    rw [read.view_eq]
    rfl
  have headDisk : (readHead area (boot disk)).disk = disk := read.disk_eq
  have headWrites : (readHead area (boot disk)).writes = [] := read.writes_eq
  have installed := installTrans_emits area (readHead area (boot disk))
    (by rw [headLh]; exact fits)
  rw [headLh, headView] at installed
  obtain ⟨cleared, zero, clearWrites, clearDisk⟩ := clearHead_writes area
    (installTrans area (readHead area (boot disk)))
  have allWrites : recoveryWrites area disk =
      homeWrites area (decodeHead (disk area.start)) disk ++
        [(area.start, cleared)] := by
    rw [recoveryWrites, recoverFromLog, clearWrites, installed.writes_eq, headWrites,
      List.nil_append]
  refine ⟨cleared, zero, allWrites, ?_⟩
  rw [allWrites, recoveredDisk, recoverFromLog, clearDisk, applyWrites_append,
    installed.disk_eq, headDisk]
  rfl

/-- The disks left by any number of recoveries that crash, each after some
prefix of its disk writes. -/
inductive RecoveryCrashes (area : LogArea) : Disk → Disk → Prop
  | done (disk : Disk) : RecoveryCrashes area disk disk
  | crash {disk last : Disk} (count : Nat) :
      RecoveryCrashes area
        (applyWrites ((recoveryWrites area disk).take count) disk) last →
      RecoveryCrashes area disk last

/-! ## The states a crash can leave -/

/-- The header holds no transaction and the blocks outside the log area have
the given contents. -/
structure Clean (area : LogArea) (contents disk : Disk) : Prop where
  header : headN (disk area.start) = 0
  home : ∀ blockno, ¬ area.Contains blockno → disk blockno = contents blockno

/-- The header holds the transaction, the log holds its new contents, and each
of its home blocks is old or new. -/
structure Committed (area : LogArea) (lh : List Nat) (old new disk : Disk) : Prop where
  header : decodeHead (disk area.start) = lh
  slots : ∀ tail < lh.length,
    disk (area.start + tail + 1) = new (lh.getD tail 0)
  home : ∀ blockno ∈ lh, disk blockno = old blockno ∨ disk blockno = new blockno
  other : ∀ blockno, ¬ area.Contains blockno → blockno ∉ lh →
    disk blockno = old blockno

/-- The contents of the blocks outside the log after the transaction. -/
def overlay (lh : List Nat) (old new : Disk) : Disk :=
  fun blockno => if blockno ∈ lh then new blockno else old blockno

/-- The disk states between the start of a commit and the end of a recovery. -/
def Recoverable (area : LogArea) (lh : List Nat) (old new disk : Disk) : Prop :=
  Clean area old disk ∨ Committed area lh old new disk ∨
    Clean area (overlay lh old new) disk

section CrashStates

variable {area : LogArea} {lh : List Nat} {old new : Disk}

theorem Clean.write_slot {contents disk : Disk} (clean : Clean area contents disk)
    (fits : Fits area lh) {tail : Nat} (inside : tail < lh.length) (data : Block) :
    Clean area contents (Function.update disk (area.start + tail + 1) data) where
  header := by
    rw [Function.update_of_ne (by omega)]
    exact clean.header
  home blockno outside := by
    rw [Function.update_of_ne]
    · exact clean.home blockno outside
    · rintro rfl
      exact outside (fits.slot_contains inside)

theorem Clean.write_start {contents disk : Disk} (cleared : Block)
    (zero : headN cleared = 0)
    (home : ∀ blockno, ¬ area.Contains blockno → disk blockno = contents blockno) :
    Clean area contents (Function.update disk area.start cleared) where
  header := by rwa [Function.update_self]
  home blockno outside := by
    rw [Function.update_of_ne]
    · exact home blockno outside
    · rintro rfl
      have := area.hasHeader
      exact outside ⟨le_refl _, by omega⟩

theorem Committed.write_home {disk : Disk} (committed : Committed area lh old new disk)
    (fits : Fits area lh) {blockno : Nat} (member : blockno ∈ lh) :
    Committed area lh old new (Function.update disk blockno (new blockno)) where
  header := by
    rw [Function.update_of_ne (fits.home_ne_start member).symm]
    exact committed.header
  slots tail inside := by
    rw [Function.update_of_ne (fits.home_ne_slot member inside).symm]
    exact committed.slots tail inside
  home other otherMem := by
    by_cases same : other = blockno
    · subst same
      simp
    · rw [Function.update_of_ne same]
      exact committed.home other otherMem
  other other outside notMem := by
    rw [Function.update_of_ne]
    · exact committed.other other outside notMem
    · rintro rfl
      exact notMem member

/-- Installing every block of a committed transaction gives the new contents. -/
theorem Committed.install_all {disk : Disk} (committed : Committed area lh old new disk)
    (distinct : lh.Nodup) (blockno : Nat)
    (outside : ¬ area.Contains blockno) :
    applyWrites (lh.map fun blockno => (blockno, new blockno)) disk blockno =
      overlay lh old new blockno := by
  by_cases member : blockno ∈ lh
  · have keys : ((lh.map fun home => (home, new home)).map Prod.fst).Nodup := by
      simpa [Function.comp_def] using distinct
    have written := applyWrites_of_mem keys
      (List.mem_map.mpr ⟨blockno, member, rfl⟩) disk
    simpa [overlay, member] using written
  · rw [applyWrites_of_forall_ne, overlay, if_neg member]
    · exact committed.other blockno outside member
    · intro write writeMem
      obtain ⟨home, homeMem, rfl⟩ := List.mem_map.mp writeMem
      rintro rfl
      exact member homeMem

theorem Committed.apply_homes {disk : Disk} (committed : Committed area lh old new disk)
    (fits : Fits area lh) {writes : List (Nat × Block)}
    (sublist : ∀ write ∈ writes, ∃ blockno ∈ lh, write = (blockno, new blockno)) :
    Committed area lh old new (applyWrites writes disk) := by
  apply applyWrites_preserves _ committed
  intro write member current holds
  obtain ⟨blockno, homeMem, rfl⟩ := sublist write member
  exact holds.write_home fits homeMem

theorem Committed.homeWrites_eq {disk : Disk}
    (committed : Committed area lh old new disk) :
    homeWrites area lh disk = lh.map fun blockno => (blockno, new blockno) := by
  rw [← map_range_getD lh fun blockno => (blockno, new blockno), homeWrites]
  apply List.map_congr_left
  intro tail tailMem
  rw [committed.slots tail (List.mem_range.mp tailMem)]

/-- Installation and clearing of a committed transaction: every prefix of the
writes leaves a recoverable disk, and all of them leave a clean new disk. -/
theorem Committed.install_and_clear {disk : Disk}
    (committed : Committed area lh old new disk) (fits : Fits area lh)
    (distinct : lh.Nodup) {cleared : Block} (zero : headN cleared = 0) :
    let writes := lh.map (fun blockno => (blockno, new blockno)) ++
      [(area.start, cleared)]
    (∀ count, Recoverable area lh old new (applyWrites (writes.take count) disk)) ∧
      Clean area (overlay lh old new) (applyWrites writes disk) := by
  have complete : Clean area (overlay lh old new)
      (applyWrites (lh.map (fun blockno => (blockno, new blockno)) ++
        [(area.start, cleared)]) disk) := by
    rw [applyWrites_append]
    exact Clean.write_start cleared zero fun blockno outside =>
      committed.install_all distinct blockno outside
  refine ⟨fun count => ?_, complete⟩
  by_cases inHomes : count ≤ lh.length
  · right; left
    rw [List.take_append_of_le_length (by simpa using inHomes)]
    apply committed.apply_homes fits
    intro write member
    obtain ⟨blockno, homeMem, rfl⟩ := List.mem_map.mp (List.mem_of_mem_take member)
    exact ⟨blockno, homeMem, rfl⟩
  · right; right
    rw [List.take_of_length_le (by simp; omega)]
    exact complete

/-- Crashing inside a recovery leaves a recoverable disk, and completing it
leaves a clean one. -/
theorem Recoverable.recover {disk : Disk}
    (recoverable : Recoverable area lh old new disk) (fits : Fits area lh)
    (distinct : lh.Nodup) :
    (∀ count, Recoverable area lh old new
        (applyWrites ((recoveryWrites area disk).take count) disk)) ∧
      (Clean area old (recoveredDisk area disk) ∨
        Clean area (overlay lh old new) (recoveredDisk area disk)) := by
  have fromClean : ∀ contents, Clean area contents disk →
      (∀ count, Clean area contents
        (applyWrites ((recoveryWrites area disk).take count) disk)) ∧
      Clean area contents (recoveredDisk area disk) := by
    intro contents clean
    have empty := decodeHead_of_headN_zero clean.header
    obtain ⟨cleared, zero, allWrites, final⟩ := recoverFromLog_writes area disk
      (by rw [empty]; exact ⟨by simp, by simp⟩)
    have rewritten := Clean.write_start cleared zero clean.home
    simp only [empty, homeWrites, List.length_nil, List.range_zero, List.map_nil,
      List.nil_append] at allWrites
    rw [final, allWrites]
    refine ⟨fun count => ?_, rewritten⟩
    cases count with
    | zero => exact clean
    | succ count => simpa using rewritten
  rcases recoverable with clean | committed | clean
  · exact ⟨fun count => Or.inl ((fromClean old clean).1 count),
      Or.inl (fromClean old clean).2⟩
  · obtain ⟨cleared, zero, allWrites, final⟩ := recoverFromLog_writes area disk
      (by rw [committed.header]; exact fits)
    rw [committed.header, committed.homeWrites_eq] at allWrites
    have whole := committed.install_and_clear fits distinct zero
    rw [final, allWrites]
    exact ⟨whole.1, Or.inr whole.2⟩
  · exact ⟨fun count => Or.inr (Or.inr ((fromClean _ clean).1 count)),
      Or.inr (fromClean _ clean).2⟩

theorem Recoverable.crashes {disk last : Disk}
    (recoverable : Recoverable area lh old new disk) (fits : Fits area lh)
    (distinct : lh.Nodup) (crashes : RecoveryCrashes area disk last) :
    Recoverable area lh old new last := by
  induction crashes with
  | done disk => exact recoverable
  | crash count _ ih => exact ih ((recoverable.recover fits distinct).1 count)

end CrashStates

/-- The disk writes that `commit` issues. -/
def commitWrites (area : LogArea) (machine : Machine) : List (Nat × Block) :=
  (commit area { machine with writes := [] }).writes

/-- Crashing inside a commit leaves a recoverable disk. -/
theorem commit_recoverable (area : LogArea) (machine : Machine)
    (fits : Fits area machine.lh) (size : machine.lh.length ≤ LOGSIZE)
    (words : ∀ blockno ∈ machine.lh, blockno < 2 ^ 32)
    (distinct : machine.lh.Nodup)
    (empty : headN (machine.disk area.start) = 0) (count : Nat) :
    Recoverable area machine.lh machine.disk machine.view
      (applyWrites ((commitWrites area machine).take count) machine.disk) := by
  have unlogged : Clean area machine.disk machine.disk := ⟨empty, fun _ _ => rfl⟩
  by_cases nonempty : 0 < machine.lh.length
  · obtain ⟨head, cleared, decoded, zero, issued⟩ :=
      commit_writes area { machine with writes := [] } fits size words nonempty
    have allWrites : commitWrites area machine =
        slotWrites area machine.lh machine.view ++ ((area.start, head) ::
          (machine.lh.map (fun blockno => (blockno, machine.view blockno)) ++
            [(area.start, cleared)])) := issued
    rw [allWrites]
    have logging : ∀ writes, (∀ write ∈ writes,
        write ∈ slotWrites area machine.lh machine.view) →
        Clean area machine.disk (applyWrites writes machine.disk) := by
      intro writes sublist
      apply applyWrites_preserves _ unlogged
      intro write member current holds
      obtain ⟨tail, inside, rfl⟩ := mem_slotWrites.mp (sublist write member)
      exact holds.write_slot fits inside _
    rcases applyWrites_take_append (slotWrites area machine.lh machine.view)
      ((area.start, head) :: (machine.lh.map
        (fun blockno => (blockno, machine.view blockno)) ++ [(area.start, cleared)]))
      count machine.disk with early | ⟨rest, late⟩
    · rw [early]
      exact Or.inl (logging _ fun write member => List.mem_of_mem_take member)
    · rw [late]
      have logged := logging _ fun _ member => member
      cases rest with
      | zero => exact Or.inl logged
      | succ rest =>
          -- the header write is the commit point
          have committed : Committed area machine.lh machine.disk machine.view
              (Function.update (applyWrites (slotWrites area machine.lh machine.view)
                machine.disk) area.start head) := by
            refine ⟨by rwa [Function.update_self], fun tail inside => ?_,
              fun blockno member => Or.inl ?_, fun blockno outside _ => ?_⟩
            · rw [Function.update_of_ne (by omega)]
              exact applyWrites_of_mem (slotWrites_nodup area machine.lh machine.view)
                (mem_slotWrites.mpr ⟨tail, inside, rfl⟩) machine.disk
            · rw [Function.update_of_ne (fits.home_ne_start member)]
              exact logged.home blockno (fits.outside blockno member)
            · rw [Function.update_of_ne]
              · exact logged.home blockno outside
              · rintro rfl
                have := area.hasHeader
                exact outside ⟨le_refl _, by omega⟩
          exact (committed.install_and_clear fits distinct zero).1 rest
  · have nothing : commitWrites area machine = [] := by
      simp [commitWrites, commit, nonempty]
    rw [nothing]
    exact Or.inl (by simpa using unlogged)

/-- A crash after any prefix of the disk writes of `commit`, and any number of
crashes inside `recover_from_log`, leave after a complete recovery all of the
transaction's blocks old or all of them new, every other block outside the log
as it was, and an empty log header. -/
theorem commit_crash_atomic (area : LogArea) (machine : Machine)
    (empty : headN (machine.disk area.start) = 0)
    (size : machine.lh.length ≤ min LOGSIZE (area.size - 1))
    (distinct : machine.lh.Nodup)
    (words : ∀ blockno ∈ machine.lh, blockno < 2 ^ 32)
    (outside : ∀ blockno ∈ machine.lh, ¬ area.Contains blockno)
    (count : Nat) (crashed : Disk)
    (crashes : RecoveryCrashes area
      (applyWrites ((commitWrites area machine).take count) machine.disk) crashed) :
    ((∀ blockno ∈ machine.lh,
        recoveredDisk area crashed blockno = machine.disk blockno) ∨
      (∀ blockno ∈ machine.lh,
        recoveredDisk area crashed blockno = machine.view blockno)) ∧
    (∀ blockno, ¬ area.Contains blockno → blockno ∉ machine.lh →
      recoveredDisk area crashed blockno = machine.disk blockno) ∧
    headN (recoveredDisk area crashed area.start) = 0 := by
  have fits : Fits area machine.lh := ⟨by omega, outside⟩
  have recoverable := (commit_recoverable area machine fits (by omega) words distinct
    empty count).crashes fits distinct crashes
  rcases (recoverable.recover fits distinct).2 with old | new
  · exact ⟨Or.inl fun blockno member => old.home blockno (outside blockno member),
      fun blockno notLog _ => old.home blockno notLog, old.header⟩
  · refine ⟨Or.inr fun blockno member => ?_, fun blockno notLog notMem => ?_, new.header⟩
    · rw [new.home blockno (outside blockno member), overlay, if_pos member]
    · rw [new.home blockno notLog, overlay, if_neg notMem]

/-- A transaction of blocks 100 and 101, filled with ones in the cache, over a
zeroed disk with the log at blocks 2 to 31. -/
def twoBlockMachine : Machine where
  disk := fun _ _ => 0
  cache := fun blockno =>
    if blockno = 100 ∨ blockno = 101 then some fun _ => 1 else none
  lh := [100, 101]
  writes := []

theorem commit_crash_atomic_twoBlockMachine :
    let area : LogArea := ⟨2, LOGSIZE, by decide⟩
    -- the first crash follows the header write and one home write, the second
    -- follows one home write of the first recovery
    let crashed := applyWrites ((commitWrites area twoBlockMachine).take 4)
      twoBlockMachine.disk
    let again := applyWrites ((recoveryWrites area crashed).take 1) crashed
    ((∀ blockno ∈ [100, 101], recoveredDisk area again blockno = fun _ => 0) ∨
      (∀ blockno ∈ [100, 101],
        recoveredDisk area again blockno = twoBlockMachine.view blockno)) ∧
    (∀ blockno, ¬ area.Contains blockno → blockno ∉ [100, 101] →
      recoveredDisk area again blockno = fun _ => 0) ∧
    headN (recoveredDisk area again area.start) = 0 :=
  commit_crash_atomic ⟨2, LOGSIZE, by decide⟩ twoBlockMachine (by decide) (by decide)
    (by decide) (by decide) (by decide) 4 _ (.crash 1 (.done _))

end Coursework.RedoLog
