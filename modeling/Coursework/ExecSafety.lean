import Coursework.ExecOutcome

/-!
# exec in every run

What `exec` guarantees whenever a process calls it: for every file it neither panics nor
stores outside of the new image; if it succeeds then the new program finds its arguments; and
if it fails then the caller is as it was.

The last of these has an exception.  Where an argument wraps around to the gap between the
physical memory and the devices, `uva2ka` reads its entry through a null pointer, that is from
the caller's page zero, and `copyout` may write to any page that it finds there.  So nothing
can be said of what `exec` returns then.
-/

namespace Coursework.Exec

open Paging

variable {layout : Layout} {machine : Machine} {argv : List CString} {path : List UInt8}
  {files : List UInt8 → Option (List UInt8)}

/-- A process of a run calls `exec`, whatever the pages of memory hold. -/
structure Calls {PipeId : Type} [DecidableEq PipeId] [Fintype PipeId] (layout : Layout) (state : State PipeId)
    (pid : Pid) (machine : Machine) : Prop where
  run : Run (State.step layout) anyStep (State.IsBooted layout) state
  alive : (state.proc pid).status = .alive
  pgdir : (state.proc pid).pgdir = some machine.curproc.pgdir
  sz : (state.proc pid).sz = machine.curproc.sz
  freelist : machine.memory.freelist = state.freelist

section Runs

variable {PipeId : Type} [DecidableEq PipeId] [Fintype PipeId] {state : State PipeId} {pid : Pid}

theorem Calls.sole (calls : Calls layout state pid machine) :
    Bounded layout machine.memory ∧ Sole layout machine.memory.freelist machine.curproc.pgdir := by
  have trimmed := Trimmed.of_run calls.run calls.alive calls.pgdir machine.memory.ram
  have sole : Sole layout state.freelist machine.curproc.pgdir := trimmed.sole
  rw [← calls.freelist] at sole
  exact ⟨fun frame => (Nat.le_add_right _ _).trans (sole frame), sole⟩

theorem Calls.spec (calls : Calls layout state pid machine)
    (files : List UInt8 → Option (List UInt8)) (path : List UInt8) (argv : List CString) :
    Outcome (fun fault => fault = .nullEntry ∧ NullArgument files machine.memory path argv)
      (fun result => ¬ NullArgument files machine.memory path argv ∧
        (¬ Accepts files machine.memory path argv ∧
            Failed machine.memory machine.curproc (machine.calls ++ fsCalls files path) result ∨
          Accepts files machine.memory path argv ∧
            Runs layout files machine path argv result))
      (exec layout files machine path argv) :=
  exec_spec calls.sole.1 calls.sole.2

/-- A process with the letter `a` everywhere in its memory. -/
def callerOf (freelist : Freelist) (dir : Dir) (sz : Nat) : Machine where
  memory := ⟨freelist, fun _ => 97⟩
  curproc := ⟨dir, sz, [], 2, 0, 0⟩
  calls := []

/-- The first process with a hundred free pages. -/
def spareCaller : Machine := callerOf (spareMachine 100).freelist smallDir PGSIZE

theorem spareCaller_calls : Calls smallLayout (spareMachine 100) initproc spareCaller :=
  have isFirst : (spareMachine 100).proc initproc =
      ⟨.alive, some 601, some smallDir, PGSIZE, none⟩ := smallMachine_first
  ⟨.start (spareMachine_booted (by decide)), congrArg Proc.status isFirst,
    congrArg Proc.pgdir isFirst, congrArg Proc.sz isFirst, rfl⟩

/-- An ELF header without program headers. -/
def emptyProgram : List UInt8 := [0x7F, 69, 76, 70] ++ List.replicate 48 0

theorem emptyProgram_image : fileImage emptyProgram = some (0, fun _ => 0) := by rfl

def shortString : CString := ⟨[97, 98], by decide, by decide⟩

theorem smallDir_tables : UserTables smallDir 1 := by
  intro other user
  rw [Dir.mem_tables]
  have isTable : (smallDir.pdes (PDX other)).isSome = true ↔ other / NPDENTRIES = 0 := by
    simp only [smallDir]
    have value : (PDX other).val = other / NPDENTRIES := by
      simp only [PDX, USERPAGES, KERNBASE, PGSIZE, NPDENTRIES] at *
      omega
    rw [value]
    split
    · next isFirst => simp [isFirst]
    · next later => simp [later]
  rw [isTable]
  simp only [NPDENTRIES]
  omega

/-- `allocuvm` succeeds if there are pages enough. -/
theorem allocuvm_grown {memory : Memory} {dir : Dir} {sz newsz : Nat}
    (trimmed : Trimmed layout memory dir sz) (tables : UserTables dir (pagesBelow sz))
    (order : sz ≤ newsz) (user : newsz < KERNBASE)
    (enough : copyPages (pagesBelow newsz) ≤
      memory.freelist.length + copyPages (pagesBelow sz)) :
    ∃ freelist dir', allocuvm layout memory.freelist dir sz newsz = .ok (newsz, freelist, dir') ∧
      freelist.length + copyPages (pagesBelow newsz) =
        memory.freelist.length + copyPages (pagesBelow sz) := by
  have pages := pagesBelow_mono order
  have limit := pagesBelow_le user.le
  have left : pagesBelow sz + (pagesBelow newsz - pagesBelow sz) = pagesBelow newsz := by omega
  have spec := allocLoop_spec user (pagesBelow newsz - pagesBelow sz) trimmed.sole (le_refl _) left
  have demand := @allocLoop_demand layout sz newsz (pagesBelow newsz - pagesBelow sz)
    memory.freelist dir (pagesBelow sz) (by omega) tables
  rw [left] at demand
  unfold allocuvm
  rw [if_neg (by omega), if_neg (by omega)]
  have noRemap : ∀ error, (error = Panic.remap ∧ ∃ other, pagesBelow sz ≤ other ∧
      other < pagesBelow newsz ∧ (dir.pte other).isSome = true) ∧ True → False := by
    rintro error ⟨⟨-, other, above, below, present⟩, -⟩
    rw [trimmed.above other above (by omega)] at present
    cases present
  obtain ⟨⟨size, freelist, dir'⟩, isOk, -, succeeds, -⟩ :=
    ((spec.and demand).mono noRemap fun _ same => same).exists_ok
  obtain ⟨isSize, -, balance, -⟩ := succeeds enough
  simp only at isSize balance
  subst isSize
  exact ⟨freelist, dir', isOk, balance⟩

/-- The first process grows to just over 64 MB. -/
theorem grown_step {count : Nat} (few : 700 + count ≤ PHYSTOP / PGSIZE) (enough : 16402 ≤ count) :
    ∃ after dir, (spareMachine count).step smallLayout (.sbrk initproc 67117056) = some after ∧
      after.proc initproc = ⟨.alive, some 601, some dir, 67121152, none⟩ ∧
      after.freelist.length + 16402 = count := by
  have booted := @spareMachine_booted count few
  have isFirst : (spareMachine count).proc initproc =
      ⟨.alive, some 601, some smallDir, PGSIZE, none⟩ := smallMachine_first
  have alive : ((spareMachine count).proc initproc).status = .alive := by rw [isFirst]
  have isDir : ((spareMachine count).proc initproc).pgdir = some smallDir := by rw [isFirst]
  have size : ((spareMachine count).proc initproc).sz = PGSIZE := by rw [isFirst]
  have trimmed := Trimmed.of_run (.start booted) alive isDir fun _ => 0
  rw [size] at trimmed
  have length : (spareMachine count).freelist.length = count := List.length_range'
  have onePage : pagesBelow PGSIZE = 1 := by decide
  have manyPages : pagesBelow 67121152 = 16387 := by decide
  have many : copyPages 16387 = 16404 := by decide
  have one : copyPages 1 = 2 := by decide
  have tables : UserTables smallDir (pagesBelow PGSIZE) := by
    rw [onePage]
    exact smallDir_tables
  obtain ⟨freelist, dir, isGrown, balance⟩ :=
    @allocuvm_grown smallLayout _ smallDir PGSIZE 67121152 trimmed tables (by decide) (by decide) (by
      rw [onePage, manyPages, many, one]
      change 16404 ≤ (spareMachine count).freelist.length + 2
      omega)
  have isAlive : (spareMachine count).isAlive initproc = true := decide_eq_true alive
  have isSbrk : (spareMachine count).sbrk smallLayout initproc 67117056 =
      .ok ({ spareMachine count with freelist := freelist }.setProc initproc
        ⟨.alive, some 601, some dir, 67121152, none⟩) := by
    have isSize : (((PGSIZE : Nat) + (67117056 : Int32).toInt) % UINT).toNat = 67121152 := by decide
    rw [State.sbrk, isFirst]
    simp only
    rw [growproc, isSize, if_pos (by decide)]
    change (allocuvm smallLayout (spareMachine count).freelist smallDir PGSIZE 67121152 >>= _) >>= _
      = _
    rw [isGrown]
    rfl
  refine ⟨({ spareMachine count with freelist := freelist } : State Unit).setProc initproc
    ⟨.alive, some 601, some dir, 67121152, none⟩, dir, ?_, ?_, ?_⟩
  · have running : ¬ (spareMachine count).panic.isSome = true := nofun
    rw [State.step, if_neg running, State.call, if_pos isAlive, isSbrk]
    rfl
  · simp only [State.setProc, Function.update_self]
  · change freelist.length + _ = (spareMachine count).freelist.length + _ at balance
    rw [onePage, manyPages, length, many, one] at balance
    change freelist.length + 16402 = count
    omega

/-! ## No panics -/

/-- Whatever a file holds, `exec` does not panic, does not load a segment that starts within a
page, and stores to pages of the new image only. -/
theorem exec_never_panics (calls : Calls layout state pid machine) :
    (∀ panic, exec layout files machine path argv ≠ .error (.panic panic)) ∧
      exec layout files machine path argv ≠ .error .addrUnaligned ∧
      exec layout files machine path argv ≠ .error .strayStore := by
  have spec := calls.spec files path argv
  refine ⟨?_, ?_, ?_⟩
  · intro panic isError
    rw [isError] at spec
    cases spec.1
  · intro isError
    rw [isError] at spec
    cases spec.1
  · intro isError
    rw [isError] at spec
    cases spec.1

/-- The first process calls `exec`. -/
theorem exec_never_panics_spare :
    (∀ panic, exec smallLayout (fun _ => some emptyProgram) spareCaller [] [shortString] ≠
        .error (.panic panic)) ∧
      exec smallLayout (fun _ => some emptyProgram) spareCaller [] [shortString] ≠
        .error .addrUnaligned ∧
      exec smallLayout (fun _ => some emptyProgram) spareCaller [] [shortString] ≠
        .error .strayStore :=
  exec_never_panics spareCaller_calls

/-! ## Arguments -/

/-- A program that `exec` has started finds its arguments, and all else of its memory is the
image of its file. -/
def Delivered (files : List UInt8 → Option (List UInt8)) (path : List UInt8)
    (argv : List CString) (after : Machine) : Prop :=
  ∃ pointers, MainFrame after.curproc.pgdir after.memory.ram after.curproc.sz
    after.curproc.esp argv pointers ∧ ∃ content size image, files path = some content ∧
      fileImage content = some (size, image) ∧ after.curproc.sz = stackTop size ∧
      ∀ addr < after.curproc.sz,
        (∀ range ∈ stackRanges argv pointers after.curproc.esp,
          addr < range.1 ∨ range.1 + range.2 ≤ addr) →
        after.curproc.pgdir.byte after.memory.ram addr = some (image addr)

theorem Runs.delivered {result : Int × Machine}
    (runs : Runs layout files machine path argv result) : Delivered files path argv result.2 := by
  obtain ⟨content, elf, size, image, isFile, -, isImage, entered⟩ := runs
  obtain ⟨sp, pointers, few, frame, others⟩ := entered.stack
  have isSize := entered.sz
  have small : argv.length < UINT := few.trans_lt (by decide)
  refine ⟨pointers, ?_, content, size, image, isFile, isImage, isSize, ?_⟩
  · rw [isSize]
    exact frame.mainFrame small
  · intro addr below outside
    apply others addr (isSize ▸ below)
    intro write member
    apply outside (write.1, write.2.length)
    rw [← frame.ranges_eq]
    exact List.mem_map.mpr ⟨write, member, rfl⟩

/-- What a computation may return; after a fault that may be anything. -/
def MayReturn {Value : Type} (computation : Except Fault Value) (value : Value) : Prop :=
  match computation with
  | .ok returned => value = returned
  | .error _ => True

/-- The caller is as it was, the same pages are free, and what was begun has been ended. -/
structure Intact (files : List UInt8 → Option (List UInt8)) (path : List UInt8)
    (machine after : Machine) : Prop where
  curproc : after.curproc = machine.curproc
  memory : ∀ addr < KERNBASE, after.curproc.pgdir.byte after.memory.ram addr =
    machine.curproc.pgdir.byte machine.memory.ram addr
  freelist : ∀ frame, after.memory.freelist.count frame = machine.memory.freelist.count frame
  calls : after.calls = machine.calls ++ fsCalls files path

theorem Failed.intact {result : Int × Machine}
    (sole : Sole layout machine.memory.freelist machine.curproc.pgdir)
    (failed : Failed machine.memory machine.curproc (machine.calls ++ fsCalls files path) result) :
    Intact files path machine result.2 := by
  refine ⟨failed.curproc, ?_, failed.memory.account, failed.calls⟩
  intro addr user
  rw [failed.curproc]
  apply failed.memory.keeps.byte_eq sole _ user rfl
  intro frame
  rw [failed.memory.account frame]
  exact sole frame

/-- If `exec` returns -1 then the caller is intact. -/
def FailsIntact (layout : Layout) (files : List UInt8 → Option (List UInt8)) (machine : Machine)
    (path : List UInt8) (argv : List CString) : Prop :=
  ∀ result, MayReturn (exec layout files machine path argv) result → result.1 = -1 →
    Intact files path machine result.2

theorem Calls.failsIntact_iff (calls : Calls layout state pid machine) :
    FailsIntact layout files machine path argv ↔
      ¬ NullArgument files machine.memory path argv := by
  have spec := calls.spec files path argv
  unfold FailsIntact
  cases isExec : exec layout files machine path argv with
  | error fault =>
      rw [isExec] at spec
      refine iff_of_false ?_ (not_not.mpr spec.2)
      intro intact
      have changed := intact (-1, { machine with
        curproc := { machine.curproc with sz := machine.curproc.sz + 1 } }) trivial rfl
      have same := congrArg Curproc.sz changed.curproc
      simp only at same
      omega
  | ok result =>
      rw [isExec] at spec
      refine iff_of_true ?_ spec.1
      rintro _ rfl returned
      rcases spec.2 with ⟨-, failed⟩ | ⟨-, content, elf, size, image, -, -, -, entered⟩
      · exact failed.intact calls.sole.2
      · rw [entered.returned] at returned
        cases returned

/-- A call of `exec` that returns -1 leaves its caller intact exactly if no argument wraps around
to where there is no page table. -/
theorem exec_intact_iff (calls : Calls layout state pid machine) :
    FailsIntact layout files machine path argv ↔
      ¬ NullArgument files machine.memory path argv :=
  calls.failsIntact_iff

/-- A file that is no program. -/
theorem exec_intact_iff_text :
    FailsIntact smallLayout (fun _ => some [1, 2, 3]) spareCaller [] [shortString] := by
  apply (exec_intact_iff spareCaller_calls).mpr
  rintro ⟨content, size, image, ⟨⟩, isImage, -⟩
  cases (show fileImage [1, 2, 3] = none by rfl).symm.trans isImage

def longString : CString := 
  { bytes := longArgument
    noNul := fun member => by cases List.eq_of_mem_replicate member
    short := by
      rw [longArgument, List.length_replicate]
      decide }

/-- The first process grows, and then calls `exec` with a string of nearly all its memory. -/
theorem exec_not_intact : ∃ after dir,
    (spareMachine 20000).step smallLayout (.sbrk initproc 67117056) = some after ∧
      after.proc initproc = ⟨.alive, some 601, some dir, 67121152, none⟩ ∧
      longString.bytes.length < 67121152 ∧
      ¬ FailsIntact smallLayout (fun _ => some emptyProgram)
        (callerOf after.freelist dir 67121152) [] [longString] := by
  obtain ⟨after, dir, isStep, isProc, free⟩ :=
    @grown_step 20000 (by decide) (by decide)
  have length : longString.bytes.length = 67117055 := List.length_replicate
  have calls : Calls smallLayout after initproc (callerOf after.freelist dir 67121152) :=
    ⟨.next _ (.start (spareMachine_booted (by decide))) trivial isStep,
      congrArg Proc.status isProc, congrArg Proc.pgdir isProc, congrArg Proc.sz isProc, rfl⟩
  refine ⟨after, dir, isStep, isProc, by rw [length]; decide, ?_⟩
  rw [calls.failsIntact_iff, not_not]
  refine ⟨emptyProgram, 0, _, rfl, emptyProgram_image, ⟨?_, ?_⟩, ?_⟩
  · rw [stackTop]
    decide
  · have few : kernelPages + copyPages (pagesBelow (PGROUNDUP 0 + 2 * PGSIZE)) = 68 := by decide
    rw [stackTop, Image.Enough, few]
    change 68 ≤ after.freelist.length
    omega
  · have place : pushed 8192 67117055 = 0xFC000000 := by decide
    rw [stackTop, NullPush, length]
    refine ⟨by decide, Or.inl ?_⟩
    change Gap (pushed 8192 67117055)
    rw [place]
    exact ⟨by decide, by decide⟩

end Runs

end Coursework.Exec
