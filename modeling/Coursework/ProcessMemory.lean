import Coursework.PageTables
import Coursework.TransitionRuns
import Mathlib.Data.Fintype.Basic

/-!
# The memory of processes

The system calls that take and give back physical pages: `fork`, `exec`, `sbrk`,
`exit` and `wait`, and making and closing pipes.  A step is one call of one
process.  An executable file is given by its program headers and the results of
the reads, and the arguments by whether they fit onto the user stack; a copy to
an address that no page table maps is not followed further.  A pipe is closed at
an end that is open; the pipes that `exit` closes are steps of their own.

In a slot that is not in use, `pgdir` is what the last process left there.
-/

namespace Coursework.Paging

/-- A program header, with the results of the reads that belong to it. -/
structure Proghdr where
  readable : Bool
  load : Bool
  vaddr : Nat
  memsz : Nat
  filesz : Nat
  reads : Nat → Bool
  vaddrFits : vaddr < UINT
  memszFits : memsz < UINT

structure Program where
  header : Bool
  phdrs : List Proghdr
  argsFit : Bool

section Calls

variable (layout : Layout)

/-- The loop of `exec` over the program headers; no size is a jump to `bad`. -/
def loadSegments :
    List Proghdr → Freelist → Dir → Nat → Except Panic (Option Nat × Freelist × Dir)
  | [], freelist, dir, sz => .ok (some sz, freelist, dir)
  | ph :: rest, freelist, dir, sz =>
      if ph.readable = false then .ok (none, freelist, dir)
      else if ph.load = false then loadSegments rest freelist dir sz
      else if ph.memsz < ph.filesz then .ok (none, freelist, dir)
      else if (ph.vaddr + ph.memsz) % UINT < ph.vaddr then .ok (none, freelist, dir)
      else do
        let (sz, freelist, dir) ←
          allocuvm layout freelist dir sz ((ph.vaddr + ph.memsz) % UINT)
        if sz = 0 then .ok (none, freelist, dir)
        else if ph.vaddr % PGSIZE ≠ 0 then .ok (none, freelist, dir)
        else do
          let loaded ← loadLoop dir ph.reads (pagesBelow ph.filesz) (ph.vaddr / PGSIZE)
          if loaded then loadSegments rest freelist dir sz else .ok (none, freelist, dir)

/-- `exec` with its new page directory. -/
def loadProgram (freelist : Freelist) (dir : Dir) (program : Program) :
    Except Panic (Option Nat × Freelist × Dir) := do
  let (size, freelist, dir) ← loadSegments layout program.phdrs freelist dir 0
  match size with
  | none => .ok (none, freelist, dir)
  | some sz => do
      let (sz, freelist, dir) ← allocuvm layout freelist dir (PGROUNDUP sz)
        ((PGROUNDUP sz + 2 * PGSIZE) % UINT)
      if sz = 0 then .ok (none, freelist, dir)
      else do
        let dir ← clearpteu dir ((sz - 2 * PGSIZE) / PGSIZE)
        if program.argsFit then .ok (some sz, freelist, dir) else .ok (none, freelist, dir)

/-- `exec` up to the point where it commits to the new image. -/
def exec (freelist : Freelist) (program : Program) :
    Except Panic (Option (Dir × Nat) × Freelist) :=
  if program.header = false then .ok (none, freelist)
  else do
    let (pgdir, freelist) ← setupkvm layout freelist
    match pgdir with
    | none => .ok (none, freelist)
    | some dir => do
        let (size, freelist, dir) ← loadProgram layout freelist dir program
        match size with
        | some sz => .ok (some (dir, sz), freelist)
        | none => do
            let freelist ← freevm layout freelist dir
            return (none, freelist)

/-- `growproc`: the size that the process has then. -/
def growproc (freelist : Freelist) (dir : Dir) (sz : Nat) (n : Int) :
    Except Panic (Nat × Freelist × Dir) :=
  let newsz := ((sz + n) % UINT).toNat
  if 0 < n then do
    let (size, freelist, dir) ← allocuvm layout freelist dir sz newsz
    return (if size = 0 then sz else size, freelist, dir)
  else if n < 0 then do
    let (size, freelist, dir) ← deallocuvm layout freelist dir sz newsz
    return (if size = 0 then sz else size, freelist, dir)
  else .ok (sz, freelist, dir)

end Calls

/-! ## The processes -/

abbrev Pid := Fin NPROC

/-- The first process, in the first slot of the table. -/
def initproc : Pid := ⟨0, by decide⟩

/-- A process that is alive is `RUNNABLE`, `RUNNING` or `SLEEPING`. -/
inductive Status where
  | unused
  | alive
  | zombie
  deriving DecidableEq

structure Proc where
  status : Status
  kstack : Option Frame
  pgdir : Option Dir
  sz : Nat
  parent : Option Pid

structure Pipe where
  page : Option Frame
  isOpen : Bool → Bool

structure State (PipeId : Type) where
  freelist : Freelist
  kpgdir : Dir
  proc : Pid → Proc
  pipe : PipeId → Pipe
  panic : Option Panic

inductive Action (PipeId : Type)
  | fork (pid : Pid)
  | exec (pid : Pid) (program : Program)
  | sbrk (pid : Pid) (n : Int32)
  | exit (pid : Pid)
  | wait (pid : Pid)
  | pipe (pid : Pid) (pipe : PipeId)
  | pipeclose (pipe : PipeId) (writable : Bool)

namespace State

variable {PipeId : Type} [DecidableEq PipeId] (layout : Layout) (state : State PipeId)

def setProc (pid : Pid) (proc : Proc) : State PipeId :=
  { state with proc := Function.update state.proc pid proc }

/-- The slot that `allocproc` takes. -/
def unusedSlot : Option Pid :=
  (List.finRange NPROC).find? fun pid => (state.proc pid).status = .unused

def fork (pid : Pid) : Except Panic (State PipeId) :=
  match state.unusedSlot, (state.proc pid).pgdir with
  | some child, some dir =>
      match kalloc state.freelist with
      | none => .ok (state.setProc child { state.proc child with kstack := none })
      | some (kstack, freelist) => do
          let (copy, freelist) ← copyuvm layout freelist dir (state.proc pid).sz
          match copy with
          | none => do
              let freelist ← kfree layout freelist kstack
              return ({ state with freelist := freelist }.setProc child
                { state.proc child with kstack := none, pgdir := none })
          | some copied =>
              return ({ state with freelist := freelist }.setProc child
                ⟨.alive, some kstack, some copied, (state.proc pid).sz, some pid⟩)
  | _, _ => .ok state

/-- `exec` and the change to the new image. -/
def execCall (pid : Pid) (program : Program) : Except Panic (State PipeId) := do
  let (image, freelist) ← exec layout state.freelist program
  match image, (state.proc pid).pgdir with
  | some (dir, sz), some oldpgdir => do
      let freelist ← freevm layout freelist oldpgdir
      return ({ state with freelist := freelist }.setProc pid
        { state.proc pid with pgdir := some dir, sz := sz })
  | _, _ => .ok { state with freelist := freelist }

def sbrk (pid : Pid) (n : Int32) : Except Panic (State PipeId) :=
  match (state.proc pid).pgdir with
  | none => .ok state
  | some dir => do
      let (sz, freelist, dir) ← growproc layout state.freelist dir (state.proc pid).sz n.toInt
      return ({ state with freelist := freelist }.setProc pid
        { state.proc pid with pgdir := some dir, sz := sz })

/-- A child of a process that exits passes to `initproc`. -/
def reparent (pid : Pid) (proc : Proc) : Proc :=
  if proc.parent = some pid then { proc with parent := some initproc } else proc

def exit (pid : Pid) : Except Panic (State PipeId) :=
  if pid = initproc then .error .initExiting
  else .ok ({ state with proc := fun other => reparent pid (state.proc other) }.setProc pid
    { reparent pid (state.proc pid) with status := .zombie })

/-- The child that `wait` finds. -/
def zombieChild (pid : Pid) : Option Pid :=
  (List.finRange NPROC).find? fun child =>
    (state.proc child).parent = some pid ∧ (state.proc child).status = .zombie

def wait (pid : Pid) : Except Panic (State PipeId) :=
  match state.zombieChild pid with
  | none => .ok state
  | some child =>
      match (state.proc child).kstack, (state.proc child).pgdir with
      | some kstack, some dir => do
          let freelist ← kfree layout state.freelist kstack
          let freelist ← freevm layout freelist dir
          return ({ state with freelist := freelist }.setProc child
            { state.proc child with status := .unused, kstack := none, parent := none })
      | _, _ => .ok state

def pipealloc (pipe : PipeId) : State PipeId :=
  match kalloc state.freelist with
  | none => state
  | some (page, freelist) =>
      { state with
        freelist := freelist
        pipe := Function.update state.pipe pipe ⟨some page, fun _ => true⟩ }

def pipeclose (pipe : PipeId) (writable : Bool) : Except Panic (State PipeId) :=
  let isOpen := Function.update (state.pipe pipe).isOpen writable false
  match (state.pipe pipe).page with
  | none => .ok state
  | some page =>
      if isOpen false = false ∧ isOpen true = false then do
        let freelist ← kfree layout state.freelist page
        return { state with
          freelist := freelist
          pipe := Function.update state.pipe pipe ⟨none, isOpen⟩ }
      else .ok { state with pipe := Function.update state.pipe pipe ⟨some page, isOpen⟩ }

/-- Whether a process is there and no call is made on its behalf. -/
def isAlive (pid : Pid) : Bool := decide ((state.proc pid).status = .alive)

/-- The call of an action, if it can be made. -/
def call : Action PipeId → Option (Except Panic (State PipeId))
  | .fork pid => if state.isAlive pid then some (state.fork layout pid) else none
  | .exec pid program =>
      if state.isAlive pid then some (state.execCall layout pid program) else none
  | .sbrk pid n => if state.isAlive pid then some (state.sbrk layout pid n) else none
  | .exit pid => if state.isAlive pid then some (state.exit pid) else none
  | .wait pid => if state.isAlive pid then some (state.wait layout pid) else none
  | .pipe pid pipe =>
      if state.isAlive pid ∧ (state.pipe pipe).page = none then some (.ok (state.pipealloc pipe))
      else none
  | .pipeclose pipe writable =>
      if (state.pipe pipe).isOpen writable then some (state.pipeclose layout pipe writable)
      else none

def step (action : Action PipeId) : Option (State PipeId) :=
  if state.panic.isSome then none
  else
    (state.call layout action).map fun
      | .ok after => after
      | .error panic => { state with panic := some panic }

end State

end Coursework.Paging
