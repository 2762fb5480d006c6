import Coursework.KernelParam
import Coursework.LeastSelection
import Coursework.TransitionRuns
import Mathlib.Data.List.FinRange
import Mathlib.Logic.Function.Basic

/-!
# The process table

Any number of CPUs run `scheduler` of `proc.c` and the processes it dispatches.
A step is one section that runs under `ptable.lock`, up to where the lock is
given up or handed to another thread by `swtch`, or one unlocked write to the
table by `fork`.  A CPU that has switched keeps the lock: the scheduler holds it
while it scans, and the process it switches to holds it until it has resumed.

The history records what the claims of a run speak of and the code does not
keep: how many processes were allocated, which process created each slot's
process, what `wait` returned and which slots were dispatched.
-/

namespace Coursework.ProcTable

/-- A pointer into `ptable.proc`. -/
abbrev Slot := Fin NPROC

instance : NeZero NPROC := ⟨by decide⟩

/-- The table in the order of the source's loops. -/
def slots : List Slot := List.finRange NPROC

/-- `enum procstate`. -/
inductive ProcState
  | unused
  | embryo
  | sleeping
  | runnable
  | running
  | zombie
  deriving DecidableEq, Repr

/-- An address slept on: a slot of the table, in `wait`, or another address. -/
inductive Chan
  | proc (slot : Slot)
  | other (address : Nat)
  deriving DecidableEq, Repr

/-- Where a switched-out process resumes: at `forkret`, or after the call of
`sched` in `yield`, in a `sleep` that gives up `ptable.lock`, in the `sleep` of
`wait`, or in `exit`. -/
inductive Context
  | forkret
  | yielded
  | slept
  | waiting
  | exited
  deriving DecidableEq, Repr

/-- The call a process is in between two sections: in `fork` before and after
the child gets its parent, or none that touches the table. -/
inductive Call
  | none
  | allocated (child : Slot)
  | parented (child : Slot)
  deriving DecidableEq, Repr

/-- The fields of `struct proc` that the table's functions use, with `eax` for
the value the last call returned to the process. -/
structure Proc where
  state : ProcState
  pid : Int
  parent : Option Slot
  chan : Option Chan
  killed : Bool
  priority : Int
  context : Context
  call : Call
  eax : Int
  deriving DecidableEq, Repr

/-- What a CPU executes: `scheduler` before it acquires `ptable.lock`, its scan,
a process that was just switched to, or a process without the lock. -/
inductive Mode
  | idle
  | scanning
  | resumed
  | running
  deriving DecidableEq, Repr

/-- `c->proc`, and the index of the loop variable `p` of `scheduler`. -/
structure Cpu where
  mode : Mode
  proc : Option Slot
  position : Nat
  deriving DecidableEq, Repr

/-- How far `userinit` is. -/
inductive Boot
  | before
  | allocated (init : Slot)
  | done (init : Slot)
  deriving DecidableEq, Repr

structure History where
  allocations : Nat
  creator : Slot → Int
  waitReturns : List Int
  dispatches : List Slot

structure State (CpuId : Type*) where
  lock : Option CpuId
  nextpid : Int
  boot : Boot
  proc : Slot → Proc
  cpu : CpuId → Cpu
  history : History

/-- A zeroed slot. -/
def Proc.zero : Proc :=
  { state := .unused, pid := 0, parent := none, chan := none, killed := false,
    priority := 0, context := .forkret, call := .none, eax := 0 }

variable {CpuId : Type*} [DecidableEq CpuId]

/-- The kernel before `userinit`, with every CPU at the start of `scheduler`. -/
def State.initial : State CpuId :=
  { lock := none
    nextpid := 1
    boot := .before
    proc := fun _ => Proc.zero
    cpu := fun _ => { mode := .idle, proc := none, position := 0 }
    history :=
      { allocations := 0, creator := fun _ => 0, waitReturns := [], dispatches := [] } }

/-- The variable `initproc`. -/
def State.initproc (state : State CpuId) : Option Slot :=
  match state.boot with
  | .before => none
  | .allocated init | .done init => some init

/-- The process that executes on a CPU and does not hold `ptable.lock`. -/
def State.myproc (state : State CpuId) (cpu : CpuId) : Option Slot :=
  if (state.cpu cpu).mode = .running then (state.cpu cpu).proc else none

def State.setProc (state : State CpuId) (slot : Slot) (proc : Proc) : State CpuId :=
  { state with proc := Function.update state.proc slot proc }

/-- A call returns a value to the process. -/
def State.setEax (state : State CpuId) (cur : Slot) (value : Int) : State CpuId :=
  state.setProc cur { state.proc cur with eax := value }

def State.setCpu (state : State CpuId) (cpu : CpuId) (entry : Cpu) : State CpuId :=
  { state with cpu := Function.update state.cpu cpu entry }

/-- The loop over the table that stops at the first slot passing a test. -/
def firstSlot (test : Slot → Bool) : Option Slot := slots.find? test

/-! ## The scheduler -/

def isRunnable (table : Slot → Proc) (slot : Slot) : Bool :=
  (table slot).state = .runnable

/-- The inner loop of `scheduler`, from `highP = p`. -/
def highP (table : Slot → Proc) (p : Slot) : Slot :=
  selectLeast (isRunnable table) (fun slot => (table slot).priority) p slots

/-- The table scan of `scheduler` from an index to its next dispatch: the first
`RUNNABLE` slot makes it choose, and the loop variable becomes the chosen slot. -/
def scan (table : Slot → Proc) (position : Nat) : Option Slot :=
  ((slots.drop position).find? (isRunnable table)).map (highP table)

/-- `scheduler` starts over and acquires `ptable.lock`. -/
def State.acquire (state : State CpuId) (cpu : CpuId) : Option (State CpuId) :=
  if (state.cpu cpu).mode = .idle ∧ state.lock = none then
    some { state.setCpu cpu { mode := .scanning, proc := none, position := 0 } with
      lock := some cpu }
  else none

/-- `scheduler` dispatches a process, or releases `ptable.lock` at the end of
the table. -/
def State.schedule (state : State CpuId) (cpu : CpuId) : Option (State CpuId) :=
  if (state.cpu cpu).mode = .scanning then
    match scan state.proc (state.cpu cpu).position with
    | some p =>
        some { (state.setProc p { state.proc p with state := .running }).setCpu cpu
            { mode := .resumed, proc := some p, position := p } with
          history := { state.history with dispatches := state.history.dispatches ++ [p] } }
    | none =>
        some { state.setCpu cpu
            { mode := .idle, proc := none, position := (state.cpu cpu).position } with
          lock := none }
  else none

/-- `sched`: the process switches to the scheduler, which clears `c->proc` and
goes on with its scan after the slot it had chosen. -/
def State.sched (state : State CpuId) (cpu : CpuId) : State CpuId :=
  { state.setCpu cpu
      { mode := .scanning, proc := none, position := (state.cpu cpu).position + 1 } with
    lock := some cpu }

/-- The process that runs on a CPU gives up `ptable.lock`. -/
def State.release (state : State CpuId) (cpu : CpuId) : State CpuId :=
  { state.setCpu cpu { state.cpu cpu with mode := .running } with lock := none }

/-! ## The operations on processes -/

/-- An `int` after an increment, on a machine that wraps around. -/
def toInt32 (value : Int) : Int := value.bmod (2 ^ 32)

/-- `allocproc` up to the release of `ptable.lock`. -/
def State.allocproc (state : State CpuId) (creator : Int) :
    Option (Slot × State CpuId) :=
  (firstSlot fun slot => (state.proc slot).state = .unused).map fun slot =>
    (slot,
      { state.setProc slot { state.proc slot with
          state := .embryo
          pid := state.nextpid
          priority := 10
          context := .forkret
          call := .none } with
        nextpid := toInt32 (state.nextpid + 1)
        history := { state.history with
          allocations := state.history.allocations + 1
          creator := Function.update state.history.creator slot creator } })

/-- `wakeup1`. -/
def wakeup1 (table : Slot → Proc) (chan : Option Chan) (slot : Slot) : Proc :=
  if (table slot).state = .sleeping ∧ (table slot).chan = chan then
    { table slot with state := .runnable }
  else table slot

/-- The body of the loop of `exit` that passes a child to `initproc`. -/
def reparent (cur : Slot) (initproc : Option Slot) (table : Slot → Proc) (p : Slot) :
    Slot → Proc :=
  if (table p).parent = some cur then
    let table := Function.update table p { table p with parent := initproc }
    if (table p).state = .zombie then wakeup1 table (initproc.map .proc) else table
  else table

/-- The first section of `fork`: `allocproc`. -/
def State.fork (state : State CpuId) (cur : Slot) : State CpuId :=
  match state.allocproc (state.proc cur).pid with
  | none => state.setEax cur (-1)
  | some (child, state) =>
      state.setProc cur { state.proc cur with call := .allocated child }

/-- `fork` has no memory for the kernel stack or the page table. -/
def State.forkFail (state : State CpuId) (cur child : Slot) : State CpuId :=
  (state.setProc child { state.proc child with state := .unused }).setProc cur
    { state.proc cur with call := .none, eax := -1 }

/-- `fork` sets `np->parent`. -/
def State.forkParent (state : State CpuId) (cur child : Slot) : State CpuId :=
  (state.setProc child { state.proc child with parent := some cur }).setProc cur
    { state.proc cur with call := .parented child }

/-- The last section of `fork`. -/
def State.forkRun (state : State CpuId) (cur child : Slot) : State CpuId :=
  (state.setProc child { state.proc child with state := .runnable, eax := 0 }).setProc cur
    { state.proc cur with call := .none, eax := (state.proc child).pid }

/-- The table after `exit` has woken the parent and passed on the children. -/
def State.handedOver (state : State CpuId) (cur : Slot) : Slot → Proc :=
  slots.foldl (reparent cur state.initproc)
    (wakeup1 state.proc ((state.proc cur).parent.map .proc))

/-- `exit` from its `acquire` to its `sched`. -/
def State.exit (state : State CpuId) (cpu : CpuId) (cur : Slot) : State CpuId :=
  ({ state with proc := state.handedOver cur }.setProc cur
    { state.handedOver cur cur with state := .zombie, context := .exited }).sched cpu

/-- `wait` returns a value. -/
def State.waitReturn (state : State CpuId) (cpu : CpuId) (cur : Slot) (value : Int) :
    State CpuId :=
  { (state.setEax cur value).release cpu with
    history := { state.history with waitReturns := value :: state.history.waitReturns } }

/-- `sleep`, holding `ptable.lock`, to the switch. -/
def State.sleep (state : State CpuId) (cpu : CpuId) (cur : Slot) (chan : Chan)
    (context : Context) : State CpuId :=
  (state.setProc cur { state.proc cur with
    chan := some chan, state := .sleeping, context := context }).sched cpu

/-- `wait` frees the slot of an exited child. -/
def Proc.reaped (child : Proc) : Proc :=
  { child with pid := 0, parent := none, killed := false, state := .unused }

/-- One scan of `wait` with `ptable.lock` held. -/
def State.waitScan (state : State CpuId) (cpu : CpuId) (cur : Slot) : State CpuId :=
  match firstSlot fun p =>
      (state.proc p).parent = some cur ∧ (state.proc p).state = .zombie with
  | some p =>
      (state.setProc p (state.proc p).reaped).waitReturn cpu cur (state.proc p).pid
  | none =>
      let havekids := slots.any fun p => (state.proc p).parent = some cur
      if havekids = false ∨ (state.proc cur).killed = true then
        state.waitReturn cpu cur (-1)
      else state.sleep cpu cur (.proc cur) .waiting

/-- A process that was switched to goes on: it releases `ptable.lock`, or scans
again in `wait`.  An exited process would panic with "zombie exit". -/
def State.resume (state : State CpuId) (cpu : CpuId) (cur : Slot) :
    Option (State CpuId) :=
  let tidied := state.setProc cur { state.proc cur with chan := none }
  match (state.proc cur).context with
  | .forkret | .yielded => some (state.release cpu)
  | .slept => some (tidied.release cpu)
  | .waiting => some (tidied.waitScan cpu cur)
  | .exited => none

/-- What `kill` does to a process. -/
def Proc.kill (proc : Proc) : Proc :=
  { proc with
    killed := true
    state := if proc.state = .sleeping then .runnable else proc.state }

/-- `kill`, with its return value for the caller. -/
def State.kill (state : State CpuId) (cur : Slot) (pid : Int) : State CpuId :=
  match firstSlot fun p => (state.proc p).pid = pid with
  | some p => (state.setProc p (state.proc p).kill).setEax cur 0
  | none => state.setEax cur (-1)

/-- `chpr`, with its return value for the caller. -/
def State.chpr (state : State CpuId) (cur : Slot) (pid priority : Int) : State CpuId :=
  match firstSlot fun p => (state.proc p).pid = pid with
  | some p =>
      (state.setProc p { state.proc p with priority := priority }).setEax cur pid
  | none => state.setEax cur pid

/-- What `exec` writes to the table when it commits to the new program. -/
def State.exec (state : State CpuId) (cur : Slot) : State CpuId :=
  state.setProc cur { state.proc cur with priority := 2, eax := 0 }

/-! ## Steps -/

/-- A step of the process that runs on a CPU without holding `ptable.lock`. -/
inductive Op
  | fork
  | forkFail
  | forkParent
  | forkRun
  | exit
  | wait
  | yield
  | sleep (chan : Chan)
  | kill (pid : Int)
  | chpr (pid priority : Int)
  | exec
  | fault

inductive Action (CpuId : Type*)
  | userinit
  | userinitRun
  | acquire (cpu : CpuId)
  | schedule (cpu : CpuId)
  | resume (cpu : CpuId)
  | op (cpu : CpuId) (op : Op)
  | wakeup (cpu : CpuId) (chan : Chan)

/-- One step of the current process of a CPU. -/
def State.perform (state : State CpuId) (cpu : CpuId) (cur : Slot) :
    Op → Option (State CpuId)
  | .fork =>
      if (state.proc cur).call = .none ∧ state.lock = none then some (state.fork cur)
      else none
  | .forkFail =>
      match (state.proc cur).call with
      | .allocated child => some (state.forkFail cur child)
      | _ => none
  | .forkParent =>
      match (state.proc cur).call with
      | .allocated child => some (state.forkParent cur child)
      | _ => none
  | .forkRun =>
      match (state.proc cur).call with
      | .parented child =>
          if state.lock = none then some (state.forkRun cur child) else none
      | _ => none
  | .exit =>
      -- `initproc` panics with "init exiting"
      if (state.proc cur).call = .none ∧ state.lock = none ∧ state.initproc ≠ some cur then
        some (state.exit cpu cur)
      else none
  | .wait =>
      if (state.proc cur).call = .none ∧ state.lock = none then some (state.waitScan cpu cur)
      else none
  | .yield =>
      if state.lock = none then
        some ((state.setProc cur { state.proc cur with
          state := .runnable, context := .yielded }).sched cpu)
      else none
  | .sleep chan =>
      if (state.proc cur).call = .none ∧ state.lock = none then
        some (state.sleep cpu cur chan .slept)
      else none
  | .kill pid =>
      if (state.proc cur).call = .none ∧ state.lock = none then some (state.kill cur pid)
      else none
  | .chpr pid priority =>
      if (state.proc cur).call = .none ∧ state.lock = none then
        some (state.chpr cur pid priority)
      else none
  | .exec => if (state.proc cur).call = .none then some (state.exec cur) else none
  | .fault =>
      if (state.proc cur).call = .none then
        some (state.setProc cur { state.proc cur with killed := true })
      else none

/-- One step of the system. -/
def State.step (state : State CpuId) : Action CpuId → Option (State CpuId)
  | .userinit =>
      if state.boot = .before ∧ state.lock = none then
        (state.allocproc 0).map fun allocated =>
          { allocated.2 with boot := .allocated allocated.1 }
      else none
  | .userinitRun =>
      match state.boot with
      | .allocated init =>
          if state.lock = none then
            some { state.setProc init { state.proc init with state := .runnable } with
              boot := .done init }
          else none
      | _ => none
  | .acquire cpu => state.acquire cpu
  | .schedule cpu => state.schedule cpu
  | .resume cpu =>
      match (state.cpu cpu).mode, (state.cpu cpu).proc with
      | .resumed, some cur => state.resume cpu cur
      | _, _ => none
  | .op cpu op => (state.myproc cpu).bind fun cur => state.perform cpu cur op
  | .wakeup cpu chan =>
      -- an interrupt handler, in the scheduler or over a process, or a process
      if ((state.cpu cpu).mode = .idle ∨ (state.cpu cpu).mode = .running) ∧
          state.lock = none then
        some { state with proc := wakeup1 state.proc (some chan) }
      else none

end Coursework.ProcTable
