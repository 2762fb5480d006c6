import Coursework.KernelParam
import Coursework.LinkedQueue
import Coursework.TransitionRuns

/-!
# The queue of the disk driver

`iderw` appends a locked buffer to `idequeue`, starts the disk if the buffer is alone there,
and sleeps until the flags of the buffer say that its request is done.  The disk executes
the request of the first buffer and raises an interrupt; `ideintr` then removes the buffer,
sets its flags, wakes its sleepers and starts the next request.  Everything between an
`acquire` and the next `release` or `sleep` of `idelock` is one step.

A panic has no next state.  The disk reports no errors.
-/

namespace Coursework.Ide

def SECTOR_SIZE : Nat := 512

/-- The flags and the contents of a `struct buf`. -/
structure Buffer (Data : Type) where
  valid : Bool
  dirty : Bool
  dev : Nat
  blockno : Nat
  data : Data

/-- What `idestart` writes to the registers of the disk. -/
structure Request (Data : Type) where
  write : Bool
  disk : Nat
  sector : Nat
  data : Data

/-- The disk waits for a request, executes one, or has raised the interrupt for it and
offers the words of the sector. -/
inductive Device (Data : Type)
  | idle
  | busy (request : Request Data)
  | ready (request : Request Data) (words : Data)

/-- A process is not in `iderw`, is about to test the flags of its buffer, or sleeps on
the buffer. -/
inductive Place (Buf : Type)
  | away
  | testing (b : Buf)
  | asleep (b : Buf)
  deriving DecidableEq

variable {Buf Pid Data : Type}

/-- The buffer of a process in `iderw`. -/
def Place.buf : Place Buf → Option Buf
  | .away => none
  | .testing b | .asleep b => some b

/-- `wakeup(b)` for one process. -/
def Place.wakeup [DecidableEq Buf] (b : Buf) (place : Place Buf) : Place Buf :=
  if place = .asleep b then .testing b else place

/-- The requests in the order in which they were appended; the requests started, with what
the disk was told; the contents of the sector when each request was completed; and the
number of the latest request of each process. -/
structure History (Buf Pid Data : Type) where
  appended : List Buf
  started : List (Buf × Request Data)
  completed : List Data
  ticket : Pid → Nat

structure State (Buf Pid Data : Type) where
  idequeue : LinkedQueue Buf
  buffer : Buf → Buffer Data
  owner : Buf → Option Pid
  place : Pid → Place Buf
  disk : Nat → Nat → Data
  device : Device Data
  history : History Buf Pid Data

inductive Action (Buf Pid Data : Type)
  /-- a process takes or gives back the sleep lock of a buffer -/
  | lock (pid : Pid) (b : Buf)
  | unlock (pid : Pid) (b : Buf)
  /-- the buffer cache, or the process that locks it, changes a buffer -/
  | edit (b : Buf) (buffer : Buffer Data)
  | iderw (pid : Pid) (b : Buf)
  | test (pid : Pid)
  /-- a sleeper is woken for another reason -/
  | rouse (pid : Pid)
  | transfer
  | interrupt

variable [DecidableEq Buf] [Fintype Buf] [DecidableEq Pid]

/-- The flags that end the loop of `iderw`. -/
def Buffer.synced (b : Buffer Data) : Bool := b.valid && !b.dirty

def Buffer.request (b : Buffer Data) : Request Data :=
  { write := b.dirty
    disk := b.dev % 2
    sector := b.blockno * (BSIZE / SECTOR_SIZE)
    data := b.data }

namespace State

def idestart (state : State Buf Pid Data) (b : Buf) : Option (State Buf Pid Data) :=
  if (state.buffer b).blockno ≥ FSSIZE then none
  else
    some { state with
      device := .busy (state.buffer b).request
      history := { state.history with
        started := state.history.started ++ [(b, (state.buffer b).request)] } }

/-- `iderw` appends the buffer to the queue. -/
def append (state : State Buf Pid Data) (pid : Pid) (b : Buf) : Option (State Buf Pid Data) :=
  (state.idequeue.append (Fintype.card Buf + 1) b).map fun idequeue =>
    { state with
      idequeue := idequeue
      place := Function.update state.place pid (.testing b)
      history := { state.history with
        appended := state.history.appended ++ [b]
        ticket := Function.update state.history.ticket pid state.history.appended.length } }

/-- One turn of the loop of `iderw`, which returns or sleeps. -/
def test (state : State Buf Pid Data) (pid : Pid) (b : Buf) : State Buf Pid Data :=
  { state with
    place := Function.update state.place pid
      (if (state.buffer b).synced then .away else .asleep b) }

def iderw (havedisk1 : Bool) (state : State Buf Pid Data) (pid : Pid) (b : Buf) :
    Option (State Buf Pid Data) :=
  if state.owner b = some pid ∧ (state.buffer b).synced = false ∧
      ((state.buffer b).dev = 0 ∨ havedisk1 = true) then
    (state.append pid b).bind fun state =>
      (if state.idequeue.first = some b then state.idestart b else some state).map
        fun state => state.test pid b
  else none

/-- `ideintr` up to the start of the next request. -/
def finish (state : State Buf Pid Data) (request : Request Data) (words : Data) (b : Buf) :
    State Buf Pid Data :=
  { state with
    idequeue := { state.idequeue with first := state.idequeue.next b }
    buffer := Function.update state.buffer b
      { state.buffer b with
        data := if (state.buffer b).dirty then (state.buffer b).data else words
        valid := true
        dirty := false }
    place := fun pid => (state.place pid).wakeup b
    device := .idle
    history := { state.history with
      completed := state.history.completed ++ [state.disk request.disk request.sector] } }

def ideintr (state : State Buf Pid Data) (request : Request Data) (words : Data) :
    Option (State Buf Pid Data) :=
  match state.idequeue.first with
  | none => some { state with device := .idle }
  | some b =>
      let state := state.finish request words b
      match state.idequeue.first with
      | none => some state
      | some next => state.idestart next

/-- The disk executes a request and raises an interrupt. -/
def transfer (state : State Buf Pid Data) (request : Request Data) : State Buf Pid Data :=
  let disk :=
    if request.write then
      Function.update state.disk request.disk
        (Function.update (state.disk request.disk) request.sector request.data)
    else state.disk
  { state with disk := disk, device := .ready request (disk request.disk request.sector) }

/-- One step of the system. -/
def step (havedisk1 : Bool) (state : State Buf Pid Data) :
    Action Buf Pid Data → Option (State Buf Pid Data)
  | .lock pid b =>
      if state.owner b = none ∧ state.place pid = .away then
        some { state with owner := Function.update state.owner b (some pid) }
      else none
  | .unlock pid b =>
      if state.owner b = some pid ∧ state.place pid = .away then
        some { state with owner := Function.update state.owner b none }
      else none
  | .edit b buffer =>
      if (state.owner b).all fun pid => (state.place pid).buf ≠ some b then
        some { state with buffer := Function.update state.buffer b buffer }
      else none
  | .iderw pid b => if state.place pid = .away then state.iderw havedisk1 pid b else none
  | .test pid =>
      match state.place pid with
      | .testing b => some (state.test pid b)
      | _ => none
  | .rouse pid =>
      match state.place pid with
      | .asleep b => some { state with place := Function.update state.place pid (.testing b) }
      | _ => none
  | .transfer =>
      match state.device with
      | .busy request => some (state.transfer request)
      | _ => none
  | .interrupt =>
      match state.device with
      | .ready request words => state.ideintr request words
      | _ => none

end State

/-- The driver before its first request. -/
structure IsInitial (state : State Buf Pid Data) : Prop where
  queue : state.idequeue.first = none
  owner : ∀ b, state.owner b = none
  place : ∀ pid, state.place pid = .away
  device : state.device = .idle
  appended : state.history.appended = []
  started : state.history.started = []
  completed : state.history.completed = []

end Coursework.Ide
