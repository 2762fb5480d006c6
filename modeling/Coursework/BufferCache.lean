import Coursework.KernelParam
import Coursework.LinkedRing
import Coursework.TransitionRuns
import Mathlib.Data.List.FinRange

/-!
# The buffer cache

`bio.c` with the part of `ide.c` that it calls, for any number of processes.  A
step is a section under `bcache.lock`, under `idelock` or under the spinlock of
a sleeplock, or what the holder of a buffer does with it; the sections of a call
that take different locks are different steps.  `log_write` is the part of it
that concerns the buffer; what it records in the log header is in
`LogSystem`.

The disk takes the contents of a buffer when a write is started, and hands out
what a sector holds when a read is completed.  The state also carries two
things that the kernel does not have: the contents that a block was last left
with by `log_write` or `bwrite`, and which buffers their holders have changed
since.
-/

namespace Coursework.BufferCache

/-- A pointer into `bcache.buf`. -/
abbrev BufId := Fin NBUF

/-- A device and a block number. -/
abbrev Block := Nat × Nat

structure Buf (Pid Data : Type) where
  valid : Bool
  dirty : Bool
  dev : Nat
  blockno : Nat
  lock : Option Pid
  refcnt : Nat
  data : Data

def Buf.block {Pid Data : Type} (buf : Buf Pid Data) : Block := (buf.dev, buf.blockno)

/-- Where a process is. -/
inductive Pc
  | idle
  /-- `bget` before `acquiresleep` -/
  | acquiring (block : Block) (b : BufId)
  /-- `bread` in `iderw` -/
  | reading (block : Block) (b : BufId)
  /-- `bwrite` in `iderw` -/
  | writing (b : BufId)
  /-- `brelse` after `releasesleep` -/
  | releasing (b : BufId)
  deriving DecidableEq

/-- A process, with the buffers that `bread` returned to it and the blocks that it
asked for. -/
structure Proc where
  pc : Pc
  held : BufId → Option Block

inductive Panic
  | noBuffers
  | bwrite
  | brelse
  | bufNotLocked
  | nothingToDo
  | disk1NotPresent
  | incorrectBlockno
  deriving DecidableEq

structure State (Pid Data : Type) where
  links : Links BufId
  buf : BufId → Buf Pid Data
  idequeue : List BufId
  havedisk1 : Bool
  /-- contents of the sectors of both drives -/
  disk : Nat × Nat → Data
  proc : Pid → Proc
  panic : Option Panic
  /-- what `log_write` or `bwrite` last left in a block -/
  left : Block → Data
  /-- changed since `bread`, `log_write` or `bwrite` -/
  modified : BufId → Bool

inductive Action (Pid Data : Type)
  | bread (pid : Pid) (dev blockno : Nat)
  | modify (pid : Pid) (b : BufId) (data : Data)
  | logWrite (pid : Pid) (b : BufId)
  | bwrite (pid : Pid) (b : BufId)
  | brelse (pid : Pid) (b : BufId)
  | run (pid : Pid)
  | ideintr

/-- The links that `binit` makes. -/
def binit : Links BufId :=
  (List.finRange NBUF).foldl Links.insertFront ⟨fun _ => none, fun _ => none⟩

/-- The drive and the sector that `idestart` selects. -/
def sector (block : Block) : Nat × Nat := (block.1 % 2, block.2)

namespace State

variable {Pid Data : Type} [DecidableEq Pid]

def setProc (state : State Pid Data) (pid : Pid) (proc : Proc) : State Pid Data :=
  { state with proc := Function.update state.proc pid proc }

def setBuf (state : State Pid Data) (b : BufId) (buf : Buf Pid Data) : State Pid Data :=
  { state with buf := Function.update state.buf b buf }

def goto (state : State Pid Data) (pid : Pid) (pc : Pc) : State Pid Data :=
  state.setProc pid { state.proc pid with pc := pc }

/-- The section of `bget` under `bcache.lock`. -/
def bget (state : State Pid Data) (pid : Pid) (dev blockno : Nat) : State Pid Data :=
  match Links.scan state.links.next
      (fun b => decide ((state.buf b).dev = dev ∧ (state.buf b).blockno = blockno)) NBUF
      (state.links.next none) with
  | some b =>
      (state.setBuf b { state.buf b with refcnt := (state.buf b).refcnt + 1 }).goto pid
        (.acquiring (dev, blockno) b)
  | none =>
      match Links.scan state.links.prev
          (fun b => decide ((state.buf b).refcnt = 0 ∧ (state.buf b).dirty = false)) NBUF
          (state.links.prev none) with
      | some b =>
          (state.setBuf b
            { state.buf b with
              dev := dev
              blockno := blockno
              valid := false
              dirty := false
              refcnt := 1 }).goto pid (.acquiring (dev, blockno) b)
      | none => { state with panic := some .noBuffers }

/-- `idestart`, which sends the contents of a dirty buffer. -/
def idestart (state : State Pid Data) (b : BufId) : State Pid Data :=
  if FSSIZE ≤ (state.buf b).blockno then { state with panic := some .incorrectBlockno }
  else if (state.buf b).dirty then
    { state with
      disk := Function.update state.disk (sector (state.buf b).block) (state.buf b).data }
  else state

/-- Append a request, for which a process waits at `pc`. -/
def enqueue (state : State Pid Data) (pid : Pid) (b : BufId) (pc : Pc) : State Pid Data :=
  { state with idequeue := state.idequeue ++ [b] }.goto pid pc

/-- `iderw` by a process that waits at `pc` for the request to finish. -/
def iderw (state : State Pid Data) (pid : Pid) (b : BufId) (pc : Pc) : State Pid Data :=
  if (state.buf b).lock = none then { state with panic := some .bufNotLocked }
  else if (state.buf b).valid = true ∧ (state.buf b).dirty = false then
    { state with panic := some .nothingToDo }
  else if (state.buf b).dev ≠ 0 ∧ state.havedisk1 = false then
    { state with panic := some .disk1NotPresent }
  else
    let queued := state.enqueue pid b pc
    if queued.idequeue.head? = some b then queued.idestart b else queued

/-- The first request is finished. -/
def finish (state : State Pid Data) (b : BufId) (rest : List BufId) : State Pid Data :=
  let buf := state.buf b
  { state with idequeue := rest }.setBuf b
    { buf with
      data := if buf.dirty then buf.data else state.disk (sector buf.block)
      valid := true
      dirty := false }

def ideintr (state : State Pid Data) : State Pid Data :=
  match state.idequeue with
  | [] => state
  | [b] => state.finish b []
  | b :: next :: rest => (state.finish b (next :: rest)).idestart next

/-- `bread` returns. -/
def returned (state : State Pid Data) (pid : Pid) (block : Block) (b : BufId) :
    State Pid Data :=
  state.setProc pid
    { pc := .idle
      held := Function.update (state.proc pid).held b (some block) }

/-- `acquiresleep` in `bget` and the rest of `bread` up to the wait of `iderw`. -/
def acquire (state : State Pid Data) (pid : Pid) (block : Block) (b : BufId) :
    State Pid Data :=
  let locked := state.setBuf b { state.buf b with lock := some pid }
  if (state.buf b).valid then locked.returned pid block b
  else locked.iderw pid b (.reading block b)

/-- The section of `brelse` under `bcache.lock`. -/
def release (state : State Pid Data) (pid : Pid) (b : BufId) : State Pid Data :=
  let refcnt := (state.buf b).refcnt - 1
  let dropped := (state.setBuf b { state.buf b with refcnt := refcnt }).goto pid .idle
  if refcnt = 0 then { dropped with links := (state.links.unlink b).insertFront b }
  else dropped

/-- The next step of a process, which waits for a sleeplock or for its request. -/
def runStep (state : State Pid Data) (pid : Pid) : Option (State Pid Data) :=
  match (state.proc pid).pc with
  | .idle => none
  | .acquiring block b =>
      if (state.buf b).lock = none then some (state.acquire pid block b) else none
  | .reading block b =>
      if (state.buf b).valid = true ∧ (state.buf b).dirty = false then
        some (state.returned pid block b)
      else none
  | .writing b =>
      if (state.buf b).valid = true ∧ (state.buf b).dirty = false then
        some (state.goto pid .idle)
      else none
  | .releasing b => some (state.release pid b)

/-- The holder of a buffer changes its contents. -/
def modify (state : State Pid Data) (b : BufId) (data : Data) : State Pid Data :=
  { state.setBuf b { state.buf b with data := data } with
    modified := Function.update state.modified b true }

/-- The buffer is dirty and its contents are what the block is left with. -/
def leave (state : State Pid Data) (b : BufId) : State Pid Data :=
  { state.setBuf b { state.buf b with dirty := true } with
    left := Function.update state.left (state.buf b).block (state.buf b).data
    modified := Function.update state.modified b false }

def bwrite (state : State Pid Data) (pid : Pid) (b : BufId) : State Pid Data :=
  if (state.buf b).lock = none then { state with panic := some .bwrite }
  else (state.leave b).iderw pid b (.writing b)

/-- `brelse` up to `releasesleep`. -/
def brelse (state : State Pid Data) (pid : Pid) (b : BufId) : State Pid Data :=
  if (state.buf b).lock = none then { state with panic := some .brelse }
  else
    (state.setBuf b { state.buf b with lock := none }).setProc pid
      { pc := .releasing b
        held := Function.update (state.proc pid).held b none }

/-- A process that holds a buffer and is in no call. -/
def uses (state : State Pid Data) (pid : Pid) (b : BufId) : Bool :=
  decide ((state.proc pid).pc = .idle) && ((state.proc pid).held b).isSome

def step (state : State Pid Data) (action : Action Pid Data) : Option (State Pid Data) :=
  if state.panic.isSome then none
  else
    match action with
    | .bread pid dev blockno =>
        if (state.proc pid).pc = .idle then some (state.bget pid dev blockno) else none
    | .modify pid b data => if state.uses pid b then some (state.modify b data) else none
    | .logWrite pid b => if state.uses pid b then some (state.leave b) else none
    | .bwrite pid b => if state.uses pid b then some (state.bwrite pid b) else none
    | .brelse pid b => if state.uses pid b then some (state.brelse pid b) else none
    | .run pid => state.runStep pid
    | .ideintr => some state.ideintr

/-- The calls are on one device, and a change to a buffer is followed by
`log_write` or `bwrite` before `brelse`. -/
def follows (dev : Nat) (state : State Pid Data) : Action Pid Data → Bool
  | .bread _ device _ => device = dev
  | .brelse _ b => !state.modified b
  | _ => true

/-- A call of `bwrite` for a block. -/
def bwrites (block : Block) (state : State Pid Data) : Action Pid Data → Bool
  | .bwrite _ b => (state.buf b).block = block
  | _ => false

/-! ## What a step is -/

/-- The actions that can be taken, with the states after them. -/
inductive Moves (state : State Pid Data) : Action Pid Data → State Pid Data → Prop
  | bread {pid : Pid} {dev blockno : Nat} : (state.proc pid).pc = .idle →
      Moves state (.bread pid dev blockno) (state.bget pid dev blockno)
  | modify {pid : Pid} {b : BufId} {data : Data} : (state.proc pid).pc = .idle →
      ((state.proc pid).held b).isSome = true →
      Moves state (.modify pid b data) (state.modify b data)
  | logWrite {pid : Pid} {b : BufId} : (state.proc pid).pc = .idle →
      ((state.proc pid).held b).isSome = true → Moves state (.logWrite pid b) (state.leave b)
  | bwrite {pid : Pid} {b : BufId} : (state.proc pid).pc = .idle →
      ((state.proc pid).held b).isSome = true →
      Moves state (.bwrite pid b) (state.bwrite pid b)
  | brelse {pid : Pid} {b : BufId} : (state.proc pid).pc = .idle →
      ((state.proc pid).held b).isSome = true →
      Moves state (.brelse pid b) (state.brelse pid b)
  | acquire {pid : Pid} {block : Block} {b : BufId} : (state.proc pid).pc = .acquiring block b →
      (state.buf b).lock = none → Moves state (.run pid) (state.acquire pid block b)
  | returned {pid : Pid} {block : Block} {b : BufId} : (state.proc pid).pc = .reading block b →
      (state.buf b).valid = true → (state.buf b).dirty = false →
      Moves state (.run pid) (state.returned pid block b)
  | written {pid : Pid} {b : BufId} : (state.proc pid).pc = .writing b →
      (state.buf b).valid = true → (state.buf b).dirty = false →
      Moves state (.run pid) (state.goto pid .idle)
  | release {pid : Pid} {b : BufId} : (state.proc pid).pc = .releasing b →
      Moves state (.run pid) (state.release pid b)
  | ideintr : Moves state .ideintr state.ideintr

variable {state after : State Pid Data} {pid : Pid}

theorem quiet_of_step {action : Action Pid Data} (taken : state.step action = some after) :
    state.panic = none := by
  unfold State.step at taken
  split at taken
  · cases taken
  · next quiet => simpa using quiet

theorem Moves.of_runStep (taken : state.runStep pid = some after) :
    Moves state (.run pid) after := by
  unfold State.runStep at taken
  cases place : (state.proc pid).pc with
  | idle => simp [place] at taken
  | acquiring block b =>
      simp only [place, Option.ite_none_right_eq_some, Option.some.injEq] at taken
      obtain ⟨free, rfl⟩ := taken
      exact .acquire place free
  | reading block b =>
      simp only [place, Option.ite_none_right_eq_some, Option.some.injEq] at taken
      obtain ⟨⟨valid, clean⟩, rfl⟩ := taken
      exact .returned place valid clean
  | writing b =>
      simp only [place, Option.ite_none_right_eq_some, Option.some.injEq] at taken
      obtain ⟨⟨valid, clean⟩, rfl⟩ := taken
      exact .written place valid clean
  | releasing b =>
      simp only [place, Option.some.injEq] at taken
      subst taken
      exact .release place

theorem Moves.of_step {action : Action Pid Data} (taken : state.step action = some after) :
    Moves state action after := by
  have quiet := quiet_of_step taken
  unfold State.step at taken
  rw [if_neg (by simp [quiet])] at taken
  cases action with
  | bread pid dev blockno =>
      simp only [Option.ite_none_right_eq_some, Option.some.injEq] at taken
      obtain ⟨idle, rfl⟩ := taken
      exact .bread idle
  | modify pid b data =>
      simp only [uses, Option.ite_none_right_eq_some, Option.some.injEq, Bool.and_eq_true,
        decide_eq_true_eq] at taken
      obtain ⟨⟨idle, isHeld⟩, rfl⟩ := taken
      exact .modify idle isHeld
  | logWrite pid b =>
      simp only [uses, Option.ite_none_right_eq_some, Option.some.injEq, Bool.and_eq_true,
        decide_eq_true_eq] at taken
      obtain ⟨⟨idle, isHeld⟩, rfl⟩ := taken
      exact .logWrite idle isHeld
  | bwrite pid b =>
      simp only [uses, Option.ite_none_right_eq_some, Option.some.injEq, Bool.and_eq_true,
        decide_eq_true_eq] at taken
      obtain ⟨⟨idle, isHeld⟩, rfl⟩ := taken
      exact .bwrite idle isHeld
  | brelse pid b =>
      simp only [uses, Option.ite_none_right_eq_some, Option.some.injEq, Bool.and_eq_true,
        decide_eq_true_eq] at taken
      obtain ⟨⟨idle, isHeld⟩, rfl⟩ := taken
      exact .brelse idle isHeld
  | run pid => exact .of_runStep taken
  | ideintr =>
      cases taken
      exact .ideintr

end State

/-- The kernel after `binit`. -/
structure IsBooted {Pid Data : Type} (state : State Pid Data) : Prop where
  links : state.links = binit
  block : ∀ b, (state.buf b).block = (0, 0)
  flags : ∀ b, (state.buf b).valid = false ∧ (state.buf b).dirty = false
  free : ∀ b, (state.buf b).lock = none ∧ (state.buf b).refcnt = 0
  idequeue : state.idequeue = []
  idle : ∀ pid, (state.proc pid).pc = .idle
  held : ∀ pid b, (state.proc pid).held b = none
  panic : state.panic = none
  left : ∀ block, state.left block = state.disk (sector block)
  modified : ∀ b, state.modified b = false

end Coursework.BufferCache
