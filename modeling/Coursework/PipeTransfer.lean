import Coursework.KernelParam
import Coursework.RingBuffer
import Coursework.TransitionRuns
import Mathlib.Data.UInt
import Mathlib.Tactic.Common

/-!
# Transfers through a pipe

`pipewrite` and `piperead` of `pipe.c` for any number of processes on one pipe.
A step runs from where a call gets `p->lock` to where it sleeps or returns; a
process that sleeps may go on at any time and then looks at the pipe again.
Reference counts keep a pipe allocated while a process is in a call on it, so
the model does not free it.

The history keeps what was stored by whom, what each finished `piperead` returned
and how far each finished `pipewrite` got.
-/

namespace Coursework.Pipes

abbrev Byte := UInt8

def PIPESIZE : Nat := 512

/-- `struct pipe` without its lock. -/
structure Pipe where
  data : Nat → Byte
  nread : Nat
  nwrite : Nat
  readopen : Bool
  writeopen : Bool

/-- The call that a process is in: `pipewrite` with `i` bytes stored, or
`piperead`. -/
inductive Call
  | idle
  | pipewrite (addr : List Byte) (i : Nat)
  | piperead (n : Nat)
  deriving DecidableEq

structure Proc where
  call : Call
  killed : Bool
  eax : Int

/-- A finished `pipewrite`. -/
structure Written where
  addr : List Byte
  count : Nat
  result : Int

structure History (Pid : Type) where
  stored : List (Pid × Byte)
  reads : List (Pid × List Byte)
  writes : Pid → List Written

structure State (Pid : Type) where
  pipe : Pipe
  proc : Pid → Proc
  history : History Pid

/-! ## The loops -/

/-- `p->data[p->nwrite++ % PIPESIZE] = byte`. -/
def Pipe.put (pipe : Pipe) (byte : Byte) : Pipe :=
  { pipe with
    data := Function.update pipe.data (pipe.nwrite % PIPESIZE) byte
    nwrite := (pipe.nwrite + 1) % UINT }

/-- How a section of `pipewrite` ends. -/
inductive WriteEnd
  | done
  | failed
  | sleeps
  deriving DecidableEq

/-- The loop of `pipewrite`, with the bytes that it stores. -/
def writeLoop (killed : Bool) : Pipe → List Byte → Pipe × List Byte × WriteEnd
  | pipe, [] => (pipe, [], .done)
  | pipe, byte :: rest =>
      if pipe.nwrite = (pipe.nread + PIPESIZE) % UINT then
        if pipe.readopen = false ∨ killed = true then (pipe, [], .failed)
        else (pipe, [], .sleeps)
      else
        let (pipe, bytes, ending) := writeLoop killed (pipe.put byte) rest
        (pipe, byte :: bytes, ending)

/-- The second loop of `piperead`, with the bytes that it copies. -/
def readLoop : Nat → Pipe → Pipe × List Byte
  | 0, pipe => (pipe, [])
  | n + 1, pipe =>
      if pipe.nread = pipe.nwrite then (pipe, [])
      else
        let byte := pipe.data (pipe.nread % PIPESIZE)
        let (pipe, bytes) := readLoop n { pipe with nread := (pipe.nread + 1) % UINT }
        (pipe, byte :: bytes)

/-! ## Steps -/

namespace State

variable {Pid : Type} [DecidableEq Pid]

def setProc (state : State Pid) (pid : Pid) (proc : Proc) : State Pid :=
  { state with proc := Function.update state.proc pid proc }

/-- A call returns. -/
def ret (state : State Pid) (pid : Pid) (value : Int) : State Pid :=
  state.setProc pid { state.proc pid with call := .idle, eax := value }

/-- A section of `pipewrite`. -/
def pipewrite (state : State Pid) (pid : Pid) (addr : List Byte) (i : Nat) : State Pid :=
  let (pipe, bytes, ending) := writeLoop (state.proc pid).killed state.pipe (addr.drop i)
  let stored : State Pid :=
    { state with
      pipe := pipe
      history := { state.history with
        stored := state.history.stored ++ bytes.map fun byte => (pid, byte) } }
  let finished (result : Int) : State Pid :=
    { stored.ret pid result with
      history := { stored.history with
        writes := Function.update state.history.writes pid
          (state.history.writes pid ++ [⟨addr, i + bytes.length, result⟩]) } }
  match ending with
  | .done => finished addr.length
  | .failed => finished (-1)
  | .sleeps =>
      stored.setProc pid { state.proc pid with call := .pipewrite addr (i + bytes.length) }

/-- A section of `piperead`. -/
def piperead (state : State Pid) (pid : Pid) (n : Nat) : State Pid :=
  if state.pipe.nread = state.pipe.nwrite ∧ state.pipe.writeopen = true then
    if (state.proc pid).killed = true then state.ret pid (-1) else state
  else
    let (pipe, bytes) := readLoop n state.pipe
    { state.ret pid bytes.length with
      pipe := pipe
      history := { state.history with reads := state.history.reads ++ [(pid, bytes)] } }

/-- `pipeclose`. -/
def pipeclose (state : State Pid) (writable : Bool) : State Pid :=
  if writable then { state with pipe := { state.pipe with writeopen := false } }
  else { state with pipe := { state.pipe with readopen := false } }

end State

inductive Action (Pid : Type)
  | write (pid : Pid) (addr : List Byte)
  | read (pid : Pid) (n : Nat)
  | run (pid : Pid)
  | kill (pid : Pid)
  | close (writable : Bool)

variable {Pid : Type} [DecidableEq Pid]

def State.step (state : State Pid) : Action Pid → Option (State Pid)
  | .write pid addr =>
      if (state.proc pid).call = .idle then
        some (state.setProc pid { state.proc pid with call := .pipewrite addr 0 })
      else none
  | .read pid n =>
      if (state.proc pid).call = .idle then
        some (state.setProc pid { state.proc pid with call := .piperead n })
      else none
  | .run pid =>
      match (state.proc pid).call with
      | .idle => none
      | .pipewrite addr i => some (state.pipewrite pid addr i)
      | .piperead n => some (state.piperead pid n)
  | .kill pid => some (state.setProc pid { state.proc pid with killed := true })
  | .close writable => some (state.pipeclose writable)

/-- The pipe that `pipealloc` makes in a page with any content. -/
structure IsFresh (state : State Pid) : Prop where
  nread : state.pipe.nread = 0
  nwrite : state.pipe.nwrite = 0
  readopen : state.pipe.readopen = true
  writeopen : state.pipe.writeopen = true
  idle : ∀ pid, (state.proc pid).call = .idle
  stored : state.history.stored = []
  reads : state.history.reads = []
  writes : ∀ pid, state.history.writes pid = []

/-! ## What the loops do -/

theorem pipesize_dvd : PIPESIZE ∣ UINT := by decide

theorem pipesize_lt : PIPESIZE < UINT := by decide

/-- The bytes in the pipe. -/
def Pipe.Holds (pipe : Pipe) (items : List Byte) : Prop :=
  Ring.Holds PIPESIZE UINT pipe.data pipe.nread pipe.nwrite items

theorem Pipe.Holds.put {pipe : Pipe} {items : List Byte} (ring : pipe.Holds items)
    (notFull : pipe.nwrite ≠ (pipe.nread + PIPESIZE) % UINT) (byte : Byte) :
    (pipe.put byte).Holds (items ++ [byte]) := by
  have room : items.length ≠ PIPESIZE := fun full => notFull ((ring.full_iff pipesize_lt).mpr full)
  have := ring.fits
  exact Ring.Holds.push ring pipesize_dvd (by omega) byte

/-- The loop of `pipewrite` appends to the pipe the first of its bytes, and all of
them if it gets to the end. -/
theorem writeLoop_spec (killed : Bool) (rest : List Byte) {pipe : Pipe} {items : List Byte}
    (ring : pipe.Holds items) {after : Pipe} {bytes : List Byte} {ending : WriteEnd}
    (ends : writeLoop killed pipe rest = (after, bytes, ending)) :
    after.Holds (items ++ bytes) ∧ bytes = rest.take bytes.length ∧
      (ending = .done → bytes = rest) := by
  induction rest generalizing pipe items bytes with
  | nil =>
      simp only [writeLoop, Prod.mk.injEq] at ends
      obtain ⟨rfl, rfl, rfl⟩ := ends
      simpa using ring
  | cons byte rest ih =>
      unfold writeLoop at ends
      split at ends
      · split at ends
        · cases ends
          simpa using ring
        · cases ends
          simpa using ring
      · next notFull =>
          cases loop : writeLoop killed (pipe.put byte) rest with
          | mk final result =>
              obtain ⟨bytes', ending'⟩ := result
              rw [loop] at ends
              cases ends
              obtain ⟨holds, isTake, all⟩ := ih (ring.put notFull byte) loop
              refine ⟨by simpa using holds, ?_, ?_⟩
              · rw [List.length_cons, List.take_succ_cons, ← isTake]
              · intro isDone
                rw [all isDone]

/-- The loop of `piperead` takes bytes from the front, as many as it can. -/
theorem readLoop_spec (n : Nat) {pipe : Pipe} {items : List Byte} (ring : pipe.Holds items)
    {after : Pipe} {bytes : List Byte} (ends : readLoop n pipe = (after, bytes)) :
    after.Holds (items.drop n) ∧ bytes = items.take n := by
  induction n generalizing pipe items bytes with
  | zero =>
      simp only [readLoop, Prod.mk.injEq] at ends
      obtain ⟨rfl, rfl⟩ := ends
      simpa using ring
  | succ n ih =>
      unfold readLoop at ends
      split at ends
      · next isEmpty =>
          cases ends
          obtain rfl := (ring.empty_iff pipesize_lt).mp isEmpty
          simpa using ring
      · next nonempty =>
          cases items with
          | nil => exact (nonempty ((ring.empty_iff pipesize_lt).mpr rfl)).elim
          | cons item items =>
              obtain ⟨here, rest⟩ := ring.pop pipesize_dvd
              have rest' : Pipe.Holds { pipe with nread := (pipe.nread + 1) % UINT } items := rest
              cases loop : readLoop n { pipe with nread := (pipe.nread + 1) % UINT } with
              | mk final bytes' =>
                  simp only [loop] at ends
                  cases ends
                  obtain ⟨holds, isTake⟩ := ih rest' loop
                  refine ⟨by simpa using holds, ?_⟩
                  rw [List.take_succ_cons, ← isTake, here]

/-! ## Runs -/

/-- What the call of a process has stored so far. -/
def Call.written : Call → List Byte
  | .pipewrite addr i => addr.take i
  | _ => []

/-- What a finished `pipewrite` stored. -/
def Written.bytes (written : Written) : List Byte := written.addr.take written.count

structure Inv (state : State Pid) : Prop where
  ring : ∃ items, state.pipe.Holds items ∧ state.history.stored.map Prod.snd =
    state.history.reads.flatMap Prod.snd ++ items
  writers : ∀ pid, Ring.itemsOf pid state.history.stored =
    (state.history.writes pid).flatMap Written.bytes ++ (state.proc pid).call.written
  results : ∀ pid, ∀ written ∈ state.history.writes pid,
    written.result = -1 ∨ written.result = written.addr.length ∧
      written.bytes = written.addr

namespace Inv

variable {state after : State Pid}

/-- A step that leaves the pipe and the history alone. -/
theorem keep (inv : Inv state) (ring : after.pipe.data = state.pipe.data ∧
      after.pipe.nread = state.pipe.nread ∧ after.pipe.nwrite = state.pipe.nwrite)
    (history : after.history = state.history)
    (written : ∀ pid, (after.proc pid).call.written = (state.proc pid).call.written) :
    Inv after := by
  obtain ⟨items, holds, content⟩ := inv.ring
  refine ⟨⟨items, ?_, ?_⟩, ?_, ?_⟩
  · rw [Pipe.Holds, ring.1, ring.2.1, ring.2.2]
    exact holds
  · rw [history]
    exact content
  · intro pid
    rw [history, written]
    exact inv.writers pid
  · rw [history]
    exact inv.results

theorem setProc (inv : Inv state) {pid : Pid} {proc : Proc}
    (written : proc.call.written = (state.proc pid).call.written) :
    Inv (state.setProc pid proc) := by
  refine inv.keep ⟨by rfl, by rfl, by rfl⟩ (by rfl) ?_
  intro other
  by_cases here : other = pid
  · subst here
    simp [State.setProc, written]
  · simp [State.setProc, here]

/-- A section in which a process appends bytes to the pipe. -/
theorem store (inv : Inv state) {pid : Pid} {bytes : List Byte}
    (holds : ∀ items, state.pipe.Holds items → after.pipe.Holds (items ++ bytes))
    (stored : after.history.stored =
      state.history.stored ++ bytes.map fun byte => (pid, byte))
    (reads : after.history.reads = state.history.reads)
    (mine : (after.history.writes pid).flatMap Written.bytes ++
        (after.proc pid).call.written =
      (state.history.writes pid).flatMap Written.bytes ++
        (state.proc pid).call.written ++ bytes)
    (others : ∀ other, other ≠ pid →
      after.history.writes other = state.history.writes other ∧
        after.proc other = state.proc other)
    (results : ∀ written ∈ after.history.writes pid, written.result = -1 ∨
      written.result = written.addr.length ∧ written.bytes = written.addr) : Inv after := by
  obtain ⟨items, ring, content⟩ := inv.ring
  refine ⟨⟨items ++ bytes, holds items ring, ?_⟩, ?_, ?_⟩
  · rw [stored, reads, List.map_append, content, List.append_assoc]
    simp
  · intro other
    rw [stored, Ring.itemsOf_append, inv.writers other]
    by_cases same : pid = other
    · subst same
      rw [if_pos rfl, mine]
    · obtain ⟨sameWrites, sameProc⟩ := others other (Ne.symm same)
      rw [if_neg same, sameWrites, sameProc, List.append_nil]
  · intro other
    by_cases same : other = pid
    · subst same
      exact results
    · rw [(others other same).1]
      exact inv.results other

theorem pipewrite (inv : Inv state) {pid : Pid} {addr : List Byte} {i : Nat}
    (here : (state.proc pid).call = .pipewrite addr i) : Inv (state.pipewrite pid addr i) := by
  cases loop : writeLoop (state.proc pid).killed state.pipe (addr.drop i) with
  | mk pipe result =>
      obtain ⟨bytes, ending⟩ := result
      have holds : ∀ items, state.pipe.Holds items → pipe.Holds (items ++ bytes) :=
        fun items ring => (writeLoop_spec _ _ ring loop).1
      obtain ⟨-, isTake, all⟩ := writeLoop_spec _ _ inv.ring.choose_spec.1 loop
      have isPart : addr.take (i + bytes.length) = addr.take i ++ bytes := by
        rw [List.take_add, ← isTake]
      have before : (state.proc pid).call.written = addr.take i := by
        rw [here]
        rfl
      have finished : ∀ value : Int,
          (value = -1 ∨ value = addr.length ∧ addr.take (i + bytes.length) = addr) →
          ∀ written ∈ state.history.writes pid ++ [⟨addr, i + bytes.length, value⟩],
            written.result = -1 ∨
              written.result = written.addr.length ∧ written.bytes = written.addr := by
        intro value isResult written member
        rcases List.mem_append.mp member with old | new
        · exact inv.results pid written old
        · rw [List.mem_singleton.mp new]
          exact isResult
      unfold State.pipewrite
      simp only [loop]
      cases ending with
      | done =>
          have whole : addr.take (i + bytes.length) = addr := by
            rw [isPart, all rfl, List.take_append_drop]
          apply inv.store holds
          · rfl
          · rfl
          · rw [before]
            simp [State.ret, State.setProc, Call.written, Written.bytes, isPart]
          · intro other distinct
            simp [State.ret, State.setProc, distinct]
          · simpa using finished addr.length (Or.inr ⟨rfl, whole⟩)
      | failed =>
          apply inv.store holds
          · rfl
          · rfl
          · rw [before]
            simp [State.ret, State.setProc, Call.written, Written.bytes, isPart]
          · intro other distinct
            simp [State.ret, State.setProc, distinct]
          · simpa using finished (-1) (Or.inl rfl)
      | sleeps =>
          apply inv.store holds
          · rfl
          · rfl
          · rw [before]
            simp [State.setProc, Call.written, isPart]
          · intro other distinct
            simp [State.setProc, distinct]
          · exact inv.results pid

theorem piperead (inv : Inv state) {pid : Pid} {n : Nat}
    (here : (state.proc pid).call = .piperead n) : Inv (state.piperead pid n) := by
  have returned : ∀ value, Inv (state.ret pid value) := by
    intro value
    apply inv.setProc
    rw [here]
    rfl
  unfold State.piperead
  split
  · split
    · exact returned (-1)
    · exact inv
  · obtain ⟨items, holds, content⟩ := inv.ring
    cases loop : readLoop n state.pipe with
    | mk pipe bytes =>
        obtain ⟨now, isTake⟩ := readLoop_spec n holds loop
        refine ⟨⟨items.drop n, now, ?_⟩, (returned bytes.length).writers, inv.results⟩
        change state.history.stored.map Prod.snd =
          (state.history.reads ++ [(pid, bytes)]).flatMap Prod.snd ++ items.drop n
        rw [content, List.flatMap_append, List.append_assoc, isTake]
        simp

theorem step {action : Action Pid} (inv : Inv state)
    (taken : state.step action = some after) : Inv after := by
  cases action with
  | write pid addr =>
      simp only [State.step, Option.ite_none_right_eq_some, Option.some.injEq] at taken
      obtain ⟨idle, rfl⟩ := taken
      apply inv.setProc
      rw [idle]
      rfl
  | read pid n =>
      simp only [State.step, Option.ite_none_right_eq_some, Option.some.injEq] at taken
      obtain ⟨idle, rfl⟩ := taken
      apply inv.setProc
      rw [idle]
      rfl
  | run pid =>
      simp only [State.step] at taken
      split at taken
      · cases taken
      · next addr i here =>
          cases taken
          exact inv.pipewrite here
      · next n here =>
          cases taken
          exact inv.piperead here
  | kill pid =>
      cases taken
      exact inv.setProc rfl
  | close writable =>
      cases taken
      unfold State.pipeclose
      split
      · exact inv.keep ⟨rfl, rfl, rfl⟩ rfl fun _ => rfl
      · exact inv.keep ⟨rfl, rfl, rfl⟩ rfl fun _ => rfl

theorem of_fresh (fresh : IsFresh state) : Inv state := by
  refine ⟨⟨[], ?_, ?_⟩, ?_, ?_⟩
  · rw [Pipe.Holds, fresh.nread, fresh.nwrite]
    exact Ring.holds_nil (by decide)
  · rw [fresh.stored, fresh.reads]
    rfl
  · intro pid
    rw [fresh.stored, fresh.writes, fresh.idle]
    rfl
  · intro pid
    simp [fresh.writes]

end Inv

/-- In every run: what finished reads returned is, in order, the first part of what
was stored; what a writer stored is, call by call, the first part of its buffer,
and all of it where the call returned the count; the pipe never holds more than
`PIPESIZE` bytes; and a read of a positive count returns 0 only when the pipe is
empty and its write end is closed. -/
theorem pipe_is_fifo {state : State Pid} (run : Run State.step anyStep IsFresh state) :
    state.history.reads.flatMap Prod.snd <+: state.history.stored.map Prod.snd ∧
    (∀ writer, Ring.itemsOf writer state.history.stored =
      (state.history.writes writer).flatMap Written.bytes ++
        (state.proc writer).call.written) ∧
    (∀ writer, ∀ written ∈ state.history.writes writer, written.result = -1 ∨
      written.result = written.addr.length ∧ written.bytes = written.addr) ∧
    (state.pipe.nwrite + UINT - state.pipe.nread) % UINT ≤ PIPESIZE ∧
    (∀ reader n after, (state.proc reader).call = .piperead n → 0 < n →
      state.step (.run reader) = some after → (after.proc reader).call = .idle →
      (after.proc reader).eax = 0 →
      state.pipe.nread = state.pipe.nwrite ∧ state.pipe.writeopen = false) := by
  have inv : Inv state :=
    run.invariant (fun _ => Inv.of_fresh) fun _ _ _ inv _ taken => inv.step taken
  obtain ⟨items, holds, content⟩ := inv.ring
  refine ⟨?_, inv.writers, inv.results, ?_, ?_⟩
  · rw [content]
    exact List.prefix_append _ _
  · rw [holds.distance pipesize_lt]
    exact holds.fits
  · intro reader n after here positive taken idle zero
    simp only [State.step, here, Option.some.injEq] at taken
    subst taken
    unfold State.piperead at idle zero
    split at zero
    · next waits =>
        rw [if_pos waits] at idle
        split at zero
        · simp [State.ret, State.setProc] at zero
        · next alive =>
            rw [if_neg alive, here] at idle
            cases idle
    · next ready =>
        have isZero : (readLoop n state.pipe).2.length = 0 := by
          simpa [State.ret, State.setProc] using zero
        obtain ⟨-, isTake⟩ := readLoop_spec n holds rfl
        have isEmpty : items = [] := by
          rw [isTake] at isZero
          cases items with
          | nil => rfl
          | cons item items =>
              rw [List.length_take, List.length_cons] at isZero
              omega
        have same := (holds.empty_iff pipesize_lt).mpr isEmpty
        refine ⟨same, ?_⟩
        by_contra isOpen
        exact ready ⟨same, by simpa using isOpen⟩

/-- A new pipe between two processes. -/
def newPipe : State Bool where
  pipe := { data := fun _ => 0, nread := 0, nwrite := 0, readopen := true, writeopen := true }
  proc := fun _ => { call := .idle, killed := false, eax := 0 }
  history := { stored := [], reads := [], writes := fun _ => [] }

theorem newPipe_fresh : IsFresh newPipe :=
  ⟨rfl, rfl, rfl, rfl, fun _ => rfl, rfl, rfl, fun _ => rfl⟩

/-- One process writes three bytes and the other one reads two. -/
def partialRead : List (Action Bool) :=
  [.read true 2, .run true, .write false [7, 8, 9], .run false, .run true]

theorem partialRead_enabled :
    (execute State.step (fun _ _ => true) newPipe partialRead).isSome = true := by
  decide +kernel

theorem pipe_is_fifo_partialRead :
    ∃ state : State Bool, state.history.reads = [(true, [7, 8])] ∧
      [7, 8] <+: state.history.stored.map Prod.snd := by
  have run := run_lastState newPipe_fresh partialRead partialRead_enabled
  obtain ⟨fifo, -⟩ := pipe_is_fifo (run.mono fun _ _ _ => trivial)
  have reads : (lastState State.step _ newPipe _ partialRead_enabled).history.reads =
      [(true, [7, 8])] := by decide +kernel
  refine ⟨_, reads, ?_⟩
  rw [reads] at fifo
  exact fifo

end Coursework.Pipes
