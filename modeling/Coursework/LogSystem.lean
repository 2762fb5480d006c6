import Coursework.KernelParam
import Coursework.TransitionRuns
import Mathlib.Data.Fintype.Basic
import Mathlib.Data.List.Nodup
import Mathlib.Logic.Function.Basic

/-!
# Concurrent file-system operations on the log

Any number of processes call `begin_op`, `log_write` and `end_op` of `log.c`.
A step takes one process from one point where it holds, takes or gives up a
spinlock to the next; `log_write` reads its two checks before it takes
`log.lock`, and `commit` runs without any lock.  Sleeping follows `proc.c`:
`sleep` takes `ptable.lock` before it gives up `log.lock`, and `wakeup` runs
under `ptable.lock`.

Operations carry an identifier that the code does not have, so that histories
can speak of one operation.
-/

namespace Coursework.LogSystem

/-- The panics of `log_write` and `end_op`. -/
inductive Panic
  | tooBigTransaction
  | logWriteOutsideTrans
  | logCommitting
  deriving DecidableEq, Repr

/-- Where a process is in the log code.  A place named `acquire` spins for
`log.lock`, one named `held` or `release` holds it, and one named `wakeup` holds
it and spins for `ptable.lock`.  In `sleep`, `sleepAcquire` holds `log.lock` and
spins for `ptable.lock`, `sleepSwitch` holds `ptable.lock` only, and `sleeping`
is `SLEEPING` on `&log`.  The places from `commitTest` to `eraseHead` are in
`commit`, the later ones in `end_op` after it. -/
inductive Pc
  | outside
  | beginAcquire
  | beginLoop
  | sleepAcquire
  | sleepSwitch
  | sleeping
  | inOp
  | logWriteAcquire (blockno : Nat)
  | logWriteHeld (blockno : Nat)
  | endAcquire
  | endHeld
  | endWakeup
  | endRelease (doCommit : Bool)
  | commitTest
  | writeLog (tail : Nat)
  | writeHead
  | installTrans (tail : Nat)
  | clearHead
  | eraseHead
  | commitAcquire
  | commitHeld
  | commitWakeup
  | commitRelease
  | panicked (reason : Panic)
  deriving DecidableEq, Repr

namespace Pc

/-- Between the increment of `log.outstanding` and its decrement. -/
def isInOp : Pc → Bool
  | inOp | logWriteAcquire _ | logWriteHeld _ | endAcquire | endHeld
  | panicked .tooBigTransaction | panicked .logWriteOutsideTrans => true
  | _ => false

/-- The process holds `log.lock`. -/
def holdsLog : Pc → Bool
  | beginLoop | sleepAcquire | logWriteHeld _ | endHeld | endWakeup
  | endRelease _ | commitHeld | commitWakeup | commitRelease
  | panicked .logCommitting => true
  | _ => false

/-- The process holds `ptable.lock`. -/
def holdsPtable : Pc → Bool
  | sleepSwitch => true
  | _ => false

/-- From setting `log.committing` to clearing it. -/
def isCommitting : Pc → Bool
  | endRelease true | commitTest | writeLog _ | writeHead | installTrans _
  | clearHead | eraseHead | commitAcquire | commitHeld => true
  | _ => false

/-- Between committing the transaction and clearing the in-memory header. -/
def isInstalling : Pc → Bool
  | installTrans _ | clearHead => true
  | _ => false

/-- Holding `log.lock` with a call of `wakeup(&log)` still to make. -/
def willWake : Pc → Bool
  | endWakeup | commitWakeup => true
  | _ => false

/-- The block of a `log_write` that has passed its checks. -/
def pending : Pc → List Nat
  | logWriteAcquire blockno | logWriteHeld blockno => [blockno]
  | _ => []

/-- What `wakeup(&log)` does to a process: a sleeper goes back to acquiring
`log.lock`. -/
def wake : Pc → Pc
  | sleeping => beginAcquire
  | pc => pc

end Pc

/-- A transaction as `write_head` commits it, with the operations it includes. -/
structure Transaction where
  blocks : List Nat
  ops : List Nat
  deriving DecidableEq, Repr

/-- What a run has done: the operation each process is in or was in last, every
block recorded by `log_write` with its operation, the operations ended since the
last commit, and the committed transactions. -/
structure History (Process : Type*) where
  op : Process → Nat
  nextOp : Nat
  logged : List (Nat × Nat)
  ended : List Nat
  committed : List Transaction

/-- The two spinlocks, `struct log` with `lh` for the entries
`log.lh.block[0 .. log.lh.n - 1]`, the header block on disk, every process's
place in the code, and the history of the run. -/
structure State (Process : Type*) where
  lock : Option Process
  ptable : Option Process
  outstanding : Int
  committing : Bool
  lh : List Nat
  header : List Nat
  pc : Process → Pc
  history : History Process

variable {Process : Type*} [DecidableEq Process]

/-- The system after `initlog`: nothing logged and no process in an operation. -/
def State.IsInitial (state : State Process) : Prop :=
  state.lock = none ∧ state.ptable = none ∧ state.outstanding = 0 ∧
    state.committing = false ∧ state.lh = [] ∧ state.history.logged = [] ∧
    state.history.ended = [] ∧ state.history.committed = [] ∧
    ∀ process, state.pc process = .outside

/-- What a step is: a call by a process outside or inside an operation, one
move of a process through the code, or a `kill` that wakes a sleeper. -/
inductive Action (Process : Type*)
  | beginOp (process : Process)
  | logWrite (process : Process) (blockno : Nat)
  | endOp (process : Process)
  | move (process : Process)
  | kill (process : Process)

/-- The condition on which `begin_op` sleeps. -/
def State.MustWait (state : State Process) : Prop :=
  state.committing = true ∨
    (LOGSIZE : Int) < state.lh.length + (state.outstanding + 1) * MAXOPBLOCKS

instance (state : State Process) : Decidable state.MustWait :=
  inferInstanceAs (Decidable (_ ∨ _))

/-- Place a process elsewhere in the code. -/
def State.goto (state : State Process) (process : Process) (pc : Pc) : State Process :=
  { state with pc := Function.update state.pc process pc }

/-- `acquire(&log.lock)`. -/
def State.acquireLog (state : State Process) (process : Process) (pc : Pc) :
    Option (State Process) :=
  if state.lock = none then some { state.goto process pc with lock := some process }
  else none

/-- `release(&log.lock)`. -/
def State.releaseLog (state : State Process) (process : Process) (pc : Pc) :
    State Process :=
  { state.goto process pc with lock := none }

/-- `wakeup(&log)`, which takes and gives up `ptable.lock`. -/
def State.wakeup (state : State Process) (process : Process) (pc : Pc) :
    Option (State Process) :=
  if state.ptable = none then
    some ({ state with pc := fun other => (state.pc other).wake }.goto process pc)
  else none

/-- The insertion loop of `log_write`, with log absorption. -/
def absorb (lh : List Nat) (blockno : Nat) : List Nat :=
  if blockno ∈ lh then lh else lh ++ [blockno]

/-- A process starts a fresh operation. -/
def History.beginOp (history : History Process) (process : Process) : History Process :=
  { history with
    op := Function.update history.op process history.nextOp
    nextOp := history.nextOp + 1 }

/-- The operation of a process logs a block. -/
def History.logWrite (history : History Process) (process : Process) (blockno : Nat) :
    History Process :=
  { history with logged := history.logged ++ [(history.op process, blockno)] }

/-- The operation of a process ends. -/
def History.endOp (history : History Process) (process : Process) : History Process :=
  { history with ended := history.ended ++ [history.op process] }

/-- The header with these blocks commits the ended operations. -/
def History.commit (history : History Process) (blocks : List Nat) : History Process :=
  { history with
    ended := []
    committed := history.committed ++ [⟨blocks, history.ended⟩] }

/-- One move of a process that is inside the log code. -/
def State.move (state : State Process) (process : Process) : Option (State Process) :=
  match state.pc process with
  | .outside | .sleeping | .inOp | .panicked _ => none
  | .beginAcquire => state.acquireLog process .beginLoop
  | .beginLoop =>
      if state.MustWait then some (state.goto process .sleepAcquire)
      else some
        { state.releaseLog process .inOp with
          outstanding := state.outstanding + 1
          history := state.history.beginOp process }
  | .sleepAcquire =>
      if state.ptable = none then
        some { state.releaseLog process .sleepSwitch with ptable := some process }
      else none
  | .sleepSwitch => some { state.goto process .sleeping with ptable := none }
  | .logWriteAcquire blockno => state.acquireLog process (.logWriteHeld blockno)
  | .logWriteHeld blockno =>
      some
        { state.releaseLog process .inOp with
          lh := absorb state.lh blockno
          history := state.history.logWrite process blockno }
  | .endAcquire => state.acquireLog process .endHeld
  | .endHeld =>
      let state := { state with
        outstanding := state.outstanding - 1
        history := state.history.endOp process }
      if state.committing then some (state.goto process (.panicked .logCommitting))
      else if state.outstanding = 0 then
        some { state.goto process (.endRelease true) with committing := true }
      else some (state.goto process .endWakeup)
  | .endWakeup => state.wakeup process (.endRelease false)
  | .endRelease doCommit =>
      some (state.releaseLog process (if doCommit then .commitTest else .outside))
  | .commitTest =>
      if 0 < state.lh.length then some (state.goto process (.writeLog 0))
      else some
        { state.goto process .commitAcquire with history := state.history.commit state.lh }
  | .writeLog tail =>
      some (state.goto process
        (if tail < state.lh.length then .writeLog (tail + 1) else .writeHead))
  | .writeHead =>
      some
        { state.goto process (.installTrans 0) with
          header := state.lh
          history := state.history.commit state.lh }
  | .installTrans tail =>
      some (state.goto process
        (if tail < state.lh.length then .installTrans (tail + 1) else .clearHead))
  | .clearHead => some { state.goto process .eraseHead with lh := [] }
  | .eraseHead => some { state.goto process .commitAcquire with header := state.lh }
  | .commitAcquire => state.acquireLog process .commitHeld
  | .commitHeld => some { state.goto process .commitWakeup with committing := false }
  | .commitWakeup => state.wakeup process .commitRelease
  | .commitRelease => some (state.releaseLog process .outside)

/-- One step of the system, with `log.size = size`. -/
def State.step (size : Nat) (state : State Process) :
    Action Process → Option (State Process)
  | .beginOp process =>
      if state.pc process = .outside then some (state.goto process .beginAcquire) else none
  | .logWrite process blockno =>
      if state.pc process = .inOp then
        -- both checks are made before `log.lock` is taken
        if LOGSIZE ≤ state.lh.length ∨ (size : Int) - 1 ≤ state.lh.length then
          some (state.goto process (.panicked .tooBigTransaction))
        else if state.outstanding < 1 then
          some (state.goto process (.panicked .logWriteOutsideTrans))
        else some (state.goto process (.logWriteAcquire blockno))
      else none
  | .endOp process =>
      if state.pc process = .inOp then some (state.goto process .endAcquire) else none
  | .move process => state.move process
  | .kill process =>
      if state.pc process = .sleeping then some (state.goto process .beginAcquire) else none

/-! ## What one step can do -/

/-- The calls a process makes, and the `kill` that wakes it: only its place
changes. -/
inductive Call (state : State Process) (process : Process) : Pc → Prop
  | beginOp : state.pc process = .outside → Call state process .beginAcquire
  | kill : state.pc process = .sleeping → Call state process .beginAcquire
  | tooBig (size : Nat) : state.pc process = .inOp →
      LOGSIZE ≤ state.lh.length ∨ (size : Int) - 1 ≤ state.lh.length →
      Call state process (.panicked .tooBigTransaction)
  | outsideTrans : state.pc process = .inOp → state.outstanding < 1 →
      Call state process (.panicked .logWriteOutsideTrans)
  | logWrite (blockno : Nat) : state.pc process = .inOp →
      Call state process (.logWriteAcquire blockno)
  | endOp : state.pc process = .inOp → Call state process .endAcquire

/-- The moves that change nothing but the place of one process. -/
inductive Control (state : State Process) (process : Process) : Pc → Prop
  | wait : state.pc process = .beginLoop → state.MustWait →
      Control state process .sleepAcquire
  | startCommit : state.pc process = .commitTest → Control state process (.writeLog 0)
  | writeLog (tail : Nat) : state.pc process = .writeLog tail →
      Control state process (.writeLog (tail + 1))
  | logWritten (tail : Nat) : state.pc process = .writeLog tail →
      Control state process .writeHead
  | installTrans (tail : Nat) : state.pc process = .installTrans tail →
      Control state process (.installTrans (tail + 1))
  | installed (tail : Nat) : state.pc process = .installTrans tail →
      Control state process .clearHead

/-- The moves that take `log.lock`. -/
inductive Acquire : Pc → Pc → Prop
  | beginOp : Acquire .beginAcquire .beginLoop
  | logWrite (blockno : Nat) : Acquire (.logWriteAcquire blockno) (.logWriteHeld blockno)
  | endOp : Acquire .endAcquire .endHeld
  | committed : Acquire .commitAcquire .commitHeld

/-- The moves that give up `log.lock` and change nothing else. -/
inductive Release : Pc → Pc → Prop
  | endOp : Release (.endRelease false) .outside
  | commit : Release (.endRelease true) .commitTest
  | committed : Release .commitRelease .outside

/-- The moves that call `wakeup(&log)`. -/
inductive Wakeup : Pc → Pc → Prop
  | endOp : Wakeup .endWakeup (.endRelease false)
  | committed : Wakeup .commitWakeup .commitRelease

/-- The moves through the log code, by what they change. -/
inductive Move (state : State Process) : State Process → Prop
  | control {process pc} : Control state process pc → Move state (state.goto process pc)
  | acquire {process pc} : state.lock = none → Acquire (state.pc process) pc →
      Move state { state.goto process pc with lock := some process }
  | release {process pc} : Release (state.pc process) pc →
      Move state (state.releaseLog process pc)
  | wakeup {process pc} : state.ptable = none → Wakeup (state.pc process) pc →
      Move state ({ state with pc := fun other => (state.pc other).wake }.goto process pc)
  | enterOp {process} : state.pc process = .beginLoop → ¬ state.MustWait →
      Move state
        { state.releaseLog process .inOp with
          outstanding := state.outstanding + 1
          history := state.history.beginOp process }
  | sleep {process} : state.pc process = .sleepAcquire → state.ptable = none →
      Move state { state.releaseLog process .sleepSwitch with ptable := some process }
  | asleep {process} : state.pc process = .sleepSwitch →
      Move state { state.goto process .sleeping with ptable := none }
  | record {process} (blockno : Nat) : state.pc process = .logWriteHeld blockno →
      Move state
        { state.releaseLog process .inOp with
          lh := absorb state.lh blockno
          history := state.history.logWrite process blockno }
  | endPanic {process} : state.pc process = .endHeld → state.committing = true →
      Move state
        ({ state with
            outstanding := state.outstanding - 1
            history := state.history.endOp process }.goto process
          (.panicked .logCommitting))
  | endLast {process} : state.pc process = .endHeld → state.committing = false →
      state.outstanding - 1 = 0 →
      Move state
        { ({ state with
            outstanding := state.outstanding - 1
            history := state.history.endOp process } : State Process).goto process
          (.endRelease true) with committing := true }
  | endOther {process} : state.pc process = .endHeld → state.committing = false →
      state.outstanding - 1 ≠ 0 →
      Move state
        ({ state with
            outstanding := state.outstanding - 1
            history := state.history.endOp process }.goto process .endWakeup)
  | commitEmpty {process} : state.pc process = .commitTest → state.lh = [] →
      Move state
        { state.goto process .commitAcquire with history := state.history.commit state.lh }
  | commitHead {process} : state.pc process = .writeHead →
      Move state
        { state.goto process (.installTrans 0) with
          header := state.lh
          history := state.history.commit state.lh }
  | clear {process} : state.pc process = .clearHead →
      Move state { state.goto process .eraseHead with lh := [] }
  | erase {process} : state.pc process = .eraseHead →
      Move state { state.goto process .commitAcquire with header := state.lh }
  | uncommit {process} : state.pc process = .commitHeld →
      Move state { state.goto process .commitWakeup with committing := false }

/-- The steps of the system. -/
inductive Step (state : State Process) : State Process → Prop
  | call {process pc} : Call state process pc → Step state (state.goto process pc)
  | move {after} : Move state after → Step state after

theorem Move.of_acquireLog {state after : State Process} {process : Process} {pc : Pc}
    (edge : Acquire (state.pc process) pc)
    (taken : state.acquireLog process pc = some after) : Move state after := by
  simp only [State.acquireLog, Option.ite_none_right_eq_some, Option.some.injEq] at taken
  obtain ⟨free, rfl⟩ := taken
  exact .acquire free edge

theorem Move.of_wakeup {state after : State Process} {process : Process} {pc : Pc}
    (edge : Wakeup (state.pc process) pc)
    (taken : state.wakeup process pc = some after) : Move state after := by
  simp only [State.wakeup, Option.ite_none_right_eq_some, Option.some.injEq] at taken
  obtain ⟨free, rfl⟩ := taken
  exact .wakeup free edge

theorem Move.of_move {state after : State Process} {process : Process}
    (taken : state.move process = some after) : Move state after := by
  unfold State.move at taken
  split at taken
  case h_1 | h_2 | h_3 | h_4 => cases taken
  case h_5 here => exact .of_acquireLog (here ▸ .beginOp) taken
  case h_6 here =>
    split at taken <;> obtain rfl := Option.some.inj taken
    · next waits => exact .control (.wait here waits)
    · next admitted => exact .enterOp here admitted
  case h_7 here =>
    simp only [Option.ite_none_right_eq_some, Option.some.injEq] at taken
    obtain ⟨free, rfl⟩ := taken
    exact .sleep here free
  case h_8 here => obtain rfl := Option.some.inj taken; exact .asleep here
  case h_9 blockno here => exact .of_acquireLog (here ▸ .logWrite blockno) taken
  case h_10 blockno here => obtain rfl := Option.some.inj taken; exact .record blockno here
  case h_11 here => exact .of_acquireLog (here ▸ .endOp) taken
  case h_12 here =>
    simp only at taken
    split at taken
    · next committing => obtain rfl := Option.some.inj taken; exact .endPanic here committing
    · next notCommitting =>
      have idle : state.committing = false := by simpa using notCommitting
      split at taken <;> obtain rfl := Option.some.inj taken
      · next last => exact .endLast here idle last
      · next others => exact .endOther here idle others
  case h_13 here => exact .of_wakeup (here ▸ .endOp) taken
  case h_14 doCommit here =>
    obtain rfl := Option.some.inj taken
    cases doCommit
    · exact .release (here ▸ .endOp)
    · exact .release (here ▸ .commit)
  case h_15 here =>
    split at taken <;> obtain rfl := Option.some.inj taken
    · exact .control (.startCommit here)
    · next empty => exact .commitEmpty here (List.eq_nil_of_length_eq_zero (by omega))
  case h_16 tail here =>
    obtain rfl := Option.some.inj taken
    split
    · exact .control (.writeLog tail here)
    · exact .control (.logWritten tail here)
  case h_17 here => obtain rfl := Option.some.inj taken; exact .commitHead here
  case h_18 tail here =>
    obtain rfl := Option.some.inj taken
    split
    · exact .control (.installTrans tail here)
    · exact .control (.installed tail here)
  case h_19 here => obtain rfl := Option.some.inj taken; exact .clear here
  case h_20 here => obtain rfl := Option.some.inj taken; exact .erase here
  case h_21 here => exact .of_acquireLog (here ▸ .committed) taken
  case h_22 here => obtain rfl := Option.some.inj taken; exact .uncommit here
  case h_23 here => exact .of_wakeup (here ▸ .committed) taken
  case h_24 here => obtain rfl := Option.some.inj taken; exact .release (here ▸ .committed)

/-- Every step of the system is one of the listed ones. -/
theorem Step.of_step {size : Nat} {state after : State Process}
    {action : Action Process} (taken : state.step size action = some after) :
    Step state after := by
  cases action with
  | beginOp process =>
      simp only [State.step, Option.ite_none_right_eq_some, Option.some.injEq] at taken
      obtain ⟨here, rfl⟩ := taken
      exact .call (.beginOp here)
  | logWrite process blockno =>
      simp only [State.step, Option.ite_none_right_eq_some] at taken
      obtain ⟨here, taken⟩ := taken
      split at taken
      · next big => obtain rfl := Option.some.inj taken; exact .call (.tooBig size here big)
      · split at taken <;> obtain rfl := Option.some.inj taken
        · next none => exact .call (.outsideTrans here none)
        · exact .call (.logWrite blockno here)
  | endOp process =>
      simp only [State.step, Option.ite_none_right_eq_some, Option.some.injEq] at taken
      obtain ⟨here, rfl⟩ := taken
      exact .call (.endOp here)
  | move process => exact .move (.of_move taken)
  | kill process =>
      simp only [State.step, Option.ite_none_right_eq_some, Option.some.injEq] at taken
      obtain ⟨here, rfl⟩ := taken
      exact .call (.kill here)

end Coursework.LogSystem
