import Coursework.MonitorWakeups
import Coursework.PipeTransfer

/-!
# Wakeups of a pipe

`pipewrite`, `piperead` and `pipeclose` of `pipe.c` for any number of processes on
one pipe, with `p->lock` as the lock of the monitor and `ptable.lock` as that of the
table.  Readers sleep on `&p->nread` and writers on `&p->nwrite`.

A reader sleeps while the pipe is empty and its write end is open, a writer while
the pipe is full and its read end is open.  Each routine wakes the other side after
it has changed this, but `pipewrite` leaves a full pipe without a wakeup if the read
end is closed or the writer has been killed, and may have stored bytes since it woke
the readers.  While nobody sleeps as a reader when that happens, no wakeup is lost.
-/

namespace Coursework.Pipes

/-- `&p->nread` and `&p->nwrite`. -/
inductive Channel
  | nread
  | nwrite
  deriving DecidableEq

/-- `p->nwrite == p->nread + PIPESIZE` -/
def Pipe.Full (pipe : Pipe) : Prop := pipe.nwrite = (pipe.nread + PIPESIZE) % UINT

/-- `p->nread == p->nwrite` -/
def Pipe.Empty (pipe : Pipe) : Prop := pipe.nread = pipe.nwrite

instance (pipe : Pipe) : Decidable pipe.Full := inferInstanceAs (Decidable (_ = _))

instance (pipe : Pipe) : Decidable pipe.Empty := inferInstanceAs (Decidable (_ = _))

/-- `p->nread++`. -/
def Pipe.take (pipe : Pipe) : Pipe := { pipe with nread := (pipe.nread + 1) % UINT }

/-- `p->writeopen = 0` or `p->readopen = 0`. -/
def Pipe.close (pipe : Pipe) (writable : Bool) : Pipe :=
  if writable = true then { pipe with writeopen := false } else { pipe with readopen := false }

/-- What the sleepers of a channel wait under. -/
def Pipe.Waits (pipe : Pipe) : Channel → Prop
  | .nread => pipe.Empty ∧ pipe.writeopen = true
  | .nwrite => pipe.Full ∧ pipe.readopen = true

theorem Pipe.not_full_of_empty {pipe : Pipe} (isEmpty : pipe.Empty) : ¬ pipe.Full := by
  simp only [Pipe.Empty, Pipe.Full, PIPESIZE, UINT] at *
  omega

end Coursework.Pipes

namespace Coursework.PipeWakeups

open Monitor
open Pipes (Byte Channel Pipe PIPESIZE)

/-- A place in a process that uses the pipe. -/
inductive Place
  /-- outside, with the value that the last call returned -/
  | idle (eax : Int)
  /-- the loop of `pipewrite`, with `i` bytes stored -/
  | writing (addr : List Byte) (i : Nat)
  /-- it has woken the readers of the full pipe -/
  | writeFull (addr : List Byte) (i : Nat)
  | written (n : Nat)
  /-- the first loop of `piperead` -/
  | reading (n : Nat)
  /-- the second loop of `piperead`, with the bytes that it has copied -/
  | copying (n : Nat) (bytes : List Byte)
  | copied (bytes : List Byte)
  | closing (writable : Bool)
  | closed (writable : Bool)
  | closeEnd
  deriving DecidableEq

/-- The pipe, and which processes have been killed. -/
structure Shared (Pid : Type) where
  pipe : Pipe
  killed : Pid → Bool

variable {Pid : Type}

/-- `pipewrite`, `piperead` and `pipeclose`.  Nothing is executed outside of them. -/
def code (pid : Pid) (shared : Shared Pid) : Place → Command (Shared Pid) Place Channel
  | .writing addr i =>
      match addr[i]? with
      | none => .wakeup .nread (.written addr.length)
      | some byte =>
          if shared.pipe.Full then
            if shared.pipe.readopen = false ∨ shared.killed pid = true then .release (.idle (-1))
            else .wakeup .nread (.writeFull addr i)
          else .update { shared with pipe := shared.pipe.put byte } (.writing addr (i + 1))
  | .writeFull addr i => .sleep .nwrite (.writing addr i)
  | .written n => .release (.idle n)
  | .reading n =>
      if shared.pipe.Empty ∧ shared.pipe.writeopen = true then
        if shared.killed pid = true then .release (.idle (-1)) else .sleep .nread (.reading n)
      else .update shared (.copying n [])
  | .copying n bytes =>
      if bytes.length < n ∧ ¬ shared.pipe.Empty then
        .update { shared with pipe := shared.pipe.take }
          (.copying n (bytes ++ [shared.pipe.data (shared.pipe.nread % PIPESIZE)]))
      else .wakeup .nwrite (.copied bytes)
  | .copied bytes => .release (.idle bytes.length)
  | .closing writable =>
      .update { shared with pipe := shared.pipe.close writable } (.closed writable)
  | .closed writable => .wakeup (if writable = true then .nread else .nwrite) .closeEnd
  | .closeEnd => .release (.idle 0)
  | .idle eax => .release (.idle eax)

def calls : Place → Place → Bool
  | .idle _, .writing _ i => i = 0
  | .idle _, .reading _ => true
  | .idle _, .closing _ => true
  | _, _ => false

section System

variable [DecidableEq Pid]

/-- An event is that a process is killed. -/
def system : System Pid (Shared Pid) Place Channel Pid where
  code := code
  calls := calls
  event pid shared := { shared with killed := Function.update shared.killed pid true }

end System

abbrev PipeState (Pid : Type) : Type := Monitor.State Pid (Shared Pid) Place Channel

/-- An open pipe that nobody uses yet. -/
structure IsOpened (state : PipeState Pid) : Prop where
  readopen : state.shared.pipe.readopen = true
  writeopen : state.shared.pipe.writeopen = true
  idle : ∀ pid, ∃ eax, state.thread pid = .outside (.idle eax)
  lock : state.lock = none
  ptable : state.table = .free

/-! ## Waiting -/

/-- The channels that code at a place owes a wakeup. -/
def Place.Owes : Place → Channel → Prop
  | .writing _ _, .nread => True
  | .copying _ _, .nwrite => True
  | .closed writable, .nread => writable = true
  | .closed writable, .nwrite => writable = false
  | _, _ => False

/-- A writer that has woken the readers is about to sleep. -/
def Place.Asserts (shared : Shared Pid) : Place → Prop
  | .writeFull _ _ => shared.pipe.Waits .nwrite
  | _ => True

section Discipline

variable {pid : Pid} {shared after : Shared Pid} {place next : Place}

theorem updated (isCode : code pid shared place = .update after next) :
    next.Asserts after ∧ ∀ channel, shared.pipe.Waits channel ∨ place.Owes channel →
      after.pipe.Waits channel ∨ next.Owes channel := by
  cases place with
  | writing addr i =>
      simp only [code] at isCode
      split at isCode
      · cases isCode
      · split at isCode
        · split at isCode <;> cases isCode
        · next room =>
            cases isCode
            refine ⟨trivial, fun channel due => ?_⟩
            cases channel with
            | nread => exact .inr trivial
            | nwrite => exact due.elim (fun waits => absurd waits.1 room) False.elim
  | reading n =>
      simp only [code] at isCode
      split at isCode
      · split at isCode <;> cases isCode
      · cases isCode
        refine ⟨trivial, fun channel due => ?_⟩
        exact due.elim .inl fun owes => by cases channel <;> exact owes.elim
  | copying n bytes =>
      simp only [code] at isCode
      split at isCode
      · next more =>
          cases isCode
          refine ⟨trivial, fun channel due => ?_⟩
          cases channel with
          | nread => exact due.elim (fun waits => absurd waits.1 more.2) False.elim
          | nwrite => exact .inr trivial
      · cases isCode
  | closing writable =>
      cases isCode
      refine ⟨trivial, fun channel due => ?_⟩
      cases writable <;> cases channel
      · exact due.elim .inl False.elim
      · exact .inr rfl
      · exact .inr rfl
      · exact due.elim .inl False.elim
  | _ => cases isCode

theorem woken {channel : Channel} (isCode : code pid shared place = .wakeup channel next) :
    next.Asserts shared ∧ ∀ other, place.Owes other → other = channel ∨ next.Owes other := by
  cases place with
  | writing addr i =>
      have pays : ∀ other, (Place.writing addr i).Owes other → other = .nread := by
        intro other owes
        cases other with
        | nread => rfl
        | nwrite => exact owes.elim
      simp only [code] at isCode
      split at isCode
      · cases isCode
        exact ⟨trivial, fun other owes => .inl (pays other owes)⟩
      · split at isCode
        · next full =>
            split at isCode
            · cases isCode
            · next goesOn =>
                cases isCode
                refine ⟨⟨full, ?_⟩, fun other owes => .inl (pays other owes)⟩
                simpa using (not_or.mp goesOn).1
        · cases isCode
  | copying n bytes =>
      simp only [code] at isCode
      split at isCode
      · cases isCode
      · cases isCode
        refine ⟨trivial, fun other owes => ?_⟩
        cases other with
        | nread => exact owes.elim
        | nwrite => exact .inl rfl
  | closed writable =>
      cases isCode
      refine ⟨trivial, fun other owes => ?_⟩
      cases other with
      | nread => exact .inl (if_pos owes).symm
      | nwrite => exact .inl (if_neg (by simp [show writable = false from owes])).symm
  | reading n =>
      simp only [code] at isCode
      split at isCode
      · split at isCode <;> cases isCode
      · cases isCode
  | _ => cases isCode

theorem slept {channel : Channel} (isCode : code pid shared place = .sleep channel next)
    (known : place.Asserts shared) :
    shared.pipe.Waits channel ∧ (∀ other, ¬ place.Owes other) ∧
      ∀ later : Shared Pid, next.Asserts later := by
  cases place with
  | writeFull addr i =>
      cases isCode
      refine ⟨known, fun other owes => ?_, fun _ => trivial⟩
      cases other <;> exact owes.elim
  | reading n =>
      simp only [code] at isCode
      split at isCode
      · next waits =>
          split at isCode
          · cases isCode
          · cases isCode
            refine ⟨waits, fun other owes => ?_, fun _ => trivial⟩
            cases other <;> exact owes.elim
      · cases isCode
  | writing addr i =>
      simp only [code] at isCode
      split at isCode
      · cases isCode
      · split at isCode
        · split at isCode <;> cases isCode
        · cases isCode
  | copying n bytes =>
      simp only [code] at isCode
      split at isCode <;> cases isCode
  | _ => cases isCode

def discipline [DecidableEq Pid] : Discipline (system : System Pid (Shared Pid) Place Channel Pid) where
  waits channel shared := shared.pipe.Waits channel
  asserts place shared := place.Asserts shared
  owes place channel := place.Owes channel
  called := by
    intro place entry isCalled shared
    cases entry with
    | writeFull addr i => cases place <;> cases isCalled
    | _ => trivial
  updated isCode _ := updated isCode
  woken isCode _ := woken isCode
  slept := slept
  happened event shared := by
    refine ⟨fun _ => id, fun place known => ?_⟩
    cases place with
    | writeFull addr i => exact known
    | _ => trivial

end Discipline

/-! ## Runs -/

/-- A process sleeps on a channel. -/
def Asleep (state : PipeState Pid) (pid : Pid) (channel : Channel) : Prop :=
  ∃ place, state.thread pid = .asleep channel place

/-- The step in which a writer leaves a full pipe, because the read end is closed or it
has been killed. -/
def GivesUp (state : PipeState Pid) (action : Action Pid Place Pid) : Prop :=
  ∃ pid addr i, action = .advance pid ∧ state.thread pid = .inside (.writing addr i) ∧
    i < addr.length ∧ state.shared.pipe.Full ∧
    (state.shared.pipe.readopen = false ∨ state.shared.killed pid = true)

/-- Nobody sleeps as a reader, or is about to, when a writer leaves a full pipe. -/
def LeavesNoReader (state : PipeState Pid) (action : Action Pid Place Pid) : Prop :=
  GivesUp state action → ∀ other, ¬ (state.thread other).On .nread

variable [DecidableEq Pid] {state : PipeState Pid}

theorem IsOpened.inv (isOpened : IsOpened state) : Inv discipline state := by
  have idle : ∀ pid, ∃ eax, state.thread pid = .outside (.idle eax) := isOpened.idle
  constructor
  · intro pid
    obtain ⟨eax, isIdle⟩ := idle pid
    simp [isOpened.lock, isIdle, Thread.HoldsLock]
  · intro pid
    obtain ⟨eax, isIdle⟩ := idle pid
    simp [isOpened.ptable, isIdle, Thread.HoldsTable]
  · intro pid
    obtain ⟨eax, isIdle⟩ := idle pid
    rw [isIdle]
    trivial
  · intro pid channel sleeps
    obtain ⟨eax, isIdle⟩ := idle pid
    rw [isIdle] at sleeps
    exact sleeps.elim

/-- `pipewrite` of a full pipe is the only code that lets go of the lock while it owes a
wakeup. -/
theorem paysOff {action : Action Pid Place Pid} (leaves : LeavesNoReader state action) :
    state.PaysOff discipline action := by
  cases action with
  | advance pid =>
      intro place next isThread isCode channel owes other sleeps
      cases place with
      | writing addr i =>
          cases channel with
          | nwrite => exact owes.elim
          | nread =>
              change code pid state.shared (.writing addr i) = .release next at isCode
              simp only [code] at isCode
              split at isCode
              · cases isCode
              · next byte isByte =>
                  split at isCode
                  · next full =>
                      split at isCode
                      · next stops =>
                          have inside : i < addr.length :=
                            (List.getElem?_eq_some_iff.mp isByte).1
                          exact (leaves ⟨pid, addr, i, rfl, isThread, inside, full, stops⟩
                            other sleeps).elim
                      · cases isCode
                  · cases isCode
      | copying n bytes =>
          change code pid state.shared (.copying n bytes) = .release next at isCode
          simp only [code] at isCode
          split at isCode <;> cases isCode
      | closed writable => cases isCode
      | _ => cases channel <;> exact owes.elim
  | _ => trivial

theorem run_spec (run : Run (Monitor.State.step system) LeavesNoReader IsOpened state) :
    Inv discipline state ∧ ∀ pid other,
      (state.thread pid).On .nread → ¬ (state.thread other).On .nwrite := by
  induction run with
  | start isOpened =>
      refine ⟨isOpened.inv, fun pid other sleeps => ?_⟩
      obtain ⟨eax, isIdle⟩ := isOpened.idle pid
      rw [isIdle] at sleeps
      exact sleeps.elim
  | next action _ leaves taken ih =>
      obtain ⟨inv, apart⟩ := ih
      refine ⟨inv.step (paysOff leaves) taken, ?_⟩
      exact inv.apart (by decide) (fun _ empty full => Pipe.not_full_of_empty empty.1 full.1)
        apart taken

/-- In every run in which no writer leaves a full pipe over the head of a sleeping reader:
while `p->lock` is free, readers sleep only on an empty pipe with an open write end and
writers only on a full pipe with an open read end, and never do both. -/
theorem no_lost_pipe_wakeups
    (run : Run (Monitor.State.step system) LeavesNoReader IsOpened state) :
    (state.lock = none → ∀ pid, Asleep state pid .nread →
        state.shared.pipe.Empty ∧ state.shared.pipe.writeopen = true) ∧
      (state.lock = none → ∀ pid, Asleep state pid .nwrite →
        state.shared.pipe.Full ∧ state.shared.pipe.readopen = true) ∧
      ∀ reader writer, Asleep state reader .nread → ¬ Asleep state writer .nwrite := by
  obtain ⟨inv, apart⟩ := run_spec run
  have on : ∀ {pid channel}, Asleep state pid channel → (state.thread pid).On channel := by
    rintro pid channel ⟨place, isAsleep⟩
    rw [isAsleep]
    rfl
  refine ⟨?_, ?_, ?_⟩
  · intro free pid sleeps
    exact inv.waits_of_free free (on sleeps)
  · intro free pid sleeps
    exact inv.waits_of_free free (on sleeps)
  · intro reader writer sleeps alsoSleeps
    exact apart reader writer (on sleeps) (on alsoSleeps)

/-! ## Examples -/

/-- The process `false` reads from the new pipe and goes to sleep. -/
def readerSleeps : List (Action Bool Place Bool) :=
  [.call false (.reading 1), .advance false, .advance false, .advance false, .advance false,
    .give]

def newPipe : PipeState Bool where
  shared :=
    { pipe := { data := fun _ => 0, nread := 0, nwrite := 0, readopen := true, writeopen := true }
      killed := fun _ => false }
  thread := fun _ => .outside (.idle 0)
  lock := none
  table := .free

theorem newPipe_opened : IsOpened newPipe := ⟨rfl, rfl, fun _ => ⟨0, rfl⟩, rfl, rfl⟩

/-- A test for a writer at the loop of `pipewrite`. -/
def writes : Thread Place Channel → Bool
  | .inside (.writing _ _) => true
  | _ => false

/-- A step that no writer takes. -/
def noWriter (state : PipeState Bool) : Action Bool Place Bool → Bool
  | .advance pid => !writes (state.thread pid)
  | _ => true

theorem leavesNoReader_of_noWriter (state : PipeState Bool) (action : Action Bool Place Bool)
    (tested : noWriter state action = true) : LeavesNoReader state action := by
  rintro ⟨pid, addr, i, rfl, isThread, -⟩
  rw [noWriter, isThread] at tested
  cases tested

theorem readerSleeps_enabled :
    (execute (Monitor.State.step system) noWriter newPipe readerSleeps).isSome = true := by
  decide +kernel

def sleepingReader : PipeState Bool :=
  lastState (Monitor.State.step system) noWriter newPipe readerSleeps readerSleeps_enabled

theorem no_lost_pipe_wakeups_reader :
    Asleep sleepingReader false .nread ∧ sleepingReader.shared.pipe.Empty ∧
      sleepingReader.shared.pipe.writeopen = true := by
  have run := run_lastState newPipe_opened readerSleeps readerSleeps_enabled
  have waits := (no_lost_pipe_wakeups (run.mono leavesNoReader_of_noWriter)).1
  have sleeps : Asleep sleepingReader false .nread := ⟨.reading 1, by decide +kernel⟩
  exact ⟨sleeps, waits (by decide +kernel) false sleeps⟩

/-- The reader sleeps, and a writer of more than `PIPESIZE` bytes that has been killed has
stored some of them. -/
structure Filling (addr : List Byte) (i : Nat) (state : PipeState Bool) : Prop where
  reader : state.thread false = .asleep .nread (.reading 1)
  writer : state.thread true = .inside (.writing addr i)
  killed : state.shared.killed true = true
  nread : state.shared.pipe.nread = 0
  nwrite : state.shared.pipe.nwrite = i

theorem Filling.next {addr : List Byte} {i : Nat} {state : PipeState Bool}
    (filling : Filling addr i state) (room : i < PIPESIZE) (more : i < addr.length) :
    ∃ after, state.step system (.advance true) = some after ∧ Filling addr (i + 1) after := by
  have isByte : addr[i]? = some addr[i] := List.getElem?_eq_getElem more
  have small : i + 1 < UINT := by
    simp only [PIPESIZE, UINT] at *
    omega
  have notFull : ¬ state.shared.pipe.Full := by
    rw [Pipe.Full, filling.nread, filling.nwrite]
    simp only [PIPESIZE, UINT] at *
    omega
  have isCode : code true state.shared (.writing addr i) = .update
      { state.shared with pipe := state.shared.pipe.put addr[i] } (.writing addr (i + 1)) := by
    simp only [code, isByte, if_neg notFull]
  refine ⟨{ state.setThread true (.inside (.writing addr (i + 1))) with
    shared := { state.shared with pipe := state.shared.pipe.put addr[i] } }, ?_, ?_⟩
  · simp only [Monitor.State.step, Monitor.State.advance, filling.writer, system, isCode]
  · constructor
    · simpa [Monitor.State.setThread] using filling.reader
    · simp [Monitor.State.setThread]
    · exact filling.killed
    · exact filling.nread
    · simp [Pipe.put, filling.nwrite, Nat.mod_eq_of_lt small]

theorem Filling.reaches {addr : List Byte} (long : PIPESIZE < addr.length)
    {state : PipeState Bool} (filling : Filling addr 0 state)
    (run : Run (Monitor.State.step system) anyStep IsOpened state) (i : Nat)
    (within : i ≤ PIPESIZE) :
    ∃ full, Run (Monitor.State.step system) anyStep IsOpened full ∧ Filling addr i full := by
  induction i with
  | zero => exact ⟨state, run, filling⟩
  | succ i ih =>
      obtain ⟨before, reached, partly⟩ := ih (by omega)
      obtain ⟨after, taken, further⟩ := partly.next (by omega) (by omega)
      exact ⟨after, reached.next (.advance true) trivial taken, further⟩

/-- The process `true` is killed, and calls `pipewrite` while the reader sleeps. -/
def killedWrites : List (Action Bool Place Bool) :=
  readerSleeps ++ [.take, .event true, .give,
    .call true (.writing (List.replicate 513 1) 0), .advance true]

theorem killedWrites_enabled :
    (execute (Monitor.State.step system) (fun _ _ => true) newPipe killedWrites).isSome =
      true := by
  decide +kernel

/-- The writer leaves the full pipe and the reader sleeps on. -/
theorem sleeps_on_full_pipe :
    ∃ state : PipeState Bool, Run (Monitor.State.step system) anyStep IsOpened state ∧
      state.lock = none ∧ Asleep state false .nread ∧ ¬ state.shared.pipe.Empty := by
  have run := run_lastState newPipe_opened killedWrites killedWrites_enabled
  have filling : Filling (List.replicate 513 1) 0
      (lastState (Monitor.State.step system) (fun _ _ => true) newPipe killedWrites
        killedWrites_enabled) :=
    ⟨by decide +kernel, by decide +kernel, by decide +kernel, by decide +kernel,
      by decide +kernel⟩
  have long : PIPESIZE < (List.replicate 513 (1 : Byte)).length := by
    rw [List.length_replicate]
    decide
  obtain ⟨full, reached, isFull⟩ := filling.reaches long (run.mono fun _ _ _ => trivial)
    PIPESIZE (Nat.le_refl _)
  have isByte : (List.replicate 513 (1 : Byte))[PIPESIZE]? = some 1 := by
    rw [List.getElem?_replicate, if_pos (by decide)]
  have pipeFull : full.shared.pipe.Full := by
    rw [Pipe.Full, isFull.nread, isFull.nwrite]
    decide
  have isCode : code true full.shared (.writing (List.replicate 513 1) PIPESIZE) =
      .release (.idle (-1)) := by
    simp only [code, isByte, if_pos pipeFull, isFull.killed, or_true, if_true]
  refine ⟨{ full.setThread true (.outside (.idle (-1))) with lock := none },
    reached.next (.advance true) trivial ?_, ?_, ?_, ?_⟩
  · simp only [Monitor.State.step, Monitor.State.advance, isFull.writer, system, isCode]
  · rfl
  · exact ⟨.reading 1, by simpa [Monitor.State.setThread] using isFull.reader⟩
  · rintro isEmpty
    exact Pipe.not_full_of_empty isEmpty pipeFull

end Coursework.PipeWakeups
