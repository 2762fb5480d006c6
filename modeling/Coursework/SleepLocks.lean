import Coursework.MonitorWakeups

/-!
# Sleep locks

`acquiresleep` and `releasesleep` of `sleeplock.c` for any number of processes on
one sleeplock.  Its spinlock is the lock of the monitor, `ptable.lock` that of the
table, and the sleeplock itself is the only channel.  A process calls `releasesleep`
only where it holds the sleeplock.

A process holds the sleeplock from where `acquiresleep` sets `locked` to where
`releasesleep` clears it.  It is the only one there, and a process that sleeps on
the lock waits for it to be cleared.
-/

namespace Coursework.SleepLocks

open Monitor

/-- `struct sleeplock` without its spinlock and its name. -/
structure Sleeplock where
  locked : Bool
  pid : Int
  deriving DecidableEq

/-- A place in a process that uses the lock. -/
inductive Place
  | idle
  /-- the test of the loop of `acquiresleep` -/
  | acquiresleep
  /-- `locked` and `pid` are set -/
  | acquired
  /-- `acquiresleep` has returned -/
  | holding
  | releasesleep
  /-- `locked` and `pid` are cleared -/
  | released
  /-- after the call of `wakeup` -/
  | woken
  deriving DecidableEq

variable {Pid : Type}

/-- `acquiresleep` and `releasesleep`.  Nothing is executed outside of them. -/
def code (pidOf : Pid → Int) (process : Pid) (lk : Sleeplock) :
    Place → Command Sleeplock Place Unit
  | .acquiresleep =>
      if lk.locked = true then .sleep () .acquiresleep
      else .update { locked := true, pid := pidOf process } .acquired
  | .acquired => .release .holding
  | .releasesleep => .update { locked := false, pid := 0 } .released
  | .released => .wakeup () .woken
  | .woken => .release .idle
  | .idle => .release .idle
  | .holding => .release .holding

def calls : Place → Place → Bool
  | .idle, .acquiresleep => true
  | .holding, .releasesleep => true
  | _, _ => false

def system (pidOf : Pid → Int) : System Pid Sleeplock Place Unit Empty where
  code := code pidOf
  calls := calls
  event := Empty.rec

/-- The state of the processes and a sleeplock. -/
abbrev State (Pid : Type) : Type := Monitor.State Pid Sleeplock Place Unit

/-- After `initsleeplock`. -/
structure IsInitial (state : State Pid) : Prop where
  locked : state.shared.locked = false
  idle : ∀ process, state.thread process = .outside .idle
  lk : state.lock = none
  ptable : state.table = .free

/-! ## Exclusion -/

/-- The process at a place holds the sleeplock. -/
def Place.Holds : Place → Prop
  | .acquired | .holding | .releasesleep => True
  | _ => False

/-- At most one process holds the sleeplock, and `pid` is its number. -/
def Exclusive (pidOf : Pid → Int) (lk : Sleeplock) (place : Pid → Place) : Prop :=
  ∀ process, (place process).Holds → lk = { locked := true, pid := pidOf process } ∧
    ∀ other, (place other).Holds → other = process

variable {pidOf : Pid → Int} {lk : Sleeplock} {place : Pid → Place}

theorem Exclusive.nobody (exclusive : Exclusive pidOf lk place) (free : lk.locked = false)
    (process : Pid) : ¬ (place process).Holds := by
  intro holds
  rw [(exclusive process holds).1] at free
  cases free

theorem IsInitial.exclusive {state : State Pid} (isInitial : IsInitial state) :
    Exclusive pidOf state.shared state.place := by
  intro process holds
  rw [Monitor.State.place, isInitial.idle] at holds
  exact holds.elim

/-! ## Waiting -/

/-- A process that sleeps on the lock waits for it to be released, which owes the
sleepers a wakeup. -/
def discipline (pidOf : Pid → Int) : Discipline (system pidOf) where
  waits _ lk := lk.locked = true
  asserts _ _ := True
  owes place _ := place = .released
  called _ _ := trivial
  updated := by
    intro process lk place after next isCode _
    refine ⟨trivial, fun _ waits => ?_⟩
    cases place with
    | acquiresleep =>
        simp only [system, code] at isCode
        split at isCode
        · cases isCode
        · cases isCode
          exact .inl rfl
    | releasesleep =>
        cases isCode
        exact .inr rfl
    | _ => cases isCode
  woken := by
    intro process lk place channel next isCode _
    exact ⟨trivial, fun _ _ => .inl rfl⟩
  slept := by
    intro process lk place channel next isCode _
    cases place with
    | acquiresleep =>
        simp only [system, code] at isCode
        split at isCode
        · next isLocked => exact ⟨isLocked, by simp, fun _ => trivial⟩
        · cases isCode
    | _ => cases isCode
  happened event := event.elim

theorem paysOff (state : State Pid) (action : Action Pid Place Empty) :
    state.PaysOff (discipline pidOf) action := by
  cases action with
  | advance process =>
      rintro place next - isCode channel rfl
      cases isCode
  | _ => trivial

theorem IsInitial.inv {state : State Pid} (isInitial : IsInitial state) :
    Inv (discipline pidOf) state := by
  constructor
  · intro process
    simp [isInitial.lk, isInitial.idle, Thread.HoldsLock]
  · intro process
    simp [isInitial.ptable, isInitial.idle, Thread.HoldsTable]
  · intro process
    rw [isInitial.idle]
    trivial
  · intro process channel sleeps
    rw [isInitial.idle] at sleeps
    exact sleeps.elim

/-! ## Runs -/

section Steps

variable [DecidableEq Pid]

namespace Exclusive

/-- A process moves on that holds the sleeplock before if it does afterwards. -/
theorem move (exclusive : Exclusive pidOf lk place) {process : Pid} {next : Place}
    (held : next.Holds → (place process).Holds) :
    Exclusive pidOf lk (Function.update place process next) := by
  have fewer : ∀ other, (Function.update place process next other).Holds →
      (place other).Holds := by
    intro other holds
    obtain rfl | distinct := eq_or_ne other process
    · rw [Function.update_self] at holds
      exact held holds
    · rwa [Function.update_of_ne distinct] at holds
  intro owner holds
  obtain ⟨isHeld, unique⟩ := exclusive owner (fewer owner holds)
  exact ⟨isHeld, fun other held => unique other (fewer other held)⟩

theorem acquire (exclusive : Exclusive pidOf lk place) (free : lk.locked = false)
    (process : Pid) :
    Exclusive pidOf { locked := true, pid := pidOf process }
      (Function.update place process .acquired) := by
  have only : ∀ other, (Function.update place process .acquired other).Holds →
      other = process := by
    intro other holds
    by_contra distinct
    rw [Function.update_of_ne distinct] at holds
    exact exclusive.nobody free other holds
  intro owner holds
  obtain rfl := only owner holds
  exact ⟨rfl, only⟩

theorem release (exclusive : Exclusive pidOf lk place) {process : Pid}
    (holds : (place process).Holds) (lk' : Sleeplock) :
    Exclusive pidOf lk' (Function.update place process .released) := by
  intro owner stillHolds
  obtain rfl | distinct := eq_or_ne owner process
  · rw [Function.update_self] at stillHolds
    exact stillHolds.elim
  · rw [Function.update_of_ne distinct] at stillHolds
    exact (distinct ((exclusive process holds).2 owner stillHolds)).elim

/-- A command of the code keeps the sleeplock exclusive. -/
theorem run (exclusive : Exclusive pidOf lk place) (process : Pid) :
    Exclusive pidOf ((code pidOf process lk (place process)).effect lk)
      (Function.update place process (code pidOf process lk (place process)).next) := by
  cases isPlace : place process with
  | acquiresleep =>
      rw [code]
      split
      · exact exclusive.move (by simp [Command.next, Place.Holds])
      · next free => exact exclusive.acquire (by simpa using free) process
  | releasesleep => exact exclusive.release (by rw [isPlace]; trivial) _
  | acquired => exact exclusive.move fun _ => by rw [isPlace]; trivial
  | holding => exact exclusive.move fun _ => by rw [isPlace]; trivial
  | idle => exact exclusive.move False.elim
  | released => exact exclusive.move False.elim
  | woken => exact exclusive.move False.elim

theorem moves {state after : State Pid}
    (exclusive : Exclusive pidOf state.shared state.place)
    (moves : state.Moves (system pidOf) after) :
    Exclusive pidOf after.shared after.place := by
  cases moves with
  | stay shared places =>
      rw [shared, places]
      exact exclusive
  | call process entry isCalled shared places =>
      rw [shared, places]
      apply exclusive.move
      intro holds
      cases isPlace : state.place process <;> cases entry <;>
        simp_all [system, calls, Place.Holds]
  | run process shared places =>
      rw [shared, places]
      exact exclusive.run process
  | happen event shared places => cases event

end Exclusive

/-- In every run at most one process holds the sleeplock, `pid` is its number, and no
process sleeps on a lock that is not held while nobody is in its code. -/
theorem sleeplock_excludes (pidOf : Pid → Int) {state : State Pid}
    (run : Run (Monitor.State.step (system pidOf)) anyStep IsInitial state) :
    (∀ process, (state.place process).Holds →
        state.shared.locked = true ∧ state.shared.pid = pidOf process) ∧
      (∀ process other, (state.place process).Holds → (state.place other).Holds →
        process = other) ∧
      (state.lock = none → state.table = .free → state.shared.locked = false →
        ∀ process channel place, state.thread process ≠ .asleep channel place) := by
  have exclusive : Exclusive pidOf state.shared state.place := by
    refine run.invariant (fun _ isInitial => isInitial.exclusive) ?_
    intro before action after exclusive _ taken
    exact exclusive.moves (Monitor.State.step_moves taken)
  have inv : Inv (discipline pidOf) state :=
    Inv.run (fun _ isInitial => isInitial.inv) (fun state action _ _ => paysOff state action) run
  refine ⟨?_, ?_, ?_⟩
  · intro process holds
    rw [(exclusive process holds).1]
    exact ⟨rfl, rfl⟩
  · intro process other holds otherHolds
    exact (exclusive other otherHolds).2 process holds
  · intro free _ unlocked process channel place isAsleep
    have waits : state.shared.locked = true :=
      inv.waits_of_free free (by rw [isAsleep]; rfl : (state.thread process).On channel)
    rw [unlocked] at waits
    cases waits

/-- The process `true` sleeps on the lock that `false` holds, and is woken when it is
released. -/
def handsOver : List (Action Bool Place Empty) :=
  [.call false .acquiresleep, .advance false, .advance false, .advance false,
    .call true .acquiresleep, .advance true, .advance true, .advance true, .advance true, .give,
    .call false .releasesleep, .advance false, .advance false, .advance false, .advance false,
    .advance false]

def handsOverFirst : State Bool where
  shared := { locked := false, pid := 0 }
  thread := fun _ => .outside .idle
  lock := none
  table := .free

theorem handsOver_enabled :
    (execute (Monitor.State.step (system fun _ => 7)) (fun _ _ => true) handsOverFirst
      handsOver).isSome = true := by
  decide +kernel

theorem sleeplock_excludes_handsOver :
    let last := lastState (Monitor.State.step (system fun _ => 7)) (fun _ _ => true)
      handsOverFirst handsOver handsOver_enabled
    last.thread true = .runnable .acquiresleep ∧
      ∀ process channel place, last.thread process ≠ .asleep channel place := by
  have isInitial : IsInitial handsOverFirst := ⟨rfl, fun _ => rfl, rfl, rfl⟩
  have run := run_lastState isInitial handsOver handsOver_enabled
  have waits := (sleeplock_excludes (fun _ => 7) (run.mono fun _ _ _ => trivial)).2.2
  refine ⟨by decide +kernel, waits (by decide +kernel) (by decide +kernel) (by decide +kernel)⟩

end Steps

end Coursework.SleepLocks
