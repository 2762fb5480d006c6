import Coursework.EntryUpdates
import Coursework.LogSystem
import Mathlib.Tactic.Linarith

/-!
# Locks, the count of operations and sleepers of the log

The holders of `log.lock` and `ptable.lock`, `log.outstanding` and
`log.committing` agree with where the processes are in the code: a commit runs
only while no operation does.  A process that sleeps in `begin_op` really has
to wait, or the holder of `log.lock` is about to wake it.
-/

namespace Coursework.LogSystem

variable {Process : Type*} [DecidableEq Process]

/-! ## Places kept by the simple moves -/

namespace Pc

@[simp] theorem holdsLog_wake (pc : Pc) : pc.wake.holdsLog = pc.holdsLog := by
  cases pc <;> rfl

@[simp] theorem holdsPtable_wake (pc : Pc) : pc.wake.holdsPtable = pc.holdsPtable := by
  cases pc <;> rfl

@[simp] theorem isInOp_wake (pc : Pc) : pc.wake.isInOp = pc.isInOp := by
  cases pc <;> rfl

@[simp] theorem isCommitting_wake (pc : Pc) : pc.wake.isCommitting = pc.isCommitting := by
  cases pc <;> rfl

@[simp] theorem isInstalling_wake (pc : Pc) : pc.wake.isInstalling = pc.isInstalling := by
  cases pc <;> rfl

@[simp] theorem wake_ne_sleeping (pc : Pc) : pc.wake ≠ .sleeping := by
  cases pc <;> simp [wake]

theorem wake_eq_iff {pc target : Pc} (notSleeping : target ≠ .sleeping)
    (notWoken : target ≠ .beginAcquire) : pc.wake = target ↔ pc = target := by
  cases pc <;> simp [wake, notSleeping.symm, notWoken.symm]

theorem holdsLog_of_willWake {pc : Pc} (wakes : pc.willWake = true) :
    pc.holdsLog = true := by
  cases pc <;> simp_all [willWake, holdsLog]

theorem isCommitting_of_isInstalling {pc : Pc} (installing : pc.isInstalling = true) :
    pc.isCommitting = true := by
  cases pc <;> simp_all [isInstalling, isCommitting]

end Pc

/-- Two places that the invariants below do not tell apart. -/
structure SamePlace (old new : Pc) : Prop where
  holdsLog : new.holdsLog = old.holdsLog
  holdsPtable : new.holdsPtable = old.holdsPtable
  isInOp : new.isInOp = old.isInOp
  isCommitting : new.isCommitting = old.isCommitting
  isInstalling : new.isInstalling = old.isInstalling

omit [DecidableEq Process] in
theorem Control.samePlace {state : State Process} {process : Process} {pc : Pc}
    (control : Control state process pc) : SamePlace (state.pc process) pc := by
  cases control <;> constructor <;> simp_all [Pc.holdsLog, Pc.holdsPtable, Pc.isInOp,
    Pc.isCommitting, Pc.isInstalling]

omit [DecidableEq Process] in
theorem Call.samePlace {state : State Process} {process : Process} {pc : Pc}
    (call : Call state process pc) : SamePlace (state.pc process) pc := by
  cases call <;> constructor <;> simp_all [Pc.holdsLog, Pc.holdsPtable, Pc.isInOp,
    Pc.isCommitting, Pc.isInstalling]

/-! ## Locks, the count of operations and the commit flag -/

/-- The locks, `log.outstanding` and `log.committing` agree with the places of
the processes, and a commit runs only while no operation does. -/
structure Discipline [Fintype Process] (state : State Process) : Prop where
  log : Tracks state.lock Pc.holdsLog state.pc
  ptable : Tracks state.ptable Pc.holdsPtable state.pc
  counted : state.outstanding = countWhere Pc.isInOp state.pc
  committer : ∃ holder, holder.isSome = state.committing ∧
    Tracks holder Pc.isCommitting state.pc
  idle : state.committing = true → state.outstanding = 0

namespace Discipline

variable [Fintype Process] {state : State Process}

omit [DecidableEq Process] in
theorem committing_of_place (discipline : Discipline state) {process : Process}
    (place : (state.pc process).isCommitting = true) : state.committing = true := by
  obtain ⟨holder, flag, tracks⟩ := discipline.committer
  rw [← flag, (tracks process).mpr place]
  rfl

omit [DecidableEq Process] in
theorem committer_unique (discipline : Discipline state) {first second : Process}
    (firstCommits : (state.pc first).isCommitting = true)
    (secondCommits : (state.pc second).isCommitting = true) : first = second := by
  obtain ⟨holder, _, tracks⟩ := discipline.committer
  exact tracks.unique firstCommits secondCommits

omit [DecidableEq Process] in
theorem outstanding_pos (discipline : Discipline state) {process : Process}
    (inside : (state.pc process).isInOp = true) : 0 < state.outstanding := by
  have counted := discipline.counted
  have positive := countWhere_pos process inside
  omega

omit [DecidableEq Process] in
/-- While a commit runs no process is inside an operation. -/
theorem not_inOp (discipline : Discipline state) (committing : state.committing = true)
    (process : Process) : (state.pc process).isInOp = false := by
  cases inside : (state.pc process).isInOp with
  | false => rfl
  | true =>
      have positive := discipline.outstanding_pos inside
      have zero := discipline.idle committing
      omega

theorem counted_update (discipline : Discipline state) (process : Process) (pc : Pc) :
    (countWhere Pc.isInOp (Function.update state.pc process pc) : Int) =
      state.outstanding + pc.isInOp.toNat - (state.pc process).isInOp.toNat := by
  have exchange := countWhere_update Pc.isInOp state.pc process pc
  rw [discipline.counted]
  omega

theorem counted_same (discipline : Discipline state) {process : Process} {pc : Pc}
    (same : pc.isInOp = (state.pc process).isInOp) :
    state.outstanding = countWhere Pc.isInOp (Function.update state.pc process pc) := by
  have exchange := discipline.counted_update process pc
  rw [same] at exchange
  omega

/-- A process changes its place without any effect on the shared fields. -/
theorem goto (discipline : Discipline state) {process : Process} {pc : Pc}
    (same : SamePlace (state.pc process) pc) :
    Discipline (state.goto process pc) where
  log := discipline.log.keep same.holdsLog
  ptable := discipline.ptable.keep same.holdsPtable
  counted := discipline.counted_same same.isInOp
  committer := by
    obtain ⟨holder, flag, tracks⟩ := discipline.committer
    exact ⟨holder, flag, tracks.keep same.isCommitting⟩
  idle := discipline.idle

omit [DecidableEq Process] in
theorem wakeAll (discipline : Discipline state) :
    Discipline { state with pc := fun other => (state.pc other).wake } where
  log := discipline.log.congr fun _ => by simp
  ptable := discipline.ptable.congr fun _ => by simp
  counted := discipline.counted.trans (by
    exact congrArg Nat.cast (countWhere_congr fun _ => by simp))
  committer := by
    obtain ⟨holder, flag, tracks⟩ := discipline.committer
    exact ⟨holder, flag, tracks.congr fun _ => by simp⟩
  idle := discipline.idle

omit [DecidableEq Process] in
/-- `panic("log.committing")` is not reached from a disciplined state. -/
theorem not_committing_of_endHeld (discipline : Discipline state) {process : Process}
    (here : state.pc process = .endHeld) : state.committing = false := by
  cases committing : state.committing with
  | false => rfl
  | true =>
      have outside := discipline.not_inOp committing process
      rw [here] at outside
      cases outside

/-- The state left by the first statements of `end_op`. -/
theorem counted_after_end (discipline : Discipline state) {process : Process} {pc : Pc}
    (here : state.pc process = .endHeld) (left : pc.isInOp = false) :
    state.outstanding - 1 =
      countWhere Pc.isInOp (Function.update state.pc process pc) := by
  have exchange := discipline.counted_update process pc
  rw [here, left] at exchange
  simpa [Pc.isInOp] using exchange.symm

/-- One move keeps the locks, the count and the commit flag in agreement. -/
theorem move (discipline : Discipline state) {after : State Process}
    (move : Move state after) : Discipline after := by
  obtain ⟨holder, flag, tracks⟩ := discipline.committer
  cases move with
  | control control => exact discipline.goto control.samePlace
  | @acquire process pc free edge =>
      have log := discipline.log
      rw [free] at log
      generalize here : state.pc process = old at edge
      have same : pc.holdsPtable = (state.pc process).holdsPtable ∧
          pc.isInOp = (state.pc process).isInOp ∧
          pc.isCommitting = (state.pc process).isCommitting ∧ pc.holdsLog = true := by
        rw [here]
        cases edge <;> exact ⟨rfl, rfl, rfl, rfl⟩
      exact ⟨log.take same.2.2.2, discipline.ptable.keep same.1,
        discipline.counted_same same.2.1,
        ⟨holder, flag, tracks.keep same.2.2.1⟩, discipline.idle⟩
  | @release process pc edge =>
      generalize here : state.pc process = old at edge
      have same : pc.holdsPtable = (state.pc process).holdsPtable ∧
          pc.isInOp = (state.pc process).isInOp ∧
          pc.isCommitting = (state.pc process).isCommitting ∧
          (state.pc process).holdsLog = true ∧ pc.holdsLog = false := by
        rw [here]
        cases edge <;> exact ⟨rfl, rfl, rfl, rfl, rfl⟩
      exact ⟨discipline.log.give same.2.2.2.1 same.2.2.2.2,
        discipline.ptable.keep same.1, discipline.counted_same same.2.1,
        ⟨holder, flag, tracks.keep same.2.2.1⟩, discipline.idle⟩
  | @wakeup process pc free edge =>
      apply discipline.wakeAll.goto
      generalize here : state.pc process = old at edge
      change SamePlace (state.pc process).wake pc
      rw [here]
      cases edge <;> exact ⟨rfl, rfl, rfl, rfl, rfl⟩
  | @enterOp process here admitted =>
      have exchange := discipline.counted_update process .inOp
      have notCommitting : state.committing ≠ true := fun committing =>
        admitted (Or.inl committing)
      refine ⟨discipline.log.give (by rw [here]; rfl) rfl,
        discipline.ptable.keep (by rw [here]; rfl), ?_,
        ⟨holder, flag, tracks.keep (by rw [here]; rfl)⟩,
        fun committing => (notCommitting committing).elim⟩
      change state.outstanding + 1 =
        countWhere Pc.isInOp (Function.update state.pc process .inOp)
      rw [exchange, here]
      simp [Pc.isInOp]
  | @sleep process here free =>
      have ptable := discipline.ptable
      rw [free] at ptable
      exact ⟨discipline.log.give (by rw [here]; rfl) rfl, ptable.take rfl, discipline.counted_same (by rw [here]; rfl),
        ⟨holder, flag, tracks.keep (by rw [here]; rfl)⟩, discipline.idle⟩
  | @asleep process here =>
      exact ⟨discipline.log.keep (by rw [here]; rfl),
        discipline.ptable.give (by rw [here]; rfl) rfl, discipline.counted_same (by rw [here]; rfl),
        ⟨holder, flag, tracks.keep (by rw [here]; rfl)⟩, discipline.idle⟩
  | @record process blockno here =>
      exact ⟨discipline.log.give (by rw [here]; rfl) rfl,
        discipline.ptable.keep (by rw [here]; rfl), discipline.counted_same (by rw [here]; rfl),
        ⟨holder, flag, tracks.keep (by rw [here]; rfl)⟩, discipline.idle⟩
  | endPanic here committing =>
      rw [discipline.not_committing_of_endHeld here] at committing
      cases committing
  | @endLast process here notCommitting last =>
      -- no commit is running, so this process becomes the committer
      have unowned : holder = none := by
        rw [notCommitting] at flag
        simpa using flag
      subst unowned
      exact ⟨discipline.log.keep (by rw [here]; rfl),
        discipline.ptable.keep (by rw [here]; rfl),
        discipline.counted_after_end here rfl,
        ⟨some process, rfl, tracks.take rfl⟩, fun _ => last⟩
  | @endOther process here notCommitting others =>
      refine ⟨discipline.log.keep (by rw [here]; rfl),
        discipline.ptable.keep (by rw [here]; rfl),
        discipline.counted_after_end here rfl,
        ⟨holder, flag, tracks.keep (by rw [here]; rfl)⟩, fun committing => ?_⟩
      change state.committing = true at committing
      rw [notCommitting] at committing
      cases committing
  | @commitEmpty process here _ =>
      have moved : Discipline (state.goto process .commitAcquire) :=
        discipline.goto (by rw [here]; exact ⟨rfl, rfl, rfl, rfl, rfl⟩)
      exact ⟨moved.log, moved.ptable, moved.counted, moved.committer, moved.idle⟩
  | @commitHead process here =>
      exact ⟨discipline.log.keep (by rw [here]; rfl),
        discipline.ptable.keep (by rw [here]; rfl), discipline.counted_same (by rw [here]; rfl),
        ⟨holder, flag, tracks.keep (by rw [here]; rfl)⟩, discipline.idle⟩
  | @clear process here =>
      exact ⟨discipline.log.keep (by rw [here]; rfl),
        discipline.ptable.keep (by rw [here]; rfl), discipline.counted_same (by rw [here]; rfl),
        ⟨holder, flag, tracks.keep (by rw [here]; rfl)⟩, discipline.idle⟩
  | @erase process here =>
      have moved : Discipline (state.goto process .commitAcquire) :=
        discipline.goto (by rw [here]; exact ⟨rfl, rfl, rfl, rfl, rfl⟩)
      exact ⟨moved.log, moved.ptable, moved.counted, moved.committer, moved.idle⟩
  | @uncommit process here =>
      exact ⟨discipline.log.keep (by rw [here]; rfl),
        discipline.ptable.keep (by rw [here]; rfl), discipline.counted_same (by rw [here]; rfl),
        ⟨none, rfl, tracks.give (by rw [here]; rfl) rfl⟩, fun committing => nomatch committing⟩

theorem step (discipline : Discipline state) {after : State Process}
    (step : Step state after) : Discipline after := by
  cases step with
  | call call => exact discipline.goto call.samePlace
  | move move => exact discipline.move move

end Discipline

/-! ## Sleepers really wait -/

/-- A process on its way to sleep, or asleep, has to wait, unless the holder of
`log.lock` has yet to call `wakeup`. -/
structure Waits (state : State Process) : Prop where
  entering : ∀ process, state.pc process = .sleepAcquire → state.MustWait
  asleep : ∀ process,
    state.pc process = .sleepSwitch ∨ state.pc process = .sleeping →
    state.MustWait ∨ ∃ waker, (state.pc waker).willWake = true

namespace Waits

variable {state : State Process}

/-- A move keeps the condition when it changes nothing a sleeper waits for,
does not start a sleep and does not skip a wakeup. -/
theorem goto (waits : Waits state) {after : State Process} {process : Process} {pc : Pc}
    (places : after.pc = Function.update state.pc process pc)
    (mono : state.MustWait → after.MustWait)
    (notEntering : pc = .sleepAcquire → after.MustWait)
    (notAsleep : pc ≠ .sleepSwitch ∧ pc ≠ .sleeping)
    (notWaker : (state.pc process).willWake = false) : Waits after := by
  refine ⟨fun other place => ?_, fun other place => ?_⟩
  · rw [places] at place
    by_cases here : other = process
    · subst here
      rw [Function.update_self] at place
      exact notEntering place
    · rw [Function.update_of_ne here] at place
      exact mono (waits.entering other place)
  · rw [places] at place
    by_cases here : other = process
    · subst here
      rw [Function.update_self] at place
      rcases place with place | place
      · exact (notAsleep.1 place).elim
      · exact (notAsleep.2 place).elim
    · rw [Function.update_of_ne here] at place
      rcases waits.asleep other place with must | ⟨waker, wakes⟩
      · exact Or.inl (mono must)
      · refine Or.inr ⟨waker, ?_⟩
        have elsewhere : waker ≠ process := by
          rintro rfl
          rw [notWaker] at wakes
          cases wakes
        rw [places, Function.update_of_ne elsewhere]
        exact wakes

/-- A move that leaves the mover with a call of `wakeup` to make, by the holder
of `log.lock`. -/
theorem toWaker {after : State Process} {process : Process} {pc : Pc}
    (log : Tracks state.lock Pc.holdsLog state.pc)
    (places : after.pc = Function.update state.pc process pc)
    (holder : (state.pc process).holdsLog = true) (wakes : pc.willWake = true) :
    Waits after := by
  refine ⟨fun other place => ?_, fun _ _ => Or.inr ⟨process, ?_⟩⟩
  · rw [places] at place
    have here : other ≠ process := by
      rintro rfl
      rw [Function.update_self] at place
      rw [place] at wakes
      cases wakes
    rw [Function.update_of_ne here] at place
    exact (here (log.unique (by rw [place]; rfl) holder)).elim
  · rw [places, Function.update_self]
    exact wakes

theorem length_le_absorb {blocks : List Nat} (blockno : Nat) :
    blocks.length ≤ (absorb blocks blockno).length := by
  unfold absorb
  split <;> simp

variable [Fintype Process]

/-- One move keeps every sleeper waiting. -/
theorem move (waits : Waits state) (discipline : Discipline state)
    {after : State Process} (move : Move state after) : Waits after := by
  cases move with
  | @control process pc control =>
      refine waits.goto rfl id (fun entering => ?_) ?_ ?_
      · cases control with
        | wait _ must => exact must
        | _ => cases entering
      · cases control <;> simp
      · cases control <;> simp_all [Pc.willWake]
  | @acquire process pc free edge =>
      generalize here : state.pc process = old at edge
      refine waits.goto rfl id (fun entering => ?_) ?_ ?_
      · cases edge <;> cases entering
      · cases edge <;> simp
      · cases edge <;> simp [here, Pc.willWake]
  | @release process pc edge =>
      generalize here : state.pc process = old at edge
      refine waits.goto rfl id (fun entering => ?_) ?_ ?_
      · cases edge <;> cases entering
      · cases edge <;> simp
      · cases edge <;> simp [here, Pc.willWake]
  | @wakeup process pc free edge =>
      generalize here : state.pc process = old at edge
      -- `ptable.lock` is free, so every sleeper is in the table and is woken
      have ptable := discipline.ptable
      rw [free] at ptable
      have placed : pc ≠ .sleepAcquire ∧ pc ≠ .sleepSwitch ∧ pc ≠ .sleeping := by
        cases edge <;> simp
      refine ⟨fun other place => ?_, fun other place => ?_⟩
      · by_cases same : other = process
        · subst same
          exact (placed.1 (by simpa [State.goto] using place)).elim
        · have woken : (state.pc other).wake = .sleepAcquire := by
            simpa [State.goto, Function.update_of_ne same] using place
          exact waits.entering other ((Pc.wake_eq_iff (by simp) (by simp)).mp woken)
      · by_cases same : other = process
        · subst same
          have := placed.2
          simp_all [State.goto]
        · have woken : (state.pc other).wake = .sleepSwitch ∨
              (state.pc other).wake = .sleeping := by
            simpa [State.goto, Function.update_of_ne same] using place
          rcases woken with switching | sleeping
          · have held := (Pc.wake_eq_iff (by simp) (by simp)).mp switching
            have unheld := ptable.free other
            rw [held] at unheld
            cases unheld
          · exact (Pc.wake_ne_sleeping _ sleeping).elim
  | @enterOp process here _ =>
      refine waits.goto rfl (fun must => ?_) (fun entering => nomatch entering)
        (by simp) (by rw [here]; rfl)
      rcases must with committing | full
      · exact Or.inl committing
      · refine Or.inr ?_
        change (LOGSIZE : Int) < state.lh.length +
          (state.outstanding + 1 + 1) * MAXOPBLOCKS
        simp only [MAXOPBLOCKS] at full ⊢
        omega
  | @sleep process here _ =>
      have must := waits.entering process here
      refine ⟨fun other place => ?_, fun _ _ => Or.inl must⟩
      by_cases same : other = process
      · subst same
        exact must
      · exact waits.entering other
          (by simpa [State.releaseLog, State.goto, Function.update_of_ne same] using place)
  | @asleep process here =>
      have must := waits.asleep process (Or.inl here)
      have wakers : ∀ waker, (state.pc waker).willWake = true →
          (Function.update state.pc process Pc.sleeping waker).willWake = true := by
        intro waker wakes
        by_cases same : waker = process
        · subst same
          rw [here] at wakes
          cases wakes
        · rwa [Function.update_of_ne same]
      refine ⟨fun other place => ?_, fun _ _ => ?_⟩
      · by_cases same : other = process
        · subst same
          simp [State.goto] at place
        · exact waits.entering other
            (by simpa [State.goto, Function.update_of_ne same] using place)
      · exact must.imp id fun ⟨waker, wakes⟩ => ⟨waker, wakers waker wakes⟩
  | @record process blockno here =>
      refine waits.goto rfl (fun must => ?_) (fun entering => nomatch entering)
        (by simp) (by rw [here]; rfl)
      have longer := @length_le_absorb state.lh blockno
      rcases must with committing | full
      · exact Or.inl committing
      · refine Or.inr ?_
        change (LOGSIZE : Int) < (absorb state.lh blockno).length +
          (state.outstanding + 1) * MAXOPBLOCKS
        omega
  | endPanic here committing =>
      rw [discipline.not_committing_of_endHeld here] at committing
      cases committing
  | @endLast process here _ _ =>
      exact waits.goto rfl (fun _ => Or.inl rfl) (fun _ => Or.inl rfl) (by simp)
        (by rw [here]; rfl)
  | @endOther process here _ _ =>
      exact toWaker discipline.log rfl (by rw [here]; rfl) rfl
  | @commitEmpty process here _ =>
      exact waits.goto rfl id (fun entering => nomatch entering) (by simp)
        (by rw [here]; rfl)
  | @commitHead process here =>
      exact waits.goto rfl id (fun entering => nomatch entering) (by simp)
        (by rw [here]; rfl)
  | @clear process here =>
      have committing : state.committing = true :=
        discipline.committing_of_place (by rw [here]; rfl)
      exact waits.goto rfl (fun _ => Or.inl committing) (fun entering => nomatch entering)
        (by simp) (by rw [here]; rfl)
  | @erase process here =>
      exact waits.goto rfl id (fun entering => nomatch entering) (by simp)
        (by rw [here]; rfl)
  | @uncommit process here =>
      exact toWaker discipline.log rfl (by rw [here]; rfl) rfl

theorem step (waits : Waits state) (discipline : Discipline state)
    {after : State Process} (step : Step state after) : Waits after := by
  cases step with
  | call call =>
      refine waits.goto rfl id (fun entering => ?_) ?_ ?_
      · cases call <;> cases entering
      · cases call <;> simp
      · cases call <;> simp_all [Pc.willWake]
  | move move => exact waits.move discipline move

end Waits

end Coursework.LogSystem
