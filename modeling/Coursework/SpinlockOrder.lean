import Coursework.SpinlockPaths
import Mathlib.Algebra.GroupWithZero.Nat

/-!
# The order of the kernel's spinlocks

The locks of devices, pipes, the log and sleep locks are taken before
`ptable.lock`, and `kmem.lock` after it.  Only the console breaks this order:
`consoleintr` and `consoleread` take `ptable.lock` under `cons.lock`, and `cps`
takes `cons.lock` under `ptable.lock`.  Two CPUs that do both at once wait for
each other for ever; if they never do, no cycle of CPUs does.
-/

namespace Coursework.Spinlocks

open LockMachine

/-- Which part of the kernel holds a lock: `ptable.lock` in `cps`, `cons.lock` in
the console's input, or any other hold. -/
inductive Site
  | listing
  | console
  | plain
  deriving DecidableEq, Repr

def site : KernelLock → List Routine → Site
  | .ptable, .cps :: _ => .listing
  | .cons, .consoleintr :: _ => .console
  | .cons, .consoleread _ :: _ => .console
  | .cons, .sleep :: .consoleread _ :: _ => .console
  | _, _ => .plain

/-- Which locks are taken under which. -/
def permits : KernelLock → Site → KernelLock → Bool
  | .ptable, .listing, .cons => true
  | .ptable, .plain, .kmem => true
  | .cons, .console, .ptable => true
  | .log, _, .ptable => true
  | .ide, _, .ptable => true
  | .ticks, _, .ptable => true
  | .pipe _, _, .ptable => true
  | .sleeplock _, _, .ptable => true
  | _, _, _ => false

def rules : Rules KernelLock Routine Site :=
  { site := site, switching := .plain, permits := permits }

theorem check_calls {routine : Routine} {body : Code} (isCall : calls routine = some body) :
    checkAll rules .ptable [routine] true body [] = some [] := by
  cases routine <;> simp only [calls, reduceCtorEq, Option.some.injEq] at isCall <;>
    subst isCall <;>
    simp [checkAll, Instr.check, rules, site, permits, sleep, wakeup, cprintf, kalloc, kfree,
      freevm, yield, exit, wait, kill, chpr, cps, allocproc, fork, procdump, acquiresleep,
      releasesleep, holdingsleep, consoleread, consolewrite, filealloc, filedup, fileclose,
      pipealloc, pipeclose, pipewrite, piperead, beginOp, logWrite, endOp, iderw, bget,
      brelse, iget, idup, iput, sysSleep, sysUptime]

theorem check_interrupts {inThread : Bool} {routine : Routine} {body : Code}
    (path : List Routine) (isInterrupt : interrupts inThread routine = some body) :
    checkAll rules .ptable (routine :: path) true body [] = some [] := by
  unfold interrupts at isInterrupt
  split at isInterrupt <;> cases isInterrupt <;>
    simp [checkAll, Instr.check, rules, site, permits, wakeup, cprintf, procdump, timer,
      ideintr, consoleintr, yield]

theorem kernel_checked : Checked rules kernel where
  scheduler := by decide
  newThread := by decide
  calls _ _ isCall := check_calls isCall
  interrupts _ _ _ path isInterrupt := check_interrupts path isInterrupt

/-! ## The console and the process listing -/

abbrev System (Cpu Thread : Type) := State KernelLock Routine Cpu Thread

variable {Cpu Thread : Type} [DecidableEq Cpu] [DecidableEq Thread]
  {state after : System Cpu Thread}

/-- A CPU holds `ptable.lock` in `cps`. -/
def Listing (state : System Cpu Thread) : Prop :=
  ∃ cpu calls, state.holder .ptable = some (cpu, calls) ∧ site .ptable calls = .listing

/-- A CPU holds `cons.lock` in `consoleintr` or `consoleread`. -/
def HoldsInput (state : System Cpu Thread) (cpu : Cpu) : Prop :=
  ∃ calls, state.holder .cons = some (cpu, calls) ∧ site .cons calls = .console

/-- The next instruction calls a function that begins with an acquire of
`ptable.lock`, as `wakeup` and `sleep` do. -/
def CallsTable (state : System Cpu Thread) (cpu : Cpu) : Prop :=
  ∃ routine callee body code callers,
    state.stack cpu = ⟨routine, .call callee (.acquire .ptable :: body) :: code⟩ :: callers

/-- No step calls `wakeup` or `sleep` under `cons.lock` of `consoleintr` or
`consoleread` while a CPU holds `ptable.lock` in `cps`, and no step takes
`ptable.lock` in `cps` while such a call waits for it. -/
def Apart (state : System Cpu Thread) (action : Action Routine Cpu Thread) : Prop :=
  ∀ cpu choice, action = .execute cpu choice →
    (HoldsInput state cpu → CallsTable state cpu → ¬Listing state) ∧
    (state.wants cpu = some .ptable → site .ptable (names (state.stack cpu)) = .listing →
      ∀ other, HoldsInput state other → state.wants other ≠ some .ptable)

/-- No CPU waits for `ptable.lock` under `cons.lock` while another one lists the
processes. -/
def Clear (state : System Cpu Thread) : Prop :=
  Listing state → ∀ cpu, HoldsInput state cpu → state.wants cpu ≠ some .ptable

/-- The other CPUs stay where they are, and what they hold of the console's input
they held before. -/
theorem step_others {action : Action Routine Cpu Thread} {first : Bool}
    (step : Step kernel state action first after) {other : Cpu}
    (different : other ≠ action.cpu) :
    after.wants other = state.wants other ∧
      (HoldsInput after other → HoldsInput state other) := by
  constructor
  · rw [State.wants, State.wants, step.stack_of_ne different]
  · rintro ⟨calls, isHolder, isConsole⟩
    rcases step.holder isHolder with before | ⟨choice, rfl, _⟩
    · exact ⟨calls, before, isConsole⟩
    · exact absurd rfl different

/-- A CPU starts to list the processes only where `cps` takes `ptable.lock`. -/
theorem step_lists {action : Action Routine Cpu Thread} {first : Bool}
    (step : Step kernel state action first after) (lists : Listing after)
    (before : ¬Listing state) :
    ∃ cpu choice, action = .execute cpu choice ∧ state.wants cpu = some .ptable ∧
      site .ptable (names (state.stack cpu)) = .listing := by
  obtain ⟨cpu, calls, isHolder, isListing⟩ := lists
  rcases step.holder isHolder with already | ⟨choice, isExecute, wants, rfl⟩
  · exact absurd ⟨cpu, calls, already, isListing⟩ before
  · exact ⟨cpu, choice, isExecute, wants, isListing⟩

/-- A CPU comes to wait for `ptable.lock` under `cons.lock` only by a call. -/
theorem step_waits {action : Action Routine Cpu Thread} {first : Bool}
    {held heldAfter : Cpu → List (KernelLock × Site)} {fresh freshAfter : Cpu → Bool}
    (disciplined : Disciplined rules kernel state held fresh)
    (disciplinedAfter : Disciplined rules kernel after heldAfter freshAfter)
    (isFresh : freshAfter action.cpu = first)
    (step : Step kernel state action first after)
    (input : HoldsInput after action.cpu) (waits : after.wants action.cpu = some .ptable) :
    ∃ cpu choice, action = .execute cpu choice ∧ HoldsInput state cpu ∧
      CallsTable state cpu ∧ (Listing after → Listing state) := by
  obtain ⟨calls, isHolder, isConsole⟩ := input
  have member : (KernelLock.cons, Site.console) ∈ heldAfter action.cpu :=
    (disciplinedAfter.holds action.cpu .cons .console).mpr ⟨calls, isHolder, isConsole⟩
  have isFirst : first = true := by
    rcases (disciplinedAfter.wants waits).2 with nothing | now
    · rw [nothing] at member
      cases member
    · rw [← isFresh, now]
  subst isFirst
  have memberOf : ∀ cpu, state.holder .cons = some (cpu, calls) →
      (KernelLock.cons, Site.console) ∈ held cpu :=
    fun cpu isHolder => (disciplined.holds cpu .cons .console).mpr ⟨calls, isHolder, isConsole⟩
  cases step with
  | enter cpu routine body empty isCall =>
      have code := disciplined.code cpu
      rw [empty, stackCheck, Option.some.injEq] at code
      have impossible := memberOf cpu isHolder
      rw [code] at impossible
      cases impossible
  | interrupt cpu inThread routine body enabled isInterrupt =>
      have nothing : held cpu = [] := List.eq_nil_of_length_eq_zero
        ((disciplined.depth cpu).symm.trans enabled)
      have impossible := memberOf cpu isHolder
      rw [nothing] at impossible
      cases impossible
  | call cpu choice routine callee body code callers stack =>
      refine ⟨cpu, choice, rfl, ⟨calls, isHolder, isConsole⟩, ?_, id⟩
      simp only [State.wants, State.setStack, Action.cpu, Function.update_self] at waits
      split at waits
      · next name lock rest others same =>
          simp only [List.cons.injEq, Frame.mk.injEq] at same
          obtain ⟨⟨_, isBody⟩, _⟩ := same
          obtain rfl : lock = .ptable := Option.some.inj waits
          exact ⟨routine, callee, rest, code, callers, by rw [stack, isBody]⟩
      · cases waits

/-- The invariant of runs that keep the two apart. -/
structure Ordered (state : System Cpu Thread) : Prop where
  clear : Clear state
  disciplined : ∃ held fresh, Disciplined rules kernel state held fresh

theorem Ordered.step {action : Action Routine Cpu Thread} (ordered : Ordered state)
    (apart : Apart state action) (taken : state.step kernel action = some after) :
    Ordered after := by
  obtain ⟨first, step⟩ := Step.of_step taken
  obtain ⟨held, fresh, disciplined⟩ := ordered.disciplined
  obtain ⟨heldAfter, disciplinedAfter⟩ := disciplined.step kernel_checked step
  refine ⟨?_, heldAfter, _, disciplinedAfter⟩
  intro lists other input waits
  by_cases here : other = action.cpu
  · subst here
    obtain ⟨cpu, choice, rfl, inputBefore, calls, keeps⟩ :=
      step_waits disciplined disciplinedAfter (by simp) step input waits
    exact (apart cpu choice rfl).1 inputBefore calls (keeps lists)
  · obtain ⟨sameWants, inputBefore⟩ := step_others step here
    rw [sameWants] at waits
    by_cases before : Listing state
    · exact ordered.clear before other (inputBefore input) waits
    · obtain ⟨cpu, choice, rfl, wants, listing⟩ := step_lists step lists before
      exact (apart cpu choice rfl).2 wants listing other (inputBefore input) waits

omit [DecidableEq Cpu] [DecidableEq Thread] in
theorem Ordered.initial : Ordered (State.initial kernel : System Cpu Thread) := by
  refine ⟨?_, _, _, Disciplined.initial kernel_checked⟩
  rintro ⟨cpu, calls, isHolder, _⟩
  simp [State.initial] at isHolder

/-! ## Ranks -/

/-- The order in which `cps` takes its locks. -/
def listingRank : KernelLock → Nat
  | .ptable => 1
  | .kmem | .cons => 2
  | _ => 0

/-- The order in which the console's input takes its locks. -/
def inputRank : KernelLock → Nat
  | .ptable => 1
  | .kmem => 2
  | _ => 0

theorem listingRank_lt {held wanted : KernelLock} {which : Site}
    (permitted : permits held which wanted = true)
    (notInput : ¬(held = .cons ∧ which = .console ∧ wanted = .ptable)) :
    listingRank held < listingRank wanted := by
  unfold permits at permitted
  split at permitted <;> simp_all [listingRank]

theorem inputRank_lt {held wanted : KernelLock} {which : Site}
    (permitted : permits held which wanted = true)
    (notListing : ¬(held = .ptable ∧ which = .listing)) :
    inputRank held < inputRank wanted := by
  unfold permits at permitted
  split at permitted <;> simp_all [inputRank]

omit [DecidableEq Cpu] [DecidableEq Thread] in
/-- While a CPU lists the processes no one waits for `ptable.lock` under
`cons.lock`, and the ranks of `cps` rise; otherwise those of the console do. -/
theorem Ordered.not_deadlock (ordered : Ordered state) : ¬state.Deadlock := by
  obtain ⟨held, fresh, disciplined⟩ := ordered.disciplined
  have permitted : ∀ cpu lock wanted calls, state.holder lock = some (cpu, calls) →
      state.wants cpu = some wanted → permits lock (site lock calls) wanted = true := by
    intro cpu lock wanted calls isHolder wants
    have member := (disciplined.holds cpu lock (site lock calls)).mpr ⟨calls, isHolder, rfl⟩
    exact ((disciplined.wants wants).1 _ member).2
  by_cases lists : Listing state
  · refine not_deadlock_of_rank listingRank ?_
    rintro cpu lock wanted ⟨calls, isHolder⟩ wants
    refine listingRank_lt (permitted cpu lock wanted calls isHolder wants) ?_
    rintro ⟨rfl, isConsole, rfl⟩
    exact ordered.clear lists cpu ⟨calls, isHolder, isConsole⟩ wants
  · refine not_deadlock_of_rank inputRank ?_
    rintro cpu lock wanted ⟨calls, isHolder⟩ wants
    refine inputRank_lt (permitted cpu lock wanted calls isHolder wants) ?_
    rintro ⟨rfl, isListing⟩
    exact lists ⟨cpu, calls, isHolder, isListing⟩

/-- Every CPU starts its scheduler. -/
def IsInitial (state : System Cpu Thread) : Prop := state = State.initial kernel

/-- In every run that keeps `cps` and the waking of console readers apart, no
cycle of CPUs spins on locks that the next CPU holds. -/
theorem no_deadlock_of_apart
    (run : Run (State.step kernel) Apart IsInitial state) :
    ¬state.Deadlock := by
  apply Ordered.not_deadlock
  refine run.invariant ?_ fun _ _ _ ordered apart taken => ordered.step apart taken
  rintro state rfl
  exact Ordered.initial

/-- No CPU holds `cons.lock` in the console's input. -/
def inputFree (state : System Cpu Thread) : Bool :=
  match state.holder .cons with
  | some (_, calls) => site .cons calls ≠ .console
  | none => true

omit [DecidableEq Cpu] [DecidableEq Thread] in
theorem apart_of_inputFree {action : Action Routine Cpu Thread}
    (free : inputFree state = true) : Apart state action := by
  have noInput : ∀ cpu, ¬HoldsInput state cpu := by
    rintro cpu ⟨calls, isHolder, isConsole⟩
    simp [inputFree, isHolder, isConsole] at free
  intro cpu choice _
  exact ⟨fun input => absurd input (noInput cpu), fun _ _ other input =>
    absurd input (noInput other)⟩

local instance twoCpus : NeZero 2 := ⟨by decide⟩

/-- A new process leaves the scheduler of CPU 0 and calls `cps`, which takes
`ptable.lock`. -/
def startListing : List (Action Routine (Fin 2) Unit) :=
  [.execute 0 true, .execute 0 true, .execute 0 true, .dispatch 0 (), .execute 0 true,
    .execute 0 true, .enter 0 .cps, .execute 0 true]

/-- CPU 1 reports a spurious interrupt while CPU 0 is in `cps`. -/
def reportDuringListing : List (Action Routine (Fin 2) Unit) :=
  startListing ++ [.interrupt 1 .cprintf, .execute 1 true, .execute 0 true]

theorem reportDuringListing_enabled :
    (execute (State.step kernel) (fun state _ => inputFree state)
      (State.initial kernel : System (Fin 2) Unit) reportDuringListing).isSome = true := by
  decide +kernel

theorem no_deadlock_of_apart_report :
    ∃ state : System (Fin 2) Unit, state.WaitsFor 0 1 ∧ ¬state.Deadlock := by
  have isInitial : IsInitial (State.initial kernel : System (Fin 2) Unit) := rfl
  have run := run_lastState isInitial reportDuringListing reportDuringListing_enabled
  refine ⟨_, ⟨by decide, .cons, by decide +kernel, ?_⟩,
    no_deadlock_of_apart (run.mono fun state action free => apart_of_inputFree free)⟩
  obtain ⟨⟨cpu, calls⟩, isHolder, isCpu⟩ := Option.map_eq_some_iff.mp (show
    ((lastState _ _ _ _ reportDuringListing_enabled).holder .cons).map Prod.fst =
      some 1 by decide +kernel)
  exact ⟨calls, by rw [isHolder, ← isCpu]⟩

/-! ## The deadlock -/

/-- CPU 1 takes a line of input and calls `wakeup` while CPU 0 is in `cps`, which
then calls `cprintf`. -/
def lineDuringListing : List (Action Routine (Fin 2) Unit) :=
  startListing ++ [.interrupt 1 .consoleintr, .execute 1 true, .execute 1 true,
    .execute 1 true, .execute 0 true]

theorem lineDuringListing_enabled :
    (execute (State.step kernel) (fun _ _ => true)
      (State.initial kernel : System (Fin 2) Unit) lineDuringListing).isSome = true := by
  decide +kernel

theorem deadlock_reachable :
    ∃ state : System (Fin 2) Unit,
      Run (State.step kernel) anyStep IsInitial state ∧ state.Deadlock := by
  have isInitial : IsInitial (State.initial kernel : System (Fin 2) Unit) := rfl
  have run := run_lastState isInitial lineDuringListing lineDuringListing_enabled
  refine ⟨_, run.mono fun _ _ _ => trivial, 0, ?_⟩
  have holds : ∀ lock cpu,
      ((lastState _ _ _ _ lineDuringListing_enabled).holder lock).map Prod.fst = some cpu →
      (lastState _ _ _ _ lineDuringListing_enabled).Holds cpu lock := by
    intro lock cpu isHeld
    obtain ⟨⟨holder, calls⟩, isHolder, rfl⟩ := Option.map_eq_some_iff.mp isHeld
    exact ⟨calls, isHolder⟩
  refine .head (b := 1) ⟨by decide, .cons, by decide +kernel, holds .cons 1 ?_⟩
    (.single ⟨by decide, .ptable, by decide +kernel, holds .ptable 0 ?_⟩)
  · decide +kernel
  · decide +kernel

end Coursework.Spinlocks
