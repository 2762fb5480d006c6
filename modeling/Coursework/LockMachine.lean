import Coursework.TransitionRuns
import Mathlib.Data.List.Nodup
import Mathlib.Logic.Function.Basic
import Mathlib.Logic.Relation

/-!
# Spinlocks on several CPUs

A kernel is given by the lock skeletons of its routines: what they acquire and
release, what they call, where they branch and loop, and where a thread switches
to the scheduler of its CPU or the scheduler to a thread.  Any number of CPUs
run such code, each with a stack of calls; interrupt handlers run on top of it
while the CPU holds no lock.  Switching is done with one lock held, which the
thread that is switched to releases.

A static check follows the locks that are held through a skeleton.  Code that
passes it keeps its locks nested as the rules of the check permit in every run,
and if the rules strictly raise a rank no cycle of CPUs can wait for each other.
-/

namespace Coursework.LockMachine

/-- The lock skeleton of a piece of code. -/
inductive Instr (Lock Routine : Type)
  | acquire (lock : Lock)
  | release (lock : Lock)
  | call (routine : Routine) (body : List (Instr Lock Routine))
  | either (left right : List (Instr Lock Routine))
  | loop (body : List (Instr Lock Routine))
  | sched
  | dispatch
  | panic

/-- A routine that is being executed and the code it still has to run. -/
structure Frame (Lock Routine : Type) where
  routine : Routine
  code : List (Instr Lock Routine)

/-- The lock that is held across a switch, the stack of a scheduler, the stack of
a new thread, and what threads and interrupts can enter; the latter depends on
whether the CPU runs a thread. -/
structure Kernel (Lock Routine : Type) where
  switchLock : Lock
  scheduler : Frame Lock Routine
  newThread : Frame Lock Routine
  calls : Routine → Option (List (Instr Lock Routine))
  interrupts : Bool → Routine → Option (List (Instr Lock Routine))

/-- Every held lock with its CPU and the calls that led to the acquire, the
number of locks each CPU holds, what it executes for which thread, and the stacks
that are switched out. -/
structure State (Lock Routine Cpu Thread : Type) where
  holder : Lock → Option (Cpu × List Routine)
  ncli : Cpu → Nat
  stack : Cpu → List (Frame Lock Routine)
  running : Cpu → Option Thread
  scheduler : Cpu → List (Frame Lock Routine)
  saved : Thread → Option (List (Frame Lock Routine))

/-- The choice of an `execute` step decides a branch, or whether a loop goes
on. -/
inductive Action (Routine Cpu Thread : Type)
  | enter (cpu : Cpu) (routine : Routine)
  | interrupt (cpu : Cpu) (routine : Routine)
  | execute (cpu : Cpu) (choice : Bool)
  | dispatch (cpu : Cpu) (thread : Thread)

variable {Lock Routine Cpu Thread : Type}

def names (stack : List (Frame Lock Routine)) : List Routine :=
  stack.map Frame.routine

section Machine

variable [DecidableEq Lock] [DecidableEq Cpu] [DecidableEq Thread]

def State.setStack (state : State Lock Routine Cpu Thread) (cpu : Cpu)
    (stack : List (Frame Lock Routine)) : State Lock Routine Cpu Thread :=
  { state with stack := Function.update state.stack cpu stack }

/-- Execute the first instruction of the topmost frame.  An `acquire` of a held
lock is not enabled: the CPU spins, or panics if it holds the lock itself. -/
def State.execute (kernel : Kernel Lock Routine) (state : State Lock Routine Cpu Thread)
    (cpu : Cpu) (choice : Bool) : Option (State Lock Routine Cpu Thread) :=
  match state.stack cpu with
  | [] => none
  | ⟨_, []⟩ :: callers => some (state.setStack cpu callers)
  | ⟨routine, instr :: code⟩ :: callers =>
      match instr with
      | .acquire lock =>
          if state.holder lock = none then
            some { state.setStack cpu (⟨routine, code⟩ :: callers) with
              holder := Function.update state.holder lock
                (some (cpu, routine :: names callers))
              ncli := Function.update state.ncli cpu (state.ncli cpu + 1) }
          else none
      | .release lock =>
          if (state.holder lock).map Prod.fst = some cpu then
            some { state.setStack cpu (⟨routine, code⟩ :: callers) with
              holder := Function.update state.holder lock none
              ncli := Function.update state.ncli cpu (state.ncli cpu - 1) }
          else none
      | .call callee body =>
          some (state.setStack cpu (⟨callee, body⟩ :: ⟨routine, code⟩ :: callers))
      | .either left right =>
          some (state.setStack cpu
            (⟨routine, (if choice then left else right) ++ code⟩ :: callers))
      | .loop body =>
          some (state.setStack cpu
            (⟨routine, if choice then body ++ .loop body :: code else code⟩ :: callers))
      | .sched =>
          match state.running cpu with
          | some thread =>
              if (state.holder kernel.switchLock).map Prod.fst = some cpu ∧
                  state.ncli cpu = 1 then
                some { state.setStack cpu (state.scheduler cpu) with
                  running := Function.update state.running cpu none
                  saved := Function.update state.saved thread
                    (some (⟨routine, code⟩ :: callers)) }
              else none
          | none => none
      | .dispatch => none
      | .panic => none

/-- The scheduler of a CPU switches to a thread. -/
def State.dispatch (state : State Lock Routine Cpu Thread) (cpu : Cpu) (thread : Thread) :
    Option (State Lock Routine Cpu Thread) :=
  match state.stack cpu, state.running cpu, state.saved thread with
  | ⟨routine, .dispatch :: code⟩ :: callers, none, some stack =>
      some { state.setStack cpu stack with
        running := Function.update state.running cpu (some thread)
        scheduler := Function.update state.scheduler cpu (⟨routine, code⟩ :: callers)
        saved := Function.update state.saved thread none }
  | _, _, _ => none

def State.step (kernel : Kernel Lock Routine) (state : State Lock Routine Cpu Thread) :
    Action Routine Cpu Thread → Option (State Lock Routine Cpu Thread)
  | .enter cpu routine =>
      match state.stack cpu, state.running cpu, kernel.calls routine with
      | [], some _, some body => some (state.setStack cpu [⟨routine, body⟩])
      | _, _, _ => none
  | .interrupt cpu routine =>
      if state.ncli cpu = 0 then
        (kernel.interrupts (state.running cpu).isSome routine).map fun body =>
          state.setStack cpu (⟨routine, body⟩ :: state.stack cpu)
      else none
  | .execute cpu choice => state.execute kernel cpu choice
  | .dispatch cpu thread => state.dispatch cpu thread

end Machine

/-- Every CPU starts its scheduler, and every thread is new. -/
def State.initial (kernel : Kernel Lock Routine) : State Lock Routine Cpu Thread :=
  { holder := fun _ => none
    ncli := fun _ => 0
    stack := fun _ => [kernel.scheduler]
    running := fun _ => none
    scheduler := fun _ => []
    saved := fun _ => some [kernel.newThread] }

/-- The lock that a CPU is about to acquire. -/
def State.wants (state : State Lock Routine Cpu Thread) (cpu : Cpu) : Option Lock :=
  match state.stack cpu with
  | ⟨_, .acquire lock :: _⟩ :: _ => some lock
  | _ => none

/-- A CPU holds a lock. -/
def State.Holds (state : State Lock Routine Cpu Thread) (cpu : Cpu) (lock : Lock) : Prop :=
  ∃ calls, state.holder lock = some (cpu, calls)

/-- One CPU spins on a lock that another one holds. -/
def State.WaitsFor (state : State Lock Routine Cpu Thread) (cpu other : Cpu) : Prop :=
  cpu ≠ other ∧ ∃ lock, state.wants cpu = some lock ∧ state.Holds other lock

/-- A cycle of CPUs that each hold a lock and spin on one held by the next. -/
def State.Deadlock (state : State Lock Routine Cpu Thread) : Prop :=
  ∃ cpu, Relation.TransGen state.WaitsFor cpu cpu

/-- Ranks that strictly rise from held to wanted locks exclude a deadlock. -/
theorem not_deadlock_of_rank {state : State Lock Routine Cpu Thread} (rank : Lock → Nat)
    (rises : ∀ cpu held wanted, state.Holds cpu held → state.wants cpu = some wanted →
      rank held < rank wanted) : ¬state.Deadlock := by
  rintro ⟨cpu, cycle⟩
  have chain : ∀ first last, Relation.TransGen state.WaitsFor first last →
      ∀ wanted own, state.wants first = some wanted → state.wants last = some own →
        rank wanted < rank own := by
    intro first last path
    induction path with
    | single edge =>
        intro wanted own isWanted isOwn
        obtain ⟨_, lock, wants, holds⟩ := edge
        obtain rfl : lock = wanted := Option.some.inj (wants.symm.trans isWanted)
        exact rises _ lock own holds isOwn
    | tail _ edge ih =>
        intro wanted own isWanted isOwn
        obtain ⟨_, lock, wants, holds⟩ := edge
        exact Nat.lt_trans (ih wanted lock isWanted wants) (rises _ lock own holds isOwn)
  obtain ⟨next, ⟨_, lock, wants, _⟩, _⟩ := Relation.TransGen.head'_iff.mp cycle
  exact absurd (chain cpu cpu cycle lock lock wants wants) (Nat.lt_irrefl _)

/-! ## The static check -/

/-- What the check requires: how a held lock is classified by the calls that led
to its acquire, which class the lock held across a switch has, and which locks may
be acquired while one of a class is held. -/
structure Rules (Lock Routine Site : Type) where
  site : Lock → List Routine → Site
  switching : Site
  permits : Lock → Site → Lock → Bool

variable {Site : Type} [DecidableEq Lock] [DecidableEq Site]

mutual

/-- The locks held after an instruction, if it keeps the rules.  A lock may be
acquired under another one only by the first instruction of a routine. -/
def Instr.check (rules : Rules Lock Routine Site) (switchLock : Lock)
    (path : List Routine) (first : Bool) :
    Instr Lock Routine → List (Lock × Site) → Option (List (Lock × Site))
  | .acquire lock, held =>
      if (∀ entry ∈ held, entry.1 ≠ lock ∧ rules.permits entry.1 entry.2 lock = true) ∧
          (held = [] ∨ first = true) then
        some ((lock, rules.site lock path) :: held)
      else none
  | .release lock, held =>
      if lock ∈ held.map Prod.fst then some (held.filter fun entry => entry.1 ≠ lock)
      else none
  | .call routine body, held => checkAll rules switchLock (routine :: path) true body held
  | .either left right, held =>
      match checkAll rules switchLock path false left held,
          checkAll rules switchLock path false right held with
      | some one, some other => if one = other then some one else none
      | _, _ => none
  | .loop body, held =>
      if checkAll rules switchLock path false body held = some held then some held else none
  | .sched, held => if held = [(switchLock, rules.switching)] then some held else none
  | .dispatch, held => if held = [(switchLock, rules.switching)] then some held else none
  | .panic, _ => some []

def checkAll (rules : Rules Lock Routine Site) (switchLock : Lock)
    (path : List Routine) (first : Bool) :
    List (Instr Lock Routine) → List (Lock × Site) → Option (List (Lock × Site))
  | [], held => some held
  | instr :: code, held =>
      match instr.check rules switchLock path first held with
      | some after => checkAll rules switchLock path false code after
      | none => none

end

/-- The check of a stack of calls; only the topmost routine may be at its first
instruction. -/
def stackCheck (rules : Rules Lock Routine Site) (switchLock : Lock) :
    Bool → List (Frame Lock Routine) → List (Lock × Site) → Option (List (Lock × Site))
  | _, [], held => some held
  | first, frame :: callers, held =>
      match checkAll rules switchLock (frame.routine :: names callers) first frame.code held with
      | some after => stackCheck rules switchLock false callers after
      | none => none

/-- All code of a kernel passes the check. -/
structure Checked (rules : Rules Lock Routine Site) (kernel : Kernel Lock Routine) : Prop where
  scheduler : stackCheck rules kernel.switchLock false [kernel.scheduler] [] = some []
  newThread : stackCheck rules kernel.switchLock false [kernel.newThread]
    [(kernel.switchLock, rules.switching)] = some []
  calls : ∀ routine body, kernel.calls routine = some body →
    checkAll rules kernel.switchLock [routine] true body [] = some []
  interrupts : ∀ inThread routine body path,
    kernel.interrupts inThread routine = some body →
      checkAll rules kernel.switchLock (routine :: path) true body [] = some []

section Check

variable {rules : Rules Lock Routine Site} {switchLock : Lock}

theorem checkAll_cons {path : List Routine} {first : Bool} {instr : Instr Lock Routine}
    {code : List (Instr Lock Routine)} {held last : List (Lock × Site)} :
    checkAll rules switchLock path first (instr :: code) held = some last ↔
      ∃ middle, instr.check rules switchLock path first held = some middle ∧
        checkAll rules switchLock path false code middle = some last := by
  rw [checkAll]
  cases instr.check rules switchLock path first held with
  | none => simp
  | some middle => simp

theorem checkAll_append {path : List Routine} {before code : List (Instr Lock Routine)}
    {held middle : List (Lock × Site)}
    (checked : checkAll rules switchLock path false before held = some middle) :
    checkAll rules switchLock path false (before ++ code) held =
      checkAll rules switchLock path false code middle := by
  induction before generalizing held with
  | nil =>
      simp only [checkAll, Option.some.injEq] at checked
      rw [List.nil_append, checked]
  | cons instr rest ih =>
      obtain ⟨next, here, later⟩ := checkAll_cons.mp checked
      rw [List.cons_append, checkAll, here]
      exact ih later

theorem stackCheck_cons {first : Bool} {frame : Frame Lock Routine}
    {callers : List (Frame Lock Routine)} {held last : List (Lock × Site)} :
    stackCheck rules switchLock first (frame :: callers) held = some last ↔
      ∃ middle, checkAll rules switchLock (frame.routine :: names callers) first
          frame.code held = some middle ∧
        stackCheck rules switchLock false callers middle = some last := by
  rw [stackCheck]
  cases checkAll rules switchLock (frame.routine :: names callers) first frame.code held with
  | none => simp
  | some middle => simp

/-- While nothing is held it makes no difference whether a routine is at its
first instruction. -/
theorem stackCheck_unheld (first : Bool) (stack : List (Frame Lock Routine)) :
    stackCheck rules switchLock first stack [] =
      stackCheck rules switchLock false stack [] := by
  have same : ∀ (path : List Routine) (instr : Instr Lock Routine),
      instr.check rules switchLock path first [] =
        instr.check rules switchLock path false [] := by
    intro path instr
    cases instr <;> simp [Instr.check]
  cases stack with
  | nil => rfl
  | cons frame callers =>
      obtain ⟨routine, code⟩ := frame
      cases code with
      | nil => simp [stackCheck, checkAll]
      | cons instr code => simp [stackCheck, checkAll, same]

/-- The next instruction of a checked stack, and the check of what remains. -/
theorem stackCheck_instr {first : Bool} {routine : Routine} {instr : Instr Lock Routine}
    {code : List (Instr Lock Routine)} {callers : List (Frame Lock Routine)}
    {held last : List (Lock × Site)}
    (checked : stackCheck rules switchLock first (⟨routine, instr :: code⟩ :: callers) held =
      some last) :
    ∃ middle, instr.check rules switchLock (routine :: names callers) first held =
        some middle ∧
      stackCheck rules switchLock false (⟨routine, code⟩ :: callers) middle = some last := by
  obtain ⟨after, codeChecked, callersChecked⟩ := stackCheck_cons.mp checked
  obtain ⟨middle, here, rest⟩ := checkAll_cons.mp codeChecked
  exact ⟨middle, here, stackCheck_cons.mpr ⟨after, rest, callersChecked⟩⟩

/-- Code that leaves the locks as checked may be put before the rest. -/
theorem stackCheck_before {routine : Routine} {before code : List (Instr Lock Routine)}
    {callers : List (Frame Lock Routine)} {held middle last : List (Lock × Site)}
    (checked : checkAll rules switchLock (routine :: names callers) false before held =
      some middle)
    (rest : stackCheck rules switchLock false (⟨routine, code⟩ :: callers) middle = some last) :
    stackCheck rules switchLock false (⟨routine, before ++ code⟩ :: callers) held =
      some last := by
  obtain ⟨after, codeChecked, callersChecked⟩ := stackCheck_cons.mp rest
  exact stackCheck_cons.mpr ⟨after, (checkAll_append checked).trans codeChecked, callersChecked⟩

end Check

end Coursework.LockMachine
