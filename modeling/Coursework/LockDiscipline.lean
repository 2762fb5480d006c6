import Coursework.LockMachine
import Mathlib.Tactic.Common

/-!
# Checked code keeps its locks nested

In every reachable state of a kernel whose code passes the static check, each
CPU holds exactly the locks that the check predicts at its place in the code.
A CPU about to acquire a lock therefore holds only locks under which the rules
permit it, and if it holds any it is at the first instruction of a routine.
-/

namespace Coursework.LockMachine

variable {Lock Routine Cpu Thread : Type}
variable [DecidableEq Lock] [DecidableEq Cpu] [DecidableEq Thread]

/-! ## What one step can do -/

def Action.cpu : Action Routine Cpu Thread → Cpu
  | enter cpu _ | interrupt cpu _ | execute cpu _ | dispatch cpu _ => cpu

/-- The steps, with what enables them and the state that they leave.  The flag
tells whether the CPU is at the first instruction of a routine afterwards. -/
inductive Step (kernel : Kernel Lock Routine) (state : State Lock Routine Cpu Thread) :
    Action Routine Cpu Thread → Bool → State Lock Routine Cpu Thread → Prop
  | enter (cpu : Cpu) (routine : Routine) (body : List (Instr Lock Routine)) :
      state.stack cpu = [] → kernel.calls routine = some body →
      Step kernel state (.enter cpu routine) true (state.setStack cpu [⟨routine, body⟩])
  | interrupt (cpu : Cpu) (inThread : Bool) (routine : Routine)
      (body : List (Instr Lock Routine)) :
      state.ncli cpu = 0 → kernel.interrupts inThread routine = some body →
      Step kernel state (.interrupt cpu routine) true
        (state.setStack cpu (⟨routine, body⟩ :: state.stack cpu))
  | finish (cpu : Cpu) (choice : Bool) (routine : Routine)
      (callers : List (Frame Lock Routine)) :
      state.stack cpu = ⟨routine, []⟩ :: callers →
      Step kernel state (.execute cpu choice) false (state.setStack cpu callers)
  | acquire (cpu : Cpu) (choice : Bool) (routine : Routine) (lock : Lock)
      (code : List (Instr Lock Routine)) (callers : List (Frame Lock Routine)) :
      state.stack cpu = ⟨routine, .acquire lock :: code⟩ :: callers →
      state.holder lock = none →
      Step kernel state (.execute cpu choice) false
        { state.setStack cpu (⟨routine, code⟩ :: callers) with
          holder := Function.update state.holder lock (some (cpu, routine :: names callers))
          ncli := Function.update state.ncli cpu (state.ncli cpu + 1) }
  | release (cpu : Cpu) (choice : Bool) (routine : Routine) (lock : Lock)
      (code : List (Instr Lock Routine)) (callers : List (Frame Lock Routine)) :
      state.stack cpu = ⟨routine, .release lock :: code⟩ :: callers →
      state.Holds cpu lock →
      Step kernel state (.execute cpu choice) false
        { state.setStack cpu (⟨routine, code⟩ :: callers) with
          holder := Function.update state.holder lock none
          ncli := Function.update state.ncli cpu (state.ncli cpu - 1) }
  | call (cpu : Cpu) (choice : Bool) (routine callee : Routine)
      (body code : List (Instr Lock Routine)) (callers : List (Frame Lock Routine)) :
      state.stack cpu = ⟨routine, .call callee body :: code⟩ :: callers →
      Step kernel state (.execute cpu choice) true
        (state.setStack cpu (⟨callee, body⟩ :: ⟨routine, code⟩ :: callers))
  | branch (cpu : Cpu) (choice : Bool) (routine : Routine)
      (left right code : List (Instr Lock Routine)) (callers : List (Frame Lock Routine)) :
      state.stack cpu = ⟨routine, .either left right :: code⟩ :: callers →
      Step kernel state (.execute cpu choice) false (state.setStack cpu
        (⟨routine, (if choice then left else right) ++ code⟩ :: callers))
  | loop (cpu : Cpu) (choice : Bool) (routine : Routine)
      (body code : List (Instr Lock Routine)) (callers : List (Frame Lock Routine)) :
      state.stack cpu = ⟨routine, .loop body :: code⟩ :: callers →
      Step kernel state (.execute cpu choice) false (state.setStack cpu
        (⟨routine, if choice then body ++ .loop body :: code else code⟩ :: callers))
  | sched (cpu : Cpu) (choice : Bool) (routine : Routine)
      (code : List (Instr Lock Routine)) (callers : List (Frame Lock Routine))
      (thread : Thread) :
      state.stack cpu = ⟨routine, .sched :: code⟩ :: callers →
      state.running cpu = some thread →
      Step kernel state (.execute cpu choice) false
        { state.setStack cpu (state.scheduler cpu) with
          running := Function.update state.running cpu none
          saved := Function.update state.saved thread (some (⟨routine, code⟩ :: callers)) }
  | dispatch (cpu : Cpu) (routine : Routine) (code : List (Instr Lock Routine))
      (callers stack : List (Frame Lock Routine)) (thread : Thread) :
      state.stack cpu = ⟨routine, .dispatch :: code⟩ :: callers →
      state.saved thread = some stack →
      Step kernel state (.dispatch cpu thread) false
        { state.setStack cpu stack with
          running := Function.update state.running cpu (some thread)
          scheduler := Function.update state.scheduler cpu (⟨routine, code⟩ :: callers)
          saved := Function.update state.saved thread none }

theorem Step.of_execute {kernel : Kernel Lock Routine}
    {state after : State Lock Routine Cpu Thread} {cpu : Cpu} {choice : Bool}
    (taken : state.execute kernel cpu choice = some after) :
    ∃ fresh, Step kernel state (.execute cpu choice) fresh after := by
  unfold State.execute at taken
  split at taken
  · cases taken
  · next routine callers stack =>
      cases taken
      exact ⟨false, .finish cpu choice routine callers stack⟩
  · next routine instr code callers stack =>
      cases instr with
      | acquire lock =>
          simp only [Option.ite_none_right_eq_some, Option.some.injEq] at taken
          obtain ⟨free, rfl⟩ := taken
          exact ⟨false, .acquire cpu choice routine lock code callers stack free⟩
      | release lock =>
          simp only [Option.ite_none_right_eq_some, Option.some.injEq] at taken
          obtain ⟨held, rfl⟩ := taken
          obtain ⟨⟨holder, calls⟩, isHolder, rfl⟩ := Option.map_eq_some_iff.mp held
          exact ⟨false, .release _ choice routine lock code callers stack ⟨calls, isHolder⟩⟩
      | call callee body =>
          cases taken
          exact ⟨true, .call cpu choice routine callee body code callers stack⟩
      | either left right =>
          cases taken
          exact ⟨false, .branch cpu choice routine left right code callers stack⟩
      | loop body =>
          cases taken
          exact ⟨false, .loop cpu choice routine body code callers stack⟩
      | sched =>
          simp only at taken
          split at taken
          · next thread running =>
              simp only [Option.ite_none_right_eq_some, Option.some.injEq] at taken
              obtain ⟨_, rfl⟩ := taken
              exact ⟨false, .sched cpu choice routine code callers thread stack running⟩
          · cases taken
      | dispatch => cases taken
      | panic => cases taken

theorem Step.of_step {kernel : Kernel Lock Routine}
    {state after : State Lock Routine Cpu Thread} {action : Action Routine Cpu Thread}
    (taken : state.step kernel action = some after) :
    ∃ fresh, Step kernel state action fresh after := by
  cases action with
  | enter cpu routine =>
      simp only [State.step] at taken
      split at taken
      · next body empty _ isCall =>
          cases taken
          exact ⟨true, .enter cpu routine body empty isCall⟩
      · cases taken
  | interrupt cpu routine =>
      simp only [State.step, Option.ite_none_right_eq_some] at taken
      obtain ⟨enabled, taken⟩ := taken
      obtain ⟨body, isInterrupt, rfl⟩ := Option.map_eq_some_iff.mp taken
      exact ⟨true, .interrupt cpu _ routine body enabled isInterrupt⟩
  | execute cpu choice => exact Step.of_execute taken
  | dispatch cpu thread =>
      simp only [State.step, State.dispatch] at taken
      split at taken
      · next routine code callers stack isStack _ saved =>
          cases taken
          exact ⟨false, .dispatch cpu routine code callers stack thread isStack saved⟩
      · cases taken

/-- The other CPUs stay where they are. -/
theorem Step.stack_of_ne {kernel : Kernel Lock Routine}
    {state after : State Lock Routine Cpu Thread} {action : Action Routine Cpu Thread}
    {first : Bool} (step : Step kernel state action first after) {other : Cpu}
    (different : other ≠ action.cpu) : after.stack other = state.stack other := by
  cases step <;> exact Function.update_of_ne different _ _

/-- A lock that is held was held before, or its holder has just acquired it. -/
theorem Step.holder {kernel : Kernel Lock Routine}
    {state after : State Lock Routine Cpu Thread} {action : Action Routine Cpu Thread}
    {first : Bool} (step : Step kernel state action first after) {lock : Lock} {owner : Cpu}
    {calls : List Routine} (isHolder : after.holder lock = some (owner, calls)) :
    state.holder lock = some (owner, calls) ∨
      ∃ choice, action = .execute owner choice ∧ state.wants owner = some lock ∧
        calls = names (state.stack owner) := by
  cases step with
  | acquire cpu choice routine wanted code callers stack free =>
      by_cases same : lock = wanted
      · subst same
        simp only [Function.update_self, Option.some.injEq, Prod.mk.injEq] at isHolder
        obtain ⟨rfl, rfl⟩ := isHolder
        exact .inr ⟨choice, rfl, by simp [State.wants, stack], by simp [stack, names]⟩
      · exact .inl (by simpa [same] using isHolder)
  | release cpu choice routine wanted code callers stack held =>
      by_cases same : lock = wanted
      · subst same
        simp at isHolder
      · exact .inl (by simpa [same] using isHolder)
  | _ => exact .inl isHolder

/-! ## The invariant -/

variable {Site : Type} [DecidableEq Site]

/-- `held` lists the locks of each CPU with the class of their acquire, and
`fresh` marks the CPUs at the first instruction of a routine.  The locks agree
with the state and with the check of everything that is still to be executed. -/
structure Disciplined (rules : Rules Lock Routine Site) (kernel : Kernel Lock Routine)
    (state : State Lock Routine Cpu Thread) (held : Cpu → List (Lock × Site))
    (fresh : Cpu → Bool) : Prop where
  holds : ∀ cpu lock site, (lock, site) ∈ held cpu ↔
    ∃ calls, state.holder lock = some (cpu, calls) ∧ rules.site lock calls = site
  depth : ∀ cpu, state.ncli cpu = (held cpu).length
  distinct : ∀ cpu, ((held cpu).map Prod.fst).Nodup
  code : ∀ cpu, stackCheck rules kernel.switchLock (fresh cpu) (state.stack cpu) (held cpu) =
    some []
  scheduler : ∀ cpu thread, state.running cpu = some thread →
    stackCheck rules kernel.switchLock false (state.scheduler cpu)
      [(kernel.switchLock, rules.switching)] = some []
  saved : ∀ thread stack, state.saved thread = some stack →
    stackCheck rules kernel.switchLock false stack
      [(kernel.switchLock, rules.switching)] = some []

omit [DecidableEq Site] in
/-- Removing a lock from a list of distinct locks shortens it by one. -/
theorem length_filter_ne {entries : List (Lock × Site)} {lock : Lock} {site : Site}
    (distinct : (entries.map Prod.fst).Nodup) (member : (lock, site) ∈ entries) :
    (entries.filter fun entry => entry.1 ≠ lock).length + 1 = entries.length := by
  induction entries with
  | nil => cases member
  | cons entry rest ih =>
      rw [List.map_cons, List.nodup_cons] at distinct
      by_cases here : entry.1 = lock
      · have others : rest.filter (fun other => other.1 ≠ lock) = rest := by
          rw [List.filter_eq_self]
          intro other isMember
          have different : other.1 ≠ lock := by
            intro same
            exact distinct.1 (List.mem_map.mpr ⟨other, isMember, same.trans here.symm⟩)
          simpa using different
        rw [List.filter_cons_of_neg (by simp [here]), others, List.length_cons]
      · have later : (lock, site) ∈ rest := by
          rcases List.mem_cons.mp member with same | later
          · exact absurd (congrArg Prod.fst same).symm here
          · exact later
        simp only [ne_eq, decide_not] at ih
        simp [here, ih distinct.2 later]

namespace Disciplined

variable {rules : Rules Lock Routine Site} {kernel : Kernel Lock Routine}
  {state after : State Lock Routine Cpu Thread} {held : Cpu → List (Lock × Site)}
  {fresh : Cpu → Bool} {cpu : Cpu}

omit [DecidableEq Cpu] [DecidableEq Thread] in
theorem initial (checked : Checked rules kernel) :
    Disciplined rules kernel (State.initial kernel : State Lock Routine Cpu Thread)
      (fun _ => []) (fun _ => false) := by
  refine ⟨?_, ?_, ?_, fun _ => checked.scheduler, ?_, ?_⟩
  · simp [State.initial]
  · simp [State.initial]
  · simp
  · simp [State.initial]
  · intro thread stack isStack
    obtain rfl : [kernel.newThread] = stack := by simpa [State.initial] using isStack
    exact checked.newThread

omit [DecidableEq Thread] in
/-- A step that changes only the stack of a CPU. -/
theorem setStack (disciplined : Disciplined rules kernel state held fresh)
    {stack : List (Frame Lock Routine)} {first : Bool}
    (checked : stackCheck rules kernel.switchLock first stack (held cpu) = some []) :
    Disciplined rules kernel (state.setStack cpu stack) held
      (Function.update fresh cpu first) := by
  refine ⟨disciplined.holds, disciplined.depth, disciplined.distinct, ?_,
    disciplined.scheduler, disciplined.saved⟩
  intro other
  by_cases here : other = cpu
  · subst here
    simpa [State.setStack] using checked
  · simpa [State.setStack, here] using disciplined.code other

omit [DecidableEq Thread] in
theorem acquire (disciplined : Disciplined rules kernel state held fresh) {lock : Lock}
    {calls : List Routine} {stack : List (Frame Lock Routine)}
    (free : state.holder lock = none)
    (checked : stackCheck rules kernel.switchLock false stack
      ((lock, rules.site lock calls) :: held cpu) = some []) :
    Disciplined rules kernel
      { state.setStack cpu stack with
        holder := Function.update state.holder lock (some (cpu, calls))
        ncli := Function.update state.ncli cpu (state.ncli cpu + 1) }
      (Function.update held cpu ((lock, rules.site lock calls) :: held cpu))
      (Function.update fresh cpu false) := by
  have notHeld : ∀ other site, (lock, site) ∉ held other := by
    intro other site member
    obtain ⟨_, isHolder, _⟩ := (disciplined.holds other lock site).mp member
    simp [free] at isHolder
  refine ⟨?_, ?_, ?_, ?_, disciplined.scheduler, disciplined.saved⟩
  · intro other wanted site
    have before := disciplined.holds other wanted site
    by_cases here : other = cpu
    · subst here
      by_cases same : wanted = lock
      · subst same
        simp [notHeld other site, eq_comm]
      · simpa [same] using before
    · by_cases same : wanted = lock
      · subst same
        have different : ¬cpu = other := fun equal => here equal.symm
        simp [here, notHeld other site, different]
      · simpa [here, same] using before
  · intro other
    by_cases here : other = cpu
    · subst here
      simp [disciplined.depth]
    · simpa [here] using disciplined.depth other
  · intro other
    by_cases here : other = cpu
    · subst here
      have new : lock ∉ (held other).map Prod.fst := by
        intro member
        obtain ⟨⟨_, site⟩, isHeld, rfl⟩ := List.mem_map.mp member
        exact notHeld other site isHeld
      simpa using ⟨by simpa using new, disciplined.distinct other⟩
    · simpa [here] using disciplined.distinct other
  · intro other
    by_cases here : other = cpu
    · subst here
      simpa [State.setStack] using checked
    · simpa [State.setStack, here] using disciplined.code other

omit [DecidableEq Thread] in
theorem release (disciplined : Disciplined rules kernel state held fresh) {lock : Lock}
    {stack : List (Frame Lock Routine)} (isHeld : state.Holds cpu lock)
    (checked : stackCheck rules kernel.switchLock false stack
      ((held cpu).filter fun entry => entry.1 ≠ lock) = some []) :
    Disciplined rules kernel
      { state.setStack cpu stack with
        holder := Function.update state.holder lock none
        ncli := Function.update state.ncli cpu (state.ncli cpu - 1) }
      (Function.update held cpu ((held cpu).filter fun entry => entry.1 ≠ lock))
      (Function.update fresh cpu false) := by
  obtain ⟨calls, isHolder⟩ := isHeld
  have member : (lock, rules.site lock calls) ∈ held cpu :=
    (disciplined.holds cpu lock _).mpr ⟨calls, isHolder, rfl⟩
  refine ⟨?_, ?_, ?_, ?_, disciplined.scheduler, disciplined.saved⟩
  · intro other wanted site
    have before := disciplined.holds other wanted site
    by_cases same : wanted = lock
    · subst same
      by_cases here : other = cpu
      · subst here
        simp
      · have notHeld : (wanted, site) ∉ held other := by
          intro isMember
          obtain ⟨_, otherHolds, _⟩ := before.mp isMember
          rw [isHolder] at otherHolds
          simp [Ne.symm here] at otherHolds
        simp [here, notHeld]
    · by_cases here : other = cpu
      · subst here
        simpa [same] using before
      · simpa [here, same] using before
  · intro other
    by_cases here : other = cpu
    · subst here
      have counted := length_filter_ne (disciplined.distinct other) member
      simp only [Function.update_self, disciplined.depth]
      omega
    · simpa [here] using disciplined.depth other
  · intro other
    by_cases here : other = cpu
    · subst here
      rw [Function.update_self]
      exact (disciplined.distinct other).sublist (List.filter_sublist.map Prod.fst)
    · simpa [here] using disciplined.distinct other
  · intro other
    by_cases here : other = cpu
    · subst here
      simpa [State.setStack] using checked
    · simpa [State.setStack, here] using disciplined.code other

omit [DecidableEq Thread] in
/-- A thread switches to the scheduler, or the scheduler to a thread, with the
same lock held. -/
theorem switch (disciplined : Disciplined rules kernel state held fresh)
    {stack suspended : List (Frame Lock Routine)} {running : Option Thread}
    {saved : Thread → Option (List (Frame Lock Routine))}
    (switches : held cpu = [(kernel.switchLock, rules.switching)])
    (stackChecked : stackCheck rules kernel.switchLock false stack
      [(kernel.switchLock, rules.switching)] = some [])
    (suspendedChecked : running ≠ none → stackCheck rules kernel.switchLock false suspended
      [(kernel.switchLock, rules.switching)] = some [])
    (savedChecked : ∀ thread frames, saved thread = some frames →
      stackCheck rules kernel.switchLock false frames
        [(kernel.switchLock, rules.switching)] = some []) :
    Disciplined rules kernel
      { state.setStack cpu stack with
        running := Function.update state.running cpu running
        scheduler := Function.update state.scheduler cpu suspended
        saved := saved }
      held (Function.update fresh cpu false) := by
  refine ⟨disciplined.holds, disciplined.depth, disciplined.distinct, ?_, ?_, savedChecked⟩
  · intro other
    by_cases here : other = cpu
    · subst here
      simpa [State.setStack, switches] using stackChecked
    · simpa [State.setStack, here] using disciplined.code other
  · intro other thread isRunning
    by_cases here : other = cpu
    · subst here
      have isRunning : running = some thread := by simpa using isRunning
      simpa using suspendedChecked (by simp [isRunning])
    · have isRunning : state.running other = some thread := by simpa [here] using isRunning
      simpa [here] using disciplined.scheduler other thread isRunning

theorem step (checked : Checked rules kernel)
    (disciplined : Disciplined rules kernel state held fresh)
    {action : Action Routine Cpu Thread} {first : Bool}
    (step : Step kernel state action first after) :
    ∃ heldAfter, Disciplined rules kernel after heldAfter
      (Function.update fresh action.cpu first) := by
  cases step with
  | enter cpu routine body empty isCall =>
      have code := disciplined.code cpu
      rw [empty, stackCheck, Option.some.injEq] at code
      refine ⟨held, disciplined.setStack ?_⟩
      rw [code]
      exact stackCheck_cons.mpr ⟨[], checked.calls routine body isCall, rfl⟩
  | interrupt cpu inThread routine body enabled isInterrupt =>
      have code := disciplined.code cpu
      have nothing : held cpu = [] := List.eq_nil_of_length_eq_zero
        ((disciplined.depth cpu).symm.trans enabled)
      refine ⟨held, disciplined.setStack ?_⟩
      rw [nothing] at code ⊢
      exact stackCheck_cons.mpr
        ⟨[], checked.interrupts inThread routine body _ isInterrupt,
          (stackCheck_unheld _ _).symm.trans code⟩
  | finish cpu choice routine callers stack =>
      have code := disciplined.code cpu
      rw [stack] at code
      obtain ⟨middle, here, rest⟩ := stackCheck_cons.mp code
      obtain rfl : held cpu = middle := by simpa [checkAll] using here
      exact ⟨held, disciplined.setStack rest⟩
  | acquire cpu choice routine lock rest callers stack free =>
      have code := disciplined.code cpu
      rw [stack] at code
      obtain ⟨middle, here, rest⟩ := stackCheck_instr code
      simp only [Instr.check, Option.ite_none_right_eq_some, Option.some.injEq] at here
      obtain ⟨_, rfl⟩ := here
      exact ⟨_, disciplined.acquire free rest⟩
  | release cpu choice routine lock rest callers stack isHeld =>
      have code := disciplined.code cpu
      rw [stack] at code
      obtain ⟨middle, here, rest⟩ := stackCheck_instr code
      simp only [Instr.check, Option.ite_none_right_eq_some, Option.some.injEq] at here
      obtain ⟨_, rfl⟩ := here
      exact ⟨_, disciplined.release isHeld rest⟩
  | call cpu choice routine callee body rest callers stack =>
      have code := disciplined.code cpu
      rw [stack] at code
      obtain ⟨middle, here, rest⟩ := stackCheck_instr code
      exact ⟨held, disciplined.setStack (stackCheck_cons.mpr ⟨middle, here, rest⟩)⟩
  | branch cpu choice routine left right rest callers stack =>
      have code := disciplined.code cpu
      rw [stack] at code
      obtain ⟨middle, here, rest⟩ := stackCheck_instr code
      simp only [Instr.check] at here
      split at here
      · next one other leftChecked rightChecked =>
          simp only [Option.ite_none_right_eq_some, Option.some.injEq] at here
          obtain ⟨rfl, rfl⟩ := here
          refine ⟨held, disciplined.setStack (stackCheck_before ?_ rest)⟩
          cases choice with
          | true => exact leftChecked
          | false => exact rightChecked
      · cases here
  | loop cpu choice routine body rest callers stack =>
      have code := disciplined.code cpu
      rw [stack] at code
      obtain ⟨middle, here, rest⟩ := stackCheck_instr code
      have again := here
      simp only [Instr.check, Option.ite_none_right_eq_some, Option.some.injEq] at here
      obtain ⟨preserved, rfl⟩ := here
      refine ⟨held, disciplined.setStack ?_⟩
      cases choice with
      | true =>
          refine stackCheck_before preserved ?_
          obtain ⟨last, restChecked, callersChecked⟩ := stackCheck_cons.mp rest
          refine stackCheck_cons.mpr ⟨last, checkAll_cons.mpr ⟨_, ?_, restChecked⟩,
            callersChecked⟩
          simpa only [Instr.check] using again
      | false => exact rest
  | sched cpu choice routine remaining callers thread stack isRunning =>
      have code := disciplined.code cpu
      rw [stack] at code
      obtain ⟨middle, here, rest⟩ := stackCheck_instr code
      simp only [Instr.check, Option.ite_none_right_eq_some, Option.some.injEq] at here
      obtain ⟨switches, rfl⟩ := here
      rw [switches] at rest
      have saved : ∀ other frames, Function.update state.saved thread
          (some (⟨routine, remaining⟩ :: callers)) other = some frames →
          stackCheck rules kernel.switchLock false frames
            [(kernel.switchLock, rules.switching)] = some [] := by
        intro other frames isSaved
        by_cases same : other = thread
        · subst same
          rw [Function.update_self, Option.some.injEq] at isSaved
          exact isSaved ▸ rest
        · rw [Function.update_of_ne same] at isSaved
          exact disciplined.saved other frames isSaved
      have scheduler := disciplined.scheduler cpu thread isRunning
      have switched := disciplined.switch switches scheduler
        (fun (_ : (none : Option Thread) ≠ none) => scheduler) saved
      rw [Function.update_eq_self] at switched
      exact ⟨held, switched⟩
  | dispatch cpu routine rest callers frames thread stack isSaved =>
      have code := disciplined.code cpu
      rw [stack] at code
      obtain ⟨middle, here, rest⟩ := stackCheck_instr code
      simp only [Instr.check, Option.ite_none_right_eq_some, Option.some.injEq] at here
      obtain ⟨switches, rfl⟩ := here
      rw [switches] at rest
      refine ⟨held, disciplined.switch switches (disciplined.saved thread frames isSaved)
        (fun _ => rest) ?_⟩
      intro other saved isOther
      by_cases same : other = thread
      · subst same
        simp at isOther
      · rw [Function.update_of_ne same] at isOther
        exact disciplined.saved other saved isOther

omit [DecidableEq Cpu] [DecidableEq Thread] in
/-- What a CPU holds when it is about to acquire a lock. -/
theorem wants (disciplined : Disciplined rules kernel state held fresh) {lock : Lock}
    (isWanted : state.wants cpu = some lock) :
    (∀ entry ∈ held cpu, entry.1 ≠ lock ∧ rules.permits entry.1 entry.2 lock = true) ∧
      (held cpu = [] ∨ fresh cpu = true) := by
  have code := disciplined.code cpu
  unfold State.wants at isWanted
  split at isWanted
  · next routine next rest callers stack =>
      obtain rfl : next = lock := Option.some.inj isWanted
      rw [stack] at code
      obtain ⟨middle, here, _⟩ := stackCheck_instr code
      simp only [Instr.check, Option.ite_none_right_eq_some] at here
      exact here.1
  · cases isWanted

end Disciplined

end Coursework.LockMachine
