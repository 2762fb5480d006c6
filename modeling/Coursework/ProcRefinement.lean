import Coursework.ProcFamily

/-!
# The process table refines the life cycles

Every step of the process table is a step of the abstract life cycles or leaves
them as they are.  This needs one fact about scheduling: a process that `c->proc`
of some CPU points to is `RUNNING`.
-/

namespace Coursework.ProcTable

variable {CpuId : Type*} [DecidableEq CpuId] {state after : State CpuId}

/-! ## The life cycles of a state -/

omit [DecidableEq CpuId] in
theorem family_setProc (state : State CpuId) (slot : Slot) (proc : Proc) :
    (state.setProc slot proc).family = state.family.setLife slot proc.life := by
  simp only [State.family, Family.setLife, Family.mk.injEq, setProc_proc, setProc_boot,
    setProc_nextpid, setProc_history, and_self, and_true]
  funext other
  exact Function.apply_update (fun _ => Proc.life) state.proc slot proc other

omit [DecidableEq CpuId] in
theorem family_setProc_same {slot : Slot} {proc : Proc}
    (same : proc.life = (state.proc slot).life) :
    (state.setProc slot proc).family = state.family := by
  rw [family_setProc, same]
  have unchanged : Function.update state.family.life slot (state.proc slot).life =
      state.family.life := Function.update_eq_self slot state.family.life
  rw [Family.setLife, unchanged]

omit [DecidableEq CpuId] in
theorem family_allocated (state : State CpuId) (creator : Int) (slot : Slot) :
    (state.allocated creator slot).family = state.family.allocated creator slot := by
  simp only [State.family, State.allocated, Family.allocated, Family.mk.injEq,
    setProc_boot, and_self, and_true]
  funext other
  exact Function.apply_update (fun _ => Proc.life) state.proc slot _ other

omit [DecidableEq CpuId] in
@[simp] theorem family_setEax (state : State CpuId) (cur : Slot) (value : Int) :
    (state.setEax cur value).family = state.family :=
  family_setProc_same rfl

@[simp] theorem family_sched (state : State CpuId) (cpu : CpuId) :
    (state.sched cpu).family = state.family := rfl

@[simp] theorem family_release (state : State CpuId) (cpu : CpuId) :
    (state.release cpu).family = state.family := rfl

theorem family_waitReturn (state : State CpuId) (cpu : CpuId) (cur : Slot) (value : Int) :
    (state.waitReturn cpu cur value).family = state.family.waitReturn value := by
  rw [← family_setEax state cur value]
  rfl

omit [DecidableEq CpuId] in
theorem family_initproc (state : State CpuId) : state.family.initproc = state.initproc := rfl

/-- A woken process has the life it had. -/
theorem Woken.phase {old new : Proc} (woken : Woken old new) :
    new.state.phase = old.state.phase := by
  rcases woken.state with same | ⟨slept, isRunnable⟩
  · rw [same]
  · rw [slept, isRunnable]
    rfl

omit [DecidableEq CpuId] in
theorem family_wakeup1 (state : State CpuId) (chan : Option Chan) :
    State.family { state with proc := wakeup1 state.proc chan } = state.family := by
  have same : ∀ slot, (wakeup1 state.proc chan slot).life = (state.proc slot).life := by
    intro slot
    have woken := wakeup1_woken state.proc chan slot
    simp only [Proc.life, woken.phase, woken.pid, woken.call, wakeup1_parent]
  simp only [State.family, same]

theorem family_exit {cpu : CpuId} {cur : Slot} (survives : state.initproc ≠ some cur) :
    (state.exit cpu cur).family = state.family.exit cur := by
  simp only [State.family, Family.exit, Family.mk.injEq]
  refine ⟨?_, rfl, rfl, rfl, rfl, rfl⟩
  funext slot
  obtain ⟨woken, parent⟩ := handedOver_spec survives slot
  rw [exit_proc]
  by_cases here : slot = cur
  · subst here
    rw [Function.update_self, if_pos rfl]
    simp only [Proc.life, woken.pid, woken.call, parent, ← family_initproc]
    rfl
  · rw [Function.update_of_ne here, if_neg here]
    simp only [Proc.life, woken.phase, woken.pid, woken.call, parent, ← family_initproc]
    rfl

omit [DecidableEq CpuId] in
theorem family_kill (state : State CpuId) (cur : Slot) (pid : Int) :
    (state.kill cur pid).family = state.family := by
  unfold State.kill
  split
  · next p _ =>
      rw [family_setEax, family_setProc_same]
      by_cases slept : (state.proc p).state = .sleeping
      · simp [Proc.kill, Proc.life, slept, ProcState.phase]
      · simp [Proc.kill, Proc.life, slept]
  · exact family_setEax ..

omit [DecidableEq CpuId] in
theorem family_chpr (state : State CpuId) (cur : Slot) (pid priority : Int) :
    (state.chpr cur pid priority).family = state.family := by
  unfold State.chpr
  split
  · next p _ =>
      rw [family_setEax]
      exact family_setProc_same rfl
  · exact family_setEax ..

/-! ## Refinement -/

/-- A step in which `wait`, called by `cur`, returns a value to it. -/
def Waits (state : State CpuId) (action : Action CpuId) (after : State CpuId) (cur : Slot)
    (value : Int) : Prop :=
  ∃ cpu, (state.cpu cpu).proc = some cur ∧
    (action = .op cpu .wait ∨
      action = .resume cpu ∧ (state.proc cur).context = .waiting) ∧
    (after.proc cur).eax = value

/-- Running processes are the ones that `c->proc` of some CPU points to. -/
def Current (state : State CpuId) : Prop :=
  ∀ cpu slot, (state.cpu cpu).proc = some slot → (state.proc slot).state = .running

/-- A scan of `wait` is a return from `wait`, or changes no life. -/
theorem refines_waitScan {cpu : CpuId} {cur : Slot}
    (running : (state.proc cur).state = .running)
    (scanned : WaitScanned state cpu cur after) :
    ∃ event, Family.Step state.family event after.family ∧
      ∀ waiter value, event = .waitReturn waiter value →
        waiter = cur ∧ (after.proc cur).eax = value := by
  cases scanned with
  | reap child parent zombie =>
      refine ⟨.waitReturn cur (state.proc child).pid, ?_, ?_⟩
      · rw [family_waitReturn, family_setProc]
        have abandoned : (state.proc child).reaped.life =
            { (state.proc child).life with phase := .unused, pid := 0, parent := none } := rfl
        rw [abandoned]
        apply Family.Step.reap
        · exact parent
        · simpa [State.family, Proc.life] using zombie
      · rintro waiter value ⟨⟩
        simp [State.waitReturn, State.setEax]
  | fail =>
      refine ⟨.waitReturn cur (-1), ?_, ?_⟩
      · rw [family_waitReturn]
        exact .waitFail cur
      · rintro waiter value ⟨⟩
        simp [State.waitReturn, State.setEax]
  | sleep =>
      refine ⟨.other, ?_, by simp⟩
      have same : (state.sleep cpu cur (.proc cur) .waiting).family = state.family :=
        family_setProc_same (by simp [Proc.life, running, ProcState.phase])
      rw [same]
      exact .stutter

/-- What a process does on its own is a step of the life cycles, and a return
from `wait` only when it calls `wait`. -/
theorem refines_op {cpu : CpuId} {cur : Slot} {op : Op}
    (running : (state.proc cur).state = .running)
    (performed : Performed state cpu cur op after) :
    ∃ event, Family.Step state.family event after.family ∧
      ∀ waiter value, event = .waitReturn waiter value →
        waiter = cur ∧ op = .wait ∧ (after.proc cur).eax = value := by
  have live : (state.family.life cur).phase = .live := by
    simp [State.family, Proc.life, running]
  cases performed with
  | noSlot => exact ⟨.other, by rw [family_setEax]; exact .stutter, by simp⟩
  | fork child idle free =>
      refine ⟨.other, ?_, by simp⟩
      have different : cur ≠ child := by
        rintro rfl
        simp [running] at free
      have same : (state.allocated (state.proc cur).pid child).proc cur = state.proc cur := by
        simp [State.allocated, different]
      rw [family_setProc, family_allocated, same]
      exact .create cur child live idle (by simpa [State.family, Proc.life] using free)
  | forkFail child calls =>
      refine ⟨.other, ?_, by simp⟩
      rw [State.forkFail, family_setProc, family_setProc]
      exact .fail cur child calls
  | forkParent child calls =>
      refine ⟨.other, ?_, by simp⟩
      rw [State.forkParent, family_setProc, family_setProc]
      exact .adopt cur child calls
  | forkRun child calls =>
      refine ⟨.other, ?_, by simp⟩
      rw [State.forkRun, family_setProc, family_setProc]
      exact .start cur child calls
  | exit idle survives =>
      refine ⟨.other, ?_, by simp⟩
      rw [family_exit survives]
      exact .exit cur live idle survives
  | wait idle =>
      obtain ⟨event, step, returns⟩ :=
        refines_waitScan running (waitScan_scanned state cpu cur)
      exact ⟨event, step, fun waiter value isReturn =>
        ⟨(returns waiter value isReturn).1, rfl, (returns waiter value isReturn).2⟩⟩
  | yield =>
      refine ⟨.other, ?_, by simp⟩
      rw [family_sched, family_setProc_same (by simp [Proc.life, running, ProcState.phase])]
      exact .stutter
  | sleep chan idle =>
      refine ⟨.other, ?_, by simp⟩
      rw [State.sleep, family_sched,
        family_setProc_same (by simp [Proc.life, running, ProcState.phase])]
      exact .stutter
  | kill pid => exact ⟨.other, by rw [family_kill]; exact .stutter, by simp⟩
  | chpr pid priority => exact ⟨.other, by rw [family_chpr]; exact .stutter, by simp⟩
  | exec =>
      refine ⟨.other, ?_, by simp [State.exec]⟩
      rw [State.exec, family_setProc_same (by rfl)]
      exact .stutter
  | fault => exact ⟨.other, by rw [family_setProc_same (by rfl)]; exact .stutter, by simp⟩

/-- Every step of the process table is a step of the life cycles. -/
theorem refines {action : Action CpuId} (current : Current state)
    (step : Step state action after) :
    ∃ event, Family.Step state.family event after.family ∧
      ∀ waiter value, event = .waitReturn waiter value →
        Waits state action after waiter value := by
  cases step with
  | userinit init before free =>
      refine ⟨.other, ?_, by simp⟩
      have created : Family.Step state.family .other
          { state.family.allocated 0 init with boot := .allocated init } :=
        .bootCreate init before (by simpa [State.family, Proc.life] using free)
      rw [← family_allocated] at created
      exact created
  | userinitRun init booting =>
      refine ⟨.other, ?_, by simp⟩
      have started : Family.Step state.family .other
          { state.family.setLife init { state.family.life init with phase := .live } with
            boot := .done init } := .bootStart init booting
      have life : ({ state.proc init with state := .runnable } : Proc).life =
          { state.family.life init with phase := .live } := rfl
      rw [← life, ← family_setProc] at started
      exact started
  | acquire cpu idle free => exact ⟨.other, .stutter, by simp⟩
  | dispatch cpu p scanning chosen =>
      refine ⟨.other, ?_, by simp⟩
      have runnable := scan_runnable chosen
      have same : (state.setProc p { state.proc p with state := .running }).family =
          state.family :=
        family_setProc_same (by simp [Proc.life, runnable, ProcState.phase])
      have unchanged : Family.Step state.family .other state.family := .stutter
      rw [← same] at unchanged ⊢
      exact unchanged
  | endOfTable cpu scanning ended => exact ⟨.other, .stutter, by simp⟩
  | resume cpu cur resumed isCur => exact ⟨.other, .stutter, by simp⟩
  | resumeSlept cpu cur resumed isCur =>
      refine ⟨.other, ?_, by simp⟩
      rw [family_release, family_setProc_same (by rfl)]
      exact .stutter
  | resumeWait cpu cur resumed isCur waiting =>
      have running : ((state.setProc cur { state.proc cur with chan := none }).proc cur).state =
          .running := by simpa using current cpu cur isCur
      obtain ⟨event, step, returns⟩ := refines_waitScan running (waitScan_scanned _ cpu cur)
      rw [family_setProc_same (by rfl)] at step
      refine ⟨event, step, fun waiter value isReturn => ?_⟩
      obtain ⟨rfl, eax⟩ := returns waiter value isReturn
      exact ⟨cpu, isCur, .inr ⟨rfl, waiting⟩, eax⟩
  | op cpu cur op isRunning isCur performed =>
      obtain ⟨event, step, returns⟩ := refines_op (current cpu cur isCur) performed
      refine ⟨event, step, fun waiter value isReturn => ?_⟩
      obtain ⟨rfl, rfl, eax⟩ := returns waiter value isReturn
      exact ⟨cpu, isCur, .inl rfl, eax⟩
  | wakeup cpu chan =>
      refine ⟨.other, ?_, by simp⟩
      rw [family_wakeup1]
      exact .stutter

end Coursework.ProcTable
