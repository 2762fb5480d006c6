import Coursework.ProcRefinement

/-!
# Strict priority and exclusivity of dispatch

Every CPU that executes a process points to it with `c->proc`, and a slot is
`RUNNING` exactly when one CPU points to it.  The choice made by the scan is
the `RUNNABLE` slot of least priority value at that moment, because the scan and
the choice happen under one hold of `ptable.lock`.
-/

namespace Coursework.ProcTable

variable {CpuId : Type*} [DecidableEq CpuId] {state after : State CpuId}

/-- The CPU executes `scheduler` and no process. -/
def Mode.inScheduler : Mode → Bool
  | idle | scanning => true
  | resumed | running => false

/-- A slot is `RUNNING` exactly when a CPU points to it, and no two CPUs point to
one slot. -/
structure Exclusive (state : State CpuId) : Prop where
  away : ∀ cpu, (state.cpu cpu).mode.inScheduler = true → (state.cpu cpu).proc = none
  running : ∀ slot, (state.proc slot).state = .running ↔
    ∃ cpu, (state.cpu cpu).proc = some slot
  unique : ∀ first second slot, (state.cpu first).proc = some slot →
    (state.cpu second).proc = some slot → first = second

namespace Exclusive

omit [DecidableEq CpuId] in
theorem current (exclusive : Exclusive state) : Current state :=
  fun cpu slot isCur => (exclusive.running slot).mpr ⟨cpu, isCur⟩

omit [DecidableEq CpuId] in
/-- A step that moves no process to or from a CPU. -/
theorem steady (exclusive : Exclusive state)
    (procs : ∀ slot, (after.proc slot).state = .running ↔ (state.proc slot).state = .running)
    (cpus : ∀ cpu, (after.cpu cpu).proc = (state.cpu cpu).proc)
    (modes : ∀ cpu, (after.cpu cpu).mode.inScheduler = true →
      (state.cpu cpu).mode.inScheduler = true) : Exclusive after := by
  constructor
  · intro cpu away
    rw [cpus]
    exact exclusive.away cpu (modes cpu away)
  · intro slot
    rw [procs, exclusive.running]
    simp only [cpus]
  · intro first second slot
    rw [cpus, cpus]
    exact exclusive.unique first second slot

/-- A CPU without a process takes one that no CPU has. -/
theorem dispatch (exclusive : Exclusive state) {cpu : CpuId} {p : Slot}
    (vacant : (state.cpu cpu).proc = none) (stopped : (state.proc p).state ≠ .running)
    (cpus : ∀ other, (after.cpu other).proc =
      if other = cpu then some p else (state.cpu other).proc)
    (modes : ∀ other, (after.cpu other).mode.inScheduler = true →
      other ≠ cpu ∧ (state.cpu other).mode.inScheduler = true)
    (procs : ∀ slot, (after.proc slot).state = .running ↔
      slot = p ∨ (state.proc slot).state = .running) : Exclusive after := by
  have notP : ∀ other, (state.cpu other).proc ≠ some p :=
    fun other isP => stopped ((exclusive.running p).mpr ⟨other, isP⟩)
  constructor
  · intro other away
    obtain ⟨different, wasAway⟩ := modes other away
    rw [cpus, if_neg different]
    exact exclusive.away other wasAway
  · intro slot
    rw [procs, exclusive.running]
    constructor
    · rintro (rfl | ⟨other, isCur⟩)
      · exact ⟨cpu, by rw [cpus, if_pos rfl]⟩
      · refine ⟨other, ?_⟩
        rw [cpus, if_neg, isCur]
        rintro rfl
        rw [vacant] at isCur
        cases isCur
    · rintro ⟨other, isCur⟩
      rw [cpus] at isCur
      by_cases here : other = cpu
      · rw [if_pos here] at isCur
        exact .inl (Option.some.inj isCur).symm
      · rw [if_neg here] at isCur
        exact .inr ⟨other, isCur⟩
  · intro first second slot firstIs secondIs
    rw [cpus] at firstIs secondIs
    by_cases firstHere : first = cpu <;> by_cases secondHere : second = cpu
    · rw [firstHere, secondHere]
    · rw [if_pos firstHere] at firstIs
      rw [if_neg secondHere, ← firstIs] at secondIs
      exact absurd secondIs (notP second)
    · rw [if_pos secondHere] at secondIs
      rw [if_neg firstHere, ← secondIs] at firstIs
      exact absurd firstIs (notP first)
    · rw [if_neg firstHere] at firstIs
      rw [if_neg secondHere] at secondIs
      exact exclusive.unique first second slot firstIs secondIs

/-- A process leaves its CPU. -/
theorem leave (exclusive : Exclusive state) {cpu : CpuId} {cur : Slot}
    (isCur : (state.cpu cpu).proc = some cur)
    (cpus : ∀ other, (after.cpu other).proc =
      if other = cpu then none else (state.cpu other).proc)
    (modes : ∀ other, other ≠ cpu → (after.cpu other).mode.inScheduler = true →
      (state.cpu other).mode.inScheduler = true)
    (procs : ∀ slot, (after.proc slot).state = .running ↔
      slot ≠ cur ∧ (state.proc slot).state = .running) : Exclusive after := by
  constructor
  · intro other away
    rw [cpus]
    by_cases here : other = cpu
    · rw [if_pos here]
    · rw [if_neg here]
      exact exclusive.away other (modes other here away)
  · intro slot
    rw [procs, exclusive.running]
    constructor
    · rintro ⟨different, other, isSlot⟩
      refine ⟨other, ?_⟩
      rw [cpus, if_neg, isSlot]
      rintro rfl
      rw [isCur] at isSlot
      exact different (Option.some.inj isSlot).symm
    · rintro ⟨other, isSlot⟩
      rw [cpus] at isSlot
      by_cases here : other = cpu
      · rw [if_pos here] at isSlot
        cases isSlot
      · rw [if_neg here] at isSlot
        refine ⟨?_, other, isSlot⟩
        rintro rfl
        exact here (exclusive.unique other cpu slot isSlot isCur)
  · intro first second slot firstIs secondIs
    rw [cpus] at firstIs secondIs
    by_cases firstHere : first = cpu
    · rw [if_pos firstHere] at firstIs
      cases firstIs
    · by_cases secondHere : second = cpu
      · rw [if_pos secondHere] at secondIs
        cases secondIs
      · rw [if_neg firstHere] at firstIs
        rw [if_neg secondHere] at secondIs
        exact exclusive.unique first second slot firstIs secondIs

end Exclusive

/-! ## Steps -/

theorem Woken.running_iff {old new : Proc} (woken : Woken old new) :
    new.state = .running ↔ old.state = .running := by
  rcases woken.state with same | ⟨slept, isRunnable⟩
  · rw [same]
  · simp [slept, isRunnable]

namespace Exclusive

omit [DecidableEq CpuId] in
/-- Changing a slot that is neither `RUNNING` before nor after, or both. -/
theorem setProc (exclusive : Exclusive state) {slot : Slot} {proc : Proc}
    (same : proc.state = .running ↔ (state.proc slot).state = .running) :
    Exclusive (state.setProc slot proc) := by
  refine exclusive.steady (fun other => ?_) (fun _ => rfl) (fun _ away => away)
  by_cases here : other = slot
  · subst here
    simpa using same
  · simp [here]

omit [DecidableEq CpuId] in
theorem setEax (exclusive : Exclusive state) (cur : Slot) (value : Int) :
    Exclusive (state.setEax cur value) :=
  exclusive.setProc Iff.rfl

theorem release (exclusive : Exclusive state) (cpu : CpuId) :
    Exclusive (state.release cpu) := by
  refine exclusive.steady (fun _ => Iff.rfl) (fun other => ?_) (fun other away => ?_)
  · by_cases here : other = cpu
    · subst here
      simp
    · simp [here]
  · by_cases here : other = cpu
    · subst here
      simp [Mode.inScheduler] at away
    · simpa [here] using away

/-- `sched` by a process that has changed its state. -/
theorem sched (exclusive : Exclusive state) {cpu : CpuId} {cur : Slot} {proc : Proc}
    (isCur : (state.cpu cpu).proc = some cur) (stops : proc.state ≠ .running) :
    Exclusive ((state.setProc cur proc).sched cpu) := by
  refine exclusive.leave isCur (fun other => ?_) (fun other different away => ?_)
    (fun slot => ?_)
  · by_cases here : other = cpu
    · subst here
      simp
    · simp [here]
  · simpa [different] using away
  · by_cases here : slot = cur
    · subst here
      simpa using stops
    · simp [here]

theorem waitReturn (exclusive : Exclusive state) (cpu : CpuId) (cur : Slot) (value : Int) :
    Exclusive (state.waitReturn cpu cur value) := by
  have released := (exclusive.setEax cur value).release cpu
  exact released.steady (fun _ => Iff.rfl) (fun _ => rfl) (fun _ away => away)

theorem waitScan (exclusive : Exclusive state) {cpu : CpuId} {cur : Slot}
    (isCur : (state.cpu cpu).proc = some cur) (scanned : WaitScanned state cpu cur after) :
    Exclusive after := by
  cases scanned with
  | reap child parent zombie =>
      apply waitReturn
      exact exclusive.setProc (by simp [Proc.reaped, zombie])
  | fail => exact exclusive.waitReturn cpu cur (-1)
  | sleep => exact exclusive.sched isCur (by simp)

theorem exit (exclusive : Exclusive state) {cpu : CpuId} {cur : Slot}
    (isCur : (state.cpu cpu).proc = some cur) (survives : state.initproc ≠ some cur) :
    Exclusive (state.exit cpu cur) := by
  have handedOver : Exclusive { state with proc := state.handedOver cur } :=
    exclusive.steady (fun slot => (handedOver_spec survives slot).1.running_iff)
      (fun _ => rfl) (fun _ away => away)
  exact handedOver.sched isCur (by simp)

omit [DecidableEq CpuId] in
theorem kill (exclusive : Exclusive state) (cur : Slot) (pid : Int) :
    Exclusive (state.kill cur pid) := by
  unfold State.kill
  split
  · next p _ =>
      apply setEax
      apply exclusive.setProc
      by_cases slept : (state.proc p).state = .sleeping
      · simp [Proc.kill, slept]
      · simp [Proc.kill, slept]
  · exact exclusive.setEax cur (-1)

omit [DecidableEq CpuId] in
theorem chpr (exclusive : Exclusive state) (cur : Slot) (pid priority : Int) :
    Exclusive (state.chpr cur pid priority) := by
  unfold State.chpr
  split
  · apply setEax
    exact exclusive.setProc Iff.rfl
  · exact exclusive.setEax cur pid

omit [DecidableEq CpuId] in
theorem allocated (exclusive : Exclusive state) (creator : Int) {child : Slot}
    (free : (state.proc child).state = .unused) :
    Exclusive (state.allocated creator child) := by
  have embryo : Exclusive (state.setProc child { state.proc child with
      state := .embryo, pid := state.nextpid, priority := 10, context := .forkret,
      call := .none }) := exclusive.setProc (by simp [free])
  exact embryo.steady (fun _ => Iff.rfl) (fun _ => rfl) (fun _ away => away)

theorem op (exclusive : Exclusive state) (owned : state.family.Owned) {cpu : CpuId}
    {cur : Slot} {op : Op} (isCur : (state.cpu cpu).proc = some cur)
    (performed : Performed state cpu cur op after) : Exclusive after := by
  have embryo : ∀ child, (state.proc cur).call.child = some child →
      (state.proc child).state = .embryo := by
    intro child calls
    simpa [State.family, Proc.life] using owned.embryo cur child calls
  cases performed with
  | noSlot => exact exclusive.setEax cur (-1)
  | fork child idle free =>
      exact (exclusive.allocated _ free).setProc Iff.rfl
  | forkFail child calls =>
      have setUp := embryo child (by simp [calls, Call.child])
      have freed : Exclusive (state.setProc child { state.proc child with state := .unused }) :=
        exclusive.setProc (by simp [setUp])
      apply freed.setProc
      by_cases here : cur = child
      · simp [here, setUp]
      · simp [here]
  | forkParent child calls =>
      have adopted : Exclusive
          (state.setProc child { state.proc child with parent := some cur }) :=
        exclusive.setProc Iff.rfl
      apply adopted.setProc
      by_cases here : cur = child
      · simp [here]
      · simp [here]
  | forkRun child calls =>
      have setUp := embryo child (by simp [calls, Call.child])
      have started : Exclusive
          (state.setProc child { state.proc child with state := .runnable, eax := 0 }) :=
        exclusive.setProc (by simp [setUp])
      apply started.setProc
      by_cases here : cur = child
      · simp [here, setUp]
      · simp [here]
  | exit idle survives => exact exclusive.exit isCur survives
  | wait idle => exact exclusive.waitScan isCur (waitScan_scanned state cpu cur)
  | yield => exact exclusive.sched isCur (by simp)
  | sleep chan idle => exact exclusive.sched isCur (by simp)
  | kill pid => exact exclusive.kill cur pid
  | chpr pid priority => exact exclusive.chpr cur pid priority
  | exec => exact exclusive.setProc Iff.rfl
  | fault => exact exclusive.setProc Iff.rfl

theorem step {action : Action CpuId} (exclusive : Exclusive state)
    (owned : state.family.Owned) (step : Step state action after) : Exclusive after := by
  cases step with
  | userinit init before free =>
      exact (exclusive.allocated 0 free).steady (fun _ => Iff.rfl) (fun _ => rfl)
        (fun _ away => away)
  | userinitRun init booting =>
      have setUp : (state.proc init).state = .embryo := by
        simpa [State.family, Proc.life] using (owned.boot init booting).1
      have started : Exclusive
          (state.setProc init { state.proc init with state := .runnable }) :=
        exclusive.setProc (by simp [setUp])
      exact started.steady (fun _ => Iff.rfl) (fun _ => rfl) (fun _ away => away)
  | acquire cpu idle free =>
      have vacant := exclusive.away cpu (by rw [idle]; rfl)
      refine exclusive.steady (fun _ => Iff.rfl) (fun other => ?_) (fun other away => ?_)
      · by_cases here : other = cpu
        · subst here
          simp [vacant]
        · simp [here]
      · by_cases here : other = cpu
        · rw [here, idle]
          rfl
        · simpa [here] using away
  | dispatch cpu p scanning chosen =>
      have vacant := exclusive.away cpu (by rw [scanning]; rfl)
      refine exclusive.dispatch vacant (by simp [scan_runnable chosen]) (p := p)
        (fun other => ?_) (fun other away => ?_) (fun slot => ?_)
      · by_cases here : other = cpu
        · subst here
          simp
        · simp [here]
      · by_cases here : other = cpu
        · subst here
          simp [Mode.inScheduler] at away
        · exact ⟨here, by simpa [here] using away⟩
      · by_cases here : slot = p
        · subst here
          simp
        · simp [here]
  | endOfTable cpu scanning ended =>
      have vacant := exclusive.away cpu (by rw [scanning]; rfl)
      refine exclusive.steady (fun _ => Iff.rfl) (fun other => ?_) (fun other away => ?_)
      · by_cases here : other = cpu
        · subst here
          simp [vacant]
        · simp [here]
      · by_cases here : other = cpu
        · rw [here, scanning]
          rfl
        · simpa [here] using away
  | resume cpu cur resumed isCur => exact exclusive.release cpu
  | resumeSlept cpu cur resumed isCur =>
      have tidied : Exclusive (state.setProc cur { state.proc cur with chan := none }) :=
        exclusive.setProc Iff.rfl
      exact tidied.release cpu
  | resumeWait cpu cur resumed isCur waiting =>
      have tidied : Exclusive (state.setProc cur { state.proc cur with chan := none }) :=
        exclusive.setProc Iff.rfl
      exact tidied.waitScan isCur (waitScan_scanned _ cpu cur)
  | op cpu cur op running isCur performed => exact exclusive.op owned isCur performed
  | wakeup cpu chan =>
      exact exclusive.steady (fun slot => (wakeup1_woken _ _ slot).running_iff)
        (fun _ => rfl) (fun _ away => away)

end Exclusive

/-! ## Runs -/

/-- The kernel as it boots. -/
def IsInitial (state : State CpuId) : Prop := state = State.initial

theorem exclusive_and_owned (run : Run State.step anyStep IsInitial state) :
    Exclusive state ∧ state.family.Owned := by
  induction run with
  | start isInitial =>
      subst isInitial
      refine ⟨⟨fun _ _ => rfl, ?_, ?_⟩, ?_⟩
      · simp [State.initial, Proc.zero]
      · simp [State.initial]
      · constructor <;>
          simp [State.family, State.initial, Proc.zero, Proc.life, Call.child]
  | next action _ _ taken ih =>
      obtain ⟨exclusive, owned⟩ := ih
      have step := Step.of_step action taken
      obtain ⟨event, lives, _⟩ := refines exclusive.current step
      exact ⟨exclusive.step owned step, owned.step lives⟩

/-- A step makes `c->proc` of a CPU point to a slot. -/
def Dispatches (state after : State CpuId) (cpu : CpuId) (p : Slot) : Prop :=
  (after.cpu cpu).proc = some p ∧ (state.cpu cpu).proc ≠ some p

theorem sched_keeps (state : State CpuId) (cpu other : CpuId) {p : Slot}
    (points : ((state.sched cpu).cpu other).proc = some p) :
    (state.cpu other).proc = some p := by
  by_cases here : other = cpu
  · subst here
    simp at points
  · simpa [here] using points

theorem release_keeps (state : State CpuId) (cpu other : CpuId) {p : Slot}
    (points : ((state.release cpu).cpu other).proc = some p) :
    (state.cpu other).proc = some p := by
  by_cases here : other = cpu
  · subst here
    simpa using points
  · simpa [here] using points

theorem waitScan_keeps {cpu other : CpuId} {cur p : Slot}
    (scanned : WaitScanned state cpu cur after)
    (points : (after.cpu other).proc = some p) : (state.cpu other).proc = some p := by
  cases scanned with
  | reap child parent zombie => exact release_keeps _ cpu other points
  | fail => exact release_keeps _ cpu other points
  | sleep => exact sched_keeps _ cpu other points

omit [DecidableEq CpuId] in
theorem kill_cpu (state : State CpuId) (cur : Slot) (pid : Int) :
    (state.kill cur pid).cpu = state.cpu := by
  unfold State.kill
  split <;> rfl

omit [DecidableEq CpuId] in
theorem chpr_cpu (state : State CpuId) (cur : Slot) (pid priority : Int) :
    (state.chpr cur pid priority).cpu = state.cpu := by
  unfold State.chpr
  split <;> rfl

theorem Performed.keeps {cpu other : CpuId} {cur p : Slot} {op : Op}
    (performed : Performed state cpu cur op after)
    (points : (after.cpu other).proc = some p) : (state.cpu other).proc = some p := by
  cases performed with
  | exit idle survives => exact sched_keeps _ cpu other points
  | wait idle => exact waitScan_keeps (waitScan_scanned state cpu cur) points
  | yield => exact sched_keeps _ cpu other points
  | sleep chan idle => exact sched_keeps _ cpu other points
  | kill pid => rwa [kill_cpu] at points
  | chpr pid priority => rwa [chpr_cpu] at points
  | _ => exact points

/-- Only the scan of a scheduler dispatches. -/
theorem Step.scans {action : Action CpuId} {cpu : CpuId} {p : Slot}
    (step : Step state action after) (dispatches : Dispatches state after cpu p) :
    scan state.proc (state.cpu cpu).position = some p := by
  obtain ⟨points, new⟩ := dispatches
  cases step with
  | acquire other idle free =>
      by_cases here : cpu = other
      · subst here
        simp at points
      · exact absurd (by simpa [here] using points) new
  | dispatch other q scanning chosen =>
      by_cases here : cpu = other
      · subst here
        rw [chosen]
        simpa using points
      · exact absurd (by simpa [here] using points) new
  | endOfTable other scanning ended =>
      by_cases here : cpu = other
      · subst here
        simp at points
      · exact absurd (by simpa [here] using points) new
  | resume other cur resumed isCur => exact absurd (release_keeps _ other cpu points) new
  | resumeSlept other cur resumed isCur =>
      exact absurd (release_keeps _ other cpu points) new
  | resumeWait other cur resumed isCur waiting =>
      exact absurd (waitScan_keeps (waitScan_scanned _ other cur) points) new
  | op other cur op running isCur performed => exact absurd (performed.keeps points) new
  | userinit init before free => exact absurd points new
  | userinitRun init booting => exact absurd points new
  | wakeup other chan => exact absurd points new

/-- On any number of CPUs, every dispatch in a run takes a `RUNNABLE` process
that no `RUNNABLE` process precedes in priority; a slot is `RUNNING` exactly when
one CPU points to it; and a slot that becomes `RUNNING` was `RUNNABLE`. -/
theorem dispatch_strict_exclusive (run : Run State.step anyStep IsInitial state) :
    (∀ action after cpu p, state.step action = some after → Dispatches state after cpu p →
      (state.proc p).state = .runnable ∧
        ∀ other, (state.proc other).state = .runnable →
          (state.proc p).priority ≤ (state.proc other).priority) ∧
    (∀ slot, (state.proc slot).state = .running ↔
      ∃! cpu, (state.cpu cpu).proc = some slot) ∧
    (∀ action after p, state.step action = some after →
      (state.proc p).state ≠ .running → (after.proc p).state = .running →
      (state.proc p).state = .runnable) := by
  obtain ⟨exclusive, owned⟩ := exclusive_and_owned run
  refine ⟨?_, ?_, ?_⟩
  · intro action after cpu p taken dispatches
    have chosen := (Step.of_step action taken).scans dispatches
    exact ⟨scan_runnable chosen, fun other runnable => scan_least chosen runnable⟩
  · intro slot
    rw [exclusive.running]
    constructor
    · rintro ⟨cpu, points⟩
      exact ⟨cpu, points, fun other also => exclusive.unique other cpu slot also points⟩
    · rintro ⟨cpu, points, _⟩
      exact ⟨cpu, points⟩
  · intro action after p taken stopped running
    have step := Step.of_step action taken
    obtain ⟨cpu, points⟩ := ((exclusive.step owned step).running p).mp running
    have new : (state.cpu cpu).proc ≠ some p :=
      fun before => stopped ((exclusive.running p).mpr ⟨cpu, before⟩)
    exact scan_runnable (step.scans ⟨points, new⟩)

/-- The first process runs on CPU 0, forks a child, raises its priority, and
CPU 1 is about to dispatch the child. -/
def childReady : List (Action (Fin 2)) :=
  [.userinit, .userinitRun, .acquire 0, .schedule 0, .resume 0, .op 0 .fork,
    .op 0 .forkParent, .op 0 .forkRun, .op 0 (.chpr 2 3), .acquire 1]

theorem childReady_enabled :
    (execute State.step (fun _ _ => true) (State.initial : State (Fin 2))
      childReady).isSome = true := by
  decide +kernel

theorem dispatch_strict_exclusive_childReady :
    ∃ state after : State (Fin 2), state.step (.schedule 1) = some after ∧
      Dispatches state after 1 1 ∧ (state.proc 1).priority = 3 ∧
      (state.proc 1).state = .runnable ∧ (state.proc 0).state = .running := by
  have isInitial : IsInitial (State.initial : State (Fin 2)) := rfl
  have run := run_lastState isInitial childReady childReady_enabled
  obtain ⟨strict, exclusive, -⟩ :=
    dispatch_strict_exclusive (run.mono fun _ _ _ => trivial)
  obtain ⟨after, taken⟩ := Option.isSome_iff_exists.mp (show
    ((lastState State.step _ _ _ childReady_enabled).step (.schedule 1)).isSome = true by
      decide +kernel)
  have dispatches : Dispatches (lastState State.step _ _ _ childReady_enabled) after 1 1 := by
    constructor
    · have points : (((lastState State.step _ _ _ childReady_enabled).step
          (.schedule 1)).map fun state => (state.cpu 1).proc) = some (some 1) := by
        decide +kernel
      rw [taken] at points
      simpa using points
    · decide +kernel
  refine ⟨_, after, taken, dispatches, by decide +kernel,
    (strict _ after 1 1 taken dispatches).1, (exclusive 0).mpr ⟨0, ?_, ?_⟩⟩
  · decide +kernel
  · decide +kernel

end Coursework.ProcTable
