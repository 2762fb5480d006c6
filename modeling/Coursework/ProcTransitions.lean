import Coursework.ProcTable

/-!
# What one step of the process table can do

`Step.of_step` lists the steps once, with the facts that enable each of them.
The other results describe the loops over the table: the first slot that passes
a test, the effect of `wakeup1`, and the loop of `exit` that passes the
abandoned children to `initproc`.
-/

namespace Coursework.ProcTable

variable {CpuId : Type*} [DecidableEq CpuId]

section Projections

variable (state : State CpuId) (cpu : CpuId) (slot : Slot) (proc : Proc) (entry : Cpu)

omit [DecidableEq CpuId] in
@[simp] theorem setProc_proc :
    (state.setProc slot proc).proc = Function.update state.proc slot proc := rfl

omit [DecidableEq CpuId] in
@[simp] theorem setProc_cpu : (state.setProc slot proc).cpu = state.cpu := rfl

omit [DecidableEq CpuId] in
@[simp] theorem setProc_boot : (state.setProc slot proc).boot = state.boot := rfl

omit [DecidableEq CpuId] in
@[simp] theorem setProc_nextpid : (state.setProc slot proc).nextpid = state.nextpid := rfl

omit [DecidableEq CpuId] in
@[simp] theorem setProc_history : (state.setProc slot proc).history = state.history := rfl

omit [DecidableEq CpuId] in
@[simp] theorem setEax_cpu (value : Int) : (state.setEax slot value).cpu = state.cpu := rfl

@[simp] theorem setCpu_proc : (state.setCpu cpu entry).proc = state.proc := rfl

@[simp] theorem setCpu_cpu :
    (state.setCpu cpu entry).cpu = Function.update state.cpu cpu entry := rfl

@[simp] theorem setCpu_boot : (state.setCpu cpu entry).boot = state.boot := rfl

@[simp] theorem setCpu_nextpid : (state.setCpu cpu entry).nextpid = state.nextpid := rfl

@[simp] theorem setCpu_history : (state.setCpu cpu entry).history = state.history := rfl

@[simp] theorem sched_proc : (state.sched cpu).proc = state.proc := rfl

@[simp] theorem sched_cpu :
    (state.sched cpu).cpu = Function.update state.cpu cpu
      { mode := .scanning, proc := none, position := (state.cpu cpu).position + 1 } := rfl

@[simp] theorem sched_boot : (state.sched cpu).boot = state.boot := rfl

@[simp] theorem sched_nextpid : (state.sched cpu).nextpid = state.nextpid := rfl

@[simp] theorem sched_history : (state.sched cpu).history = state.history := rfl

@[simp] theorem release_proc : (state.release cpu).proc = state.proc := rfl

@[simp] theorem release_cpu :
    (state.release cpu).cpu = Function.update state.cpu cpu
      { state.cpu cpu with mode := .running } := rfl

@[simp] theorem release_boot : (state.release cpu).boot = state.boot := rfl

@[simp] theorem release_nextpid : (state.release cpu).nextpid = state.nextpid := rfl

@[simp] theorem release_history : (state.release cpu).history = state.history := rfl

end Projections

/-! ## Loops over the table -/

theorem mem_slots (slot : Slot) : slot ∈ slots := List.mem_finRange slot

theorem firstSlot_eq_some {test : Slot → Bool} {slot : Slot}
    (found : firstSlot test = some slot) : test slot = true :=
  List.find?_some found

/-! ### The choice of the scheduler -/

theorem highP_runnable {table : Slot → Proc} {p : Slot}
    (runnable : (table p).state = .runnable) : (table (highP table p)).state = .runnable := by
  have eligible : isRunnable table (highP table p) = true :=
    selectLeast_eligible slots (by simpa [isRunnable] using runnable)
  simpa [isRunnable] using eligible

theorem highP_least (table : Slot → Proc) (p : Slot) {other : Slot}
    (runnable : (table other).state = .runnable) :
    (table (highP table p)).priority ≤ (table other).priority := by
  have eligible : isRunnable table other = true := by simpa [isRunnable] using runnable
  exact selectLeast_le_of_mem (fun slot => (table slot).priority) p
    (mem_slots other) eligible

theorem scan_runnable {table : Slot → Proc} {position : Nat} {p : Slot}
    (chosen : scan table position = some p) : (table p).state = .runnable := by
  obtain ⟨first, found, rfl⟩ := Option.map_eq_some_iff.mp chosen
  exact highP_runnable (by simpa [isRunnable] using List.find?_some found)

theorem scan_least {table : Slot → Proc} {position : Nat} {p other : Slot}
    (chosen : scan table position = some p) (runnable : (table other).state = .runnable) :
    (table p).priority ≤ (table other).priority := by
  obtain ⟨first, _, rfl⟩ := Option.map_eq_some_iff.mp chosen
  exact highP_least table first runnable

/-! ### Waking up and handing over -/

/-- `wakeup1` only turns sleepers into runnable processes. -/
theorem wakeup1_cases (table : Slot → Proc) (chan : Option Chan) (slot : Slot) :
    wakeup1 table chan slot = table slot ∨
      ((table slot).state = .sleeping ∧
        wakeup1 table chan slot = { table slot with state := .runnable }) := by
  by_cases sleeps : (table slot).state = .sleeping ∧ (table slot).chan = chan
  · exact .inr ⟨sleeps.1, if_pos sleeps⟩
  · exact .inl (if_neg sleeps)

/-- A process that at most was woken up. -/
structure Woken (old new : Proc) : Prop where
  state : new.state = old.state ∨ old.state = .sleeping ∧ new.state = .runnable
  pid : new.pid = old.pid
  call : new.call = old.call

theorem Woken.refl (proc : Proc) : Woken proc proc := ⟨.inl rfl, rfl, rfl⟩

theorem Woken.trans {first second third : Proc} (left : Woken first second)
    (right : Woken second third) : Woken first third := by
  refine ⟨?_, right.pid.trans left.pid, right.call.trans left.call⟩
  rcases left.state with same | ⟨slept, woken⟩
  · rcases right.state with same' | ⟨slept, woken⟩
    · exact .inl (same'.trans same)
    · exact .inr ⟨same ▸ slept, woken⟩
  · rcases right.state with same | ⟨slept', _⟩
    · exact .inr ⟨slept, same.trans woken⟩
    · rw [woken] at slept'
      cases slept'

theorem wakeup1_woken (table : Slot → Proc) (chan : Option Chan) (slot : Slot) :
    Woken (table slot) (wakeup1 table chan slot) := by
  rcases wakeup1_cases table chan slot with same | ⟨slept, woken⟩
  · rw [same]; exact .refl _
  · rw [woken]; exact ⟨.inr ⟨slept, rfl⟩, rfl, rfl⟩

theorem wakeup1_parent (table : Slot → Proc) (chan : Option Chan) (slot : Slot) :
    (wakeup1 table chan slot).parent = (table slot).parent := by
  rcases wakeup1_cases table chan slot with same | ⟨_, woken⟩
  · rw [same]
  · rw [woken]

theorem reparent_woken (cur : Slot) (initproc : Option Slot) (table : Slot → Proc)
    (p slot : Slot) : Woken (table slot) (reparent cur initproc table p slot) := by
  have moved : Woken (table slot)
      (Function.update table p { table p with parent := initproc } slot) := by
    by_cases here : slot = p
    · subst here
      rw [Function.update_self]
      exact ⟨.inl rfl, rfl, rfl⟩
    · rw [Function.update_of_ne here]
      exact .refl _
  unfold reparent
  split
  · dsimp only
    split
    · exact moved.trans (wakeup1_woken _ _ slot)
    · exact moved
  · exact .refl _

theorem reparent_parent (cur : Slot) (initproc : Option Slot) (table : Slot → Proc)
    (p slot : Slot) : (reparent cur initproc table p slot).parent =
      if slot = p ∧ (table p).parent = some cur then initproc else (table slot).parent := by
  have moved : (Function.update table p { table p with parent := initproc } slot).parent =
      if slot = p then initproc else (table slot).parent := by
    by_cases here : slot = p
    · subst here
      rw [Function.update_self, if_pos rfl]
    · rw [Function.update_of_ne here, if_neg here]
  unfold reparent
  by_cases child : (table p).parent = some cur
  · simp only [child, if_true, and_true]
    split
    · rw [wakeup1_parent, moved]
    · rw [moved]
  · simp [child]

/-- The loop of `exit` hands the children it has met to `initproc` and at most
wakes processes up. -/
theorem foldl_reparent {cur : Slot} {initproc : Option Slot}
    (survives : initproc ≠ some cur) (visited : List Slot) (table : Slot → Proc)
    (slot : Slot) :
    Woken (table slot) (visited.foldl (reparent cur initproc) table slot) ∧
      (visited.foldl (reparent cur initproc) table slot).parent =
        if slot ∈ visited ∧ (table slot).parent = some cur then initproc
        else (table slot).parent := by
  induction visited generalizing table with
  | nil => simp [Woken.refl]
  | cons p rest ih =>
      obtain ⟨woken, parent⟩ := ih (reparent cur initproc table p)
      refine ⟨(reparent_woken cur initproc table p slot).trans woken, ?_⟩
      rw [List.foldl_cons, parent, reparent_parent]
      by_cases here : slot = p
      · subst here
        by_cases child : (table slot).parent = some cur
        · simp [child, survives]
        · simp [child]
      · simp [here]

omit [DecidableEq CpuId] in
theorem handedOver_spec {state : State CpuId} {cur : Slot}
    (survives : state.initproc ≠ some cur) (slot : Slot) :
    Woken (state.proc slot) (state.handedOver cur slot) ∧
      (state.handedOver cur slot).parent =
        if (state.proc slot).parent = some cur then state.initproc
        else (state.proc slot).parent := by
  obtain ⟨woken, parent⟩ := foldl_reparent survives slots
    (wakeup1 state.proc ((state.proc cur).parent.map .proc)) slot
  refine ⟨(wakeup1_woken _ _ slot).trans woken, ?_⟩
  rw [State.handedOver, parent, wakeup1_parent]
  simp [mem_slots]

theorem wakeup1_fields (table : Slot → Proc) (chan : Option Chan) (slot : Slot) :
    ∃ state, wakeup1 table chan slot = { table slot with state := state } := by
  rcases wakeup1_cases table chan slot with same | ⟨_, woken⟩
  · exact ⟨(table slot).state, same⟩
  · exact ⟨.runnable, woken⟩

theorem reparent_fields (cur : Slot) (initproc : Option Slot) (table : Slot → Proc)
    (p slot : Slot) : ∃ state parent, reparent cur initproc table p slot =
      { table slot with state := state, parent := parent } := by
  have moved : ∃ parent, Function.update table p { table p with parent := initproc } slot =
      { table slot with parent := parent } := by
    by_cases here : slot = p
    · subst here
      exact ⟨initproc, Function.update_self ..⟩
    · exact ⟨(table slot).parent, Function.update_of_ne here ..⟩
  obtain ⟨parent, moved⟩ := moved
  unfold reparent
  split
  · dsimp only
    split
    · obtain ⟨state, woken⟩ := wakeup1_fields
        (Function.update table p { table p with parent := initproc }) (initproc.map .proc) slot
      exact ⟨state, parent, by rw [woken, moved]⟩
    · exact ⟨(table slot).state, parent, moved⟩
  · exact ⟨(table slot).state, (table slot).parent, rfl⟩

/-- The loop of `exit` changes only states and parents. -/
theorem foldl_reparent_fields (cur : Slot) (initproc : Option Slot) (visited : List Slot)
    (table : Slot → Proc) (slot : Slot) :
    ∃ state parent, visited.foldl (reparent cur initproc) table slot =
      { table slot with state := state, parent := parent } := by
  induction visited generalizing table with
  | nil => exact ⟨(table slot).state, (table slot).parent, rfl⟩
  | cons p rest ih =>
      obtain ⟨state, parent, later⟩ := ih (reparent cur initproc table p)
      obtain ⟨_, _, here⟩ := reparent_fields cur initproc table p slot
      exact ⟨state, parent, by rw [List.foldl_cons, later, here]⟩

theorem exit_proc (state : State CpuId) (cpu : CpuId) (cur : Slot) :
    (state.exit cpu cur).proc = Function.update (state.handedOver cur) cur
      { state.handedOver cur cur with state := .zombie, context := .exited } := by
  simp only [State.exit, sched_proc, setProc_proc]

/-- The slot, and the state of the system, after a successful `allocproc`. -/
def State.allocated (state : State CpuId) (creator : Int) (slot : Slot) : State CpuId :=
  { state.setProc slot { state.proc slot with
      state := .embryo
      pid := state.nextpid
      priority := 10
      context := .forkret
      call := .none } with
    nextpid := toInt32 (state.nextpid + 1)
    history := { state.history with
      allocations := state.history.allocations + 1
      creator := Function.update state.history.creator slot creator } }

omit [DecidableEq CpuId] in
theorem allocproc_eq_some {state after : State CpuId} {creator : Int} {slot : Slot}
    (allocates : state.allocproc creator = some (slot, after)) :
    (state.proc slot).state = .unused ∧ after = state.allocated creator slot := by
  obtain ⟨found, isFirst, equal⟩ := Option.map_eq_some_iff.mp allocates
  cases equal
  exact ⟨by simpa using firstSlot_eq_some isFirst, rfl⟩

/-- The three ends of a scan of `wait`. -/
inductive WaitScanned (state : State CpuId) (cpu : CpuId) (cur : Slot) :
    State CpuId → Prop
  | reap (child : Slot) : (state.proc child).parent = some cur →
      (state.proc child).state = .zombie →
      WaitScanned state cpu cur
        ((state.setProc child (state.proc child).reaped).waitReturn cpu cur
          (state.proc child).pid)
  | fail : WaitScanned state cpu cur (state.waitReturn cpu cur (-1))
  | sleep : WaitScanned state cpu cur (state.sleep cpu cur (.proc cur) .waiting)

theorem waitScan_scanned (state : State CpuId) (cpu : CpuId) (cur : Slot) :
    WaitScanned state cpu cur (state.waitScan cpu cur) := by
  unfold State.waitScan
  split
  · next child found =>
      obtain ⟨parent, zombie⟩ : (state.proc child).parent = some cur ∧
          (state.proc child).state = .zombie := by
        simpa using firstSlot_eq_some found
      exact .reap child parent zombie
  · dsimp only
    split
    · exact .fail
    · exact .sleep

/-! ## Inversion -/

/-- What the process `cur` on a CPU does in one step, when it does not hold
`ptable.lock`, with the state that the step leaves. -/
inductive Performed (state : State CpuId) (cpu : CpuId) (cur : Slot) :
    Op → State CpuId → Prop
  | noSlot : Performed state cpu cur .fork
      (state.setEax cur (-1))
  | fork (child : Slot) : (state.proc cur).call = .none →
      (state.proc child).state = .unused →
      Performed state cpu cur .fork ((state.allocated (state.proc cur).pid child).setProc cur
        { (state.allocated (state.proc cur).pid child).proc cur with
          call := .allocated child })
  | forkFail (child : Slot) : (state.proc cur).call = .allocated child →
      Performed state cpu cur .forkFail (state.forkFail cur child)
  | forkParent (child : Slot) : (state.proc cur).call = .allocated child →
      Performed state cpu cur .forkParent (state.forkParent cur child)
  | forkRun (child : Slot) : (state.proc cur).call = .parented child →
      Performed state cpu cur .forkRun (state.forkRun cur child)
  | exit : (state.proc cur).call = .none → state.initproc ≠ some cur →
      Performed state cpu cur .exit (state.exit cpu cur)
  | wait : (state.proc cur).call = .none →
      Performed state cpu cur .wait (state.waitScan cpu cur)
  | yield : Performed state cpu cur .yield ((state.setProc cur
      { state.proc cur with state := .runnable, context := .yielded }).sched cpu)
  | sleep (chan : Chan) : (state.proc cur).call = .none →
      Performed state cpu cur (.sleep chan) (state.sleep cpu cur chan .slept)
  | kill (pid : Int) : Performed state cpu cur (.kill pid) (state.kill cur pid)
  | chpr (pid priority : Int) : Performed state cpu cur (.chpr pid priority)
      (state.chpr cur pid priority)
  | exec : Performed state cpu cur .exec (state.exec cur)
  | fault : Performed state cpu cur .fault
      (state.setProc cur { state.proc cur with killed := true })

theorem Performed.of_perform {state after : State CpuId} {cpu : CpuId} {cur : Slot}
    (op : Op) (taken : state.perform cpu cur op = some after) :
    Performed state cpu cur op after := by
  cases op with
  | fork =>
      simp only [State.perform, Option.ite_none_right_eq_some, Option.some.injEq] at taken
      obtain ⟨⟨call, _⟩, rfl⟩ := taken
      unfold State.fork
      cases allocation : state.allocproc (state.proc cur).pid with
      | none => exact .noSlot
      | some allocated =>
          obtain ⟨child, allocated⟩ := allocated
          obtain ⟨unused, rfl⟩ := allocproc_eq_some allocation
          exact .fork child call unused
  | forkFail =>
      simp only [State.perform] at taken
      split at taken
      · next child call => cases taken; exact .forkFail child call
      · cases taken
  | forkParent =>
      simp only [State.perform] at taken
      split at taken
      · next child call => cases taken; exact .forkParent child call
      · cases taken
  | forkRun =>
      simp only [State.perform] at taken
      split at taken
      · next child call =>
          simp only [Option.ite_none_right_eq_some, Option.some.injEq] at taken
          obtain ⟨_, rfl⟩ := taken
          exact .forkRun child call
      · cases taken
  | exit =>
      simp only [State.perform, Option.ite_none_right_eq_some, Option.some.injEq] at taken
      obtain ⟨⟨call, _, survives⟩, rfl⟩ := taken
      exact .exit call survives
  | wait =>
      simp only [State.perform, Option.ite_none_right_eq_some, Option.some.injEq] at taken
      obtain ⟨⟨call, _⟩, rfl⟩ := taken
      exact .wait call
  | yield =>
      simp only [State.perform, Option.ite_none_right_eq_some, Option.some.injEq] at taken
      obtain ⟨_, rfl⟩ := taken
      exact .yield
  | sleep chan =>
      simp only [State.perform, Option.ite_none_right_eq_some, Option.some.injEq] at taken
      obtain ⟨⟨call, _⟩, rfl⟩ := taken
      exact .sleep chan call
  | kill pid =>
      simp only [State.perform, Option.ite_none_right_eq_some, Option.some.injEq] at taken
      obtain ⟨_, rfl⟩ := taken
      exact .kill pid
  | chpr pid priority =>
      simp only [State.perform, Option.ite_none_right_eq_some, Option.some.injEq] at taken
      obtain ⟨_, rfl⟩ := taken
      exact .chpr pid priority
  | exec =>
      simp only [State.perform, Option.ite_none_right_eq_some, Option.some.injEq] at taken
      obtain ⟨_, rfl⟩ := taken
      exact .exec
  | fault =>
      simp only [State.perform, Option.ite_none_right_eq_some, Option.some.injEq] at taken
      obtain ⟨_, rfl⟩ := taken
      exact .fault

/-- Every step of the system, with the state that it leaves. -/
inductive Step (state : State CpuId) : Action CpuId → State CpuId → Prop
  | userinit (init : Slot) : state.boot = .before →
      (state.proc init).state = .unused →
      Step state .userinit { state.allocated 0 init with boot := .allocated init }
  | userinitRun (init : Slot) : state.boot = .allocated init →
      Step state .userinitRun { state.setProc init { state.proc init with state := .runnable } with
        boot := .done init }
  | acquire (cpu : CpuId) : (state.cpu cpu).mode = .idle → state.lock = none →
      Step state (.acquire cpu)
        { state.setCpu cpu { mode := .scanning, proc := none, position := 0 } with
          lock := some cpu }
  | dispatch (cpu : CpuId) (p : Slot) : (state.cpu cpu).mode = .scanning →
      scan state.proc (state.cpu cpu).position = some p →
      Step state (.schedule cpu)
        { (state.setProc p { state.proc p with state := .running }).setCpu cpu
            { mode := .resumed, proc := some p, position := p } with
          history := { state.history with dispatches := state.history.dispatches ++ [p] } }
  | endOfTable (cpu : CpuId) : (state.cpu cpu).mode = .scanning →
      scan state.proc (state.cpu cpu).position = none →
      Step state (.schedule cpu) { state.setCpu cpu
          { mode := .idle, proc := none, position := (state.cpu cpu).position } with
        lock := none }
  | resume (cpu : CpuId) (cur : Slot) : (state.cpu cpu).mode = .resumed →
      (state.cpu cpu).proc = some cur → Step state (.resume cpu) (state.release cpu)
  | resumeSlept (cpu : CpuId) (cur : Slot) : (state.cpu cpu).mode = .resumed →
      (state.cpu cpu).proc = some cur → Step state (.resume cpu)
        ((state.setProc cur { state.proc cur with chan := none }).release cpu)
  | resumeWait (cpu : CpuId) (cur : Slot) : (state.cpu cpu).mode = .resumed →
      (state.cpu cpu).proc = some cur → (state.proc cur).context = .waiting →
      Step state (.resume cpu)
        ((state.setProc cur { state.proc cur with chan := none }).waitScan cpu cur)
  | op (cpu : CpuId) (cur : Slot) (op : Op) {after : State CpuId} :
      (state.cpu cpu).mode = .running → (state.cpu cpu).proc = some cur →
      Performed state cpu cur op after → Step state (.op cpu op) after
  | wakeup (cpu : CpuId) (chan : Chan) : Step state (.wakeup cpu chan)
      { state with proc := wakeup1 state.proc (some chan) }

theorem Step.of_step {state after : State CpuId} (action : Action CpuId)
    (taken : state.step action = some after) : Step state action after := by
  cases action with
  | userinit =>
      simp only [State.step, Option.ite_none_right_eq_some] at taken
      obtain ⟨⟨boot, _⟩, mapped⟩ := taken
      obtain ⟨⟨init, allocated⟩, allocation, rfl⟩ := Option.map_eq_some_iff.mp mapped
      obtain ⟨unused, rfl⟩ := allocproc_eq_some allocation
      exact .userinit init boot unused
  | userinitRun =>
      simp only [State.step] at taken
      split at taken
      · next init boot =>
          simp only [Option.ite_none_right_eq_some, Option.some.injEq] at taken
          obtain ⟨_, rfl⟩ := taken
          exact .userinitRun init boot
      · cases taken
  | acquire cpu =>
      simp only [State.step, State.acquire, Option.ite_none_right_eq_some,
        Option.some.injEq] at taken
      obtain ⟨⟨idle, free⟩, rfl⟩ := taken
      exact .acquire cpu idle free
  | schedule cpu =>
      simp only [State.step, State.schedule, Option.ite_none_right_eq_some] at taken
      obtain ⟨scanning, taken⟩ := taken
      cases chosen : scan state.proc (state.cpu cpu).position with
      | none =>
          simp only [chosen, Option.some.injEq] at taken
          exact taken ▸ .endOfTable cpu scanning chosen
      | some p =>
          simp only [chosen, Option.some.injEq] at taken
          exact taken ▸ .dispatch cpu p scanning chosen
  | resume cpu =>
      simp only [State.step] at taken
      split at taken
      · next cur mode proc =>
          simp only [State.resume] at taken
          split at taken
          · cases taken; exact .resume cpu cur mode proc
          · cases taken; exact .resume cpu cur mode proc
          · cases taken; exact .resumeSlept cpu cur mode proc
          · next waiting => cases taken; exact .resumeWait cpu cur mode proc waiting
          · cases taken
      · cases taken
  | op cpu op =>
      obtain ⟨cur, current, taken⟩ := Option.bind_eq_some_iff.mp taken
      simp only [State.myproc, Option.ite_none_right_eq_some] at current
      exact .op cpu cur op current.1 current.2 (.of_perform op taken)
  | wakeup cpu chan =>
      simp only [State.step, Option.ite_none_right_eq_some, Option.some.injEq] at taken
      obtain ⟨_, rfl⟩ := taken
      exact .wakeup cpu chan

end Coursework.ProcTable
