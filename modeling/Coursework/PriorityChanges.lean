import Coursework.KillTargets

/-!
# Priorities

A priority is documented to lie between 0 and 20.  `allocproc` sets it to 10, `exec`
to 2, and `chpr` to any number that it is given: only the program `nice` checks the
number.  `chpr` looks for an identifier without looking at the state of the slot, so it
also finds a free slot, and it returns the identifier even when it finds nothing.  A
`chpr` keeps to its process and the range exactly when its number is in the range and
the slot it finds is in use, apart from calls that change nothing.
-/

namespace Coursework.ProcTable

variable {CpuId : Type*} [DecidableEq CpuId] {state after : State CpuId}

def Proc.inRange (proc : Proc) : Prop := 0 ≤ proc.priority ∧ proc.priority ≤ 20

/-- Every process has a priority between 0 and 20. -/
def InRange (state : State CpuId) : Prop :=
  ∀ slot, (state.proc slot).state ≠ .unused → (state.proc slot).inRange

/-- A slot without the return value in its trap frame. -/
def Proc.fields (proc : Proc) : Proc := { proc with eax := 0 }

/-- The slot holds the process with this identifier. -/
def State.hasPid (state : State CpuId) (pid : Int) (slot : Slot) : Bool :=
  (state.proc slot).state ≠ .unused ∧ (state.proc slot).pid = pid

/-- `chpr` fails without a process of this identifier, and otherwise changes the priority of
one such process and nothing else. -/
structure Confined (state after : State CpuId) (cur : Slot) (pid priority : Int) : Prop where
  fails : (∀ slot, state.hasPid pid slot = false) →
    (after.proc cur).eax = -1 ∧ ∀ slot, (after.proc slot).fields = (state.proc slot).fields
  changes : ∀ process, state.hasPid pid process = true →
    ∃ slot, state.hasPid pid slot = true ∧
      (after.proc slot).fields = { (state.proc slot).fields with priority := priority } ∧
      ∀ other, other ≠ slot → (after.proc other).fields = (state.proc other).fields

/-- The slot that `chpr` finds first is in use and the number is in the range; or `chpr`
finds a free slot, or none, and its effect is that of the process or of a failure. -/
def State.properChange (state : State CpuId) (pid priority : Int) : Bool :=
  match state.target pid with
  | none => pid = -1
  | some p =>
      if (state.proc p).state ≠ .unused then 0 ≤ priority ∧ priority ≤ 20
      else (state.proc p).priority = priority ∧
        (if ∃ slot, state.hasPid pid slot = true then
          ∃ slot, state.hasPid pid slot = true ∧ (state.proc slot).priority = priority
        else pid = -1)

/-- Every `chpr` is proper. -/
def properChanges (state : State CpuId) : Action CpuId → Bool
  | .op _ (.chpr pid priority) => state.properChange pid priority
  | _ => true

/-! ## The effect of `chpr` -/

omit [DecidableEq CpuId] in
/-- `chpr` changes the priority of the slot it finds and returns the identifier. -/
theorem chpr_proc (state : State CpuId) (cur : Slot) (pid priority : Int) (slot : Slot) :
    (state.chpr cur pid priority).proc slot =
      { state.proc slot with
        priority := if state.target pid = some slot then priority
          else (state.proc slot).priority
        eax := if slot = cur then pid else (state.proc slot).eax } := by
  unfold State.chpr
  cases found : firstSlot fun p => decide ((state.proc p).pid = pid) with
  | none =>
      have nobody : state.target pid = none := found
      by_cases isCur : slot = cur
      · subst isCur
        simp [State.setEax, nobody]
      · simp [State.setEax, isCur, nobody]
  | some p =>
      have isTarget : state.target pid = some p := found
      by_cases isCur : slot = cur
      · subst isCur
        by_cases here : slot = p
        · subst here
          simp [State.setEax, isTarget]
        · simp [State.setEax, isTarget, here, Ne.symm here]
      · by_cases here : slot = p
        · subst here
          simp [State.setEax, isTarget, isCur]
        · simp [State.setEax, isTarget, isCur, here, Ne.symm here]

omit [DecidableEq CpuId] in
theorem chpr_fields (state : State CpuId) (cur : Slot) (pid priority : Int) (slot : Slot) :
    ((state.chpr cur pid priority).proc slot).fields =
      if state.target pid = some slot then
        { (state.proc slot).fields with priority := priority }
      else (state.proc slot).fields := by
  rw [chpr_proc]
  split <;> rfl

omit [DecidableEq CpuId] in
theorem hasPid_of_target {pid : Int} {p : Slot} (found : state.target pid = some p)
    (used : (state.proc p).state ≠ .unused) : state.hasPid pid p = true := by
  simp [State.hasPid, used, target_pid found]

omit [DecidableEq CpuId] in
theorem not_hasPid_of_target {pid : Int} {p : Slot} (free : (state.proc p).state = .unused) :
    state.hasPid pid p = false := by
  simp [State.hasPid, free]

omit [DecidableEq CpuId] in
theorem target_of_hasPid {pid : Int} {slot : Slot} (process : state.hasPid pid slot = true) :
    state.target pid ≠ none := by
  simp only [State.hasPid, decide_eq_true_eq] at process
  exact target_ne_none process.2

omit [DecidableEq CpuId] in
theorem fields_priority {proc : Proc} {priority : Int}
    (same : { proc.fields with priority := priority } = proc.fields) :
    proc.priority = priority :=
  (congrArg Proc.priority same).symm

omit [DecidableEq CpuId] in
/-- A `chpr` that finds no slot. -/
theorem confined_missing {cur : Slot} {pid priority : Int} (ranged : InRange state)
    (missing : state.target pid = none) :
    Confined state (state.chpr cur pid priority) cur pid priority ∧
      InRange (state.chpr cur pid priority) ↔ pid = -1 := by
  have returns : ((state.chpr cur pid priority).proc cur).eax = pid := by
    simp [chpr_proc]
  have nobody : ∀ slot, state.hasPid pid slot = false := by
    intro slot
    by_contra process
    exact target_of_hasPid (by simpa using process) missing
  constructor
  · rintro ⟨confined, _⟩
    rw [← returns]
    exact (confined.fails nobody).1
  · intro isFailure
    refine ⟨⟨fun _ => ⟨returns.trans isFailure, fun slot => ?_⟩, fun process isProcess => ?_⟩, ?_⟩
    · rw [chpr_fields, missing]
      simp
    · simp [nobody process] at isProcess
    · intro slot used
      have same := ranged slot (by simpa [chpr_proc] using used)
      simpa [Proc.inRange, chpr_proc, missing] using same

omit [DecidableEq CpuId] in
/-- A `chpr` that finds a process. -/
theorem confined_used {cur p : Slot} {pid priority : Int} (ranged : InRange state)
    (found : state.target pid = some p) (used : (state.proc p).state ≠ .unused) :
    Confined state (state.chpr cur pid priority) cur pid priority ∧
      InRange (state.chpr cur pid priority) ↔ 0 ≤ priority ∧ priority ≤ 20 := by
  have process := hasPid_of_target found used
  constructor
  · rintro ⟨_, kept⟩
    have here := kept p (by simpa [chpr_proc] using used)
    simpa [Proc.inRange, chpr_proc, found] using here
  · intro allowed
    refine ⟨⟨fun nobody => ?_, fun _ _ => ⟨p, process, ?_, fun other different => ?_⟩⟩, ?_⟩
    · simp [nobody p] at process
    · rw [chpr_fields, if_pos found]
    · rw [chpr_fields, if_neg]
      rw [found]
      exact fun same => different (Option.some.inj same).symm
    · intro slot slotUsed
      by_cases here : p = slot
      · subst here
        simpa [Proc.inRange, chpr_proc, found] using allowed
      · have same := ranged slot (by simpa [chpr_proc] using slotUsed)
        simpa [Proc.inRange, chpr_proc, found, here] using same

omit [DecidableEq CpuId] in
/-- A `chpr` that finds a free slot leaves the processes as they are. -/
theorem chpr_stale {cur p : Slot} {pid priority : Int} (ranged : InRange state)
    (found : state.target pid = some p) (free : (state.proc p).state = .unused) :
    InRange (state.chpr cur pid priority) := by
  intro slot used
  have wasUsed : (state.proc slot).state ≠ .unused := by simpa [chpr_proc] using used
  have different : p ≠ slot := by
    rintro rfl
    exact wasUsed free
  simpa [Proc.inRange, chpr_proc, found, different] using ranged slot wasUsed

omit [DecidableEq CpuId] in
/-- A `chpr` that finds a free slot although there is a process. -/
theorem confined_hidden {cur p process : Slot} {pid priority : Int} (ranged : InRange state)
    (found : state.target pid = some p) (free : (state.proc p).state = .unused)
    (exists_process : state.hasPid pid process = true) :
    Confined state (state.chpr cur pid priority) cur pid priority ∧
        InRange (state.chpr cur pid priority) ↔
      (state.proc p).priority = priority ∧
        ∃ slot, state.hasPid pid slot = true ∧ (state.proc slot).priority = priority := by
  have other : ∀ slot, state.hasPid pid slot = true → p ≠ slot := by
    rintro slot isProcess rfl
    simp [not_hasPid_of_target free] at isProcess
  constructor
  · rintro ⟨confined, _⟩
    obtain ⟨slot, isProcess, changed, rest⟩ := confined.changes process exists_process
    have different := other slot isProcess
    have stays := rest p different
    rw [chpr_fields, if_pos found] at stays
    rw [chpr_fields, found, if_neg (by simpa using different)] at changed
    exact ⟨fields_priority stays, slot, isProcess, fields_priority changed.symm⟩
  · rintro ⟨stale, slot, isProcess, already⟩
    have unchanged : ∀ slot, ((state.chpr cur pid priority).proc slot).fields =
        (state.proc slot).fields := by
      intro slot
      rw [chpr_fields, found]
      split
      · next here =>
          cases here
          subst stale
          rfl
      · rfl
    refine ⟨⟨fun nobody => ?_, fun _ _ => ⟨slot, isProcess, ?_, fun other _ => ?_⟩⟩, ?_⟩
    · simp [nobody process] at exists_process
    · rw [unchanged]
      subst already
      rfl
    · exact unchanged other
    · exact chpr_stale ranged found free

omit [DecidableEq CpuId] in
/-- A `chpr` that finds a free slot when there is no process. -/
theorem confined_stale {cur p : Slot} {pid priority : Int} (ranged : InRange state)
    (found : state.target pid = some p) (free : (state.proc p).state = .unused)
    (nobody : ∀ slot, state.hasPid pid slot = false) :
    Confined state (state.chpr cur pid priority) cur pid priority ∧
        InRange (state.chpr cur pid priority) ↔
      (state.proc p).priority = priority ∧ pid = -1 := by
  have returns : ((state.chpr cur pid priority).proc cur).eax = pid := by
    simp [chpr_proc]
  constructor
  · rintro ⟨confined, _⟩
    obtain ⟨failed, same⟩ := confined.fails nobody
    have stays := same p
    rw [chpr_fields, if_pos found] at stays
    exact ⟨fields_priority stays, returns.symm.trans failed⟩
  · rintro ⟨stale, isFailure⟩
    refine ⟨⟨fun _ => ⟨returns.trans isFailure, fun slot => ?_⟩, fun process isProcess => ?_⟩, ?_⟩
    · rw [chpr_fields, found]
      split
      · next here =>
          cases here
          subst stale
          rfl
      · rfl
    · simp [nobody process] at isProcess
    · exact chpr_stale ranged found free

omit [DecidableEq CpuId] in
theorem confined_iff {cur : Slot} {pid priority : Int} (ranged : InRange state) :
    Confined state (state.chpr cur pid priority) cur pid priority ∧
        InRange (state.chpr cur pid priority) ↔
      state.properChange pid priority = true := by
  unfold State.properChange
  cases found : state.target pid with
  | none => simpa using confined_missing ranged found
  | some p =>
      by_cases free : (state.proc p).state = .unused
      · by_cases somebody : ∃ slot, state.hasPid pid slot = true
        · obtain ⟨process, isProcess⟩ := somebody
          have somebody : ∃ slot, state.hasPid pid slot = true := ⟨process, isProcess⟩
          simpa [free, somebody] using confined_hidden ranged found free isProcess
        · have nobody : ∀ slot, state.hasPid pid slot = false := by simpa using somebody
          simpa [free, nobody] using confined_stale ranged found free nobody
      · simpa [free] using confined_used ranged found free

/-! ## Steps -/

/-- A change to a slot that gives a process no new priority out of the range. -/
def Steady (old new : Proc) : Prop :=
  new.state ≠ .unused →
    old.state ≠ .unused ∧ new.priority = old.priority ∨ new.inRange

namespace Steady

theorem of_same {old new : Proc} (state : new.state ≠ .unused → old.state ≠ .unused)
    (priority : new.priority = old.priority) : Steady old new :=
  fun used => Or.inl ⟨state used, priority⟩

theorem refl (proc : Proc) : Steady proc proc := of_same id rfl

theorem trans {first second third : Proc} (left : Steady first second)
    (right : Steady second third) : Steady first third := by
  intro used
  rcases right used with ⟨wasUsed, same⟩ | ranged
  · rcases left wasUsed with ⟨firstUsed, first⟩ | ranged
    · exact Or.inl ⟨firstUsed, same.trans first⟩
    · refine Or.inr ?_
      unfold Proc.inRange
      rw [same]
      exact ranged
  · exact Or.inr ranged

theorem update {table : Slot → Proc} {slot : Slot} {proc : Proc}
    (here : Steady (table slot) proc) (other : Slot) :
    Steady (table other) (Function.update table slot proc other) := by
  by_cases same : other = slot
  · subst same
    rw [Function.update_self]
    exact here
  · rw [Function.update_of_ne same]
    exact refl _

end Steady

theorem Woken.steady {old new : Proc} (woken : Woken old new)
    (priority : new.priority = old.priority) : Steady old new := by
  refine .of_same (fun used => ?_) priority
  rcases woken.state with same | ⟨slept, _⟩
  · rwa [same] at used
  · simp [slept]

omit [DecidableEq CpuId] in
theorem allocated_steady (creator : Int) (child slot : Slot) :
    Steady (state.proc slot) ((state.allocated creator child).proc slot) := by
  have here : Steady (state.proc child) { state.proc child with
      state := .embryo, pid := state.nextpid, priority := 10, context := .forkret,
      call := .none } := by
    intro _
    exact Or.inr (by simp [Proc.inRange])
  exact here.update slot

theorem waitScan_steady {cpu : CpuId} {cur : Slot}
    (running : (state.proc cur).state = .running)
    (scanned : WaitScanned state cpu cur after) (slot : Slot) :
    Steady (state.proc slot) (after.proc slot) := by
  cases scanned with
  | reap child parent zombie =>
      have reaped : Steady (state.proc child) (state.proc child).reaped := by
        intro used
        exact (used rfl).elim
      refine (reaped.update slot).trans (Steady.update ?_ slot)
      exact .of_same id rfl
  | fail =>
      refine Steady.update ?_ slot
      exact .of_same id rfl
  | sleep =>
      refine Steady.update ?_ slot
      exact .of_same (fun _ => by simp [running]) rfl

theorem exit_steady {cpu : CpuId} {cur : Slot} (running : (state.proc cur).state = .running)
    (survives : state.initproc ≠ some cur) (slot : Slot) :
    Steady (state.proc slot) ((state.exit cpu cur).proc slot) := by
  have handed : ∀ slot, Steady (state.proc slot) (state.handedOver cur slot) := by
    intro slot
    apply (handedOver_spec survives slot).1.steady
    obtain ⟨_, wakes⟩ := wakeup1_fields state.proc ((state.proc cur).parent.map .proc) slot
    obtain ⟨_, _, hands⟩ := foldl_reparent_fields cur state.initproc slots
      (wakeup1 state.proc ((state.proc cur).parent.map .proc)) slot
    rw [State.handedOver, hands, wakes]
  have stillRunning : (state.handedOver cur cur).state = .running :=
    ((handedOver_spec survives cur).1.running_iff).mpr running
  have exited : ∀ proc : Proc, proc.state = .running →
      Steady proc { proc with state := .zombie, context := .exited } :=
    fun proc isRunning => .of_same (fun _ => by simp [isRunning]) rfl
  rw [exit_proc]
  exact (handed slot).trans ((exited _ stillRunning).update slot)

/-- What a process does keeps the priorities, except for `chpr`. -/
theorem Performed.steady {cpu : CpuId} {cur : Slot} {op : Op}
    (running : (state.proc cur).state = .running) (owned : state.family.Owned)
    (performed : Performed state cpu cur op after)
    (unchanged : ∀ pid priority, op ≠ .chpr pid priority) (slot : Slot) :
    Steady (state.proc slot) (after.proc slot) := by
  have embryo : ∀ child, (state.proc cur).call.child = some child →
      (state.proc child).state = .embryo := by
    intro child calls
    simpa [State.family, Proc.life] using owned.embryo cur child calls
  have other : ∀ child, (state.proc cur).call.child = some child → cur ≠ child := by
    rintro child calls rfl
    simpa [running] using embryo cur calls
  cases performed with
  | noSlot =>
      refine Steady.update ?_ slot
      exact .of_same id rfl
  | fork child idle free =>
      refine (allocated_steady (state.proc cur).pid child slot).trans (Steady.update ?_ slot)
      exact .of_same id rfl
  | forkFail child calls =>
      have different := other child (by simp [calls, Call.child])
      have freed : Steady (state.proc child) { state.proc child with state := .unused } :=
        fun used => (used rfl).elim
      refine (freed.update slot).trans (Steady.update ?_ slot)
      simpa [different] using .of_same id rfl
  | forkParent child calls =>
      have different := other child (by simp [calls, Call.child])
      have adopted : Steady (state.proc child)
          { state.proc child with parent := some cur } := .of_same id rfl
      refine (adopted.update slot).trans (Steady.update ?_ slot)
      simpa [different] using .of_same id rfl
  | forkRun child calls =>
      have different := other child (by simp [calls, Call.child])
      have setUp := embryo child (by simp [calls, Call.child])
      have started : Steady (state.proc child)
          { state.proc child with state := .runnable, eax := 0 } :=
        .of_same (fun _ => by simp [setUp]) rfl
      refine (started.update slot).trans (Steady.update ?_ slot)
      simpa [different] using .of_same id rfl
  | exit idle survives => exact exit_steady running survives slot
  | wait idle => exact waitScan_steady running (waitScan_scanned state cpu cur) slot
  | yield =>
      refine Steady.update ?_ slot
      exact .of_same (fun _ => by simp [running]) rfl
  | sleep chan idle =>
      refine Steady.update ?_ slot
      exact .of_same (fun _ => by simp [running]) rfl
  | kill pid =>
      rw [kill_proc]
      split
      · refine .of_same (fun used => ?_) rfl
        simp only [Proc.kill] at used
        split at used
        · next sleeps => simp [sleeps]
        · exact used
      · exact .of_same id rfl
  | chpr pid priority => exact (unchanged pid priority rfl).elim
  | exec =>
      refine Steady.update ?_ slot
      exact fun _ => Or.inr (by simp [Proc.inRange])
  | fault =>
      refine Steady.update ?_ slot
      exact .of_same id rfl

theorem Step.steady {action : Action CpuId} (exclusive : Exclusive state)
    (owned : state.family.Owned) (step : Step state action after)
    (unchanged : ∀ cpu pid priority, action ≠ .op cpu (.chpr pid priority)) (slot : Slot) :
    Steady (state.proc slot) (after.proc slot) := by
  cases step with
  | userinit init before free => exact allocated_steady 0 init slot
  | userinitRun init booting =>
      have embryo : (state.proc init).state = .embryo := by
        simpa [State.family, Proc.life] using (owned.boot init booting).1
      refine Steady.update ?_ slot
      exact .of_same (fun _ => by simp [embryo]) rfl
  | acquire cpu idle free => exact .refl _
  | dispatch cpu p scanning chosen =>
      refine Steady.update ?_ slot
      exact .of_same (fun _ => by simp [scan_runnable chosen]) rfl
  | endOfTable cpu scanning ended => exact .refl _
  | resume cpu cur resumed isCur => exact .refl _
  | resumeSlept cpu cur resumed isCur =>
      refine Steady.update ?_ slot
      exact .of_same id rfl
  | resumeWait cpu cur resumed isCur waiting =>
      have running := exclusive.current cpu cur isCur
      have tidied : Steady (state.proc cur) { state.proc cur with chan := none } :=
        .of_same id rfl
      exact (tidied.update slot).trans
        (waitScan_steady (by simpa using running) (waitScan_scanned _ cpu cur) slot)
  | op cpu cur op isRunning isCur performed =>
      apply performed.steady (exclusive.current cpu cur isCur) owned
      rintro pid priority rfl
      exact unchanged cpu pid priority rfl
  | wakeup cpu chan =>
      apply (wakeup1_woken _ _ slot).steady
      obtain ⟨_, fields⟩ := wakeup1_fields state.proc (some chan) slot
      rw [fields]

/-! ## Runs -/

theorem InRange.step {action : Action CpuId} (ranged : InRange state)
    (exclusive : Exclusive state) (owned : state.family.Owned)
    (proper : properChanges state action = true)
    (taken : state.step action = some after) : InRange after := by
  have step := Step.of_step action taken
  by_cases changes : ∃ cpu pid priority, action = .op cpu (.chpr pid priority)
  · obtain ⟨cpu, pid, priority, rfl⟩ := changes
    cases step with
    | op _ cur _ isRunning isCur performed =>
        cases performed
        exact ((confined_iff ranged).mpr proper).2
  · intro slot used
    have steady := step.steady exclusive owned
      (fun cpu pid priority isChange => changes ⟨cpu, pid, priority, isChange⟩) slot
    rcases steady used with ⟨wasUsed, same⟩ | inRange
    · have before := ranged slot wasUsed
      unfold Proc.inRange
      rw [same]
      exact before
    · exact inRange

/-- In runs whose `chpr` calls are proper, every process has a priority between 0 and
20; and a further `chpr` keeps this and is confined to its process exactly when it is
proper. -/
theorem priorities_confined
    (run : Run State.step (fun state action => properChanges state action = true)
      IsInitial state) :
    InRange state ∧
    ∀ cpu cur pid priority after, state.myproc cpu = some cur →
      state.step (.op cpu (.chpr pid priority)) = some after →
      (Confined state after cur pid priority ∧ InRange after ↔
        state.properChange pid priority = true) := by
  have ranged : InRange state := by
    induction run with
    | start isInitial =>
        subst isInitial
        intro slot used
        exact (used rfl).elim
    | next action before proper taken ih =>
        obtain ⟨exclusive, owned⟩ := exclusive_and_owned (before.mono fun _ _ _ => trivial)
        exact ih.step exclusive owned proper taken
  refine ⟨ranged, ?_⟩
  intro cpu cur pid priority after isCur taken
  simp only [State.myproc, Option.ite_none_right_eq_some] at isCur
  have step := Step.of_step _ taken
  cases step with
  | op _ other _ isRunning isOther performed =>
      obtain rfl : cur = other := Option.some.inj (isCur.2.symm.trans isOther)
      cases performed
      exact confined_iff ranged

/-- The first process runs. -/
def firstRuns : List (Action Unit) :=
  [.userinit, .userinitRun, .acquire (), .schedule (), .resume ()]

theorem firstRuns_enabled :
    (execute State.step properChanges (State.initial : State Unit) firstRuns).isSome = true := by
  decide +kernel

theorem priorities_confined_firstRuns :
    ∃ state after : State Unit, state.step (.op () (.chpr 1 5)) = some after ∧
      (after.proc 0).priority = 5 ∧ Confined state after 0 1 5 ∧ InRange after := by
  have isInitial : IsInitial (State.initial : State Unit) := rfl
  have run := run_lastState isInitial firstRuns firstRuns_enabled
  obtain ⟨after, taken⟩ := Option.isSome_iff_exists.mp (show
    ((lastState State.step _ _ _ firstRuns_enabled).step (.op () (.chpr 1 5))).isSome = true by
      decide +kernel)
  have confined := ((priorities_confined run).2 () 0 1 5 after (by decide +kernel) taken).mpr
    (by decide +kernel)
  have changed : ((lastState State.step _ _ _ firstRuns_enabled).step (.op () (.chpr 1 5))).map
      (fun after => (after.proc 0).priority) = some 5 := by
    decide +kernel
  rw [taken] at changed
  exact ⟨_, after, taken, Option.some.inj changed, confined⟩

/-- A child is set up and its `fork` fails. -/
def forkFails : List (Action Unit) := firstRuns ++ [.op () .fork, .op () .forkFail]

theorem forkFails_enabled :
    (execute State.step properChanges (State.initial : State Unit) forkFails).isSome = true := by
  decide +kernel

/-- `chpr(1, 21)` gives the first process priority 21; `chpr(99, 5)` returns 99 although no
process has identifier 99; and after a failed `fork` `chpr(2, 5)` changes the free slot of
the child. -/
theorem chpr_unconfined :
    (∃ state after : State Unit, Run State.step anyStep IsInitial state ∧
      state.step (.op () (.chpr 1 21)) = some after ∧ (after.proc 0).state = .running ∧
      (after.proc 0).priority = 21) ∧
    (∃ state after : State Unit, Run State.step anyStep IsInitial state ∧
      state.step (.op () (.chpr 99 5)) = some after ∧
      (∀ slot, state.hasPid 99 slot = false) ∧ (after.proc 0).eax = 99) ∧
    (∃ state after : State Unit, Run State.step anyStep IsInitial state ∧
      state.step (.op () (.chpr 2 5)) = some after ∧
      (∀ slot, state.hasPid 2 slot = false) ∧ (state.proc 1).priority = 10 ∧
      (after.proc 1).priority = 5) := by
  have isInitial : IsInitial (State.initial : State Unit) := rfl
  have first := run_lastState isInitial firstRuns firstRuns_enabled
  have failed := run_lastState isInitial forkFails forkFails_enabled
  refine ⟨?_, ?_, ?_⟩
  · have taken : ((lastState State.step _ _ _ firstRuns_enabled).step (.op () (.chpr 1 21))).any
        (fun after => (after.proc 0).state = .running ∧ (after.proc 0).priority = 21) = true := by
      decide +kernel
    obtain ⟨after, taken, changed⟩ := (Option.any_eq_true _ _).mp taken
    exact ⟨_, after, first.mono fun _ _ _ => trivial, taken, by simpa using changed⟩
  · have taken : ((lastState State.step _ _ _ firstRuns_enabled).step (.op () (.chpr 99 5))).any
        (fun after => (after.proc 0).eax = 99) = true := by
      decide +kernel
    obtain ⟨after, taken, returned⟩ := (Option.any_eq_true _ _).mp taken
    exact ⟨_, after, first.mono fun _ _ _ => trivial, taken, by decide +kernel,
      by simpa using returned⟩
  · have taken : ((lastState State.step _ _ _ forkFails_enabled).step (.op () (.chpr 2 5))).any
        (fun after => (after.proc 1).priority = 5) = true := by
      decide +kernel
    obtain ⟨after, taken, changed⟩ := (Option.any_eq_true _ _).mp taken
    exact ⟨_, after, failed.mono fun _ _ _ => trivial, taken, by decide +kernel,
      by decide +kernel, by simpa using changed⟩

end Coursework.ProcTable
