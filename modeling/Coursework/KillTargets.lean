import Coursework.DispatchExclusivity

/-!
# Who `kill` hits

`kill` compares identifiers without looking at the state of a slot.  A slot that
was never used or was reaped has identifier 0, and one whose `fork` failed still
has the identifier of the process that never ran; neither `allocproc` nor the
failure path of `fork` clears `killed`.  So `kill` of such an identifier marks the
next process in the slot, and so does a `kill` of a child whose `fork` then fails.
In runs without these two steps a free slot is never marked, and a new process is
marked only when its own identifier is killed.
-/

namespace Coursework.ProcTable

variable {CpuId : Type*} [DecidableEq CpuId]

/-- A state with the arguments of `kill`, for each slot, since its process was
created. -/
structure Recorded (CpuId : Type*) where
  state : State CpuId
  kills : Slot → List Int

def recordKills (state : State CpuId) (action : Action CpuId) (after : State CpuId)
    (kills : Slot → List Int) (slot : Slot) : List Int :=
  if (state.proc slot).state = .unused ∧ (after.proc slot).state ≠ .unused then []
  else
    match action with
    | .op _ (.kill pid) => pid :: kills slot
    | _ => kills slot

def Recorded.step (recorded : Recorded CpuId) (action : Action CpuId) :
    Option (Recorded CpuId) :=
  (recorded.state.step action).map fun after =>
    { state := after, kills := recordKills recorded.state action after recorded.kills }

def Recorded.initial : Recorded CpuId := { state := State.initial, kills := fun _ => [] }

def IsRecordedInitial (recorded : Recorded CpuId) : Prop := recorded = Recorded.initial

/-- The slot with an identifier that the loop of `kill` finds. -/
def State.target (state : State CpuId) (pid : Int) : Option Slot :=
  firstSlot fun p => (state.proc p).pid = pid

/-- The slot that `kill` finds first is free. -/
def State.hitsUnused (state : State CpuId) (pid : Int) : Bool :=
  (state.target pid).any fun p => (state.proc p).state = .unused

/-- The process on a CPU is about to give up a child that was killed. -/
def State.failsKilled (state : State CpuId) (cpu : CpuId) : Bool :=
  (state.myproc cpu).any fun cur =>
    match (state.proc cur).call with
    | .allocated child => (state.proc child).killed
    | _ => false

/-- No `kill` hits a free slot, and no `fork` fails for a killed child. -/
def sparesUnused (recorded : Recorded CpuId) : Action CpuId → Bool
  | .op _ (.kill pid) => !recorded.state.hitsUnused pid
  | .op cpu .forkFail => !recorded.state.failsKilled cpu
  | _ => true

/-! ## Marks -/

/-- A change to a slot that marks no free slot and no process that is being set
up. -/
def Unmarked (old new : Proc) : Prop :=
  new.killed = true → new.state = .unused ∨ new.state = .embryo →
    old.killed = true ∧ (old.state = .unused ∨
      old.state = .embryo ∧ new.state = .embryo ∧ new.pid = old.pid)

namespace Unmarked

theorem refl (proc : Proc) : Unmarked proc proc := by
  intro killed place
  exact ⟨killed, place.imp id fun embryo => ⟨embryo, embryo, rfl⟩⟩

theorem trans {first second third : Proc} (left : Unmarked first second)
    (right : Unmarked second third) : Unmarked first third := by
  intro killed place
  obtain ⟨wasKilled, free | ⟨embryo, still, pid⟩⟩ := right killed place
  · obtain ⟨firstKilled, free' | ⟨-, embryo, -⟩⟩ := left wasKilled (Or.inl free)
    · exact ⟨firstKilled, Or.inl free'⟩
    · rw [free] at embryo
      cases embryo
  · obtain ⟨firstKilled, free | ⟨embryo', -, pid'⟩⟩ := left wasKilled (Or.inr embryo)
    · exact ⟨firstKilled, Or.inl free⟩
    · exact ⟨firstKilled, Or.inr ⟨embryo', still, pid.trans pid'⟩⟩

/-- A process that is set up is not concerned. -/
theorem of_used {old new : Proc} (used : new.state ≠ .unused ∧ new.state ≠ .embryo) :
    Unmarked old new := by
  intro _ place
  exact (place.elim used.1 used.2).elim

theorem update {table : Slot → Proc} {slot : Slot} {proc : Proc}
    (here : Unmarked (table slot) proc) (other : Slot) :
    Unmarked (table other) (Function.update table slot proc other) := by
  by_cases same : other = slot
  · subst same
    rw [Function.update_self]
    exact here
  · rw [Function.update_of_ne same]
    exact refl _

end Unmarked

theorem Woken.unmarked {old new : Proc} (woken : Woken old new)
    (killed : new.killed = old.killed) : Unmarked old new := by
  intro isKilled place
  have same : new.state = old.state := by
    rcases woken.state with same | ⟨_, isRunnable⟩
    · exact same
    · simp [isRunnable] at place
  rw [same] at place ⊢
  exact ⟨killed ▸ isKilled, place.imp id fun embryo => ⟨embryo, embryo, woken.pid⟩⟩

variable {state after : State CpuId}

omit [DecidableEq CpuId] in
theorem allocated_unmarked (creator : Int) {child : Slot}
    (free : (state.proc child).state = .unused) (slot : Slot) :
    Unmarked (state.proc slot) ((state.allocated creator child).proc slot) := by
  have here : Unmarked (state.proc child) { state.proc child with
      state := .embryo, pid := state.nextpid, priority := 10, context := .forkret,
      call := .none } := by
    intro killed _
    exact ⟨killed, Or.inl free⟩
  exact here.update slot

theorem waitScan_unmarked {cpu : CpuId} {cur : Slot}
    (running : (state.proc cur).state = .running)
    (scanned : WaitScanned state cpu cur after) (slot : Slot) :
    Unmarked (state.proc slot) (after.proc slot) := by
  cases scanned with
  | reap child parent zombie =>
      have different : cur ≠ child := by
        rintro rfl
        simp [running] at zombie
      have reaped : Unmarked (state.proc child) (state.proc child).reaped := by
        intro killed
        cases killed
      refine (reaped.update slot).trans (Unmarked.update (.of_used ?_) slot)
      simp [different, running]
  | fail =>
      refine Unmarked.update (.of_used ?_) slot
      simp [running]
  | sleep =>
      refine Unmarked.update (.of_used ?_) slot
      simp

theorem exit_unmarked {cpu : CpuId} {cur : Slot} (survives : state.initproc ≠ some cur)
    (slot : Slot) : Unmarked (state.proc slot) ((state.exit cpu cur).proc slot) := by
  have handed : Unmarked (state.proc slot) (state.handedOver cur slot) := by
    apply (handedOver_spec survives slot).1.unmarked
    obtain ⟨_, wakes⟩ := wakeup1_fields state.proc ((state.proc cur).parent.map .proc) slot
    obtain ⟨_, _, hands⟩ := foldl_reparent_fields cur state.initproc slots
      (wakeup1 state.proc ((state.proc cur).parent.map .proc)) slot
    rw [State.handedOver, hands, wakes]
  rw [exit_proc]
  refine handed.trans (Unmarked.update (.of_used ?_) slot)
  simp

/-- What a process does marks no free slot and no child, except for `kill`. -/
theorem Performed.unmarked {cpu : CpuId} {cur : Slot} {op : Op}
    (running : (state.proc cur).state = .running) (owned : state.family.Owned)
    (performed : Performed state cpu cur op after) (spared : ∀ pid, op ≠ .kill pid)
    (alive : op = .forkFail → ∀ child, (state.proc cur).call = .allocated child →
      (state.proc child).killed = false) (slot : Slot) :
    Unmarked (state.proc slot) (after.proc slot) := by
  have embryo : ∀ child, (state.proc cur).call.child = some child →
      (state.proc child).state = .embryo := by
    intro child calls
    simpa [State.family, Proc.life] using owned.embryo cur child calls
  have other : ∀ child, (state.proc cur).call.child = some child → cur ≠ child := by
    rintro child calls rfl
    simpa [running] using embryo cur calls
  cases performed with
  | noSlot =>
      refine Unmarked.update (.of_used ?_) slot
      simp [running]
  | fork child idle free =>
      have different : cur ≠ child := by
        rintro rfl
        simp [running] at free
      refine (allocated_unmarked (state.proc cur).pid free slot).trans (Unmarked.update (.of_used ?_) slot)
      simp [State.allocated, different, running]
  | forkFail child calls =>
      have different := other child (by simp [calls, Call.child])
      have freed : Unmarked (state.proc child) { state.proc child with state := .unused } := by
        intro killed
        have notKilled := alive rfl child calls
        rw [notKilled] at killed
        cases killed
      refine (freed.update slot).trans (Unmarked.update (.of_used ?_) slot)
      simp [running]
  | forkParent child calls =>
      have setUp := embryo child (by simp [calls, Call.child])
      have adopted : Unmarked (state.proc child)
          { state.proc child with parent := some cur } := by
        intro killed _
        exact ⟨killed, Or.inr ⟨setUp, setUp, rfl⟩⟩
      refine (adopted.update slot).trans (Unmarked.update (.of_used ?_) slot)
      simp [running]
  | forkRun child calls =>
      have started : Unmarked (state.proc child)
          { state.proc child with state := .runnable, eax := 0 } := .of_used (by simp)
      refine (started.update slot).trans (Unmarked.update (.of_used ?_) slot)
      simp [running]
  | exit idle survives => exact exit_unmarked survives slot
  | wait idle => exact waitScan_unmarked running (waitScan_scanned state cpu cur) slot
  | yield =>
      refine Unmarked.update (.of_used ?_) slot
      simp
  | sleep chan idle =>
      refine Unmarked.update (.of_used ?_) slot
      simp
  | kill pid => exact (spared pid rfl).elim
  | chpr pid priority =>
      unfold State.chpr
      split
      · next p found =>
          have changed : Unmarked (state.proc p) { state.proc p with priority := priority } :=
            .refl (state.proc p)
          refine (changed.update slot).trans (Unmarked.update ?_ slot)
          exact .refl _
      · refine Unmarked.update (.of_used ?_) slot
        simp [running]
  | exec =>
      refine Unmarked.update (.of_used ?_) slot
      simp [running]
  | fault =>
      refine Unmarked.update (.of_used ?_) slot
      simp [running]

theorem Step.unmarked {action : Action CpuId} (exclusive : Exclusive state)
    (owned : state.family.Owned) (step : Step state action after)
    (spared : ∀ cpu pid, action ≠ .op cpu (.kill pid))
    (alive : ∀ cpu cur child, action = .op cpu .forkFail → (state.cpu cpu).mode = .running →
      (state.cpu cpu).proc = some cur → (state.proc cur).call = .allocated child →
      (state.proc child).killed = false) (slot : Slot) :
    Unmarked (state.proc slot) (after.proc slot) := by
  cases step with
  | userinit init before free => exact allocated_unmarked 0 free slot
  | userinitRun init booting =>
      refine Unmarked.update (.of_used ?_) slot
      simp
  | acquire cpu idle free => exact .refl _
  | dispatch cpu p scanning chosen =>
      refine Unmarked.update (.of_used ?_) slot
      simp
  | endOfTable cpu scanning ended => exact .refl _
  | resume cpu cur resumed isCur => exact .refl _
  | resumeSlept cpu cur resumed isCur =>
      refine Unmarked.update (.of_used ?_) slot
      simp [exclusive.current cpu cur isCur]
  | resumeWait cpu cur resumed isCur waiting =>
      have running := exclusive.current cpu cur isCur
      have tidied : Unmarked (state.proc cur) { state.proc cur with chan := none } :=
        .refl (state.proc cur)
      exact (tidied.update slot).trans
        (waitScan_unmarked (by simpa using running) (waitScan_scanned _ cpu cur) slot)
  | op cpu cur op isRunning isCur performed =>
      apply performed.unmarked (exclusive.current cpu cur isCur) owned
      · rintro pid rfl
        exact spared cpu pid rfl
      · rintro rfl child calls
        exact alive cpu cur child rfl isRunning isCur calls
  | wakeup cpu chan =>
      apply (wakeup1_woken _ _ slot).unmarked
      obtain ⟨_, fields⟩ := wakeup1_fields state.proc (some chan) slot
      rw [fields]

/-! ## The effect of `kill` -/

omit [DecidableEq CpuId] in
theorem target_pid {pid : Int} {slot : Slot} (found : state.target pid = some slot) :
    (state.proc slot).pid = pid := by
  simpa using firstSlot_eq_some found

omit [DecidableEq CpuId] in
theorem target_ne_none {pid : Int} {slot : Slot} (isPid : (state.proc slot).pid = pid) :
    state.target pid ≠ none := by
  intro nobody
  have := List.find?_eq_none.mp nobody slot (mem_slots slot)
  simp [isPid] at this

omit [DecidableEq CpuId] in
/-- `kill` changes the slot it finds and the return value of its caller. -/
theorem kill_proc (state : State CpuId) (cur : Slot) (pid : Int) (slot : Slot) :
    (state.kill cur pid).proc slot =
      { (if state.target pid = some slot then (state.proc slot).kill else state.proc slot) with
        eax := if slot = cur then (if state.target pid = none then -1 else 0)
          else (state.proc slot).eax } := by
  unfold State.kill
  cases found : firstSlot fun p => decide ((state.proc p).pid = pid) with
  | none =>
      have nobody : state.target pid = none := found
      by_cases isCur : slot = cur
      · subst isCur
        simp [State.setEax, nobody]
      · simp [State.setEax, isCur, nobody]
  | some p =>
      have isTarget : state.target pid = some p := found
      by_cases isCur : slot = cur
      · subst isCur
        by_cases here : slot = p
        · subst here
          simp [State.setEax, isTarget]
        · simp [State.setEax, isTarget, here, Ne.symm here]
      · by_cases here : slot = p
        · subst here
          simp [State.setEax, isTarget, isCur, Proc.kill]
        · simp [State.setEax, isTarget, isCur, here, Ne.symm here]

/-! ## Runs -/

/-- Free slots are not marked, and a process that is set up only when its own
identifier was killed. -/
structure Spared (recorded : Recorded CpuId) : Prop where
  free : ∀ slot, (recorded.state.proc slot).state = .unused →
    (recorded.state.proc slot).killed = false
  embryo : ∀ slot, (recorded.state.proc slot).state = .embryo →
    (recorded.state.proc slot).killed = true →
      (recorded.state.proc slot).pid ∈ recorded.kills slot

variable {recorded : Recorded CpuId}

omit [DecidableEq CpuId] in
theorem mem_recordKills {action : Action CpuId} {kills : Slot → List Int} {slot : Slot}
    {pid : Int} (used : (state.proc slot).state ≠ .unused) (member : pid ∈ kills slot) :
    pid ∈ recordKills state action after kills slot := by
  unfold recordKills
  rw [if_neg (fun fresh => used fresh.1)]
  split
  · exact List.mem_cons_of_mem _ member
  · exact member

omit [DecidableEq CpuId] in
theorem Spared.of_unmarked {action : Action CpuId} (spared : Spared recorded)
    (unmarked : ∀ slot, Unmarked (recorded.state.proc slot) (after.proc slot)) :
    Spared ⟨after, recordKills recorded.state action after recorded.kills⟩ := by
  constructor
  · intro slot free
    by_contra marked
    obtain ⟨killed, wasFree | ⟨-, embryo, -⟩⟩ :=
      unmarked slot (by simpa using marked) (Or.inl free)
    · simp [spared.free slot wasFree] at killed
    · have impossible : ProcState.unused = .embryo := free.symm.trans embryo
      cases impossible
  · intro slot embryo killed
    obtain ⟨wasKilled, wasFree | ⟨wasEmbryo, -, pid⟩⟩ := unmarked slot killed (Or.inr embryo)
    · simp [spared.free slot wasFree] at wasKilled
    · have member := spared.embryo slot wasEmbryo wasKilled
      rw [← pid] at member
      exact mem_recordKills (by simp [wasEmbryo]) member

omit [DecidableEq CpuId] in
theorem Spared.kill {cpu : CpuId} {cur : Slot} {pid : Int} (spared : Spared recorded)
    (isUsed : recorded.state.hitsUnused pid = false) :
    Spared ⟨recorded.state.kill cur pid, recordKills recorded.state (.op cpu (.kill pid))
      (recorded.state.kill cur pid) recorded.kills⟩ := by
  have used : ∀ slot, recorded.state.target pid = some slot →
      (recorded.state.proc slot).state ≠ .unused := by
    intro slot found free
    simp [State.hitsUnused, found, free] at isUsed
  constructor
  · intro slot free
    simp only [kill_proc] at free ⊢
    split at free
    · next found =>
        simp only [Proc.kill] at free
        split at free
        · cases free
        · exact (used slot found free).elim
    · next other =>
        rw [if_neg other]
        exact spared.free slot free
  · intro slot embryo killed
    simp only [kill_proc] at embryo killed ⊢
    split at embryo
    · next found =>
        rw [if_pos found]
        have fresh : ¬ ((recorded.state.proc slot).state = .unused ∧
            ((recorded.state.kill cur pid).proc slot).state ≠ .unused) :=
          fun fresh => used slot found fresh.1
        simp [recordKills, if_neg fresh, Proc.kill, target_pid found]
    · next other =>
        rw [if_neg other] at killed ⊢
        exact mem_recordKills (by simp [embryo]) (spared.embryo slot embryo killed)

theorem Spared.step {action : Action CpuId} {next : Recorded CpuId}
    (spared : Spared recorded) (exclusive : Exclusive recorded.state)
    (owned : recorded.state.family.Owned) (allowed : sparesUnused recorded action = true)
    (taken : recorded.step action = some next) : Spared next := by
  obtain ⟨after, stepped, rfl⟩ := Option.map_eq_some_iff.mp taken
  have step := Step.of_step action stepped
  by_cases kills : ∃ cpu pid, action = .op cpu (.kill pid)
  · obtain ⟨cpu, pid, rfl⟩ := kills
    cases step with
    | op _ cur _ isRunning isCur performed =>
        cases performed
        exact spared.kill (by simpa [sparesUnused] using allowed)
  · apply spared.of_unmarked
    apply step.unmarked exclusive owned
    · intro cpu pid isKill
      exact kills ⟨cpu, pid, isKill⟩
    · rintro cpu cur child rfl isRunning isCur calls
      simpa [sparesUnused, State.failsKilled, State.myproc, isRunning, isCur, calls] using allowed

theorem recorded_run {allowed : Recorded CpuId → Action CpuId → Prop}
    (run : Run Recorded.step allowed IsRecordedInitial recorded) :
    Run State.step anyStep IsInitial recorded.state := by
  induction run with
  | start isInitial =>
      subst isInitial
      exact .start rfl
  | next action _ _ taken ih =>
      obtain ⟨after, stepped, rfl⟩ := Option.map_eq_some_iff.mp taken
      exact .next action ih trivial stepped

theorem spared_of_run
    (run : Run Recorded.step (fun recorded action => sparesUnused recorded action = true)
      IsRecordedInitial recorded) : Spared recorded := by
  induction run with
  | start isInitial =>
      subst isInitial
      constructor
      · intro slot _
        rfl
      · intro slot embryo
        cases embryo
  | next action before allowed taken ih =>
      obtain ⟨exclusive, owned⟩ := exclusive_and_owned (recorded_run before)
      exact ih.step exclusive owned allowed taken

/-- In runs where no `kill` finds a free slot first and no `fork` fails for a
killed child: `kill` returns 0 exactly when a used slot has the identifier, and
otherwise changes nothing in the table; and a process that `fork` returns is
marked only if its own identifier was killed since it was created. -/
theorem kill_hits_used
    (run : Run Recorded.step (fun recorded action => sparesUnused recorded action = true)
      IsRecordedInitial recorded) :
    (∀ cpu cur pid after, recorded.state.myproc cpu = some cur →
      sparesUnused recorded (.op cpu (.kill pid)) = true →
      recorded.state.step (.op cpu (.kill pid)) = some after →
      ((after.proc cur).eax = 0 ↔ ∃ slot, (recorded.state.proc slot).state ≠ .unused ∧
        (recorded.state.proc slot).pid = pid) ∧
      ((¬ ∃ slot, (recorded.state.proc slot).state ≠ .unused ∧
          (recorded.state.proc slot).pid = pid) →
        after = recorded.state.setEax cur (-1))) ∧
    (∀ cpu cur child after, recorded.state.myproc cpu = some cur →
      (recorded.state.proc cur).call = .parented child →
      recorded.state.step (.op cpu .forkRun) = some after →
      (after.proc cur).eax = (after.proc child).pid ∧
        ((after.proc child).killed = true → (after.proc child).pid ∈ recorded.kills child)) := by
  obtain ⟨exclusive, owned⟩ := exclusive_and_owned (recorded_run run)
  have spared := spared_of_run run
  constructor
  · intro cpu cur pid after isCur allowed taken
    have isCur' : (recorded.state.cpu cpu).proc = some cur := by
      simp only [State.myproc, Option.ite_none_right_eq_some] at isCur
      exact isCur.2
    have isUsed : recorded.state.hitsUnused pid = false := by
      simpa [sparesUnused] using allowed
    have step := Step.of_step _ taken
    cases step with
    | op _ other _ isRunning isOther performed =>
        obtain rfl : cur = other := Option.some.inj (isCur'.symm.trans isOther)
        cases performed
        cases found : recorded.state.target pid with
        | none =>
            have nobody : ¬ ∃ slot, (recorded.state.proc slot).state ≠ .unused ∧
                (recorded.state.proc slot).pid = pid := by
              rintro ⟨slot, _, isPid⟩
              exact target_ne_none isPid found
            have unchanged : recorded.state.kill cur pid = recorded.state.setEax cur (-1) := by
              have isNone : (firstSlot fun p => decide ((recorded.state.proc p).pid = pid)) =
                none := found
              simp [State.kill, isNone]
            refine ⟨?_, fun _ => unchanged⟩
            simp [kill_proc, found, nobody]
        | some p =>
            have used : (recorded.state.proc p).state ≠ .unused := by
              intro free
              simp [State.hitsUnused, found, free] at isUsed
            have somebody : ∃ slot, (recorded.state.proc slot).state ≠ .unused ∧
                (recorded.state.proc slot).pid = pid := ⟨p, used, target_pid found⟩
            refine ⟨?_, fun nobody => (nobody somebody).elim⟩
            simp [kill_proc, found, somebody]
  · intro cpu cur child after isCur calls taken
    have isCur' : (recorded.state.cpu cpu).proc = some cur := by
      simp only [State.myproc, Option.ite_none_right_eq_some] at isCur
      exact isCur.2
    have running := exclusive.current cpu cur isCur'
    have embryo : (recorded.state.proc child).state = .embryo := by
      simpa [State.family, Proc.life] using owned.embryo cur child (by
        simp [State.family, Proc.life, calls, Call.child])
    have different : child ≠ cur := by
      rintro rfl
      simp [running] at embryo
    have step := Step.of_step _ taken
    cases step with
    | op _ other _ isRunning isOther performed =>
        obtain rfl : cur = other := Option.some.inj (isCur'.symm.trans isOther)
        cases performed with
        | forkRun made makes =>
            obtain rfl : child = made := by
              rw [calls] at makes
              exact Call.parented.inj makes
            simpa [State.forkRun, different] using spared.embryo child embryo

/-- The first process is about to let its child run. -/
def forksChild : List (Action Unit) :=
  [.userinit, .userinitRun, .acquire (), .schedule (), .resume (), .op () (.kill 1),
    .op () .fork, .op () .forkParent]

theorem forksChild_enabled :
    (execute Recorded.step sparesUnused (Recorded.initial : Recorded Unit)
      forksChild).isSome = true := by
  decide +kernel

theorem kill_hits_used_forksChild :
    ∃ (recorded : Recorded Unit) (after : State Unit),
      recorded.state.step (.op () .forkRun) = some after ∧
      (after.proc 0).eax = (after.proc 1).pid ∧ (after.proc 1).killed = false := by
  have isInitial : IsRecordedInitial (Recorded.initial : Recorded Unit) := rfl
  have run := run_lastState isInitial forksChild forksChild_enabled
  obtain ⟨after, taken⟩ := Option.isSome_iff_exists.mp (show
    ((lastState Recorded.step _ _ _ forksChild_enabled).state.step
      (.op () .forkRun)).isSome = true by decide +kernel)
  obtain ⟨returned, marked⟩ := (kill_hits_used run).2 () 0 1 after (by decide +kernel)
    (by decide +kernel) taken
  refine ⟨_, after, taken, returned, ?_⟩
  have noKills : (lastState Recorded.step _ _ _ forksChild_enabled).kills 1 = [] := by
    decide +kernel
  by_contra killed
  have := marked (by simpa using killed)
  simp [noKills] at this

/-- The first process runs. -/
def initRuns : List (Action Unit) :=
  [.userinit, .userinitRun, .acquire (), .schedule (), .resume ()]

theorem initRuns_enabled :
    (execute Recorded.step (fun _ _ => true) (Recorded.initial : Recorded Unit)
      initRuns).isSome = true := by
  decide +kernel

/-- The first process kills identifier 0 and forks a child. -/
def killsZero : List (Action Unit) :=
  initRuns ++ [.op () (.kill 0), .op () .fork, .op () .forkParent, .op () .forkRun]

theorem killsZero_enabled :
    (execute Recorded.step (fun _ _ => true) (Recorded.initial : Recorded Unit)
      killsZero).isSome = true := by
  decide +kernel

/-- `kill(0)` returns 0 although no used slot has identifier 0, and the next child
starts killed although its identifier was never killed. -/
theorem kill_zero_marks_unused :
    (∃ recorded : Recorded Unit, Run Recorded.step anyStep IsRecordedInitial recorded ∧
      (recorded.state.step (.op () (.kill 0))).map (fun after => (after.proc 0).eax) = some 0 ∧
      recorded.state.myproc () = some 0 ∧
      ∀ slot, (recorded.state.proc slot).state ≠ .unused →
        (recorded.state.proc slot).pid ≠ 0) ∧
    (∃ recorded : Recorded Unit, Run Recorded.step anyStep IsRecordedInitial recorded ∧
      (recorded.state.proc 0).eax = (recorded.state.proc 1).pid ∧
      (recorded.state.proc 1).state = .runnable ∧ (recorded.state.proc 1).killed = true ∧
      (recorded.state.proc 1).pid ∉ recorded.kills 1) := by
  have isInitial : IsRecordedInitial (Recorded.initial : Recorded Unit) := rfl
  have first := run_lastState isInitial initRuns initRuns_enabled
  have last := run_lastState isInitial killsZero killsZero_enabled
  constructor
  · refine ⟨_, first.mono fun _ _ _ => trivial, ?_, ?_, ?_⟩
    · decide +kernel
    · decide +kernel
    · decide +kernel
  · refine ⟨_, last.mono fun _ _ _ => trivial, ?_, ?_, ?_, ?_⟩
    · decide +kernel
    · decide +kernel
    · decide +kernel
    · decide +kernel

end Coursework.ProcTable
