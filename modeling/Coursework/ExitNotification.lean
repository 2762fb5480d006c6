import Coursework.ProcReaping

/-!
# Exit notifications

A process that sleeps in `wait` has no exited child.  The scan of `wait` and its
`sleep` are one section under `ptable.lock`, and so are the wakeups of `exit` and
the change to `ZOMBIE`, so it remains to see that `exit` wakes the right
processes: the parent of the process that exits, and `initproc` when it inherits
a child that has exited before.  This needs that no process is its own parent and
that `initproc` has none.
-/

namespace Coursework.ProcTable

variable {CpuId : Type*} [DecidableEq CpuId] {state after : State CpuId}

/-! ## The root of the family -/

namespace Family

variable {family after : Family} {event : Event}

structure Rooted (family : Family) : Prop where
  init : ∀ init, family.initproc = some init → (family.life init).parent = none
  proper : ∀ slot, (family.life slot).parent ≠ some slot

theorem Rooted.of_parents (rooted : Rooted family)
    (same : after.initproc = family.initproc)
    (kept : ∀ slot, (after.life slot).parent = (family.life slot).parent ∨
      (after.life slot).parent = none) : Rooted after := by
  constructor
  · intro init isInit
    rcases kept init with equal | orphan
    · rw [equal]
      exact rooted.init init (same ▸ isInit)
    · exact orphan
  · intro slot
    rcases kept slot with equal | orphan
    · rw [equal]
      exact rooted.proper slot
    · simp [orphan]

theorem initproc_ne_child (owned : family.Owned) (booted : family.Booted) {cur child : Slot}
    (calls : (family.life cur).call.child = some child) : family.initproc ≠ some child := by
  intro isInit
  have isEmbryo := owned.embryo cur child calls
  unfold Family.initproc at isInit
  split at isInit
  · cases isInit
  · next init booting =>
      cases isInit
      exact (owned.boot child booting).2 cur calls
  · next init done =>
      cases isInit
      rw [booted.booted child done] at isEmbryo
      cases isEmbryo

theorem Rooted.step (rooted : Rooted family) (sound : family.Sound)
    (step : Step family event after) : Rooted after := by
  cases step with
  | stutter => exact rooted
  | bootCreate first isBefore free =>
      have orphan := sound.parented.unused first free
      constructor
      · rintro other ⟨⟩
        simp [orphan]
      · intro slot
        simp only [allocated_life, update_parent]
        split
        · simp [orphan]
        · exact rooted.proper slot
  | bootStart first booting =>
      apply rooted.of_parents
      · simp [Family.initproc, booting]
      · intro slot
        left
        simp only [setLife_life, update_parent]
        split
        · next here => rw [here]
        · rfl
  | create cur child live idle free =>
      refine rooted.of_parents (by rfl) ?_
      intro slot
      left
      simp only [setLife_life, allocated_life, update_parent]
      split
      · next here => rw [here]
      · split
        · next here => rw [here]
        · rfl
  | fail cur child calls =>
      refine rooted.of_parents (by rfl) ?_
      intro slot
      left
      simp only [setLife_life, update_parent]
      split
      · next here => rw [here]
      · split
        · next here => rw [here]
        · rfl
  | adopt cur child calls =>
      have isChild : (family.life cur).call.child = some child := by simp [calls, Call.child]
      have isEmbryo := sound.owned.embryo cur child isChild
      have isLive := sound.owned.caller cur (by simp [calls])
      have distinct : cur ≠ child := by
        rintro rfl
        simp [isLive] at isEmbryo
      have notInit := initproc_ne_child sound.owned sound.booted isChild
      constructor
      · intro init isInit
        have other : init ≠ child := by
          rintro rfl
          exact notInit isInit
        simp only [setLife_life, update_parent, if_neg other]
        split
        · next here =>
            rw [← here]
            exact rooted.init init isInit
        · exact rooted.init init isInit
      · intro slot
        simp only [setLife_life, update_parent]
        split
        · next here =>
            rw [here]
            exact rooted.proper cur
        · split
          · next here =>
              rw [here]
              simpa using distinct
          · exact rooted.proper slot
  | start cur child calls =>
      refine rooted.of_parents (by rfl) ?_
      intro slot
      left
      simp only [setLife_life, update_parent]
      split
      · next here => rw [here]
      · split
        · next here => rw [here]
        · rfl
  | exit cur live idle survives =>
      constructor
      · intro init isInit
        have orphan := rooted.init init isInit
        simp [orphan]
      · intro slot
        simp only [exit_life]
        split
        · next isChild =>
            intro isInit
            have orphan := rooted.init slot isInit
            simp [orphan] at isChild
        · exact rooted.proper slot
  | waitFail cur => exact ⟨rooted.init, rooted.proper⟩
  | reap cur child parent zombie =>
      refine rooted.of_parents (by rfl) ?_
      intro slot
      simp only [waitReturn_life, setLife_life, update_parent]
      split
      · exact Or.inr rfl
      · exact Or.inl rfl

end Family

/-! ## What `exit` wakes up -/

/-- `wakeup1` leaves nobody asleep on its channel. -/
theorem wakeup1_awake {table : Slot → Proc} {chan : Option Chan} {slot : Slot}
    (sleeps : (wakeup1 table chan slot).state = .sleeping) : (table slot).chan ≠ chan := by
  intro same
  unfold wakeup1 at sleeps
  split at sleeps
  · cases sleeps
  · next awake => exact awake ⟨sleeps, same⟩

theorem Woken.sleeping {old new : Proc} (woken : Woken old new)
    (sleeps : new.state = .sleeping) : old.state = .sleeping := by
  rcases woken.state with same | ⟨slept, _⟩
  · rw [← same]
    exact sleeps
  · exact slept

theorem Woken.zombie {old new : Proc} (woken : Woken old new) :
    new.state = .zombie ↔ old.state = .zombie := by
  rcases woken.state with same | ⟨slept, isRunnable⟩
  · rw [same]
  · simp [slept, isRunnable]

/-- When `initproc` inherits an exited child, nobody sleeps on `initproc`. -/
theorem foldl_reparent_awake {cur : Slot} {initproc : Option Slot}
    (survives : initproc ≠ some cur) (visited : List Slot) (table : Slot → Proc)
    {child slot : Slot} (member : child ∈ visited)
    (isChild : (table child).parent = some cur) (zombie : (table child).state = .zombie)
    (sleeps : (visited.foldl (reparent cur initproc) table slot).state = .sleeping) :
    (table slot).chan ≠ initproc.map .proc := by
  induction visited generalizing table with
  | nil => cases member
  | cons p rest ih =>
      rw [List.foldl_cons] at sleeps
      have chan : (reparent cur initproc table p slot).chan = (table slot).chan := by
        obtain ⟨_, _, fields⟩ := reparent_fields cur initproc table p slot
        rw [fields]
      by_cases here : child = p
      · subst here
        have still := (foldl_reparent survives rest (reparent cur initproc table child)
          slot).1.sleeping sleeps
        have reparented : reparent cur initproc table child =
            wakeup1 (Function.update table child { table child with parent := initproc })
              (initproc.map .proc) := by
          simp [reparent, isChild, zombie]
        rw [reparented] at still chan
        have awake := wakeup1_awake still
        obtain ⟨_, fields⟩ := wakeup1_fields
          (Function.update table child { table child with parent := initproc })
          (initproc.map .proc) slot
        rw [fields] at chan
        rwa [← chan]
      · rw [← chan]
        apply ih (reparent cur initproc table p)
        · exact (List.mem_cons.mp member).resolve_left here
        · rw [reparent_parent, if_neg (fun equal => here equal.1)]
          exact isChild
        · exact (reparent_woken cur initproc table p child).zombie.mpr zombie
        · exact sleeps

/-! ## The invariant -/

/-- A process that sleeps in `wait` sleeps on its own slot and has no exited
child. -/
def Notified (state : State CpuId) : Prop :=
  ∀ slot, (state.proc slot).state = .sleeping → (state.proc slot).context = .waiting →
    (state.proc slot).chan = some (.proc slot) ∧
      ∀ child, (state.proc child).parent = some slot → (state.proc child).state ≠ .zombie

namespace Notified

omit [DecidableEq CpuId] in
/-- A step that puts nobody to sleep in `wait` and makes no zombie. -/
theorem keep (notified : Notified state)
    (sleepers : ∀ slot, (after.proc slot).state = .sleeping →
      (after.proc slot).context = .waiting → (state.proc slot).state = .sleeping ∧
        (state.proc slot).context = .waiting ∧
        (after.proc slot).chan = (state.proc slot).chan)
    (zombies : ∀ child, (after.proc child).state = .zombie →
      (state.proc child).state = .zombie ∧
        (after.proc child).parent = (state.proc child).parent) : Notified after := by
  intro slot sleeps waits
  obtain ⟨slept, waited, same⟩ := sleepers slot sleeps waits
  obtain ⟨chan, children⟩ := notified slot slept waited
  refine ⟨same.trans chan, ?_⟩
  intro child isChild zombie
  obtain ⟨wasZombie, parent⟩ := zombies child zombie
  exact children child (parent ▸ isChild) wasZombie

omit [DecidableEq CpuId] in
theorem setProc (notified : Notified state) {slot : Slot} {proc : Proc}
    (sleeper : proc.state = .sleeping → proc.context = .waiting →
      (state.proc slot).state = .sleeping ∧ (state.proc slot).context = .waiting ∧
        proc.chan = (state.proc slot).chan)
    (zombie : proc.state = .zombie → (state.proc slot).state = .zombie ∧
      proc.parent = (state.proc slot).parent) : Notified (state.setProc slot proc) := by
  apply notified.keep
  · intro other
    by_cases here : other = slot
    · subst here
      simpa using sleeper
    · simpa [here] using fun sleeps waits => ⟨sleeps, waits⟩
  · intro other
    by_cases here : other = slot
    · subst here
      simpa using zombie
    · simp [here]

omit [DecidableEq CpuId] in
theorem of_table (notified : Notified state) (same : after.proc = state.proc) :
    Notified after := by
  unfold Notified
  rw [same]
  exact notified

omit [DecidableEq CpuId] in
theorem setEax (notified : Notified state) (cur : Slot) (value : Int) :
    Notified (state.setEax cur value) :=
  notified.setProc (fun sleeps waits => ⟨sleeps, waits, rfl⟩) (fun zombie => ⟨zombie, rfl⟩)

theorem waitScan (notified : Notified state) (cpu : CpuId) (cur : Slot) :
    Notified (state.waitScan cpu cur) := by
  unfold State.waitScan
  split
  · next child found =>
      have reaped : Notified (state.setProc child (state.proc child).reaped) :=
        notified.setProc (by simp [Proc.reaped]) (by simp [Proc.reaped])
      exact (reaped.setEax cur (state.proc child).pid).of_table rfl
  · next none =>
      dsimp only
      split
      · exact (notified.setEax cur (-1)).of_table rfl
      · have childless : ∀ child, (state.proc child).parent = some cur →
            (state.proc child).state ≠ .zombie := by
          intro child isChild zombie
          have := List.find?_eq_none.mp none child (mem_slots child)
          simp [isChild, zombie] at this
        intro slot
        simp only [State.sleep, sched_proc, setProc_proc]
        by_cases here : slot = cur
        · subst here
          intro _ _
          refine ⟨by simp, ?_⟩
          intro child
          by_cases same : child = slot
          · subst same
            simp
          · simpa [same] using childless child
        · simp only [Function.update_of_ne here]
          intro sleeps waits
          obtain ⟨chan, children⟩ := notified slot sleeps waits
          refine ⟨chan, ?_⟩
          intro child
          by_cases same : child = cur
          · subst same
            simp
          · simpa [same] using children child

theorem exit (notified : Notified state) (rooted : state.family.Rooted) {cpu : CpuId}
    {cur : Slot} (survives : state.initproc ≠ some cur) : Notified (state.exit cpu cur) := by
  let woken := wakeup1 state.proc ((state.proc cur).parent.map .proc)
  have noSelf : (state.proc cur).parent ≠ some cur := rooted.proper cur
  intro slot
  rw [exit_proc]
  by_cases isCur : slot = cur
  · subst isCur
    simp
  · rw [Function.update_of_ne isCur]
    intro sleeps waits
    obtain ⟨_, wakes⟩ : ∃ new, woken slot = { state.proc slot with state := new } :=
      wakeup1_fields state.proc ((state.proc cur).parent.map .proc) slot
    obtain ⟨_, _, hands⟩ := foldl_reparent_fields cur state.initproc slots woken slot
    have wakeChan : (woken slot).chan = (state.proc slot).chan := by rw [wakes]
    have foldChan : (state.handedOver cur slot).chan = (woken slot).chan := by
      rw [State.handedOver, hands]
    have waited : (state.proc slot).context = .waiting := by
      rw [State.handedOver, hands, wakes] at waits
      exact waits
    have slept := (handedOver_spec survives slot).1.sleeping sleeps
    obtain ⟨chan, children⟩ := notified slot slept waited
    refine ⟨(foldChan.trans wakeChan).trans chan, ?_⟩
    intro child
    by_cases same : child = cur
    · -- the process that exits has woken its parent
      subst same
      rw [Function.update_self]
      intro isChild
      have parent : (state.proc child).parent = some slot := by
        have handed := (handedOver_spec survives child).2
        dsimp only at isChild
        rw [handed, if_neg noSelf] at isChild
        exact isChild
      have early : (woken slot).state = .sleeping :=
        (foldl_reparent survives slots woken slot).1.sleeping sleeps
      have away := wakeup1_awake early
      rw [parent] at away
      exact (away chan).elim
    · rw [Function.update_of_ne same]
      intro isChild zombie
      have wasZombie := (handedOver_spec survives child).1.zombie.mp zombie
      have handed := (handedOver_spec survives child).2
      by_cases abandoned : (state.proc child).parent = some cur
      · rw [if_pos abandoned, isChild] at handed
        have isChild' : (woken child).parent = some cur := by
          rw [wakeup1_parent]
          exact abandoned
        have isZombie : (woken child).state = .zombie :=
          (wakeup1_woken _ _ child).zombie.mpr wasZombie
        have away := foldl_reparent_awake survives slots woken (mem_slots child) isChild'
          isZombie sleeps
        rw [← handed, wakeChan] at away
        exact away chan
      · rw [if_neg abandoned, isChild] at handed
        exact children child handed.symm wasZombie

theorem op (notified : Notified state) (rooted : state.family.Rooted)
    (owned : state.family.Owned) {cpu : CpuId} {cur : Slot} {op : Op}
    (running : (state.proc cur).state = .running)
    (performed : Performed state cpu cur op after) : Notified after := by
  have isEmbryo : ∀ child, (state.proc cur).call.child = some child →
      (state.proc child).state = .embryo := by
    intro child calls
    simpa [State.family, Proc.life] using owned.embryo cur child calls
  cases performed with
  | noSlot => exact notified.setEax cur (-1)
  | fork child idle free =>
      have allocated : Notified (state.allocated (state.proc cur).pid child) := by
        have placed : Notified (state.setProc child { state.proc child with
            state := .embryo, pid := state.nextpid, priority := 10, context := .forkret,
            call := .none }) := notified.setProc (by simp) (by simp)
        exact placed.of_table rfl
      refine allocated.setProc ?_ ?_
      · intro sleeps waits
        exact ⟨sleeps, waits, rfl⟩
      · intro zombie
        exact ⟨zombie, rfl⟩
  | forkFail child calls =>
      have freed : Notified (state.setProc child { state.proc child with state := .unused }) :=
        notified.setProc (by simp) (by simp)
      exact freed.setProc (by simp [running]) (by simp [running])
  | forkParent child calls =>
      have setUp := isEmbryo child (by simp [calls, Call.child])
      have adopted : Notified
          (state.setProc child { state.proc child with parent := some cur }) :=
        notified.setProc (by simp [setUp]) (by simp [setUp])
      exact adopted.setProc (by simp [running]) (by simp [running])
  | forkRun child calls =>
      have started : Notified
          (state.setProc child { state.proc child with state := .runnable, eax := 0 }) :=
        notified.setProc (by simp) (by simp)
      exact started.setProc (by simp [running]) (by simp [running])
  | exit idle survives => exact notified.exit rooted survives
  | wait idle => exact notified.waitScan cpu cur
  | yield =>
      have yielded : Notified (state.setProc cur
          { state.proc cur with state := .runnable, context := .yielded }) :=
        notified.setProc (by simp) (by simp)
      exact yielded.of_table rfl
  | sleep chan idle =>
      have slept : Notified (state.setProc cur { state.proc cur with
          chan := some chan, state := .sleeping, context := .slept }) :=
        notified.setProc (by simp) (by simp)
      exact slept.of_table rfl
  | kill pid =>
      unfold State.kill
      split
      · next p found =>
          have killed : Notified (state.setProc p (state.proc p).kill) := by
            apply notified.setProc
            · intro sleeps
              simp only [Proc.kill] at sleeps
              split at sleeps
              · cases sleeps
              · next awake => exact (awake sleeps).elim
            · intro zombie
              simp only [Proc.kill] at zombie
              split at zombie
              · cases zombie
              · exact ⟨zombie, rfl⟩
          exact killed.setEax cur 0
      · exact notified.setEax cur (-1)
  | chpr pid priority =>
      unfold State.chpr
      split
      · next p found =>
          have changed : Notified
              (state.setProc p { state.proc p with priority := priority }) :=
            notified.setProc (fun sleeps waits => ⟨sleeps, waits, rfl⟩)
              (fun zombie => ⟨zombie, rfl⟩)
          exact changed.setEax cur pid
      · exact notified.setEax cur pid
  | exec =>
      exact notified.setProc (fun sleeps waits => ⟨sleeps, waits, rfl⟩)
        (fun zombie => ⟨zombie, rfl⟩)
  | fault =>
      exact notified.setProc (fun sleeps waits => ⟨sleeps, waits, rfl⟩)
        (fun zombie => ⟨zombie, rfl⟩)

theorem step {action : Action CpuId} (notified : Notified state)
    (rooted : state.family.Rooted) (owned : state.family.Owned) (current : Current state)
    (step : Step state action after) : Notified after := by
  cases step with
  | userinit init before free =>
      have placed : Notified (state.setProc init { state.proc init with
          state := .embryo, pid := state.nextpid, priority := 10, context := .forkret,
          call := .none }) := notified.setProc (by simp) (by simp)
      exact placed.of_table rfl
  | userinitRun init booting =>
      have started : Notified
          (state.setProc init { state.proc init with state := .runnable }) :=
        notified.setProc (by simp) (by simp)
      exact started.of_table rfl
  | acquire cpu idle free => exact notified.of_table rfl
  | dispatch cpu p scanning chosen =>
      have dispatched : Notified
          (state.setProc p { state.proc p with state := .running }) :=
        notified.setProc (by simp) (by simp)
      exact dispatched.of_table rfl
  | endOfTable cpu scanning ended => exact notified.of_table rfl
  | resume cpu cur resumed isCur => exact notified.of_table rfl
  | resumeSlept cpu cur resumed isCur =>
      have running := current cpu cur isCur
      have tidied : Notified (state.setProc cur { state.proc cur with chan := none }) :=
        notified.setProc (by simp [running]) (by simp [running])
      exact tidied.of_table rfl
  | resumeWait cpu cur resumed isCur waiting =>
      have running := current cpu cur isCur
      have tidied : Notified (state.setProc cur { state.proc cur with chan := none }) :=
        notified.setProc (by simp [running]) (by simp [running])
      exact tidied.waitScan cpu cur
  | op cpu cur op isRunning isCur performed =>
      exact notified.op rooted owned (current cpu cur isCur) performed
  | wakeup cpu chan =>
      apply notified.keep
      · intro slot sleeps waits
        have slept := (wakeup1_woken state.proc (some chan) slot).sleeping sleeps
        obtain ⟨_, fields⟩ := wakeup1_fields state.proc (some chan) slot
        simp only [fields] at waits ⊢
        exact ⟨slept, waits, trivial⟩
      · intro child zombie
        exact ⟨(wakeup1_woken _ _ child).zombie.mp zombie, wakeup1_parent _ _ child⟩

end Notified

theorem rooted_and_notified (run : Run State.step anyStep IsInitial state) :
    state.family.Rooted ∧ Notified state := by
  induction run with
  | start isInitial =>
      subst isInitial
      refine ⟨⟨?_, ?_⟩, ?_⟩
      · simp [State.family, State.initial, Proc.zero, Proc.life]
      · simp [State.family, State.initial, Proc.zero, Proc.life]
      · intro slot sleeps
        cases sleeps
  | next action before _ taken ih =>
      obtain ⟨rooted, notified⟩ := ih
      have current := (exclusive_and_owned before).1.current
      have sound := sound_of_run before
      have step := Step.of_step action taken
      obtain ⟨event, lives, _⟩ := refines current step
      exact ⟨rooted.step sound lives, notified.step rooted sound.owned current step⟩

/-- In every state that is reached, a process that sleeps in `wait`, `initproc`
included, sleeps on its own slot, and none of its children has exited. -/
theorem no_lost_exit (run : Run State.step anyStep IsInitial state) (slot child : Slot)
    (sleeps : (state.proc slot).state = .sleeping)
    (waits : (state.proc slot).context = .waiting) :
    (state.proc slot).chan = some (.proc slot) ∧
      ((state.proc child).parent = some slot → (state.proc child).state ≠ .zombie) := by
  obtain ⟨chan, children⟩ := (rooted_and_notified run).2 slot sleeps waits
  exact ⟨chan, children child⟩

/-- The first process forks a child and sleeps in `wait`. -/
def sleepingInit : List (Action Unit) :=
  [.userinit, .userinitRun, .acquire (), .schedule (), .resume (), .op () .fork,
    .op () .forkParent, .op () .forkRun, .op () .wait]

theorem sleepingInit_enabled :
    (execute State.step (fun _ _ => true) (State.initial : State Unit)
      sleepingInit).isSome = true := by
  decide +kernel

theorem no_lost_exit_sleepingInit :
    ∃ state : State Unit, (state.proc 0).state = .sleeping ∧
      (state.proc 0).context = .waiting ∧ (state.proc 1).parent = some 0 ∧
      (state.proc 1).state ≠ .zombie := by
  have isInitial : IsInitial (State.initial : State Unit) := rfl
  have run := run_lastState isInitial sleepingInit sleepingInit_enabled
  have parent : ((lastState State.step _ _ _ sleepingInit_enabled).proc 1).parent = some 0 := by
    decide +kernel
  obtain ⟨-, children⟩ := no_lost_exit (run.mono fun _ _ _ => trivial) 0 1
    (by decide +kernel) (by decide +kernel)
  exact ⟨_, by decide +kernel, by decide +kernel, parent, children parent⟩

end Coursework.ProcTable
