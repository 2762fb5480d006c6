import Coursework.DispatchExclusivity

/-!
# Process identifiers, parents and reaping

The invariants of the life cycles hold along every run of the process table.
As long as the identifiers do not wrap around, used slots have distinct
identifiers, every process but `initproc` has a parent that is alive, and an
exited process leaves the table only when `wait`, called by its creator or by
`initproc`, returns its identifier.
-/

namespace Coursework.ProcTable

variable {CpuId : Type*} [DecidableEq CpuId] {state after : State CpuId}

namespace Family

variable {family after : Family} {event : Event}

/-- The invariants of the life cycles together. -/
structure Sound (family : Family) : Prop where
  owned : family.Owned
  booted : family.Booted
  parented : family.Parented
  numbered : family.allocations < 2 ^ 31 - 1 → family.Numbered

theorem Step.allocations_le (step : Step family event after) :
    family.allocations ≤ after.allocations := by
  cases step with
  | bootCreate init before free => exact Nat.le_succ _
  | create cur child live idle free => exact Nat.le_succ _
  | _ => exact le_refl family.allocations

theorem Sound.step (sound : Sound family) (step : Step family event after) : Sound after where
  owned := sound.owned.step step
  booted := sound.booted.step sound.owned step
  parented := sound.parented.step sound.owned sound.booted step
  numbered few :=
    (sound.numbered (lt_of_le_of_lt step.allocations_le few)).step sound.owned step few

/-- A zombie leaves its slot only when `wait` returns its identifier to its
parent. -/
theorem Step.leaves_zombie (step : Step family event after) (owned : family.Owned)
    {slot : Slot} (zombie : (family.life slot).phase = .zombie)
    (leaves : (after.life slot).phase ≠ .zombie) :
    ∃ waiter, event = .waitReturn waiter (family.life slot).pid ∧
      (family.life slot).parent = some waiter ∧ (after.life slot).phase = .unused ∧
      after.waitReturns = (family.life slot).pid :: family.waitReturns := by
  have notInFork : ∀ cur child, (family.life cur).call.child = some child →
      slot ≠ cur ∧ slot ≠ child := by
    intro cur child calls
    constructor
    · rintro rfl
      have live := owned.caller slot (by intro idle; simp [idle, Call.child] at calls)
      simp [zombie] at live
    · rintro rfl
      have embryo := owned.embryo cur slot calls
      simp [zombie] at embryo
  cases step with
  | stutter => exact absurd zombie leaves
  | bootCreate init before free =>
      refine absurd ?_ leaves
      have different : slot ≠ init := by rintro rfl; simp [zombie] at free
      simp [different, zombie]
  | bootStart init booting =>
      refine absurd ?_ leaves
      have different : slot ≠ init := by
        rintro rfl
        have embryo := (owned.boot slot booting).1
        simp [zombie] at embryo
      simp [different, zombie]
  | create cur child live idle free =>
      refine absurd ?_ leaves
      have notCur : slot ≠ cur := by rintro rfl; simp [zombie] at live
      have notChild : slot ≠ child := by rintro rfl; simp [zombie] at free
      simp [notCur, notChild, zombie]
  | fail cur child calls =>
      refine absurd ?_ leaves
      obtain ⟨notCur, notChild⟩ := notInFork cur child (by simp [calls, Call.child])
      simp [notCur, notChild, zombie]
  | adopt cur child calls =>
      refine absurd ?_ leaves
      obtain ⟨notCur, notChild⟩ := notInFork cur child (by simp [calls, Call.child])
      simp [notCur, notChild, zombie]
  | start cur child calls =>
      refine absurd ?_ leaves
      obtain ⟨notCur, notChild⟩ := notInFork cur child (by simp [calls, Call.child])
      simp [notCur, notChild, zombie]
  | exit cur live idle survives =>
      refine absurd ?_ leaves
      simp [zombie]
  | waitFail cur => exact absurd zombie leaves
  | reap cur child parent isZombie =>
      by_cases here : slot = child
      · subst here
        exact ⟨cur, rfl, parent, by simp, rfl⟩
      · refine absurd ?_ leaves
        simp [here, zombie]

end Family

theorem sound_of_run (run : Run State.step anyStep IsInitial state) :
    state.family.Sound := by
  induction run with
  | start isInitial =>
      subst isInitial
      refine ⟨?_, ?_, ?_, fun _ => ?_⟩
      · constructor <;> simp [State.family, State.initial, Proc.zero, Proc.life, Call.child]
      · constructor <;>
          simp [State.family, State.initial, Proc.zero, Proc.life, ProcState.phase]
      · constructor <;>
          simp [State.family, State.initial, Proc.zero, Proc.life, ProcState.phase]
      · constructor <;>
          simp [State.family, State.initial, Proc.zero, Proc.life, ProcState.phase]
  | next action before _ taken ih =>
      have exclusive := (exclusive_and_owned before).1
      obtain ⟨event, lives, _⟩ := refines exclusive.current (Step.of_step action taken)
      exact ih.step lives

omit [DecidableEq CpuId] in
theorem life_phase (state : State CpuId) (slot : Slot) :
    (state.family.life slot).phase = (state.proc slot).state.phase := rfl

/-- For every run in which the identifiers do not wrap around: used slots have
distinct identifiers; every process but `initproc` that is set up has a parent
that is neither free, being set up nor exited; an exited process is a zombie, and
its slot is freed only by a `wait` of its creator or of `initproc` that returns
its identifier, which no `wait` has returned before; and no `wait` returns an
identifier a second time. -/
theorem reaping_sound (run : Run State.step anyStep IsInitial state)
    (few : state.history.allocations < 2 ^ 31 - 1) :
    (∀ first second, (state.proc first).state ≠ .unused →
      (state.proc second).state ≠ .unused →
      (state.proc first).pid = (state.proc second).pid → first = second) ∧
    (∀ slot, (state.proc slot).state ∈
        [ProcState.runnable, .running, .sleeping, .zombie] →
      state.initproc ≠ some slot →
      ∃ parent, (state.proc slot).parent = some parent ∧
        (state.proc parent).state ∉ [ProcState.unused, .embryo, .zombie]) ∧
    (∀ cpu after, state.step (.op cpu .exit) = some after →
      ∃ cur, (state.cpu cpu).proc = some cur ∧ (after.proc cur).state = .zombie) ∧
    (∀ action after slot, state.step action = some after →
      (state.proc slot).state = .zombie → (after.proc slot).state ≠ .zombie →
      (after.proc slot).state = .unused ∧
        ∃ waiter, Waits state action after waiter (state.proc slot).pid ∧
          (state.initproc = some waiter ∨
            (state.proc waiter).pid = state.history.creator slot) ∧
          after.history.waitReturns =
            (state.proc slot).pid :: state.history.waitReturns ∧
          (state.proc slot).pid ∉ state.history.waitReturns) ∧
    (∀ pid, 0 < pid → state.history.waitReturns.count pid ≤ 1) := by
  have sound := sound_of_run run
  have numbered := sound.numbered few
  refine ⟨?_, ?_, ?_, ?_, numbered.once⟩
  · intro first second firstUsed secondUsed same
    apply numbered.distinct first second _ _ same
    · rwa [life_phase, ne_eq, phase_eq_unused]
    · rwa [life_phase, ne_eq, phase_eq_unused]
  · intro slot started notInit
    have phase : (state.family.life slot).phase = .live ∨
        (state.family.life slot).phase = .zombie := by
      rw [life_phase]
      simp only [List.mem_cons, List.not_mem_nil, or_false] at started
      rcases started with is | is | is | is <;> simp [is, ProcState.phase]
    obtain ⟨parent, isParent⟩ :=
      Option.ne_none_iff_exists'.mp (sound.parented.present slot phase notInit)
    have live := (sound.parented.alive slot parent isParent).1
    rw [life_phase] at live
    refine ⟨parent, isParent, ?_⟩
    simp only [List.mem_cons, List.not_mem_nil, or_false]
    rintro (is | is | is) <;> simp [is, ProcState.phase] at live
  · intro cpu after taken
    have step := Step.of_step (.op cpu .exit) taken
    cases step with
    | op _ cur _ running isCur performed =>
        refine ⟨cur, isCur, ?_⟩
        cases performed
        simp [State.exit]
  · intro action after slot taken zombie leaves
    have step := Step.of_step action taken
    have exclusive := (exclusive_and_owned run).1
    obtain ⟨event, lives, returns⟩ := refines exclusive.current step
    have isZombie : (state.family.life slot).phase = .zombie := by simp [life_phase, zombie]
    have hasLeft : (after.family.life slot).phase ≠ .zombie := by simpa [life_phase] using leaves
    obtain ⟨waiter, rfl, parent, freed, recorded⟩ :=
      lives.leaves_zombie sound.owned isZombie hasLeft
    refine ⟨by simpa [life_phase] using freed, waiter, returns _ _ rfl,
      (sound.parented.alive slot waiter parent).2, recorded, ?_⟩
    exact numbered.gone slot (by simp [isZombie])

/-- The first process forks a child and sleeps in `wait`, the child exits, and
the parent is about to resume. -/
def exitedChild : List (Action Unit) :=
  [.userinit, .userinitRun, .acquire (), .schedule (), .resume (), .op () .fork,
    .op () .forkParent, .op () .forkRun, .op () .wait, .schedule (), .resume (),
    .op () .exit, .schedule (), .acquire (), .schedule ()]

theorem exitedChild_enabled :
    (execute State.step (fun _ _ => true) (State.initial : State Unit)
      exitedChild).isSome = true := by
  decide +kernel

theorem reaping_sound_exitedChild :
    ∃ state after : State Unit, state.step (.resume ()) = some after ∧
      (state.proc 1).state = .zombie ∧ (after.proc 1).state = .unused ∧
      ∃ waiter, Waits state (.resume ()) after waiter 2 := by
  have isInitial : IsInitial (State.initial : State Unit) := rfl
  have run := run_lastState isInitial exitedChild exitedChild_enabled
  obtain ⟨-, -, -, reaps, -⟩ :=
    reaping_sound (run.mono fun _ _ _ => trivial) (by decide +kernel)
  obtain ⟨after, taken⟩ := Option.isSome_iff_exists.mp (show
    ((lastState State.step _ _ _ exitedChild_enabled).step (.resume ())).isSome = true by
      decide +kernel)
  have leaves : (after.proc 1).state ≠ .zombie := by
    have freed : (((lastState State.step _ _ _ exitedChild_enabled).step
        (.resume ())).map fun state => (state.proc 1).state) = some .unused := by
      decide +kernel
    rw [taken] at freed
    simp [Option.some.inj freed]
  obtain ⟨freed, waiter, waits, -⟩ := reaps _ after 1 taken (by decide +kernel) leaves
  have pid : ((lastState State.step _ _ _ exitedChild_enabled).proc 1).pid = 2 := by
    decide +kernel
  rw [pid] at waits
  exact ⟨_, after, taken, by decide +kernel, freed, waiter, waits⟩

end Coursework.ProcTable
