import Coursework.ProcTransitions
import Mathlib.Tactic.Common

/-!
# Life cycles and parents of processes

This file abstracts the process table to what matters for creation and reaping:
whether a slot is free, being set up, alive or exited, its process identifier
and its parent.  Scheduling, sleeping, killing and priorities disappear here.
The invariants are those of the abstract system: a slot that is being set up has
exactly one process setting it up, identifiers are never used twice, and every
parent is alive.
-/

namespace Coursework.ProcTable

/-- What `enum procstate` says about the life cycle. -/
inductive Phase
  | unused
  | embryo
  | live
  | zombie
  deriving DecidableEq, Repr

def ProcState.phase : ProcState → Phase
  | unused => .unused
  | embryo => .embryo
  | sleeping | runnable | running => .live
  | zombie => .zombie

@[simp] theorem phase_eq_unused {state : ProcState} :
    state.phase = .unused ↔ state = .unused := by
  cases state <;> simp [ProcState.phase]

@[simp] theorem phase_eq_embryo {state : ProcState} :
    state.phase = .embryo ↔ state = .embryo := by
  cases state <;> simp [ProcState.phase]

@[simp] theorem phase_eq_zombie {state : ProcState} :
    state.phase = .zombie ↔ state = .zombie := by
  cases state <;> simp [ProcState.phase]

@[simp] theorem phase_running : ProcState.running.phase = .live := rfl

/-- The child that a process is setting up. -/
def Call.child : Call → Option Slot
  | none => Option.none
  | allocated child | parented child => some child

structure Life where
  phase : Phase
  pid : Int
  parent : Option Slot
  call : Call

def Proc.life (proc : Proc) : Life :=
  { phase := proc.state.phase, pid := proc.pid, parent := proc.parent, call := proc.call }

structure Family where
  life : Slot → Life
  boot : Boot
  nextpid : Int
  allocations : Nat
  creator : Slot → Int
  waitReturns : List Int

def State.family {CpuId : Type*} (state : State CpuId) : Family :=
  { life := fun slot => (state.proc slot).life
    boot := state.boot
    nextpid := state.nextpid
    allocations := state.history.allocations
    creator := state.history.creator
    waitReturns := state.history.waitReturns }

namespace Family

def initproc (family : Family) : Option Slot :=
  match family.boot with
  | .before => none
  | .allocated init | .done init => some init

/-- A slot is taken by a new process. -/
def allocated (family : Family) (creator : Int) (child : Slot) : Family :=
  { family with
    life := Function.update family.life child
      { family.life child with phase := .embryo, pid := family.nextpid, call := .none }
    nextpid := toInt32 (family.nextpid + 1)
    allocations := family.allocations + 1
    creator := Function.update family.creator child creator }

def setLife (family : Family) (slot : Slot) (life : Life) : Family :=
  { family with life := Function.update family.life slot life }

/-- `wait` returns a value. -/
def waitReturn (family : Family) (value : Int) : Family :=
  { family with waitReturns := value :: family.waitReturns }

/-- A process exits and `initproc` gets its children. -/
def exit (family : Family) (cur : Slot) : Family :=
  { family with
    life := fun slot => { family.life slot with
      phase := if slot = cur then .zombie else (family.life slot).phase
      parent := if (family.life slot).parent = some cur then family.initproc
        else (family.life slot).parent } }

section Projections

variable (family : Family) (slot : Slot) (life : Life) (creator value : Int)

@[simp] theorem allocated_life : (family.allocated creator slot).life =
    Function.update family.life slot
      { family.life slot with phase := .embryo, pid := family.nextpid, call := .none } := rfl

@[simp] theorem allocated_boot : (family.allocated creator slot).boot = family.boot := rfl

@[simp] theorem allocated_creator (other : Slot) :
    (family.allocated creator slot).creator other =
      if other = slot then creator else family.creator other :=
  Function.update_apply ..

@[simp] theorem allocated_initproc :
    (family.allocated creator slot).initproc = family.initproc := rfl

@[simp] theorem setLife_life :
    (family.setLife slot life).life = Function.update family.life slot life := rfl

@[simp] theorem setLife_boot : (family.setLife slot life).boot = family.boot := rfl

@[simp] theorem setLife_creator : (family.setLife slot life).creator = family.creator := rfl

@[simp] theorem setLife_initproc :
    (family.setLife slot life).initproc = family.initproc := rfl

@[simp] theorem waitReturn_life : (family.waitReturn value).life = family.life := rfl

@[simp] theorem waitReturn_boot : (family.waitReturn value).boot = family.boot := rfl

@[simp] theorem waitReturn_creator : (family.waitReturn value).creator = family.creator := rfl

@[simp] theorem waitReturn_initproc :
    (family.waitReturn value).initproc = family.initproc := rfl

@[simp] theorem exit_life : (family.exit slot).life = fun other =>
    { family.life other with
      phase := if other = slot then .zombie else (family.life other).phase
      parent := if (family.life other).parent = some slot then family.initproc
        else (family.life other).parent } := rfl

@[simp] theorem exit_creator : (family.exit slot).creator = family.creator := rfl

@[simp] theorem exit_initproc : (family.exit slot).initproc = family.initproc := rfl

end Projections

section Updates

variable (lives : Slot → Life) (slot other : Slot) (life : Life)

theorem update_phase : (Function.update lives slot life other).phase =
    if other = slot then life.phase else (lives other).phase := by
  rw [Function.update_apply, apply_ite Life.phase]

theorem update_pid : (Function.update lives slot life other).pid =
    if other = slot then life.pid else (lives other).pid := by
  rw [Function.update_apply, apply_ite Life.pid]

theorem update_parent : (Function.update lives slot life other).parent =
    if other = slot then life.parent else (lives other).parent := by
  rw [Function.update_apply, apply_ite Life.parent]

theorem update_call : (Function.update lives slot life other).call =
    if other = slot then life.call else (lives other).call := by
  rw [Function.update_apply, apply_ite Life.call]

end Updates

/-- What a step is called: a return from `wait`, or anything else. -/
inductive Event
  | other
  | waitReturn (cur : Slot) (value : Int)

/-- The steps of the life cycle, from `userinit` and `fork` to `exit` and
`wait`. -/
inductive Step (family : Family) : Event → Family → Prop
  | stutter : Step family .other family
  | bootCreate (init : Slot) : family.boot = .before → (family.life init).phase = .unused →
      Step family .other { family.allocated 0 init with boot := .allocated init }
  | bootStart (init : Slot) : family.boot = .allocated init →
      Step family .other
        { family.setLife init { family.life init with phase := .live } with
          boot := .done init }
  | create (cur child : Slot) : (family.life cur).phase = .live →
      (family.life cur).call = .none → (family.life child).phase = .unused →
      Step family .other ((family.allocated (family.life cur).pid child).setLife cur
        { family.life cur with call := .allocated child })
  | fail (cur child : Slot) : (family.life cur).call = .allocated child →
      Step family .other
        ((family.setLife child { family.life child with phase := .unused }).setLife cur
          { family.life cur with call := .none })
  | adopt (cur child : Slot) : (family.life cur).call = .allocated child →
      Step family .other
        ((family.setLife child { family.life child with parent := some cur }).setLife cur
          { family.life cur with call := .parented child })
  | start (cur child : Slot) : (family.life cur).call = .parented child →
      Step family .other
        ((family.setLife child { family.life child with phase := .live }).setLife cur
          { family.life cur with call := .none })
  | exit (cur : Slot) : (family.life cur).phase = .live → (family.life cur).call = .none →
      family.initproc ≠ some cur → Step family .other (family.exit cur)
  | waitFail (cur : Slot) : Step family (.waitReturn cur (-1)) (family.waitReturn (-1))
  | reap (cur child : Slot) : (family.life child).parent = some cur →
      (family.life child).phase = .zombie →
      Step family (.waitReturn cur (family.life child).pid)
        ((family.setLife child
          { family.life child with phase := .unused, pid := 0, parent := none }).waitReturn
            (family.life child).pid)

variable {family after : Family} {event : Event}

/-! ## Slots being set up -/

/-- Every slot that a process sets up is an embryo, and nobody else sets it up;
only processes that are alive set up others. -/
structure Owned (family : Family) : Prop where
  embryo : ∀ cur child, (family.life cur).call.child = some child →
    (family.life child).phase = .embryo
  unique : ∀ first second child, (family.life first).call.child = some child →
    (family.life second).call.child = some child → first = second
  caller : ∀ cur, (family.life cur).call ≠ .none → (family.life cur).phase = .live
  boot : ∀ init, family.boot = .allocated init → (family.life init).phase = .embryo ∧
    ∀ cur, (family.life cur).call.child ≠ some init

theorem Owned.step (owned : Owned family) (step : Step family event after) :
    Owned after := by
  obtain ⟨embryo, unique, caller, boot⟩ := owned
  cases step with
  | stutter => exact ⟨embryo, unique, caller, boot⟩
  | bootCreate init before free =>
      constructor <;> simp only [allocated_life, update_phase, update_call] <;>
        grind [Call.child]
  | bootStart init booting =>
      constructor <;> simp only [setLife_life, update_phase, update_call] <;>
        grind [Call.child]
  | create cur child live idle free =>
      constructor <;> simp only [setLife_life, setLife_boot, allocated_life,
        allocated_boot, update_phase, update_call] <;> grind [Call.child]
  | fail cur child calls =>
      constructor <;> simp only [setLife_life, setLife_boot, update_phase, update_call] <;>
        grind [Call.child]
  | adopt cur child calls =>
      constructor <;> simp only [setLife_life, setLife_boot, update_phase, update_call] <;>
        grind [Call.child]
  | start cur child calls =>
      constructor <;> simp only [setLife_life, setLife_boot, update_phase, update_call] <;>
        grind [Call.child]
  | exit cur live idle survives =>
      constructor <;> simp only [Family.exit] <;> grind [Call.child]
  | waitFail cur => exact ⟨embryo, unique, caller, boot⟩
  | reap cur child parent zombie =>
      constructor <;> simp only [waitReturn_life, waitReturn_boot, setLife_life,
        setLife_boot, update_phase, update_call] <;> grind [Call.child]

/-! ## Process identifiers -/

/-- Identifiers count up, no two used slots share one, and `wait` has returned
an identifier at most once and only after its slot was freed. -/
structure Numbered (family : Family) : Prop where
  next : family.nextpid = family.allocations + 1
  range : ∀ slot, (family.life slot).phase ≠ .unused →
    0 < (family.life slot).pid ∧ (family.life slot).pid ≤ family.allocations
  distinct : ∀ first second, (family.life first).phase ≠ .unused →
    (family.life second).phase ≠ .unused →
    (family.life first).pid = (family.life second).pid → first = second
  returned : ∀ pid ∈ family.waitReturns, pid = -1 ∨ 0 < pid ∧ pid ≤ family.allocations
  gone : ∀ slot, (family.life slot).phase ≠ .unused →
    (family.life slot).pid ∉ family.waitReturns
  once : ∀ pid, 0 < pid → family.waitReturns.count pid ≤ 1

theorem toInt32_eq {value : Int} (low : 0 ≤ value) (high : value < 2 ^ 31) :
    toInt32 value = value := by
  rw [toInt32, Int.bmod_def]
  omega

/-- Slots may be freed and otherwise keep their identifiers. -/
theorem Numbered.of_life (numbered : Numbered family)
    (next : after.nextpid = family.nextpid)
    (allocations : after.allocations = family.allocations)
    (returns : after.waitReturns = family.waitReturns)
    (life : ∀ slot, (after.life slot).phase = .unused ∨
      (family.life slot).phase ≠ .unused ∧
        (after.life slot).pid = (family.life slot).pid) : Numbered after := by
  have used : ∀ slot, (after.life slot).phase ≠ .unused →
      (family.life slot).phase ≠ .unused ∧
        (after.life slot).pid = (family.life slot).pid :=
    fun slot isUsed => (life slot).resolve_left isUsed
  constructor
  · rw [next, allocations, numbered.next]
  · intro slot isUsed
    obtain ⟨wasUsed, same⟩ := used slot isUsed
    rw [same, allocations]
    exact numbered.range slot wasUsed
  · intro first second firstUsed secondUsed samePid
    obtain ⟨firstWas, firstSame⟩ := used first firstUsed
    obtain ⟨secondWas, secondSame⟩ := used second secondUsed
    apply numbered.distinct first second firstWas secondWas
    rw [← firstSame, ← secondSame, samePid]
  · rw [returns, allocations]
    exact numbered.returned
  · intro slot isUsed
    obtain ⟨wasUsed, same⟩ := used slot isUsed
    rw [same, returns]
    exact numbered.gone slot wasUsed
  · rw [returns]
    exact numbered.once

/-- A new process takes the next identifier, which wraps around only after more
allocations than the hypothesis allows. -/
theorem Numbered.of_allocation (numbered : Numbered family) (child : Slot)
    (few : family.allocations + 1 < 2 ^ 31 - 1)
    (next : after.nextpid = toInt32 (family.nextpid + 1))
    (allocations : after.allocations = family.allocations + 1)
    (returns : after.waitReturns = family.waitReturns)
    (fresh : (after.life child).pid = family.nextpid)
    (others : ∀ slot, slot ≠ child →
      (after.life slot).phase = (family.life slot).phase ∧
        (after.life slot).pid = (family.life slot).pid) : Numbered after := by
  obtain ⟨count, range, distinct, returned, gone, once⟩ := numbered
  constructor
  · rw [next, count, toInt32_eq (by omega) (by omega), allocations]
    push_cast
    rfl
  · grind
  · grind
  · grind
  · grind
  · rw [returns]
    exact once

theorem Numbered.of_waitFail (numbered : Numbered family) :
    Numbered (family.waitReturn (-1)) := by
  obtain ⟨count, range, distinct, returned, gone, once⟩ := numbered
  refine ⟨count, range, distinct, ?_, ?_, ?_⟩ <;> simp only [waitReturn] <;> grind

theorem Numbered.of_reap (numbered : Numbered family) (child : Slot)
    (zombie : (family.life child).phase = .zombie) :
    Numbered ((family.setLife child
      { family.life child with phase := .unused, pid := 0, parent := none }).waitReturn
        (family.life child).pid) := by
  obtain ⟨count, range, distinct, returned, gone, once⟩ := numbered
  have positive := range child (by simp [zombie])
  have notYet := List.count_eq_zero.mpr (gone child (by simp [zombie]))
  constructor <;> simp only [waitReturn, setLife, update_phase, update_pid] <;> grind

theorem Numbered.step (numbered : Numbered family) (owned : Owned family)
    (step : Step family event after) (few : after.allocations < 2 ^ 31 - 1) :
    Numbered after := by
  cases step with
  | stutter => exact numbered
  | bootCreate init before free =>
      refine numbered.of_allocation init few rfl rfl rfl ?_ ?_
      · simp
      · intro slot other
        simp [other]
  | bootStart init booting =>
      have embryo := (owned.boot init booting).1
      refine numbered.of_life rfl rfl rfl fun slot => ?_
      simp only [setLife_life, update_phase, update_pid]
      grind
  | create cur child live idle free =>
      have different : cur ≠ child := by
        rintro rfl
        simp [live] at free
      refine numbered.of_allocation child few rfl rfl rfl ?_ ?_
      · simp [different.symm]
      · intro slot other
        simp only [setLife_life, allocated_life, update_phase, update_pid, if_neg other]
        grind
  | fail cur child calls =>
      refine numbered.of_life rfl rfl rfl fun slot => ?_
      simp only [setLife_life, update_phase, update_pid]
      grind
  | adopt cur child calls =>
      refine numbered.of_life rfl rfl rfl fun slot => ?_
      simp only [setLife_life, update_phase, update_pid]
      grind
  | start cur child calls =>
      have embryo := owned.embryo cur child (by simp [calls, Call.child])
      refine numbered.of_life rfl rfl rfl fun slot => ?_
      simp only [setLife_life, update_phase, update_pid]
      grind
  | exit cur live idle survives =>
      refine numbered.of_life rfl rfl rfl fun slot => ?_
      simp only [Family.exit]
      grind
  | waitFail cur => exact numbered.of_waitFail
  | reap cur child parent zombie => exact numbered.of_reap child zombie

/-! ## Parents -/

/-- Nothing is alive before `userinit` is done, and then `initproc` is. -/
structure Booted (family : Family) : Prop where
  started : ∀ slot, (family.life slot).phase = .live → ∃ init, family.boot = .done init
  booted : ∀ init, family.boot = .done init → (family.life init).phase = .live

theorem Booted.step (boots : Booted family) (owned : Owned family)
    (step : Step family event after) : Booted after := by
  obtain ⟨started, booted⟩ := boots
  have caller := owned.caller
  cases step with
  | stutter => exact ⟨started, booted⟩
  | bootCreate init before free =>
      constructor <;> simp only [allocated_life, update_phase] <;> grind
  | bootStart init booting =>
      constructor <;> simp only [setLife_life, update_phase] <;> grind
  | create cur child live idle free =>
      constructor <;> simp only [setLife_life, setLife_boot, allocated_life,
        allocated_boot, update_phase] <;> grind
  | fail cur child calls =>
      have embryo := owned.embryo cur child (by simp [calls, Call.child])
      constructor <;> simp only [setLife_life, setLife_boot, update_phase] <;> grind
  | adopt cur child calls =>
      constructor <;> simp only [setLife_life, setLife_boot, update_phase] <;> grind
  | start cur child calls =>
      constructor <;> simp only [setLife_life, setLife_boot, update_phase] <;> grind
  | exit cur live idle survives =>
      constructor <;> simp only [Family.exit] <;> grind [Family.initproc]
  | waitFail cur => exact ⟨started, booted⟩
  | reap cur child parent zombie =>
      constructor <;> simp only [waitReturn_life, waitReturn_boot, setLife_life,
        setLife_boot, update_phase] <;> grind

/-- Once some process is alive, `initproc` is. -/
theorem Booted.initproc_live (boots : Booted family) {cur : Slot}
    (live : (family.life cur).phase = .live) :
    ∃ init, family.initproc = some init ∧ (family.life init).phase = .live := by
  obtain ⟨init, done⟩ := boots.started cur live
  exact ⟨init, by rw [Family.initproc, done], boots.booted init done⟩

/-- Parents are alive, and a process keeps the parent that created it until
`initproc` takes over. -/
structure Parented (family : Family) : Prop where
  unused : ∀ slot, (family.life slot).phase = .unused → (family.life slot).parent = none
  alive : ∀ slot parent, (family.life slot).parent = some parent →
    (family.life parent).phase = .live ∧
      (family.initproc = some parent ∨ (family.life parent).pid = family.creator slot)
  present : ∀ slot, (family.life slot).phase = .live ∨ (family.life slot).phase = .zombie →
    family.initproc ≠ some slot → (family.life slot).parent ≠ none
  allocated : ∀ cur child, (family.life cur).call = .allocated child →
    (family.life child).parent = none ∧ family.creator child = (family.life cur).pid
  parented : ∀ cur child, (family.life cur).call = .parented child →
    (family.life child).parent = some cur

theorem Parented.step (parents : Parented family) (owned : Owned family)
    (boots : Booted family) (step : Step family event after) : Parented after := by
  obtain ⟨unused, alive, present, allocated, parented⟩ := parents
  have embryo := owned.embryo
  have caller := owned.caller
  cases step with
  | stutter => exact ⟨unused, alive, present, allocated, parented⟩
  | bootCreate init isBefore free =>
      have noneAlive : ∀ slot, (family.life slot).phase ≠ .live := by
        intro slot live
        obtain ⟨_, done⟩ := boots.started slot live
        simp [done] at isBefore
      have noInit : family.initproc = none := by simp [Family.initproc, isBefore]
      constructor <;> simp only [Family.initproc, allocated_life, allocated_creator,
        update_phase, update_pid,
        update_parent, update_call] <;> grind
  | bootStart init isBooting =>
      have isInit : family.initproc = some init := by simp [Family.initproc, isBooting]
      have isEmbryo := owned.boot init isBooting
      constructor <;> simp only [Family.initproc, setLife_life, setLife_creator,
        update_phase, update_pid,
        update_parent, update_call] <;> grind
  | create cur child live idle free =>
      constructor <;> simp only [setLife_life, setLife_creator, setLife_initproc,
        allocated_life, allocated_creator, allocated_initproc, update_phase, update_pid,
        update_parent, update_call] <;>
        grind [Call.child]
  | fail cur child calls =>
      have unique := owned.unique cur
      constructor <;> simp only [setLife_life, setLife_creator, setLife_initproc,
        update_phase, update_pid,
        update_parent, update_call] <;> grind [Call.child]
  | adopt cur child calls =>
      have unique := owned.unique cur
      constructor <;> simp only [setLife_life, setLife_creator, setLife_initproc,
        update_phase, update_pid,
        update_parent, update_call] <;> grind [Call.child]
  | start cur child calls =>
      have unique := owned.unique cur
      constructor <;> simp only [setLife_life, setLife_creator, setLife_initproc,
        update_phase, update_pid,
        update_parent, update_call] <;> grind [Call.child]
  | exit cur live idle survives =>
      obtain ⟨init, isInit, initLive⟩ := boots.initproc_live live
      constructor <;> simp only [exit_life, exit_creator, exit_initproc, isInit] <;>
        grind [Call.child]
  | waitFail cur => exact ⟨unused, alive, present, allocated, parented⟩
  | reap cur child parent zombie =>
      constructor <;> simp only [waitReturn_life, waitReturn_creator, waitReturn_initproc,
        setLife_life, setLife_creator, setLife_initproc, update_phase, update_pid,
        update_parent, update_call] <;>
        grind [Call.child]

end Family

end Coursework.ProcTable
