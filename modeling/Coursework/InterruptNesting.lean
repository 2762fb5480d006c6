import Coursework.TransitionRuns
import Mathlib.Data.List.Nodup
import Mathlib.Logic.Function.Basic
import Mathlib.Tactic.Common

/-!
# Nesting of disabled interrupts

`acquire` and `release` of `spinlock.c` on one CPU, step by step, while other CPUs take and
give the locks that this one does not hold.  Each acquire disables the interrupts with
`pushcli`, and each release undoes one of them with `popcli`.  The flag that the first
`pushcli` saves is the one that the last `popcli` restores, in whatever order the locks are
released: the counter is the number of locks that are held, with the one that is just being
acquired or released, and the saved flag is written only while the counter is zero.
-/

namespace Coursework.InterruptNesting

/-- `struct spinlock` without what serves debugging. -/
structure Spinlock (CpuId : Type) where
  locked : Bool
  cpu : Option CpuId

/-- The interrupt flag of a CPU, and the fields of `struct cpu` that belong to it. -/
structure Cpu where
  interrupts : Bool
  ncli : Int
  intena : Bool

inductive Panic where
  | acquire
  | release
  | mycpu
  | popcliInterruptible
  | popcli
  deriving DecidableEq

/-- Where the CPU is. -/
inductive Pc (Lock : Type) where
  /-- outside of both functions -/
  | idle
  /-- `acquire` after `pushcli` -/
  | pushed (lk : Lock)
  /-- the loop of `acquire` -/
  | spinning (lk : Lock)
  /-- `acquire` after the loop -/
  | taken (lk : Lock)
  /-- `release` after its check -/
  | checked (lk : Lock)
  /-- `release` before the lock is given -/
  | cleared (lk : Lock)
  /-- `release` before `popcli` -/
  | given
  | panicked (panic : Panic)

/-- One CPU and the locks.  For the proofs: the locks it has taken, and the interrupt flag
before it took the first of them. -/
structure State (Lock CpuId : Type) where
  cpu : Cpu
  lock : Lock → Spinlock CpuId
  pc : Pc Lock
  held : List Lock
  before : Bool

/-- The CPU calls a function or goes on with it, another CPU uses a lock, or the flag is changed
while nothing is held. -/
inductive Action (Lock CpuId : Type) where
  | acquire (lk : Lock)
  | release (lk : Lock)
  | run
  | other (lk : Lock) (after : Spinlock CpuId)
  | flag (interrupts : Bool)

namespace Cpu

/-- `pushcli`; `mycpu` is called with the interrupts disabled. -/
def pushcli (cpu : Cpu) : Cpu where
  interrupts := false
  ncli := cpu.ncli + 1
  intena := if cpu.ncli = 0 then cpu.interrupts else cpu.intena

def popcli (cpu : Cpu) : Except Panic Cpu :=
  if cpu.interrupts then .error .popcliInterruptible
  else if cpu.ncli - 1 < 0 then .error .popcli
  else
    .ok { cpu with
      ncli := cpu.ncli - 1
      interrupts := decide (cpu.ncli - 1 = 0) && cpu.intena }

end Cpu

variable {Lock CpuId : Type}

namespace State

def goto (state : State Lock CpuId) (pc : Pc Lock) : State Lock CpuId := { state with pc := pc }

section Machine

variable [DecidableEq Lock] [DecidableEq CpuId] (me : CpuId) (state : State Lock CpuId)

def setLock (lk : Lock) (after : Spinlock CpuId) : State Lock CpuId :=
  { state with lock := Function.update state.lock lk after }

/-- `holding`; `mycpu` panics if interrupts are enabled. -/
def holding (lk : Lock) : Except Panic Bool :=
  if (state.lock lk).locked = false then .ok false
  else if state.cpu.interrupts then .error .mycpu
  else .ok (decide ((state.lock lk).cpu = some me))

/-- The next step of a call. -/
def run : Option (State Lock CpuId) :=
  match state.pc with
  | .idle | .panicked _ => none
  | .pushed lk =>
      match state.holding me lk with
      | .error panic => some (state.goto (.panicked panic))
      | .ok true => some (state.goto (.panicked .acquire))
      | .ok false => some (state.goto (.spinning lk))
  | .spinning lk =>
      let xchg := state.setLock lk { state.lock lk with locked := true }
      if (state.lock lk).locked then some xchg
      else some { xchg with pc := .taken lk, held := lk :: state.held }
  | .taken lk =>
      if state.cpu.interrupts then some (state.goto (.panicked .mycpu))
      else some ((state.setLock lk { state.lock lk with cpu := some me }).goto .idle)
  | .checked lk => some ((state.setLock lk { state.lock lk with cpu := none }).goto (.cleared lk))
  | .cleared lk =>
      some { state.setLock lk { state.lock lk with locked := false } with
        pc := .given
        held := state.held.erase lk }
  | .given =>
      match state.cpu.popcli with
      | .error panic => some (state.goto (.panicked panic))
      | .ok cpu => some { state with cpu := cpu, pc := .idle }

def step : Action Lock CpuId → Option (State Lock CpuId)
  | .acquire lk =>
      match state.pc with
      | .idle =>
          some { state with
            cpu := state.cpu.pushcli
            pc := .pushed lk
            before := if state.held = [] then state.cpu.interrupts else state.before }
      | _ => none
  | .release lk =>
      match state.pc with
      | .idle =>
          match state.holding me lk with
          | .error panic => some (state.goto (.panicked panic))
          | .ok false => some (state.goto (.panicked .release))
          | .ok true => some (state.goto (.checked lk))
      | _ => none
  | .run => state.run me
  | .other lk after =>
      if lk ∈ state.held ∨ after.cpu = some me then none else some (state.setLock lk after)
  | .flag interrupts =>
      match state.pc, state.held with
      | .idle, [] => some { state with cpu := { state.cpu with interrupts := interrupts } }
      | _, _ => none

end Machine

end State

/-- A lock is released only while it is held. -/
def releasesHeld (state : State Lock CpuId) : Action Lock CpuId → Prop
  | .release lk => lk ∈ state.held
  | _ => True

instance (state : State Lock CpuId) (action : Action Lock CpuId) [DecidableEq Lock] :
    Decidable (releasesHeld state action) :=
  match action with
  | .release lk => inferInstanceAs (Decidable (lk ∈ state.held))
  | .acquire _ | .run | .other .. | .flag _ => isTrue trivial

/-- The CPU holds no lock. -/
structure IsInitial (me : CpuId) (state : State Lock CpuId) : Prop where
  pc : state.pc = .idle
  held : state.held = []
  ncli : state.cpu.ncli = 0
  others : ∀ lk, (state.lock lk).cpu ≠ some me

/-! ## The invariant -/

/-- The calls of `pushcli` that belong to no held lock. -/
def Pc.extra : Pc Lock → Int
  | .pushed _ | .spinning _ | .given => 1
  | _ => 0

/-- The lock whose owner is not written. -/
def Pc.ownerless : Pc Lock → Option Lock
  | .taken lk | .cleared lk => some lk
  | _ => none

/-- What a place tells about its lock. -/
def Pc.Fits (held : List Lock) : Pc Lock → Prop
  | .spinning lk => lk ∉ held
  | .taken lk | .checked lk | .cleared lk => lk ∈ held
  | _ => True

/-- A lock is held, or a call is in progress. -/
def State.Busy (state : State Lock CpuId) : Prop := state.pc ≠ .idle ∨ state.held ≠ []

/-- The counter counts the held locks, and the flag is saved while there are any. -/
structure Inv (me : CpuId) (state : State Lock CpuId) : Prop where
  place : state.pc.Fits state.held
  nodup : state.held.Nodup
  count : state.cpu.ncli = state.held.length + state.pc.extra
  off : state.Busy → state.cpu.interrupts = false ∧ state.cpu.intena = state.before
  locked : ∀ lk ∈ state.held, (state.lock lk).locked = true
  owner : ∀ lk, (state.lock lk).cpu = some me ↔
    lk ∈ state.held ∧ state.pc.ownerless ≠ some lk

/-- The invariant holds, unless the CPU has acquired a lock that it held. -/
def Kept (me : CpuId) (state : State Lock CpuId) : Prop :=
  state.pc = .panicked .acquire ∨ (∀ panic, state.pc ≠ .panicked panic) ∧ Inv me state

namespace Inv

variable {me : CpuId} {state after : State Lock CpuId} {lk : Lock}

/-- Go on without a change of the locks. -/
theorem goto (inv : Inv me state) {pc : Pc Lock} (busy : state.Busy)
    (fits : pc.Fits state.held) (extra : pc.extra = state.pc.extra)
    (ownerless : pc.ownerless = state.pc.ownerless) : Inv me (state.goto pc) where
  place := fits
  nodup := inv.nodup
  count := inv.count.trans (by rw [← extra]; rfl)
  off := fun _ => inv.off busy
  locked := inv.locked
  owner := by
    intro lk
    change _ ↔ _ ∧ pc.ownerless ≠ some lk
    rw [ownerless]
    exact inv.owner lk

/-- The first part of `acquire`. -/
theorem acquire (inv : Inv me state) (idle : state.pc = .idle) : Inv me
    { state with
      cpu := state.cpu.pushcli
      pc := .pushed lk
      before := if state.held = [] then state.cpu.interrupts else state.before } where
  place := trivial
  nodup := inv.nodup
  count := by
    have count := inv.count
    rw [idle] at count
    simp only [Cpu.pushcli, Pc.extra] at count ⊢
    omega
  off := by
    intro _
    refine ⟨rfl, ?_⟩
    have count := inv.count
    rw [idle] at count
    simp only [Cpu.pushcli, Pc.extra] at count ⊢
    by_cases none : state.held = []
    · rw [none, List.length_nil] at count
      have isZero : state.cpu.ncli = 0 := count
      rw [if_pos isZero, if_pos none]
    · have positive := List.length_pos_iff.mpr none
      rw [if_neg (by omega), if_neg none]
      exact (inv.off (.inr none)).2
  locked := inv.locked
  owner := by
    intro other
    have owner := inv.owner other
    rw [idle] at owner
    exact owner

/-- The end of `release`: `popcli` does not panic, and restores the flag when nothing is held. -/
theorem popcli (inv : Inv me state) (gives : state.pc = .given) :
    ∃ cpu, state.cpu.popcli = .ok cpu ∧ Inv me { state with cpu := cpu, pc := .idle } ∧
      (state.held = [] → cpu.interrupts = state.before) := by
  obtain ⟨interrupts, intena⟩ := inv.off (.inl (by simp [gives]))
  have count := inv.count
  rw [gives] at count
  simp only [Pc.extra] at count
  refine ⟨{ state.cpu with
      ncli := state.cpu.ncli - 1
      interrupts := decide (state.cpu.ncli - 1 = 0) && state.cpu.intena }, ?_, ?_, ?_⟩
  · rw [Cpu.popcli, interrupts, if_neg Bool.false_ne_true, if_neg (by omega)]
  · refine ⟨trivial, inv.nodup, ?_, ?_, inv.locked, ?_⟩
    · simp only [Pc.extra]
      omega
    · intro busy
      have positive : 0 < state.held.length :=
        List.length_pos_iff.mpr (busy.resolve_left fun notIdle => notIdle rfl)
      simp only
      rw [decide_eq_false (by omega)]
      exact ⟨rfl, intena⟩
    · intro lk
      have owner := inv.owner lk
      rw [gives] at owner
      exact owner
  · intro none
    rw [none, List.length_nil] at count
    simp only
    rw [decide_eq_true (by omega), intena, Bool.true_and]

section Locks

variable [DecidableEq Lock]

/-- A lock that is not held is changed otherwise than to this CPU. -/
theorem setLock (inv : Inv me state) (notHeld : lk ∉ state.held)
    {changed : Spinlock CpuId} (foreign : changed.cpu ≠ some me) :
    Inv me (state.setLock lk changed) where
  place := inv.place
  nodup := inv.nodup
  count := inv.count
  off := inv.off
  locked := by
    intro other isHeld
    have distinct : other ≠ lk := fun same => notHeld (same ▸ isHeld)
    change (Function.update state.lock lk changed other).locked = true
    rw [Function.update_of_ne distinct]
    exact inv.locked other isHeld
  owner := by
    intro other
    change (Function.update state.lock lk changed other).cpu = some me ↔ _
    by_cases same : other = lk
    · subst same
      rw [Function.update_self]
      exact iff_of_false foreign fun isOwner => notHeld isOwner.1
    · rw [Function.update_of_ne same]
      exact inv.owner other

/-- The exchange that takes a free lock. -/
theorem take (inv : Inv me state) (spins : state.pc = .spinning lk) : Inv me
    { state.setLock lk { state.lock lk with locked := true } with
      pc := .taken lk
      held := lk :: state.held } := by
  have notHeld : lk ∉ state.held := by
    have place := inv.place
    rw [spins] at place
    exact place
  constructor
  · exact List.mem_cons_self
  · exact List.nodup_cons.mpr ⟨notHeld, inv.nodup⟩
  · have count := inv.count
    rw [spins] at count
    simp only [State.setLock, Pc.extra, List.length_cons] at count ⊢
    omega
  · exact fun _ => inv.off (.inl (by simp [spins]))
  · intro other isHeld
    change (Function.update state.lock lk _ other).locked = true
    by_cases same : other = lk
    · subst same
      rw [Function.update_self]
    · rw [Function.update_of_ne same]
      exact inv.locked other (List.mem_of_ne_of_mem same isHeld)
  · intro other
    have owner := inv.owner other
    rw [spins] at owner
    change (Function.update state.lock lk _ other).cpu = some me ↔
      other ∈ lk :: state.held ∧ some lk ≠ some other
    by_cases same : other = lk
    · subst same
      rw [Function.update_self]
      exact iff_of_false (fun isOwner => notHeld (owner.mp isOwner).1) fun both => both.2 rfl
    · rw [Function.update_of_ne same, owner]
      simp [Pc.ownerless, same, Ne.symm same]

/-- Writing the owner of a held lock, or clearing it. -/
theorem setOwner (inv : Inv me state) {pc : Pc Lock} {cpu : Option CpuId} (busy : state.Busy)
    (isHeld : lk ∈ state.held) (fits : pc.Fits state.held) (extra : pc.extra = state.pc.extra)
    (here : cpu = some me ↔ pc.ownerless ≠ some lk)
    (others : ∀ other ≠ lk, pc.ownerless ≠ some other ∧ state.pc.ownerless ≠ some other) :
    Inv me ((state.setLock lk { state.lock lk with cpu := cpu }).goto pc) where
  place := fits
  nodup := inv.nodup
  count := inv.count.trans (by rw [← extra]; rfl)
  off := fun _ => inv.off busy
  locked := by
    intro other otherHeld
    change (Function.update state.lock lk _ other).locked = true
    by_cases same : other = lk
    · subst same
      rw [Function.update_self]
      exact inv.locked other otherHeld
    · rw [Function.update_of_ne same]
      exact inv.locked other otherHeld
  owner := by
    intro other
    change (Function.update state.lock lk _ other).cpu = some me ↔
      other ∈ state.held ∧ pc.ownerless ≠ some other
    by_cases same : other = lk
    · subst same
      rw [Function.update_self, here]
      exact (and_iff_right isHeld).symm
    · have owner := inv.owner other
      rw [Function.update_of_ne same, owner]
      exact and_congr_right fun _ => iff_of_true (others other same).2 (others other same).1

/-- The lock is given. -/
theorem give (inv : Inv me state) (clears : state.pc = .cleared lk) : Inv me
    { state.setLock lk { state.lock lk with locked := false } with
      pc := .given
      held := state.held.erase lk } := by
  have isHeld : lk ∈ state.held := by
    have place := inv.place
    rw [clears] at place
    exact place
  have distinct : ∀ other ∈ state.held.erase lk, other ≠ lk := fun other member =>
    (inv.nodup.mem_erase_iff.mp member).1
  constructor
  · trivial
  · exact inv.nodup.erase lk
  · have count := inv.count
    have positive := List.length_pos_of_mem isHeld
    rw [clears] at count
    simp only [State.setLock, Pc.extra, List.length_erase_of_mem isHeld] at count ⊢
    omega
  · exact fun _ => inv.off (.inl (by simp [clears]))
  · intro other member
    change (Function.update state.lock lk _ other).locked = true
    rw [Function.update_of_ne (distinct other member)]
    exact inv.locked other (List.mem_of_mem_erase member)
  · intro other
    have owner := inv.owner other
    rw [clears] at owner
    change (Function.update state.lock lk _ other).cpu = some me ↔
      other ∈ state.held.erase lk ∧ none ≠ some other
    rw [inv.nodup.mem_erase_iff]
    by_cases same : other = lk
    · subst same
      rw [Function.update_self]
      exact iff_of_false (fun isOwner => (owner.mp isOwner).2 rfl) fun both => both.1.1 rfl
    · rw [Function.update_of_ne same, owner]
      simp [Pc.ownerless, same, Ne.symm same]

/-- What `holding` finds about a lock whose owner is written. -/
theorem holding [DecidableEq CpuId] (inv : Inv me state) (busy : state.Busy)
    (written : state.pc.ownerless = none) :
    state.holding me lk = .ok (decide (lk ∈ state.held)) := by
  have owner := inv.owner lk
  rw [written] at owner
  unfold State.holding
  split
  · next free =>
      have notHeld : lk ∉ state.held := by
        intro isHeld
        rw [inv.locked lk isHeld] at free
        cases free
      simp [notHeld]
  · rw [if_neg (by simp [(inv.off busy).1])]
    simp [owner]

end Locks

end Inv

/-! ## Runs -/

section Runs

variable [DecidableEq Lock] [DecidableEq CpuId] {me : CpuId} {state after : State Lock CpuId}

theorem Inv.run (inv : Inv me state) (taken : state.run me = some after) : Kept me after := by
  unfold State.run at taken
  cases place : state.pc with
  | idle =>
      rw [place] at taken
      cases taken
  | panicked panic =>
      rw [place] at taken
      cases taken
  | pushed lk =>
      have busy : state.Busy := .inl (by simp [place])
      have holds : state.holding me lk = .ok (decide (lk ∈ state.held)) :=
        inv.holding busy (by simp [place, Pc.ownerless])
      simp only [place, holds] at taken
      by_cases isHeld : lk ∈ state.held
      · simp only [decide_eq_true isHeld] at taken
        cases taken
        exact .inl rfl
      · simp only [decide_eq_false isHeld] at taken
        cases taken
        refine .inr ⟨fun panic => by simp [State.goto], inv.goto busy isHeld ?_ ?_⟩
        · rw [place]
          rfl
        · rw [place]
          rfl
  | spinning lk =>
      have notHeld : lk ∉ state.held := by
        have fits := inv.place
        rw [place] at fits
        exact fits
      have foreign : (state.lock lk).cpu ≠ some me := fun isOwner =>
        notHeld ((inv.owner lk).mp isOwner).1
      simp only [place] at taken
      split at taken
      · cases taken
        exact .inr ⟨fun panic => by simp [State.setLock, place], inv.setLock notHeld foreign⟩
      · cases taken
        exact .inr ⟨fun panic => by simp, inv.take place⟩
  | taken lk =>
      have busy : state.Busy := .inl (by simp [place])
      have isHeld : lk ∈ state.held := by
        have fits := inv.place
        rw [place] at fits
        exact fits
      simp only [place, (inv.off busy).1] at taken
      cases taken
      refine .inr ⟨fun panic => by simp [State.goto], inv.setOwner busy isHeld trivial ?_ ?_ ?_⟩
      · rw [place]
        rfl
      · simp [Pc.ownerless]
      · intro other distinct
        simp [place, Pc.ownerless, Ne.symm distinct]
  | checked lk =>
      have busy : state.Busy := .inl (by simp [place])
      have isHeld : lk ∈ state.held := by
        have fits := inv.place
        rw [place] at fits
        exact fits
      simp only [place] at taken
      cases taken
      refine .inr ⟨fun panic => by simp [State.goto], inv.setOwner busy isHeld isHeld ?_ ?_ ?_⟩
      · rw [place]
        rfl
      · simp [Pc.ownerless]
      · intro other distinct
        simp [place, Pc.ownerless, Ne.symm distinct]
  | cleared lk =>
      simp only [place] at taken
      cases taken
      exact .inr ⟨fun panic => by simp, inv.give place⟩
  | given =>
      obtain ⟨cpu, pops, inv, -⟩ := inv.popcli place
      simp only [place, pops] at taken
      cases taken
      exact .inr ⟨fun panic => by simp, inv⟩

theorem Kept.step (kept : Kept me state) {action : Action Lock CpuId}
    (allowed : releasesHeld state action) (taken : state.step me action = some after) :
    Kept me after := by
  rcases kept with panicked | ⟨alive, inv⟩
  · cases action with
    | acquire lk => simp [State.step, panicked] at taken
    | release lk => simp [State.step, panicked] at taken
    | run => simp [State.step, State.run, panicked] at taken
    | flag interrupts => simp [State.step, panicked] at taken
    | other lk changed =>
        rw [State.step] at taken
        split at taken
        · cases taken
        · cases taken
          exact .inl panicked
  · cases action with
    | acquire lk =>
        simp only [State.step] at taken
        split at taken
        · next idle =>
            cases taken
            exact .inr ⟨fun panic => by simp, inv.acquire idle⟩
        · cases taken
    | release lk =>
        have isHeld : lk ∈ state.held := allowed
        have busy : state.Busy := .inr (List.ne_nil_of_mem isHeld)
        simp only [State.step] at taken
        split at taken
        · next idle =>
            have holds : state.holding me lk = .ok (decide (lk ∈ state.held)) :=
              inv.holding busy (by simp [idle, Pc.ownerless])
            simp only [holds, decide_eq_true isHeld] at taken
            cases taken
            refine .inr ⟨fun panic => by simp [State.goto], inv.goto busy isHeld ?_ ?_⟩
            · rw [idle]
              rfl
            · rw [idle]
              rfl
        · cases taken
    | run => exact inv.run taken
    | other lk changed =>
        rw [State.step] at taken
        split at taken
        · cases taken
        · next foreign =>
            rw [not_or] at foreign
            cases taken
            exact .inr ⟨alive, inv.setLock foreign.1 foreign.2⟩
    | flag interrupts =>
        simp only [State.step] at taken
        split at taken
        · next idle none =>
            cases taken
            refine .inr ⟨alive, inv.place, inv.nodup, inv.count, fun busy => ?_, inv.locked,
              inv.owner⟩
            rcases busy with notIdle | some
            · exact absurd idle notIdle
            · exact absurd none some
        · cases taken

theorem kept_of_run (run : Run (State.step me) releasesHeld (IsInitial me) state) :
    Kept me state := by
  refine run.invariant ?_ fun state action after kept allowed taken => kept.step allowed taken
  intro state initial
  refine .inr ⟨fun panic => by simp [initial.pc], ?_, ?_, ?_, ?_, ?_, ?_⟩
  · rw [initial.pc]
    trivial
  · rw [initial.held]
    exact List.nodup_nil
  · rw [initial.pc, initial.held, initial.ncli]
    rfl
  · rintro (notIdle | some)
    · exact absurd initial.pc notIdle
    · exact absurd initial.held some
  · simp [initial.held]
  · intro lk
    rw [initial.held]
    exact iff_of_false (initial.others lk) fun both => by cases both.1

/-- Whatever locks a CPU acquires, and in whatever order it releases them, no call panics but an
acquire of a lock that it holds.  Between the calls the counter is the number of held locks; it
counts one more from `pushcli` to the exchange that takes a lock, and from where the lock is
given to `popcli`.  Interrupts are disabled while a lock is held and during every call, and the
`popcli` that leaves no lock restores what the flag was before the first acquire. -/
theorem interrupts_nest (run : Run (State.step me) releasesHeld (IsInitial me) state) :
    (∀ panic, state.pc = .panicked panic → panic = .acquire) ∧
      ((∀ panic, state.pc ≠ .panicked panic) →
        state.cpu.ncli = state.held.length + state.pc.extra ∧
        (state.Busy → state.cpu.interrupts = false) ∧
        (state.pc = .given → state.held = [] → ∃ after, state.step me .run = some after ∧
          after.pc = .idle ∧ after.cpu.ncli = 0 ∧ after.cpu.interrupts = state.before)) := by
  rcases kept_of_run run with panicked | ⟨alive, inv⟩
  · constructor
    · intro panic isPanic
      rw [panicked] at isPanic
      cases isPanic
      rfl
    · intro alive
      exact absurd panicked (alive _)
  · refine ⟨fun panic isPanic => absurd isPanic (alive panic), fun _ =>
      ⟨inv.count, fun busy => (inv.off busy).1, ?_⟩⟩
    intro gives none
    obtain ⟨cpu, pops, after, restored⟩ := inv.popcli gives
    refine ⟨{ state with cpu := cpu, pc := .idle }, ?_, rfl, ?_, restored none⟩
    · simp only [State.step, State.run, gives, pops]
    · have count := after.count
      simpa [none, Pc.extra] using count

/-- Two locks and two CPUs. -/
def interruptible : State Bool Bool where
  cpu := ⟨true, 0, false⟩
  lock := fun _ => ⟨false, none⟩
  pc := .idle
  held := []
  before := false

/-- A lock is acquired, then another one that the other CPU holds for a while; the first one is
released before the second. -/
def handOver : List (Action Bool Bool) :=
  [.acquire true, .run, .run, .run, .other false ⟨true, some true⟩, .acquire false, .run, .run,
    .other false ⟨false, none⟩, .run, .run, .release true, .run, .run, .run, .release false, .run,
    .run]

theorem handOver_enabled : (execute (State.step false)
    (fun state action => decide (releasesHeld state action)) interruptible handOver).isSome =
      true := by
  decide

theorem handOver_last : (lastState (State.step false)
      (fun state action => decide (releasesHeld state action)) interruptible handOver
      handOver_enabled).pc = .given ∧
    (lastState (State.step false) (fun state action => decide (releasesHeld state action))
      interruptible handOver handOver_enabled).held = [] ∧
    (lastState (State.step false) (fun state action => decide (releasesHeld state action))
      interruptible handOver handOver_enabled).before = true :=
  ⟨rfl, by decide, by decide⟩

theorem interrupts_nest_handOver : ∃ state : State Bool Bool,
    Run (State.step false) releasesHeld (IsInitial false) state ∧ state.held = [] ∧
      state.cpu.ncli = 1 ∧ state.cpu.interrupts = false ∧
      ∃ after, state.step false .run = some after ∧ after.cpu.ncli = 0 ∧
        after.cpu.interrupts = true := by
  have isInitial : IsInitial false interruptible := ⟨rfl, rfl, rfl, by simp [interruptible]⟩
  have reached := run_lastState isInitial handOver handOver_enabled
  obtain ⟨gives, none, before⟩ := handOver_last
  generalize lastState (State.step false) _ interruptible handOver handOver_enabled = state at *
  have run : Run (State.step false) releasesHeld (IsInitial false) state :=
    reached.mono fun _ _ allowed => of_decide_eq_true allowed
  obtain ⟨-, counts⟩ := interrupts_nest run
  obtain ⟨count, off, restores⟩ := counts fun panic => by simp [gives]
  obtain ⟨after, taken, -, isZero, restored⟩ := restores gives none
  refine ⟨state, run, none, ?_, off (.inl (by simp [gives])), after, taken, isZero, ?_⟩
  · rw [count, gives, none]
    rfl
  · rw [restored, before]

end Runs

end Coursework.InterruptNesting
