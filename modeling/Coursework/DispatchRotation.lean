import Coursework.DispatchExclusivity
import Mathlib.Data.List.Chain
import Mathlib.Order.WellFounded

/-!
# Rotation among processes of equal priority

One CPU dispatches from a table whose `RUNNABLE` slots and their priorities stay
fixed.  After a dispatch the scan goes on behind the chosen slot.  The next
`RUNNABLE` slot is dispatched if it has the least priority value, and otherwise
the scan jumps back to the first slot that has.  The slots of least priority
value therefore rotate exactly when no other `RUNNABLE` slot lies between two of
them; a slot behind such a gap is never reached again.
-/

namespace Coursework.ProcTable

variable {table : Slot → Proc}

/-- A `RUNNABLE` slot whose priority value is the minimum in the table. -/
def IsLeast (table : Slot → Proc) (slot : Slot) : Prop :=
  (table slot).state = .runnable ∧
    ∀ other, (table other).state = .runnable →
      (table slot).priority ≤ (table other).priority

/-- No `RUNNABLE` slot of larger priority value lies between two slots of least
priority value. -/
def Unbroken (table : Slot → Proc) : Prop :=
  ∀ first between second, IsLeast table first → IsLeast table second →
    first < between → between < second → (table between).state = .runnable →
    IsLeast table between

/-! ## One scan -/

/-- The `RUNNABLE` slot that a scan from an index meets first. -/
def MetFirst (table : Slot → Proc) (position : Nat) (slot : Slot) : Prop :=
  (table slot).state = .runnable ∧ position ≤ slot ∧
    ∀ other : Slot, (table other).state = .runnable → position ≤ other → slot ≤ other

theorem metFirst_of_find {position : Nat} {slot : Slot}
    (found : (slots.drop position).find? (isRunnable table) = some slot) :
    MetFirst table position slot := by
  obtain ⟨runnable, index, bound, isSlot, earlier⟩ :=
    List.find?_eq_some_iff_getElem.mp found
  simp only [slots, List.getElem_drop, List.getElem_finRange] at isSlot earlier
  have value : (slot : Nat) = position + index := by simp [← isSlot]
  refine ⟨by simpa [isRunnable] using runnable, by omega, ?_⟩
  intro other otherRunnable after
  by_contra before
  have before : (other : Nat) < slot := by simpa using before
  have missed := earlier (other - position) (by omega)
  have same : (⟨position + (other - position), by omega⟩ : Slot) = other := by
    apply Fin.ext
    simp only
    omega
  simp [isRunnable, same, otherRunnable] at missed

theorem runnable_lt_of_find {position : Nat}
    (missing : (slots.drop position).find? (isRunnable table) = none) {slot : Slot}
    (runnable : (table slot).state = .runnable) : (slot : Nat) < position := by
  by_contra behind
  have member : slot ∈ slots.drop position := by
    rw [List.mem_iff_getElem]
    refine ⟨slot - position, ?_, ?_⟩
    · simp [slots]
      omega
    · apply Fin.ext
      simp [slots]
      omega
  have missed := List.find?_eq_none.mp missing slot member
  simp [isRunnable, runnable] at missed

/-- The slot of least priority value that comes first in the table. -/
def IsFirstLeast (table : Slot → Proc) (slot : Slot) : Prop :=
  IsLeast table slot ∧ ∀ other, IsLeast table other → slot ≤ other

/-- The inner loop keeps a slot of least priority value and otherwise goes back
to the first one. -/
theorem highP_eq {p first : Slot} (isFirst : IsFirstLeast table first)
    (runnable : (table p).state = .runnable) :
    IsLeast table p ∧ highP table p = p ∨ ¬IsLeast table p ∧ highP table p = first := by
  by_cases least : IsLeast table p
  · refine .inl ⟨least, selectLeast_eq_start ?_⟩
    intro item _ eligible
    exact least.2 item (by simpa [isRunnable] using eligible)
  · refine .inr ⟨least, ?_⟩
    obtain ⟨before, behind, split⟩ := List.append_of_mem (mem_slots first)
    have ordered : slots.Pairwise (· < ·) := List.pairwise_lt_finRange NPROC
    rw [split, List.pairwise_append] at ordered
    rw [highP, split]
    apply selectLeast_eq_first
    · by_contra notSmaller
      refine least ⟨runnable, fun other otherRunnable => ?_⟩
      exact le_trans (not_lt.mp notSmaller) (isFirst.1.2 other otherRunnable)
    · simpa [isRunnable] using isFirst.1.1
    · intro item member eligible
      have itemRunnable : (table item).state = .runnable := by
        simpa [isRunnable] using eligible
      have earlier : item < first := ordered.2.2 item member first List.mem_cons_self
      by_contra notLarger
      have itemLeast : IsLeast table item :=
        ⟨itemRunnable, fun other otherRunnable =>
          le_trans (not_lt.mp notLarger) (isFirst.1.2 other otherRunnable)⟩
      exact absurd earlier (not_lt.mpr (isFirst.2 item itemLeast))
    · intro item _ eligible
      exact isFirst.1.2 item (by simpa [isRunnable] using eligible)

/-- What a scan dispatches: the slot it meets first, or the first slot of least
priority value. -/
theorem scan_cases {position : Nat} {p first : Slot} (isFirst : IsFirstLeast table first)
    (chosen : scan table position = some p) :
    IsLeast table p ∧ (MetFirst table position p ∨
      p = first ∧ ∃ met, MetFirst table position met ∧ ¬IsLeast table met) := by
  obtain ⟨met, found, rfl⟩ := Option.map_eq_some_iff.mp chosen
  have metFirst := metFirst_of_find found
  rcases highP_eq isFirst metFirst.1 with ⟨least, kept⟩ | ⟨notLeast, back⟩
  · rw [kept]
    exact ⟨least, .inl metFirst⟩
  · rw [back]
    exact ⟨isFirst.1, .inr ⟨rfl, met, metFirst, notLeast⟩⟩

theorem scan_eq_none {position : Nat} (ended : scan table position = none) {slot : Slot}
    (runnable : (table slot).state = .runnable) : (slot : Nat) < position :=
  runnable_lt_of_find (Option.map_eq_none_iff.mp ended) runnable

/-! ## Successive dispatches -/

/-- One slot is dispatched after another, in the same pass over the table or in
the next one. -/
def Follows (table : Slot → Proc) (p next : Slot) : Prop :=
  scan table (p + 1) = some next ∨ scan table (p + 1) = none ∧ scan table 0 = some next

theorem exists_isFirstLeast {slot : Slot} (least : IsLeast table slot) :
    ∃ first, IsFirstLeast table first := by
  classical
  obtain ⟨first, isLeast, minimal⟩ := WellFounded.has_min
    (wellFounded_lt (α := Slot)) {other | IsLeast table other} ⟨slot, least⟩
  exact ⟨first, isLeast, fun other otherLeast => not_lt.mp (minimal other otherLeast)⟩

/-- Without gaps the dispatches go up through the slots of least priority value
and start over behind the last one. -/
theorem follows_next (unbroken : Unbroken table) {first p next : Slot}
    (isFirst : IsFirstLeast table first) (least : IsLeast table p)
    (follows : Follows table p next) :
    IsLeast table next ∧
      (p < next ∧ (∀ target, IsLeast table target → p < target → next ≤ target) ∨
        next = first ∧ ∀ target, IsLeast table target → target ≤ p) := by
  rcases follows with chosen | ⟨ended, chosen⟩
  · obtain ⟨nextLeast, met | ⟨isNext, met, metFirst, notLeast⟩⟩ := scan_cases isFirst chosen
    · refine ⟨nextLeast, .inl ⟨met.2.1, fun target targetLeast later => ?_⟩⟩
      exact met.2.2 target targetLeast.1 later
    · refine ⟨nextLeast, .inr ⟨isNext, fun target targetLeast => ?_⟩⟩
      by_contra later
      have later : p < target := not_le.mp later
      have reached := metFirst.2.2 target targetLeast.1 later
      rcases lt_or_eq_of_le reached with before | rfl
      · exact notLeast (unbroken p met target least targetLeast metFirst.2.1 before metFirst.1)
      · exact notLeast targetLeast
  · obtain ⟨nextLeast, met | ⟨isNext, _⟩⟩ := scan_cases isFirst chosen
    · refine ⟨nextLeast, .inr ⟨?_, fun target targetLeast => ?_⟩⟩
      · exact le_antisymm (met.2.2 first isFirst.1.1 (Nat.zero_le _)) (isFirst.2 next nextLeast)
      · exact Nat.lt_succ_iff.mp (scan_eq_none ended targetLeast.1)
    · refine ⟨nextLeast, .inr ⟨isNext, fun target targetLeast => ?_⟩⟩
      exact Nat.lt_succ_iff.mp (scan_eq_none ended targetLeast.1)

/-- How far a slot is ahead in the cyclic order of the table. -/
def ahead (target p : Slot) : Nat :=
  if (p : Nat) < target then target - p else NPROC + target - p

/-- Dispatches that avoid a slot of least priority value come ever closer to it. -/
theorem length_le_ahead (unbroken : Unbroken table) {first target : Slot}
    (isFirst : IsFirstLeast table first) (targetLeast : IsLeast table target)
    (rest : List Slot) (p : Slot) (chain : List.IsChain (Follows table) (p :: rest))
    (least : IsLeast table p) (avoided : target ∉ p :: rest) :
    (p :: rest).length ≤ ahead target p := by
  induction rest generalizing p with
  | nil =>
      have different : (target : Nat) ≠ p := Fin.val_ne_of_ne (by simpa using avoided)
      have bound := p.isLt
      simp only [ahead, List.length_singleton]
      split <;> omega
  | cons next rest ih =>
      obtain ⟨follows, restChain⟩ := List.isChain_cons_cons.mp chain
      obtain ⟨nextLeast, direction⟩ := follows_next unbroken isFirst least follows
      have restAvoided : target ∉ next :: rest :=
        fun member => avoided (List.mem_cons_of_mem _ member)
      have different : (target : Nat) ≠ next :=
        Fin.val_ne_of_ne fun same => restAvoided (same ▸ List.mem_cons_self)
      have closer := ih next restChain nextLeast restAvoided
      have bound := p.isLt
      rw [List.length_cons]
      refine lt_of_le_of_lt closer ?_
      rcases direction with ⟨later, closest⟩ | ⟨isNext, behind⟩
      · have later : (p : Nat) < next := later
        have reached : (p : Nat) < target → (next : Nat) ≤ target :=
          closest target targetLeast
        simp only [ahead]
        split <;> split <;> omega
      · have start : (next : Nat) ≤ target := isNext ▸ isFirst.2 target targetLeast
        have passed : (target : Nat) ≤ p := behind target targetLeast
        simp only [ahead]
        split <;> split <;> omega

/-- Without gaps every `NPROC` successive dispatches include each slot of least
priority value. -/
theorem mem_window (unbroken : Unbroken table) {target : Slot}
    (targetLeast : IsLeast table target) {window : List Slot}
    (chain : List.IsChain (Follows table) window)
    (leasts : ∀ p ∈ window, IsLeast table p) (long : window.length = NPROC) :
    target ∈ window := by
  obtain ⟨first, isFirst⟩ := exists_isFirstLeast targetLeast
  by_contra avoided
  cases window with
  | nil => simp [NPROC] at long
  | cons p rest =>
      have within := length_le_ahead unbroken isFirst targetLeast rest p chain
        (leasts p List.mem_cons_self) avoided
      have different : (target : Nat) ≠ p :=
        Fin.val_ne_of_ne fun same => avoided (same ▸ List.mem_cons_self)
      rw [long, ahead] at within
      have bound := p.isLt
      split at within <;> omega

/-! ## Runs on one CPU -/

/-- A table has the `RUNNABLE` slots of another one, with the same priorities. -/
def Agrees (table other : Slot → Proc) : Prop :=
  ∀ slot, ((other slot).state = .runnable ↔ (table slot).state = .runnable) ∧
    ((table slot).state = .runnable → (other slot).priority = (table slot).priority)

theorem scan_eq_of_agrees {other : Slot → Proc} (agrees : Agrees table other)
    (position : Nat) : scan other position = scan table position := by
  have runnable : isRunnable other = isRunnable table := by
    funext slot
    simp [isRunnable, (agrees slot).1]
  unfold scan
  rw [runnable]
  cases found : (slots.drop position).find? (isRunnable table) with
  | none => rfl
  | some slot =>
      have isRunnableSlot := List.find?_some found
      have same : highP other slot = highP table slot := by
        unfold highP
        rw [runnable]
        refine selectLeast_congr (fun _ => rfl) (fun item eligible => ?_) isRunnableSlot slots
        exact (agrees item).2 (by simpa [isRunnable] using eligible)
      simp [same]

/-- Whenever the scheduler scans, the table has the fixed `RUNNABLE` slots and
priorities. -/
def Fixed (table : Slot → Proc) (state : State Unit) (action : Action Unit) : Prop :=
  action = .schedule () → Agrees table state.proc

/-- The CPU is anywhere in `scheduler` and has not dispatched yet. -/
def AtScheduler (state : State Unit) : Prop :=
  (state.cpu ()).mode.inScheduler = true ∧ state.history.dispatches = []

/-- In every run with the table fixed, any `NPROC` consecutive dispatches include
every slot of least priority value. -/
def SharesCpu (table : Slot → Proc) : Prop :=
  ∀ state, Run State.step (Fixed table) AtScheduler state →
    ∀ before window after, state.history.dispatches = before ++ window ++ after →
      window.length = NPROC → ∀ slot, IsLeast table slot → slot ∈ window

/-- A process on the CPU goes on without `ptable.lock`, or switches to the
scheduler. -/
def Advance (before after : Cpu) : Prop :=
  after = { before with mode := .running } ∨
    after = { mode := .scanning, proc := none, position := before.position + 1 }

theorem WaitScanned.advance {state after : State Unit} {cur : Slot}
    (scanned : WaitScanned state () cur after) :
    Advance (state.cpu ()) (after.cpu ()) ∧
      after.history.dispatches = state.history.dispatches := by
  cases scanned with
  | reap child parent zombie => exact ⟨.inl (by simp [State.waitReturn]), rfl⟩
  | fail => exact ⟨.inl (by simp [State.waitReturn]), rfl⟩
  | sleep => exact ⟨.inr (by simp [State.sleep]), rfl⟩

theorem kill_history (state : State Unit) (cur : Slot) (pid : Int) :
    (state.kill cur pid).history = state.history := by
  unfold State.kill
  split <;> rfl

theorem chpr_history (state : State Unit) (cur : Slot) (pid priority : Int) :
    (state.chpr cur pid priority).history = state.history := by
  unfold State.chpr
  split <;> rfl

theorem Performed.advance {state after : State Unit} {cur : Slot} {op : Op}
    (running : (state.cpu ()).mode = .running) (performed : Performed state () cur op after) :
    Advance (state.cpu ()) (after.cpu ()) ∧
      after.history.dispatches = state.history.dispatches := by
  have still : Advance (state.cpu ()) (state.cpu ()) := .inl (by rw [← running])
  cases performed with
  | exit idle survives => exact ⟨.inr (by simp [State.exit]), rfl⟩
  | wait idle => exact (waitScan_scanned state () cur).advance
  | yield => exact ⟨.inr (by simp), rfl⟩
  | sleep chan idle => exact ⟨.inr (by simp [State.sleep]), rfl⟩
  | kill pid =>
      rw [kill_cpu, kill_history]
      exact ⟨still, rfl⟩
  | chpr pid priority =>
      rw [chpr_cpu, chpr_history]
      exact ⟨still, rfl⟩
  | _ => exact ⟨still, rfl⟩

/-- Where the scan stands after the last dispatch. -/
def Place (table : Slot → Proc) (last : Slot) (cpu : Cpu) : Prop :=
  match cpu.mode with
  | .idle => scan table (last + 1) = none
  | .scanning => cpu.position = last + 1 ∨
      cpu.position = 0 ∧ scan table (last + 1) = none
  | .resumed | .running => cpu.position = last

/-- Successive dispatches follow each other, and the CPU is where the last one
left it. -/
structure Tracked (table : Slot → Proc) (state : State Unit) : Prop where
  chain : List.IsChain (Follows table) state.history.dispatches
  least : ∀ p ∈ state.history.dispatches, IsLeast table p
  place : ∀ last ∈ state.history.dispatches.getLast?, Place table last (state.cpu ())
  start : state.history.dispatches = [] → (state.cpu ()).mode.inScheduler = true

namespace Tracked

variable {state after : State Unit}

/-- A step that dispatches nothing. -/
theorem keep (tracked : Tracked table state)
    (same : after.history.dispatches = state.history.dispatches)
    (place : ∀ last, Place table last (state.cpu ()) → Place table last (after.cpu ()))
    (start : (state.cpu ()).mode.inScheduler = true →
      (after.cpu ()).mode.inScheduler = true) : Tracked table after := by
  refine ⟨same ▸ tracked.chain, same ▸ tracked.least, ?_, ?_⟩
  · intro last isLast
    exact place last (tracked.place last (same ▸ isLast))
  · intro none
    exact start (tracked.start (same ▸ none))

theorem advance (tracked : Tracked table state)
    (busy : (state.cpu ()).mode = .resumed ∨ (state.cpu ()).mode = .running)
    (advances : Advance (state.cpu ()) (after.cpu ()))
    (same : after.history.dispatches = state.history.dispatches) : Tracked table after := by
  refine tracked.keep same (fun last place => ?_) (fun away => ?_)
  · have position : (state.cpu ()).position = last := by
      rcases busy with mode | mode <;> simpa [Place, mode] using place
    rcases advances with equal | equal
    · rw [equal]
      simpa [Place] using position
    · rw [equal]
      simp [Place, position]
  · rcases busy with mode | mode <;> simp [mode, Mode.inScheduler] at away

/-- The scan appends the slot that follows the last dispatch. -/
theorem dispatch (tracked : Tracked table state) {p first : Slot}
    (isFirst : IsFirstLeast table first) (scanning : (state.cpu ()).mode = .scanning)
    (chosen : scan table (state.cpu ()).position = some p)
    (cpu : after.cpu () = { mode := .resumed, proc := some p, position := p })
    (recorded : after.history.dispatches = state.history.dispatches ++ [p]) :
    Tracked table after := by
  refine ⟨?_, ?_, ?_, ?_⟩
  · rw [recorded]
    refine tracked.chain.append (List.IsChain.singleton p) ?_
    intro last isLast next isNext
    obtain rfl : p = next := by simpa using isNext
    have place := tracked.place last isLast
    simp only [Place, scanning] at place
    rcases place with position | ⟨position, ended⟩
    · exact .inl (position ▸ chosen)
    · exact .inr ⟨ended, position ▸ chosen⟩
  · intro q member
    rw [recorded, List.mem_append] at member
    rcases member with member | member
    · exact tracked.least q member
    · obtain rfl : q = p := by simpa using member
      exact (scan_cases isFirst chosen).1
  · intro last isLast
    obtain rfl : p = last := by simpa [recorded] using isLast
    simp [cpu, Place]
  · intro none
    simp [recorded] at none

theorem step (tracked : Tracked table state) {action : Action Unit} {first : Slot}
    (isFirst : IsFirstLeast table first) (fixed : Fixed table state action)
    (step : Step state action after) : Tracked table after := by
  cases step with
  | acquire cpu idle free =>
      refine tracked.keep rfl (fun last place => ?_) (fun _ => ?_)
      · simp only [Place, idle] at place
        simp [Place, place]
      · simp [Mode.inScheduler]
  | dispatch cpu p scanning chosen =>
      rw [scan_eq_of_agrees (fixed rfl)] at chosen
      exact tracked.dispatch isFirst scanning chosen (by simp) rfl
  | endOfTable cpu scanning ended =>
      rw [scan_eq_of_agrees (fixed rfl)] at ended
      refine tracked.keep rfl (fun last place => ?_) (fun _ => ?_)
      · simp only [Place, scanning] at place
        rcases place with position | ⟨_, alreadyEnded⟩
        · simpa [Place, position] using ended
        · simpa [Place] using alreadyEnded
      · simp [Mode.inScheduler]
  | resume cpu cur resumed isCur =>
      exact tracked.advance (.inl resumed) (.inl (by simp)) rfl
  | resumeSlept cpu cur resumed isCur =>
      exact tracked.advance (.inl resumed) (.inl (by simp)) rfl
  | resumeWait cpu cur resumed isCur waiting =>
      obtain ⟨advances, same⟩ := (waitScan_scanned
        (state.setProc cur { state.proc cur with chan := none }) () cur).advance
      exact tracked.advance (.inl resumed) advances same
  | op cpu cur op running isCur performed =>
      obtain ⟨advances, same⟩ := performed.advance running
      exact tracked.advance (.inr running) advances same
  | userinit init before free => exact tracked.keep rfl (fun _ place => place) id
  | userinitRun init booting => exact tracked.keep rfl (fun _ place => place) id
  | wakeup cpu chan => exact tracked.keep rfl (fun _ place => place) id

theorem of_run {first : Slot} (isFirst : IsFirstLeast table first)
    (run : Run State.step (Fixed table) AtScheduler state) : Tracked table state := by
  refine run.invariant (fun state starts => ?_) fun state action after tracked fixed taken =>
    tracked.step isFirst fixed (Step.of_step action taken)
  obtain ⟨away, none⟩ := starts
  exact ⟨by simp [none], by simp [none], by simp [none], fun _ => away⟩

end Tracked

theorem sharesCpu_of_unbroken (unbroken : Unbroken table) : SharesCpu table := by
  intro state run before window after split long slot least
  obtain ⟨first, isFirst⟩ := exists_isFirstLeast least
  have tracked := Tracked.of_run isFirst run
  have chain := tracked.chain
  rw [split] at chain
  refine mem_window unbroken least chain.left_of_append.right_of_append (fun p member => ?_) long
  apply tracked.least
  rw [split]
  simp [member]

/-! ## Starvation behind a gap -/

/-- A scan that starts before a `RUNNABLE` slot of larger priority value stays
before it. -/
theorem scan_before_gap {first between : Slot} (least : IsLeast table first)
    (earlier : first < between) (runnable : (table between).state = .runnable)
    (notLeast : ¬IsLeast table between) {position : Nat} (start : position ≤ between) :
    ∃ p, scan table position = some p ∧ p < between := by
  obtain ⟨lowest, isFirst⟩ := exists_isFirstLeast least
  cases chosen : scan table position with
  | none =>
      have behind := scan_eq_none chosen runnable
      omega
  | some p =>
      refine ⟨p, rfl, ?_⟩
      obtain ⟨pLeast, met | ⟨isLowest, _⟩⟩ := scan_cases isFirst chosen
      · refine lt_of_le_of_ne (met.2.2 between runnable start) ?_
        rintro rfl
        exact notLeast pLeast
      · rw [isLowest]
        exact lt_of_le_of_lt (isFirst.2 first least) earlier

/-- The `RUNNABLE` slots of a table, each with a process that has yielded. -/
def yielded (table : Slot → Proc) (slot : Slot) : Proc :=
  { Proc.zero with
    state := if (table slot).state = .runnable then .runnable else .unused
    priority := (table slot).priority
    context := .yielded }

theorem agrees_yielded (table : Slot → Proc) : Agrees table (yielded table) := by
  intro slot
  simp [yielded]

/-- The scheduler at an index of the table of yielded processes. -/
def scanningAt (table : Slot → Proc) (position : Nat) (dispatches : List Slot) :
    State Unit :=
  { lock := some ()
    nextpid := 1
    boot := .before
    proc := yielded table
    cpu := fun _ => { mode := .scanning, proc := none, position := position }
    history :=
      { allocations := 0, creator := fun _ => 0, waitReturns := [],
        dispatches := dispatches } }

/-- One of the yielded processes runs. -/
def onCpu (table : Slot → Proc) (p : Slot) (mode : Mode) (lock : Option Unit)
    (dispatches : List Slot) : State Unit :=
  { scanningAt table p dispatches with
    lock := lock
    proc := Function.update (yielded table) p { yielded table p with state := .running }
    cpu := fun _ => { mode := mode, proc := some p, position := p } }

theorem step_schedule {position : Nat} {p : Slot} (dispatches : List Slot)
    (chosen : scan table position = some p) :
    (scanningAt table position dispatches).step (.schedule ()) =
      some (onCpu table p .resumed (some ()) (dispatches ++ [p])) := by
  have sameScan := scan_eq_of_agrees (agrees_yielded table) position
  simp only [State.step, State.schedule, scanningAt, sameScan, chosen, if_true]
  rfl

theorem step_resume (p : Slot) (dispatches : List Slot) :
    (onCpu table p .resumed (some ()) dispatches).step (.resume ()) =
      some (onCpu table p .running none dispatches) := by
  have context : ((onCpu table p .resumed (some ()) dispatches).proc p).context = .yielded := by
    simp [onCpu, yielded]
  have resumed : (onCpu table p .resumed (some ()) dispatches).step (.resume ()) =
      (onCpu table p .resumed (some ()) dispatches).resume () p := rfl
  rw [resumed, State.resume, context]
  rfl

/-- A process that yields restores the table, and the scan goes on behind it. -/
theorem step_yield {p : Slot} (dispatches : List Slot)
    (runnable : (table p).state = .runnable) :
    (onCpu table p .running none dispatches).step (.op () .yield) =
      some (scanningAt table (p + 1) dispatches) := by
  have restored : Function.update
      (Function.update (yielded table) p { yielded table p with state := .running }) p
      { yielded table p with state := .runnable, context := .yielded } = yielded table := by
    rw [Function.update_idem]
    apply Function.update_eq_self_iff.mpr
    simp [yielded, runnable]
  have current : (onCpu table p .running none dispatches).proc p =
      { yielded table p with state := .running } := Function.update_self ..
  have yields : (onCpu table p .running none dispatches).step (.op () .yield) =
      some (((onCpu table p .running none dispatches).setProc p
        { (onCpu table p .running none dispatches).proc p with
          state := .runnable, context := .yielded }).sched ()) := rfl
  rw [yields, current]
  simp only [State.setProc, onCpu, restored]
  rfl

/-- The chosen process is dispatched, resumes and yields. -/
theorem round {position : Nat} {p : Slot} (dispatches : List Slot)
    (chosen : scan table position = some p)
    (run : Run State.step (Fixed table) AtScheduler (scanningAt table position dispatches)) :
    Run State.step (Fixed table) AtScheduler
      (scanningAt table (p + 1) (dispatches ++ [p])) := by
  have dispatched := run.next (.schedule ()) (fun _ => agrees_yielded table)
    (step_schedule dispatches chosen)
  have resumed := dispatched.next (.resume ()) (by simp [Fixed]) (step_resume p _)
  exact resumed.next (.op () .yield) (by simp [Fixed]) (step_yield _ (scan_runnable chosen))

/-- Any number of dispatches can stay before a gap. -/
theorem rounds_before_gap {first between : Slot} (least : IsLeast table first)
    (earlier : first < between) (runnable : (table between).state = .runnable)
    (notLeast : ¬IsLeast table between) (count : Nat) :
    ∃ (position : Nat) (dispatches : List Slot),
      Run State.step (Fixed table) AtScheduler (scanningAt table position dispatches) ∧
      position ≤ between ∧ dispatches.length = count ∧ ∀ p ∈ dispatches, p < between := by
  induction count with
  | zero =>
      refine ⟨0, [], .start ⟨rfl, rfl⟩, Nat.zero_le _, rfl, ?_⟩
      simp
  | succ count ih =>
      obtain ⟨position, dispatches, run, start, length, before⟩ := ih
      obtain ⟨p, chosen, pBefore⟩ :=
        scan_before_gap least earlier runnable notLeast start
      refine ⟨p + 1, dispatches ++ [p], round dispatches chosen run, pBefore, ?_, ?_⟩
      · simp [length]
      · intro q member
        rcases List.mem_append.mp member with member | member
        · exact before q member
        · obtain rfl : q = p := by simpa using member
          exact pBefore

/-- A slot of least priority value behind a gap misses `NPROC` dispatches in a
row. -/
theorem not_sharesCpu_of_gap {first between second : Slot} (least : IsLeast table first)
    (secondLeast : IsLeast table second) (earlier : first < between)
    (later : between < second) (runnable : (table between).state = .runnable)
    (notLeast : ¬IsLeast table between) : ¬SharesCpu table := by
  intro shares
  obtain ⟨position, dispatches, run, _, length, before⟩ :=
    rounds_before_gap least earlier runnable notLeast NPROC
  have member := shares _ run [] dispatches [] (by simp [scanningAt]) length second secondLeast
  exact absurd (before second member) (not_lt.mpr (le_of_lt later))

/-- On one CPU with the table fixed, the processes of least priority value share
the CPU exactly when no `RUNNABLE` slot of larger priority value lies between two
of them. -/
theorem sharesCpu_iff_unbroken (table : Slot → Proc) :
    SharesCpu table ↔ Unbroken table := by
  refine ⟨fun shares => ?_, sharesCpu_of_unbroken⟩
  intro first between second least secondLeast earlier later runnable
  by_contra notLeast
  exact not_sharesCpu_of_gap least secondLeast earlier later runnable notLeast shares

/-- Three `RUNNABLE` processes, the second with a larger priority value. -/
def brokenTable (slot : Slot) : Proc :=
  { Proc.zero with
    state := if slot < 3 then .runnable else .unused
    priority := if slot = 1 then 10 else 5 }

theorem brokenTable_not_shared : ¬SharesCpu brokenTable := by
  have least : ∀ slot : Slot, slot < 3 → slot ≠ 1 → IsLeast brokenTable slot := by
    intro slot low different
    refine ⟨by simp [brokenTable, low], fun other _ => ?_⟩
    simp only [brokenTable, if_neg different]
    split <;> decide
  refine not_sharesCpu_of_gap (least 0 (by decide) (by decide)) (least 2 (by decide) (by decide))
    (show (0 : Slot) < 1 by decide) (show (1 : Slot) < 2 by decide) (by decide) ?_
  intro isLeast
  exact absurd (isLeast.2 0 (by decide)) (by decide)

end Coursework.ProcTable
