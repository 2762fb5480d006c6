import Coursework.Monitors

/-!
# Wakeups that are not lost

A channel stands for a condition under which its sleepers wait.  If code that makes
a condition false owes the channel a wakeup until it has given it, goes to sleep
only where the condition holds, and lets go of the lock only when it owes no
wakeup to a sleeper, then whenever the lock is free every sleeper waits for a
condition that holds.
-/

namespace Coursework.Monitor

variable {Pid Shared Place Channel Event : Type}

/-- For every channel the condition of its sleepers, what holds at a place under
the lock, and the channels that code at a place owes a wakeup. -/
structure Discipline (system : System Pid Shared Place Channel Event) where
  waits : Channel → Shared → Prop
  asserts : Place → Shared → Prop
  owes : Place → Channel → Prop
  called : ∀ {place entry}, system.calls place entry = true → ∀ shared, asserts entry shared
  updated : ∀ {pid shared place after next}, system.code pid shared place = .update after next →
    asserts place shared → asserts next after ∧
      ∀ channel, waits channel shared ∨ owes place channel →
        waits channel after ∨ owes next channel
  woken : ∀ {pid shared place channel next},
    system.code pid shared place = .wakeup channel next → asserts place shared →
      asserts next shared ∧ ∀ other, owes place other → other = channel ∨ owes next other
  slept : ∀ {pid shared place channel next},
    system.code pid shared place = .sleep channel next → asserts place shared →
      waits channel shared ∧ (∀ other, ¬ owes place other) ∧ ∀ later, asserts next later
  happened : ∀ event shared,
    (∀ channel, waits channel shared → waits channel (system.event event shared)) ∧
      ∀ place, asserts place shared → asserts place (system.event event shared)

namespace Thread

def HoldsLock : Thread Place Channel → Prop
  | .inside _ | .waking _ _ | .entering _ _ => True
  | _ => False

def HoldsTable : Thread Place Channel → Prop
  | .waking _ _ | .entering _ _ | .committed _ _ | .resuming _ => True
  | _ => False

/-- A thread that sleeps on a channel, or has let go of the lock to do so. -/
def On (channel : Channel) : Thread Place Channel → Prop
  | .committed own _ | .asleep own _ => own = channel
  | _ => False

variable {system : System Pid Shared Place Channel Event}

/-- A thread owes a channel a wakeup. -/
def Owes (discipline : Discipline system) (channel : Channel) : Thread Place Channel → Prop
  | .inside place => discipline.owes place channel
  | .waking woken place => channel = woken ∨ discipline.owes place channel
  | _ => False

/-- What is known at the place of a thread. -/
def Asserts (discipline : Discipline system) (shared : Shared) : Thread Place Channel → Prop
  | .outside _ => True
  | .inside place | .waking _ place => discipline.asserts place shared
  | .entering channel place =>
      discipline.waits channel shared ∧ ∀ later, discipline.asserts place later
  | .acquiring place | .committed _ place | .asleep _ place | .runnable place
  | .resuming place => ∀ later, discipline.asserts place later

end Thread

/-- Every thread that sleeps on a channel waits for a condition that holds, or the
thread that holds the lock owes it a wakeup. -/
structure Inv {system : System Pid Shared Place Channel Event}
    (discipline : Discipline system) (state : State Pid Shared Place Channel) : Prop where
  lock : ∀ pid, state.lock = some pid ↔ (state.thread pid).HoldsLock
  table : ∀ pid, state.table = .thread pid ↔ (state.thread pid).HoldsTable
  asserts : ∀ pid, (state.thread pid).Asserts discipline state.shared
  served : ∀ pid channel, (state.thread pid).On channel →
    discipline.waits channel state.shared ∨
      ∃ holder, (state.thread holder).Owes discipline channel

section Step

variable {system : System Pid Shared Place Channel Event} {discipline : Discipline system}
  {state after : State Pid Shared Place Channel} {pid : Pid}

theorem Thread.holdsLock_of_owes {thread : Thread Place Channel} {channel : Channel}
    (owes : thread.Owes discipline channel) : thread.HoldsLock := by
  cases thread with
  | inside place => trivial
  | waking woken place => trivial
  | _ => exact owes.elim

namespace Inv

/-- A sleeper on a channel whose condition fails is owed a wakeup by the thread that
has the lock. -/
theorem debtor (inv : Inv discipline state) {channel : Channel}
    (sleeps : (state.thread pid).On channel) (fails : ¬ discipline.waits channel state.shared) :
    ∃ holder, state.lock = some holder ∧ (state.thread holder).Owes discipline channel := by
  obtain holds | ⟨holder, owes⟩ := inv.served pid channel sleeps
  · exact (fails holds).elim
  · exact ⟨holder, (inv.lock holder).mpr (Thread.holdsLock_of_owes owes), owes⟩

/-- One thread moves on. -/
theorem replace [DecidableEq Pid] (inv : Inv discipline state) (pid : Pid) (thread : Thread Place Channel)
    (isThread : after.thread = Function.update state.thread pid thread)
    (lock : after.lock = some pid ↔ thread.HoldsLock)
    (lockOthers : ∀ other, other ≠ pid → (after.lock = some other ↔ state.lock = some other))
    (table : after.table = .thread pid ↔ thread.HoldsTable)
    (tableOthers : ∀ other, other ≠ pid →
      (after.table = .thread other ↔ state.table = .thread other))
    (asserts : thread.Asserts discipline after.shared)
    (assertsOthers : ∀ other, other ≠ pid → (state.thread other).Asserts discipline state.shared →
      (state.thread other).Asserts discipline after.shared)
    (served : ∀ other channel, other ≠ pid ∧ (state.thread other).On channel ∨
        thread.On channel → discipline.waits channel after.shared ∨
      ∃ holder, (after.thread holder).Owes discipline channel) : Inv discipline after := by
  have here : after.thread pid = thread := by rw [isThread, Function.update_self]
  have elsewhere : ∀ other, other ≠ pid → after.thread other = state.thread other := by
    intro other distinct
    rw [isThread, Function.update_of_ne distinct]
  constructor
  · intro other
    obtain rfl | distinct := eq_or_ne other pid
    · rw [here, lock]
    · rw [elsewhere other distinct, lockOthers other distinct, inv.lock]
  · intro other
    obtain rfl | distinct := eq_or_ne other pid
    · rw [here, table]
    · rw [elsewhere other distinct, tableOthers other distinct, inv.table]
  · intro other
    obtain rfl | distinct := eq_or_ne other pid
    · rw [here]
      exact asserts
    · rw [elsewhere other distinct]
      exact assertsOthers other distinct (inv.asserts other)
  · intro other channel sleeps
    obtain rfl | distinct := eq_or_ne other pid
    · rw [here] at sleeps
      exact served other channel (.inr sleeps)
    · rw [elsewhere other distinct] at sleeps
      exact served other channel (.inl ⟨distinct, sleeps⟩)

/-- While the lock is free, the conditions of all sleepers hold. -/
theorem waits_of_free (inv : Inv discipline state) (free : state.lock = none)
    {channel : Channel} (sleeps : (state.thread pid).On channel) :
    discipline.waits channel state.shared := by
  by_contra fails
  obtain ⟨holder, isHolder, -⟩ := inv.debtor sleeps fails
  rw [free] at isHolder
  cases isHolder

/-- The thread that has the lock is the only one that can owe a wakeup. -/
theorem waits_or_owes (inv : Inv discipline state) (isHolder : state.lock = some pid)
    {other : Pid} {channel : Channel} (sleeps : (state.thread other).On channel) :
    discipline.waits channel state.shared ∨ (state.thread pid).Owes discipline channel := by
  by_cases holds : discipline.waits channel state.shared
  · exact .inl holds
  · obtain ⟨holder, isOther, owes⟩ := inv.debtor sleeps holds
    obtain rfl : holder = pid := Option.some.inj (isOther.symm.trans isHolder)
    exact .inr owes

theorem setTable (inv : Inv discipline state) {table : Holder Pid}
    (before : ∀ pid, state.table ≠ .thread pid) (now : ∀ pid, table ≠ .thread pid) :
    Inv discipline { state with table := table } := by
  refine ⟨inv.lock, fun pid => ?_, inv.asserts, inv.served⟩
  rw [← inv.table]
  exact iff_of_false (now pid) (before pid)

/-- What is known at the place of a thread without the lock does not depend on the
data. -/
theorem asserts_others (inv : Inv discipline state) (isHolder : state.lock = some pid)
    (shared : Shared) (other : Pid) (distinct : other ≠ pid)
    (known : (state.thread other).Asserts discipline state.shared) :
    (state.thread other).Asserts discipline shared := by
  have notHolder : ¬ (state.thread other).HoldsLock := by
    rw [← inv.lock, isHolder]
    exact fun same => distinct (Option.some.inj same).symm
  cases isThread : state.thread other with
  | inside place => exact (notHolder (by rw [isThread]; trivial)).elim
  | waking channel place => exact (notHolder (by rw [isThread]; trivial)).elim
  | entering channel place => exact (notHolder (by rw [isThread]; trivial)).elim
  | _ =>
      rw [isThread] at known
      exact known

/-- Some sleepers become runnable. -/
theorem roused (inv : Inv discipline state) {thread : Pid → Thread Place Channel}
    (same : ∀ other, thread other = state.thread other ∨ ∃ channel place,
      state.thread other = .asleep channel place ∧ thread other = .runnable place) :
    Inv discipline { state with thread := thread } := by
  constructor
  · intro other
    obtain same | ⟨channel, place, before, now⟩ := same other
    · simp only [same, inv.lock]
    · simp [now, before, inv.lock, Thread.HoldsLock]
  · intro other
    obtain same | ⟨channel, place, before, now⟩ := same other
    · simp only [same, inv.table]
    · simp [now, before, inv.table, Thread.HoldsTable]
  · intro other
    have known := inv.asserts other
    obtain same | ⟨channel, place, before, now⟩ := same other
    · simpa only [same] using known
    · rw [before] at known
      simp only [now]
      exact known
  · intro other channel sleeps
    have slept : (state.thread other).On channel := by
      obtain same | ⟨own, place, before, now⟩ := same other
      · simpa only [same] using sleeps
      · simp [now, Thread.On] at sleeps
    obtain holds | ⟨holder, owes⟩ := inv.served other channel slept
    · exact .inl holds
    · refine .inr ⟨holder, ?_⟩
      obtain same | ⟨own, place, before, now⟩ := same holder
      · simpa only [same] using owes
      · simp [before, Thread.Owes] at owes

theorem happen (inv : Inv discipline state) (event : Event) :
    Inv discipline { state with shared := system.event event state.shared } := by
  have later := discipline.happened event state.shared
  constructor
  · exact inv.lock
  · exact inv.table
  · intro pid
    have known := inv.asserts pid
    cases isThread : state.thread pid with
    | inside place =>
        rw [isThread] at known
        exact later.2 place known
    | waking channel place =>
        rw [isThread] at known
        exact later.2 place known
    | entering channel place =>
        rw [isThread] at known
        exact ⟨later.1 channel known.1, known.2⟩
    | _ =>
        rw [isThread] at known
        exact known
  · intro pid channel sleeps
    exact (inv.served pid channel sleeps).imp (later.1 channel) id

/-- A thread on its way to sleep waits for a condition that holds, as all sleepers do. -/
theorem waits_of_entering (inv : Inv discipline state) {channel : Channel} {place : Place}
    (isThread : state.thread pid = .entering channel place) :
    discipline.waits channel state.shared ∧ ∀ other own,
      (state.thread other).On own → discipline.waits own state.shared := by
  have known := inv.asserts pid
  have isHolder : state.lock = some pid := (inv.lock pid).mpr (by rw [isThread]; trivial)
  rw [isThread] at known
  refine ⟨known.1, fun other own sleeps => ?_⟩
  have served := inv.waits_or_owes isHolder sleeps
  rw [isThread] at served
  exact served.resolve_right id

end Inv

/-- A thread that lets go of the lock owes no wakeup to a sleeper. -/
def State.PaysOff (discipline : Discipline system) (state : State Pid Shared Place Channel) :
    Action Pid Place Event → Prop
  | .advance pid => ∀ place next, state.thread pid = .inside place →
      system.code pid state.shared place = .release next →
        ∀ channel, discipline.owes place channel →
          ∀ other, (state.thread other).On channel → discipline.waits channel state.shared
  | _ => True

section Moves

variable [DecidableEq Pid]

namespace Inv

/-- A thread without the lock moves to another place without it. -/
theorem moveOutside (inv : Inv discipline state) {thread : Thread Place Channel}
    {table : Holder Pid} (before : ¬ (state.thread pid).HoldsLock) (now : ¬ thread.HoldsLock)
    (holds : table = .thread pid ↔ thread.HoldsTable)
    (others : ∀ other, other ≠ pid →
      (table = .thread other ↔ state.table = .thread other))
    (asserts : thread.Asserts discipline state.shared)
    (fewer : ∀ channel, thread.On channel → (state.thread pid).On channel) :
    Inv discipline { state.setThread pid thread with table := table } := by
  have noLock : state.lock = some pid ↔ thread.HoldsLock :=
    iff_of_false (fun isHolder => before ((inv.lock pid).mp isHolder)) now
  refine inv.replace pid thread rfl noLock (fun _ _ => Iff.rfl) holds others asserts
    (fun _ _ => id) ?_
  intro other channel sleeps
  have served : ∃ sleeper, (state.thread sleeper).On channel := by
    obtain ⟨-, sleeps⟩ | sleeps := sleeps
    · exact ⟨other, sleeps⟩
    · exact ⟨pid, fewer channel sleeps⟩
  obtain ⟨sleeper, sleeps⟩ := served
  obtain holds | ⟨holder, owes⟩ := inv.served sleeper channel sleeps
  · exact .inl holds
  · have distinct : holder ≠ pid := by
      rintro rfl
      exact before (Thread.holdsLock_of_owes owes)
    have same : Function.update state.thread pid thread holder = state.thread holder :=
      Function.update_of_ne distinct _ _
    exact .inr ⟨holder, by rwa [← same] at owes⟩

theorem call (inv : Inv discipline state) {place entry : Place}
    (isThread : state.thread pid = .outside place) (isCalled : system.calls place entry = true) :
    Inv discipline (state.setThread pid (.acquiring entry)) := by
  have noTable := inv.table pid
  rw [isThread] at noTable
  exact inv.moveOutside (by rw [isThread]; exact id) id noTable (fun _ _ => Iff.rfl)
    (discipline.called isCalled) (fun _ => False.elim)

theorem acquire (inv : Inv discipline state) {place : Place}
    (isThread : state.thread pid = .acquiring place) (free : state.lock = none) :
    Inv discipline { state.setThread pid (.inside place) with lock := some pid } := by
  have known := inv.asserts pid
  have noTable := inv.table pid
  rw [isThread] at known noTable
  have others : ∀ other, other ≠ pid → (some pid = some other ↔ state.lock = some other) := by
    intro other distinct
    simp [free, distinct.symm]
  refine inv.replace pid (.inside place) rfl (iff_of_true rfl trivial) others noTable
    (fun _ _ => Iff.rfl) (known state.shared) (fun _ _ => id) ?_
  rintro other channel (⟨-, sleeps⟩ | sleeps)
  · exact .inl (inv.waits_of_free free sleeps)
  · exact sleeps.elim

theorem update (inv : Inv discipline state) {place next : Place} {shared : Shared}
    (isThread : state.thread pid = .inside place)
    (isCode : system.code pid state.shared place = .update shared next) :
    Inv discipline { state.setThread pid (.inside next) with shared := shared } := by
  have known := inv.asserts pid
  have lock := inv.lock pid
  have noTable := inv.table pid
  rw [isThread] at known lock noTable
  have isHolder : state.lock = some pid := lock.mpr trivial
  obtain ⟨after, pays⟩ := discipline.updated isCode known
  refine inv.replace pid (.inside next) rfl lock (fun _ _ => Iff.rfl) noTable
    (fun _ _ => Iff.rfl) after (inv.asserts_others isHolder shared) ?_
  rintro other channel (⟨-, sleeps⟩ | sleeps)
  · have served := inv.waits_or_owes isHolder sleeps
    rw [isThread] at served
    obtain holds | owes := pays channel served
    · exact .inl holds
    · exact .inr ⟨pid, by simpa [State.setThread, Thread.Owes] using owes⟩
  · exact sleeps.elim

theorem startWakeup (inv : Inv discipline state) {place next : Place} {channel : Channel}
    (isThread : state.thread pid = .inside place)
    (isCode : system.code pid state.shared place = .wakeup channel next)
    (free : state.table = .free) :
    Inv discipline
      { state.setThread pid (.waking channel next) with table := .thread pid } := by
  have known := inv.asserts pid
  have lock := inv.lock pid
  rw [isThread] at known lock
  have isHolder : state.lock = some pid := lock.mpr trivial
  obtain ⟨after, pays⟩ := discipline.woken isCode known
  have others : ∀ other, other ≠ pid →
      (Holder.thread pid = .thread other ↔ state.table = .thread other) := by
    intro other distinct
    simp [free, distinct.symm]
  refine inv.replace pid (.waking channel next) rfl lock (fun _ _ => Iff.rfl)
    (iff_of_true rfl trivial) others after (fun _ _ => id) ?_
  rintro other slept (⟨-, sleeps⟩ | sleeps)
  · have served := inv.waits_or_owes isHolder sleeps
    rw [isThread] at served
    obtain holds | owes := served
    · exact .inl holds
    · exact .inr ⟨pid, by simpa [State.setThread, Thread.Owes] using pays slept owes⟩
  · exact sleeps.elim

theorem startSleep (inv : Inv discipline state) {place next : Place} {channel : Channel}
    (isThread : state.thread pid = .inside place)
    (isCode : system.code pid state.shared place = .sleep channel next)
    (free : state.table = .free) :
    Inv discipline
      { state.setThread pid (.entering channel next) with table := .thread pid } := by
  have known := inv.asserts pid
  have lock := inv.lock pid
  rw [isThread] at known lock
  have isHolder : state.lock = some pid := lock.mpr trivial
  obtain ⟨waits, nothing, later⟩ := discipline.slept isCode known
  have others : ∀ other, other ≠ pid →
      (Holder.thread pid = .thread other ↔ state.table = .thread other) := by
    intro other distinct
    simp [free, distinct.symm]
  refine inv.replace pid (.entering channel next) rfl lock (fun _ _ => Iff.rfl)
    (iff_of_true rfl trivial) others ⟨waits, later⟩ (fun _ _ => id) ?_
  rintro other slept (⟨-, sleeps⟩ | sleeps)
  · have served := inv.waits_or_owes isHolder sleeps
    rw [isThread] at served
    exact .inl (served.resolve_right (nothing slept))
  · exact sleeps.elim

theorem release (inv : Inv discipline state) {place next : Place}
    (isThread : state.thread pid = .inside place)
    (paid : ∀ channel, discipline.owes place channel → ∀ other,
      (state.thread other).On channel → discipline.waits channel state.shared) :
    Inv discipline { state.setThread pid (.outside next) with lock := none } := by
  have lock := inv.lock pid
  have noTable := inv.table pid
  rw [isThread] at lock noTable
  have isHolder : state.lock = some pid := lock.mpr trivial
  have others : ∀ other, other ≠ pid → (none = some other ↔ state.lock = some other) := by
    intro other distinct
    simp [isHolder, distinct.symm]
  refine inv.replace pid (.outside next) rfl (iff_of_false nofun id) others noTable
    (fun _ _ => Iff.rfl) trivial (fun _ _ => id) ?_
  rintro other channel (⟨-, sleeps⟩ | sleeps)
  · have served := inv.waits_or_owes isHolder sleeps
    rw [isThread] at served
    exact .inl (served.elim id fun owes => paid channel owes other sleeps)
  · exact sleeps.elim

/-- A thread lets go of the lock on its way to sleep. -/
theorem commit (inv : Inv discipline state) {next : Place} {channel : Channel}
    (isThread : state.thread pid = .entering channel next) :
    Inv discipline { state.setThread pid (.committed channel next) with lock := none } := by
  have known := inv.asserts pid
  have lock := inv.lock pid
  have table := inv.table pid
  rw [isThread] at known lock table
  have isHolder : state.lock = some pid := lock.mpr trivial
  have others : ∀ other, other ≠ pid → (none = some other ↔ state.lock = some other) := by
    intro other distinct
    simp [isHolder, distinct.symm]
  refine inv.replace pid (.committed channel next) rfl (iff_of_false nofun id) others table
    (fun _ _ => Iff.rfl) known.2 (fun _ _ => id) ?_
  rintro other slept (⟨-, sleeps⟩ | rfl)
  · have served := inv.waits_or_owes isHolder sleeps
    rw [isThread] at served
    exact .inl (served.resolve_right id)
  · exact .inl known.1

theorem roused_rouse (thread : Thread Place Channel) :
    thread.rouse = thread ∨ ∃ own place,
      thread = .asleep own place ∧ thread.rouse = .runnable place := by
  cases thread with
  | asleep own place => exact .inr ⟨own, place, rfl, rfl⟩
  | _ => exact .inl rfl

theorem roused_wakeup1 [DecidableEq Channel] (channel : Channel)
    (thread : Thread Place Channel) :
    thread.wakeup1 channel = thread ∨ ∃ own place,
      thread = .asleep own place ∧ thread.wakeup1 channel = .runnable place := by
  cases thread with
  | asleep own place =>
      by_cases same : own = channel
      · exact .inr ⟨own, place, rfl, if_pos same⟩
      · exact .inl (if_neg same)
  | _ => exact .inl rfl

/-- A wakeup leaves no sleeper on its channel. -/
theorem wake [DecidableEq Channel] (inv : Inv discipline state) {next : Place}
    {channel : Channel} (isThread : state.thread pid = .waking channel next) :
    Inv discipline { state with
      thread := Function.update (fun other => (state.thread other).wakeup1 channel) pid
        (.inside next)
      table := .free } := by
  have woken := inv.roused fun other => roused_wakeup1 channel (state.thread other)
  have here : (state.thread pid).wakeup1 channel = .waking channel next := by
    rw [isThread]
    rfl
  have known := woken.asserts pid
  have lock := woken.lock pid
  have table := woken.table pid
  simp only [here] at known lock table
  have isHolder : state.lock = some pid := lock.mpr trivial
  have isTable : state.table = .thread pid := table.mpr trivial
  have none : ∀ other, ¬ ((state.thread other).wakeup1 channel).On channel := by
    intro other sleeps
    cases isOther : state.thread other with
    | committed own place =>
        have holds := (inv.table other).mpr (by rw [isOther]; trivial)
        obtain rfl : other = pid := Holder.thread.inj (holds.symm.trans isTable)
        rw [isThread] at isOther
        cases isOther
    | asleep own place =>
        rw [isOther, Thread.wakeup1] at sleeps
        split at sleeps
        · exact sleeps
        · next distinct => exact distinct sleeps
    | _ =>
        rw [isOther] at sleeps
        exact sleeps
  have others : ∀ other, other ≠ pid →
      (Holder.free = .thread other ↔ state.table = .thread other) := by
    intro other distinct
    simp [isTable, distinct.symm]
  refine woken.replace pid (.inside next) rfl lock (fun _ _ => Iff.rfl)
    (iff_of_false (by simp) id) others known (fun _ _ => id) ?_
  rintro other slept (⟨-, sleeps⟩ | sleeps)
  · have served := woken.waits_or_owes isHolder sleeps
    simp only [here] at served
    obtain holds | rfl | owes := served
    · exact .inl holds
    · exact (none other sleeps).elim
    · exact .inr ⟨pid, by simpa [Thread.Owes] using owes⟩
  · exact sleeps.elim

variable [DecidableEq Channel]

theorem advance (inv : Inv discipline state)
    (paid : state.PaysOff discipline (.advance pid))
    (taken : state.advance system pid = some after) : Inv discipline after := by
  have holdsTable := inv.table pid
  have known := inv.asserts pid
  cases State.advanced taken with
  | acquire isThread free => exact inv.acquire isThread free
  | update isThread isCode => exact inv.update isThread isCode
  | startWakeup isThread isCode free => exact inv.startWakeup isThread isCode free
  | startSleep isThread isCode free => exact inv.startSleep isThread isCode free
  | release isThread isCode => exact inv.release isThread (paid _ _ isThread isCode)
  | wake isThread => exact inv.wake isThread
  | commit isThread => exact inv.commit isThread
  | settle isThread =>
      rw [isThread] at holdsTable known
      have isTable : state.table = .thread pid := holdsTable.mpr trivial
      refine inv.moveOutside (by rw [isThread]; exact id) id (iff_of_false (by simp) id) ?_ known ?_
      · intro other distinct
        simp [isTable, distinct.symm]
      · intro other sleeps
        rwa [isThread]
  | resume isThread isOther =>
      rw [isThread] at known
      refine inv.moveOutside (by rw [isThread]; exact id) id (iff_of_true rfl trivial) ?_ known
        (fun _ => False.elim)
      intro other distinct
      simp [isOther, distinct.symm]
  | goOn isThread =>
      rw [isThread] at holdsTable known
      have isTable : state.table = .thread pid := holdsTable.mpr trivial
      refine inv.moveOutside (by rw [isThread]; exact id) id (iff_of_false (by simp) id) ?_ known
        (fun _ => False.elim)
      intro other distinct
      simp [isTable, distinct.symm]

theorem step (inv : Inv discipline state) {action : Action Pid Place Event}
    (paid : state.PaysOff discipline action)
    (taken : state.step system action = some after) : Inv discipline after := by
  cases action with
  | call pid entry =>
      simp only [State.step] at taken
      split at taken
      · next place isThread =>
          split at taken
          · next isCalled =>
              cases taken
              exact inv.call isThread isCalled
          · cases taken
      · cases taken
  | advance pid => exact inv.advance paid taken
  | take =>
      simp only [State.step] at taken
      split at taken
      · next free =>
          cases taken
          exact inv.setTable (by simp [free]) (by simp)
      · cases taken
  | give =>
      simp only [State.step] at taken
      split at taken
      · next isOther =>
          cases taken
          exact inv.setTable (by simp [isOther]) (by simp)
      · cases taken
  | rouse pid =>
      simp only [State.step] at taken
      split at taken
      · cases taken
        apply inv.roused
        intro other
        obtain rfl | distinct := eq_or_ne other pid
        · rw [Function.update_self]
          exact roused_rouse _
        · exact .inl (Function.update_of_ne distinct _ _)
      · cases taken
  | event event =>
      simp only [State.step] at taken
      split at taken
      · cases taken
        exact inv.happen event
      · cases taken

/-- The invariant holds in every run in which no thread lets go of the lock while it
owes a wakeup to a sleeper. -/
theorem run {initial : State Pid Shared Place Channel → Prop}
    {allowed : State Pid Shared Place Channel → Action Pid Place Event → Prop}
    (base : ∀ state, initial state → Inv discipline state)
    (paid : ∀ state action, Inv discipline state → allowed state action →
      state.PaysOff discipline action)
    (reached : Run (State.step system) allowed initial state) : Inv discipline state :=
  reached.invariant base fun state action _ inv isAllowed taken =>
    inv.step (paid state action inv isAllowed) taken

/-- A thread that has come to sleep on a channel was on its way to it. -/
theorem on_of_step {action : Action Pid Place Event} {other : Pid} {channel : Channel}
    (taken : state.step system action = some after) (sleeps : (after.thread other).On channel) :
    (state.thread other).On channel ∨ ∃ place, state.thread other = .entering channel place := by
  have moved : ∀ pid thread, (∀ own, thread.On own → (state.thread pid).On own ∨
      ∃ place, state.thread pid = .entering own place) →
        ((Function.update state.thread pid thread) other).On channel →
          (state.thread other).On channel ∨
            ∃ place, state.thread other = .entering channel place := by
    intro pid thread fewer sleeps
    obtain rfl | distinct := eq_or_ne other pid
    · rw [Function.update_self] at sleeps
      exact fewer channel sleeps
    · rw [Function.update_of_ne distinct] at sleeps
      exact .inl sleeps
  cases action with
  | call pid entry =>
      simp only [State.step] at taken
      split at taken
      · split at taken
        · cases taken
          exact moved pid (.acquiring entry) (fun _ => False.elim) sleeps
        · cases taken
      · cases taken
  | advance pid =>
      cases State.advanced taken with
      | acquire => exact moved pid (.inside _) (fun _ => False.elim) sleeps
      | update => exact moved pid (.inside _) (fun _ => False.elim) sleeps
      | startWakeup => exact moved pid (.waking _ _) (fun _ => False.elim) sleeps
      | startSleep => exact moved pid (.entering _ _) (fun _ => False.elim) sleeps
      | release => exact moved pid (.outside _) (fun _ => False.elim) sleeps
      | resume => exact moved pid (.resuming _) (fun _ => False.elim) sleeps
      | goOn => exact moved pid (.acquiring _) (fun _ => False.elim) sleeps
      | @wake next woken isThread =>
          left
          obtain rfl | distinct := eq_or_ne other pid
          · simp only [Function.update_self] at sleeps
            exact sleeps.elim
          · simp only [Function.update_of_ne distinct] at sleeps
            obtain same | ⟨own, place, before, now⟩ :=
              roused_wakeup1 woken (state.thread other)
            · rwa [same] at sleeps
            · rw [now] at sleeps
              exact sleeps.elim
      | @commit next own isThread =>
          refine moved pid (.committed own next) ?_ sleeps
          rintro channel rfl
          exact .inr ⟨next, isThread⟩
      | @settle next own isThread =>
          refine moved pid (.asleep own next) ?_ sleeps
          rintro channel rfl
          exact .inl (by rw [isThread]; rfl)
  | take =>
      simp only [State.step] at taken
      split at taken
      · cases taken
        exact .inl sleeps
      · cases taken
  | give =>
      simp only [State.step] at taken
      split at taken
      · cases taken
        exact .inl sleeps
      · cases taken
  | rouse pid =>
      simp only [State.step] at taken
      split at taken
      · cases taken
        refine moved pid (state.thread pid).rouse ?_ sleeps
        intro own sleeps
        obtain same | ⟨channel, place, before, now⟩ := roused_rouse (state.thread pid)
        · rw [same] at sleeps
          exact .inl sleeps
        · rw [now] at sleeps
          exact sleeps.elim
      · cases taken
  | event event =>
      simp only [State.step] at taken
      split at taken
      · cases taken
        exact .inl sleeps
      · cases taken

/-- Two channels with conditions that exclude each other do not have sleepers at the
same time. -/
theorem apart (inv : Inv discipline state) {first second : Channel} (distinct : first ≠ second)
    (exclude : ∀ shared, discipline.waits first shared → ¬ discipline.waits second shared)
    (apart : ∀ pid other, (state.thread pid).On first → ¬ (state.thread other).On second)
    {action : Action Pid Place Event} (taken : state.step system action = some after)
    (pid other : Pid) (sleeps : (after.thread pid).On first) :
    ¬ (after.thread other).On second := by
  intro otherSleeps
  obtain before | ⟨place, entering⟩ := on_of_step taken sleeps
  · obtain otherBefore | ⟨place, entering⟩ := on_of_step taken otherSleeps
    · exact apart pid other before otherBefore
    · obtain ⟨waits, all⟩ := inv.waits_of_entering entering
      exact exclude _ (all pid first before) waits
  · obtain ⟨waits, all⟩ := inv.waits_of_entering entering
    obtain otherBefore | ⟨place', entering'⟩ := on_of_step taken otherSleeps
    · exact exclude _ waits (all other second otherBefore)
    · have isHolder := (inv.lock pid).mpr (by rw [entering]; trivial)
      have isOther := (inv.lock other).mpr (by rw [entering']; trivial)
      obtain rfl : pid = other := Option.some.inj (isHolder.symm.trans isOther)
      rw [entering, Thread.entering.injEq] at entering'
      exact distinct entering'.1

end Inv

end Moves

end Step

end Coursework.Monitor
