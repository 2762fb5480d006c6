import Coursework.TransitionRuns
import Mathlib.Logic.Function.Basic
import Mathlib.Tactic.Common

/-!
# Sleeping and waking under a lock

Threads run code on data that one lock protects.  Code that holds the lock can
wake the threads that sleep on a channel, and it can sleep on one: it then takes
the lock of the thread table before it lets go of its own lock, and takes its own
lock again once it runs.  A wakeup holds the lock of the table too, so it does not
miss a thread that has let go of its lock and does not sleep yet.

Between the steps that take and give locks the code does nothing but its commands:
`State.step_moves` says what a step does to the data and to the places of the
threads in their code.
-/

namespace Coursework.Monitor

/-- What a thread that holds the lock does next, and the place where it goes on. -/
inductive Command (Shared Place Channel : Type)
  | update (shared : Shared) (next : Place)
  | wakeup (channel : Channel) (next : Place)
  | sleep (channel : Channel) (next : Place)
  | release (next : Place)

/-- Where a thread is, and the place in its code where it goes on. -/
inductive Thread (Place Channel : Type)
  | outside (place : Place)
  | acquiring (place : Place)
  | inside (place : Place)
  /-- in a wakeup, with both locks -/
  | waking (channel : Channel) (place : Place)
  /-- on the way to sleep, with both locks -/
  | entering (channel : Channel) (place : Place)
  /-- on the way to sleep, with the lock of the table only -/
  | committed (channel : Channel) (place : Place)
  | asleep (channel : Channel) (place : Place)
  | runnable (place : Place)
  /-- switched to, with the lock of the table -/
  | resuming (place : Place)
  deriving DecidableEq

/-- Who holds the lock of the table: nobody, a thread of the monitor, or the
scheduler or another part of the kernel. -/
inductive Holder (Pid : Type)
  | free
  | thread (pid : Pid)
  | other
  deriving DecidableEq

/-- The code under the lock, the routines that can be called from a place outside,
and what else can happen to the data while the table is locked. -/
structure System (Pid Shared Place Channel Event : Type) where
  code : Pid → Shared → Place → Command Shared Place Channel
  calls : Place → Place → Bool
  event : Event → Shared → Shared

structure State (Pid Shared Place Channel : Type) where
  shared : Shared
  thread : Pid → Thread Place Channel
  lock : Option Pid
  table : Holder Pid

inductive Action (Pid Place Event : Type)
  | call (pid : Pid) (place : Place)
  | advance (pid : Pid)
  /-- the kernel takes the lock of the table, and gives it back -/
  | take
  | give
  /-- a sleeper is made runnable for another reason -/
  | rouse (pid : Pid)
  | event (event : Event)

variable {Pid Shared Place Channel Event : Type}

section Steps

variable [DecidableEq Pid] [DecidableEq Channel]

/-- `wakeup1` for one thread. -/
def Thread.wakeup1 (channel : Channel) : Thread Place Channel → Thread Place Channel
  | .asleep own place => if own = channel then .runnable place else .asleep own place
  | thread => thread

def Thread.rouse : Thread Place Channel → Thread Place Channel
  | .asleep _ place => .runnable place
  | thread => thread

namespace State

def setThread (state : State Pid Shared Place Channel) (pid : Pid)
    (thread : Thread Place Channel) : State Pid Shared Place Channel :=
  { state with thread := Function.update state.thread pid thread }

/-- The next step of a thread, if it has one and is not kept waiting. -/
def advance (system : System Pid Shared Place Channel Event)
    (state : State Pid Shared Place Channel) (pid : Pid) :
    Option (State Pid Shared Place Channel) :=
  match state.thread pid with
  | .outside _ => none
  | .acquiring place =>
      if state.lock = none then
        some { state.setThread pid (.inside place) with lock := some pid }
      else none
  | .inside place =>
      match system.code pid state.shared place with
      | .update shared next =>
          some { state.setThread pid (.inside next) with shared := shared }
      | .wakeup channel next =>
          if state.table = .free then
            some { state.setThread pid (.waking channel next) with table := .thread pid }
          else none
      | .sleep channel next =>
          if state.table = .free then
            some { state.setThread pid (.entering channel next) with table := .thread pid }
          else none
      | .release next => some { state.setThread pid (.outside next) with lock := none }
  | .waking channel next =>
      some { state with
        thread := Function.update (fun other => (state.thread other).wakeup1 channel) pid
          (.inside next)
        table := .free }
  | .entering channel next =>
      some { state.setThread pid (.committed channel next) with lock := none }
  | .committed channel next =>
      some { state.setThread pid (.asleep channel next) with table := .other }
  | .asleep _ _ => none
  | .runnable next =>
      if state.table = .other then
        some { state.setThread pid (.resuming next) with table := .thread pid }
      else none
  | .resuming next => some { state.setThread pid (.acquiring next) with table := .free }

def step (system : System Pid Shared Place Channel Event)
    (state : State Pid Shared Place Channel) :
    Action Pid Place Event → Option (State Pid Shared Place Channel)
  | .call pid entry =>
      match state.thread pid with
      | .outside place =>
          if system.calls place entry = true then
            some (state.setThread pid (.acquiring entry))
          else none
      | _ => none
  | .advance pid => state.advance system pid
  | .take => if state.table = .free then some { state with table := .other } else none
  | .give => if state.table = .other then some { state with table := .free } else none
  | .rouse pid =>
      if state.table = .other then
        some (state.setThread pid (state.thread pid).rouse)
      else none
  | .event event =>
      if state.table = .other then
        some { state with shared := system.event event state.shared }
      else none

end State

end Steps

section Inversion

variable [DecidableEq Pid] [DecidableEq Channel]
  {system : System Pid Shared Place Channel Event}
  {state after : State Pid Shared Place Channel} {pid : Pid}

/-- The steps of a thread, with the facts that enable them. -/
inductive State.Advanced (system : System Pid Shared Place Channel Event)
    (state : State Pid Shared Place Channel) (pid : Pid) :
    State Pid Shared Place Channel → Prop
  | acquire {place : Place} : state.thread pid = .acquiring place → state.lock = none →
      Advanced system state pid { state.setThread pid (.inside place) with lock := some pid }
  | update {place next : Place} {shared : Shared} : state.thread pid = .inside place →
      system.code pid state.shared place = .update shared next →
      Advanced system state pid { state.setThread pid (.inside next) with shared := shared }
  | startWakeup {place next : Place} {channel : Channel} : state.thread pid = .inside place →
      system.code pid state.shared place = .wakeup channel next → state.table = .free →
      Advanced system state pid
        { state.setThread pid (.waking channel next) with table := .thread pid }
  | startSleep {place next : Place} {channel : Channel} : state.thread pid = .inside place →
      system.code pid state.shared place = .sleep channel next → state.table = .free →
      Advanced system state pid
        { state.setThread pid (.entering channel next) with table := .thread pid }
  | release {place next : Place} : state.thread pid = .inside place →
      system.code pid state.shared place = .release next →
      Advanced system state pid { state.setThread pid (.outside next) with lock := none }
  | wake {next : Place} {channel : Channel} : state.thread pid = .waking channel next →
      Advanced system state pid { state with
        thread := Function.update (fun other => (state.thread other).wakeup1 channel) pid
          (.inside next)
        table := .free }
  | commit {next : Place} {channel : Channel} : state.thread pid = .entering channel next →
      Advanced system state pid
        { state.setThread pid (.committed channel next) with lock := none }
  | settle {next : Place} {channel : Channel} : state.thread pid = .committed channel next →
      Advanced system state pid
        { state.setThread pid (.asleep channel next) with table := .other }
  | resume {next : Place} : state.thread pid = .runnable next → state.table = .other →
      Advanced system state pid
        { state.setThread pid (.resuming next) with table := .thread pid }
  | goOn {next : Place} : state.thread pid = .resuming next →
      Advanced system state pid { state.setThread pid (.acquiring next) with table := .free }

theorem State.advanced (taken : state.advance system pid = some after) :
    state.Advanced system pid after := by
  unfold State.advance at taken
  cases isThread : state.thread pid with
  | outside place => simp [isThread] at taken
  | acquiring place =>
      simp only [isThread, Option.ite_none_right_eq_some, Option.some.injEq] at taken
      obtain ⟨free, rfl⟩ := taken
      exact .acquire isThread free
  | inside place =>
      simp only [isThread] at taken
      cases isCode : system.code pid state.shared place with
      | update shared next =>
          simp only [isCode, Option.some.injEq] at taken
          exact taken ▸ .update isThread isCode
      | wakeup channel next =>
          simp only [isCode, Option.ite_none_right_eq_some, Option.some.injEq] at taken
          obtain ⟨free, rfl⟩ := taken
          exact .startWakeup isThread isCode free
      | sleep channel next =>
          simp only [isCode, Option.ite_none_right_eq_some, Option.some.injEq] at taken
          obtain ⟨free, rfl⟩ := taken
          exact .startSleep isThread isCode free
      | release next =>
          simp only [isCode, Option.some.injEq] at taken
          exact taken ▸ .release isThread isCode
  | waking channel next =>
      simp only [isThread, Option.some.injEq] at taken
      exact taken ▸ .wake isThread
  | entering channel next =>
      simp only [isThread, Option.some.injEq] at taken
      exact taken ▸ .commit isThread
  | committed channel next =>
      simp only [isThread, Option.some.injEq] at taken
      exact taken ▸ .settle isThread
  | asleep channel place => simp [isThread] at taken
  | runnable next =>
      simp only [isThread, Option.ite_none_right_eq_some, Option.some.injEq] at taken
      obtain ⟨isOther, rfl⟩ := taken
      exact .resume isThread isOther
  | resuming next =>
      simp only [isThread, Option.some.injEq] at taken
      exact taken ▸ .goOn isThread

end Inversion

/-! ## Steps of the code -/

def Command.next : Command Shared Place Channel → Place
  | .update _ next | .wakeup _ next | .sleep _ next | .release next => next

def Command.effect (before : Shared) : Command Shared Place Channel → Shared
  | .update shared _ => shared
  | _ => before

def Thread.place : Thread Place Channel → Place
  | .outside place | .acquiring place | .inside place | .waking _ place | .entering _ place
  | .committed _ place | .asleep _ place | .runnable place | .resuming place => place

def State.place (state : State Pid Shared Place Channel) (pid : Pid) : Place :=
  (state.thread pid).place

section Moves

variable {system : System Pid Shared Place Channel Event}
  {state after : State Pid Shared Place Channel}

/-- What a step does to the data and to the places of the threads: a thread calls a
routine or executes a command of the code, an event happens, or nothing changes. -/
inductive State.Moves [DecidableEq Pid] (system : System Pid Shared Place Channel Event)
    (state after : State Pid Shared Place Channel) : Prop
  | stay (shared : after.shared = state.shared) (place : after.place = state.place)
  | call (pid : Pid) (entry : Place) (isCalled : system.calls (state.place pid) entry = true)
      (shared : after.shared = state.shared)
      (place : after.place = Function.update state.place pid entry)
  | run (pid : Pid)
      (shared : after.shared =
        (system.code pid state.shared (state.place pid)).effect state.shared)
      (place : after.place = Function.update state.place pid
        (system.code pid state.shared (state.place pid)).next)
  | happen (event : Event) (shared : after.shared = system.event event state.shared)
      (place : after.place = state.place)

section Places

variable [DecidableEq Pid]

theorem place_setThread (pid : Pid) (thread : Thread Place Channel) :
    (state.setThread pid thread).place = Function.update state.place pid thread.place := by
  ext other
  obtain rfl | distinct := eq_or_ne other pid
  · simp [State.place, State.setThread]
  · simp [State.place, State.setThread, distinct]

/-- A thread goes on without a change of its place. -/
theorem place_setThread_same (pid : Pid) (thread : Thread Place Channel)
    {before : Thread Place Channel} (isThread : state.thread pid = before)
    (same : thread.place = before.place) : (state.setThread pid thread).place = state.place := by
  have here : thread.place = state.place pid := by rw [same, ← isThread, State.place]
  rw [place_setThread, here, Function.update_eq_self]

end Places

variable [DecidableEq Channel]

theorem place_wakeup1 (channel : Channel) (thread : Thread Place Channel) :
    (thread.wakeup1 channel).place = thread.place := by
  cases thread with
  | asleep own place =>
      rw [Thread.wakeup1]
      split <;> rfl
  | _ => rfl

variable [DecidableEq Pid]

theorem State.advance_moves {pid : Pid} (taken : state.advance system pid = some after) :
    state.Moves system after := by
  have here : ∀ {thread : Thread Place Channel}, state.thread pid = thread →
      thread.place = state.place pid := by
    rintro thread rfl
    rfl
  cases State.advanced taken with
  | update isThread isCode =>
      refine .run pid ?_ ?_ <;> rw [← here isThread, Thread.place, isCode]
      · rfl
      · exact place_setThread pid (.inside _)
  | startWakeup isThread isCode free =>
      refine .run pid ?_ ?_ <;> rw [← here isThread, Thread.place, isCode]
      · rfl
      · exact place_setThread pid (.waking _ _)
  | startSleep isThread isCode free =>
      refine .run pid ?_ ?_ <;> rw [← here isThread, Thread.place, isCode]
      · rfl
      · exact place_setThread pid (.entering _ _)
  | release isThread isCode =>
      refine .run pid ?_ ?_ <;> rw [← here isThread, Thread.place, isCode]
      · rfl
      · exact place_setThread pid (.outside _)
  | @wake next channel isThread =>
      refine .stay rfl ?_
      ext other
      obtain rfl | distinct := eq_or_ne other pid
      · simp [State.place, isThread, Thread.place]
      · simp [State.place, distinct, place_wakeup1]
  | @acquire place isThread free =>
      exact .stay rfl (place_setThread_same pid (.inside place) isThread rfl)
  | @commit next channel isThread =>
      exact .stay rfl (place_setThread_same pid (.committed channel next) isThread rfl)
  | @settle next channel isThread =>
      exact .stay rfl (place_setThread_same pid (.asleep channel next) isThread rfl)
  | @resume next isThread isOther =>
      exact .stay rfl (place_setThread_same pid (.resuming next) isThread rfl)
  | @goOn next isThread =>
      exact .stay rfl (place_setThread_same pid (.acquiring next) isThread rfl)

theorem State.step_moves {action : Action Pid Place Event}
    (taken : state.step system action = some after) : state.Moves system after := by
  cases action with
  | call pid entry =>
      simp only [State.step] at taken
      split at taken
      · next place isThread =>
          split at taken
          · next isCalled =>
              cases taken
              have here : state.place pid = place := by rw [State.place, isThread, Thread.place]
              exact .call pid entry (by rw [here]; exact isCalled) rfl
                (place_setThread pid (.acquiring entry))
          · cases taken
      · cases taken
  | advance pid => exact State.advance_moves taken
  | take =>
      simp only [State.step] at taken
      split at taken
      · cases taken
        exact .stay rfl rfl
      · cases taken
  | give =>
      simp only [State.step] at taken
      split at taken
      · cases taken
        exact .stay rfl rfl
      · cases taken
  | rouse pid =>
      simp only [State.step] at taken
      split at taken
      · cases taken
        refine .stay rfl (place_setThread_same pid _ rfl ?_)
        cases state.thread pid <;> rfl
      · cases taken
  | event event =>
      simp only [State.step] at taken
      split at taken
      · cases taken
        exact .happen event rfl rfl
      · cases taken

end Moves

end Coursework.Monitor
