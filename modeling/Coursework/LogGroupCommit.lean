import Coursework.LogDiscipline

/-!
# Group commit never splits an operation

The operations of the committed transactions are disjoint, and each transaction
holds exactly the blocks that its operations logged.  Together with the
discipline of the locks this gives the contract of `begin_op` and `end_op`.
-/

namespace Coursework.LogSystem

variable {Process : Type*} [DecidableEq Process]

/-- The operations that have ended, in committed transactions or since. -/
def State.finished (state : State Process) : List Nat :=
  state.history.committed.flatMap Transaction.ops ++ state.history.ended

/-- The operation belongs to the transaction being collected: it has ended since
the last commit, or a process is still inside it. -/
def State.Current (state : State Process) (op : Nat) : Prop :=
  op ∈ state.history.ended ∨
    ∃ process, (state.pc process).isInOp = true ∧ state.history.op process = op

/-- The histories agree with the log header and with one another. -/
structure Accounted (state : State Process) : Prop where
  finished_nodup : state.finished.Nodup
  finished_lt : ∀ op ∈ state.finished, op < state.history.nextOp
  logged_lt : ∀ entry ∈ state.history.logged, entry.1 < state.history.nextOp
  active : ∀ process, (state.pc process).isInOp = true →
    state.history.op process < state.history.nextOp ∧ state.history.op process ∉ state.finished
  active_injective : ∀ first second, (state.pc first).isInOp = true →
    (state.pc second).isInOp = true → state.history.op first = state.history.op second → first = second
  collected : ∀ entry ∈ state.history.logged, state.Current entry.1 → entry.2 ∈ state.lh
  flushed : ∀ process, (state.pc process).isInstalling = true → state.history.ended = []
  sources : (∀ process, (state.pc process).isInstalling = false) →
    ∀ blockno ∈ state.lh, ∃ op, state.Current op ∧ (op, blockno) ∈ state.history.logged
  complete : ∀ transaction ∈ state.history.committed, ∀ op ∈ transaction.ops, ∀ blockno,
    (op, blockno) ∈ state.history.logged → blockno ∈ transaction.blocks
  sound : ∀ transaction ∈ state.history.committed, ∀ blockno ∈ transaction.blocks,
    ∃ op ∈ transaction.ops, (op, blockno) ∈ state.history.logged

namespace Accounted

variable {state after : State Process}

omit [DecidableEq Process] in
theorem current_congr
    (ended : after.history.ended = state.history.ended)
    (ops : after.history.op = state.history.op)
    (inside : ∀ process, (after.pc process).isInOp = (state.pc process).isInOp)
    (op : Nat) : after.Current op ↔ state.Current op := by
  simp only [State.Current, ended, ops, inside]

omit [DecidableEq Process] in
/-- A step outside the histories keeps them. -/
theorem congr (accounted : Accounted state) (lh : after.lh = state.lh)
    (history : after.history = state.history)
    (inside : ∀ process, (after.pc process).isInOp = (state.pc process).isInOp)
    (installing : ∀ process,
      (after.pc process).isInstalling = (state.pc process).isInstalling) :
    Accounted after := by
  have current := current_congr (by rw [history]) (by rw [history]) inside
  have finished : after.finished = state.finished := by
    simp only [State.finished, history]
  constructor
  · rw [finished]; exact accounted.finished_nodup
  · rw [finished, history]; exact accounted.finished_lt
  · rw [history]; exact accounted.logged_lt
  · intro process inOp
    rw [finished, history]
    exact accounted.active process (by rwa [← inside])
  · intro first second firstIn secondIn equal
    rw [history] at equal
    exact accounted.active_injective first second (by rwa [← inside])
      (by rwa [← inside]) equal
  · intro entry member isCurrent
    rw [history] at member
    rw [lh]
    exact accounted.collected entry member ((current entry.1).mp isCurrent)
  · intro process isInstalling
    rw [history]
    exact accounted.flushed process (by rwa [← installing])
  · intro notInstalling blockno member
    rw [lh] at member
    obtain ⟨op, isCurrent, source⟩ := accounted.sources
      (fun process => by rw [← installing]; exact notInstalling process) blockno member
    exact ⟨op, (current op).mpr isCurrent, by rwa [history]⟩
  · rw [history]; exact accounted.complete
  · rw [history]; exact accounted.sound

theorem goto (accounted : Accounted state) {process : Process} {pc : Pc}
    (places : after.pc = Function.update state.pc process pc)
    (inside : pc.isInOp = (state.pc process).isInOp)
    (installing : pc.isInstalling = (state.pc process).isInstalling)
    (lh : after.lh = state.lh) (history : after.history = state.history) :
    Accounted after := by
  refine accounted.congr lh history (fun other => ?_) (fun other => ?_)
  · rw [places]
    by_cases same : other = process
    · subst same; rw [Function.update_self]; exact inside
    · rw [Function.update_of_ne same]
  · rw [places]
    by_cases same : other = process
    · subst same; rw [Function.update_self]; exact installing
    · rw [Function.update_of_ne same]

/-- `begin_op` starts a fresh operation. -/
theorem enterOp (accounted : Accounted state) {process : Process}
    (places : after.pc = Function.update state.pc process .inOp)
    (here : (state.pc process).isInOp = false)
    (notInstalling : (state.pc process).isInstalling = false)
    (lh : after.lh = state.lh) (history : after.history = state.history.beginOp process) :
    Accounted after := by
  have ops : after.history.op =
      Function.update state.history.op process state.history.nextOp := by rw [history]; rfl
  have nextOp : after.history.nextOp = state.history.nextOp + 1 := by rw [history]; rfl
  have logged : after.history.logged = state.history.logged := by rw [history]; rfl
  have ended : after.history.ended = state.history.ended := by rw [history]; rfl
  have committed : after.history.committed = state.history.committed := by
    rw [history]; rfl
  have finished : after.finished = state.finished := by
    simp only [State.finished, committed, ended]
  have opOf : ∀ other, (after.pc other).isInOp = true →
      (other = process ∧ after.history.op other = state.history.nextOp) ∨
        (other ≠ process ∧ (state.pc other).isInOp = true ∧
          after.history.op other = state.history.op other) := by
    intro other inOp
    by_cases same : other = process
    · exact Or.inl ⟨same, by rw [ops, same, Function.update_self]⟩
    · rw [places, Function.update_of_ne same] at inOp
      exact Or.inr ⟨same, inOp, by rw [ops, Function.update_of_ne same]⟩
  have kept : ∀ op, state.Current op → after.Current op := by
    rintro op (isEnded | ⟨other, inOp, rfl⟩)
    · exact Or.inl (by rwa [ended])
    · have same : other ≠ process := by
        rintro rfl
        rw [here] at inOp
        cases inOp
      exact Or.inr ⟨other, by rwa [places, Function.update_of_ne same],
        by rw [ops, Function.update_of_ne same]⟩
  constructor
  · rw [finished]; exact accounted.finished_nodup
  · intro op member
    rw [finished] at member
    have := accounted.finished_lt op member
    omega
  · intro entry member
    rw [logged] at member
    have := accounted.logged_lt entry member
    omega
  · intro other inOp
    rw [finished, nextOp]
    rcases opOf other inOp with ⟨-, fresh⟩ | ⟨-, wasIn, old⟩
    · rw [fresh]
      refine ⟨by omega, fun member => ?_⟩
      have := accounted.finished_lt _ member
      omega
    · rw [old]
      obtain ⟨below, notFinished⟩ := accounted.active other wasIn
      exact ⟨by omega, notFinished⟩
  · intro first second firstIn secondIn equal
    rcases opOf first firstIn with ⟨rfl, firstOp⟩ | ⟨firstNe, firstWas, firstOp⟩ <;>
      rcases opOf second secondIn with ⟨rfl, secondOp⟩ | ⟨secondNe, secondWas, secondOp⟩
    · rfl
    · have := (accounted.active second secondWas).1
      omega
    · have := (accounted.active first firstWas).1
      omega
    · exact accounted.active_injective first second firstWas secondWas
        (by rw [← firstOp, ← secondOp, equal])
  · -- the fresh operation has logged nothing
    intro entry member isCurrent
    rw [logged] at member
    rw [lh]
    apply accounted.collected entry member
    rcases isCurrent with isEnded | ⟨other, inOp, equal⟩
    · exact Or.inl (by rwa [ended] at isEnded)
    · rcases opOf other inOp with ⟨-, fresh⟩ | ⟨-, wasIn, old⟩
      · have := accounted.logged_lt entry member
        omega
      · exact Or.inr ⟨other, wasIn, by rw [← old, equal]⟩
  · intro other isInstalling
    rw [ended]
    apply accounted.flushed other
    rw [places] at isInstalling
    by_cases same : other = process
    · subst same
      rw [Function.update_self] at isInstalling
      cases isInstalling
    · rwa [Function.update_of_ne same] at isInstalling
  · intro noneInstalling blockno member
    rw [lh] at member
    have noneBefore : ∀ other, (state.pc other).isInstalling = false := by
      intro other
      by_cases same : other = process
      · subst same
        exact notInstalling
      · have := noneInstalling other
        rwa [places, Function.update_of_ne same] at this
    obtain ⟨op, isCurrent, source⟩ := accounted.sources noneBefore blockno member
    exact ⟨op, kept op isCurrent, by rwa [logged]⟩
  · rw [committed, logged]; exact accounted.complete
  · rw [committed, logged]; exact accounted.sound

theorem mem_absorb {blocks : List Nat} {blockno other : Nat} :
    other ∈ absorb blocks blockno ↔ other ∈ blocks ∨ other = blockno := by
  unfold absorb
  split
  · next member =>
    constructor
    · exact Or.inl
    · rintro (old | rfl)
      · exact old
      · exact member
  · simp

omit [DecidableEq Process] in
/-- `log_write` records a block for an operation in progress. -/
theorem record (accounted : Accounted state) {process : Process} {blockno : Nat}
    (inOp : (state.pc process).isInOp = true)
    (same : ∀ other, (after.pc other).isInOp = (state.pc other).isInOp)
    (installing : ∀ other,
      (after.pc other).isInstalling = (state.pc other).isInstalling)
    (lh : after.lh = absorb state.lh blockno)
    (history : after.history = state.history.logWrite process blockno) :
    Accounted after := by
  have ops : after.history.op = state.history.op := by rw [history]; rfl
  have nextOp : after.history.nextOp = state.history.nextOp := by rw [history]; rfl
  have logged : after.history.logged =
      state.history.logged ++ [(state.history.op process, blockno)] := by rw [history]; rfl
  have ended : after.history.ended = state.history.ended := by rw [history]; rfl
  have committed : after.history.committed = state.history.committed := by
    rw [history]; rfl
  have current := current_congr ended ops same
  have finished : after.finished = state.finished := by
    simp only [State.finished, committed, ended]
  obtain ⟨below, unfinished⟩ := accounted.active process inOp
  constructor
  · rw [finished]; exact accounted.finished_nodup
  · rw [finished, nextOp]; exact accounted.finished_lt
  · intro entry member
    rw [nextOp]
    rcases List.mem_append.mp (logged ▸ member) with old | new
    · exact accounted.logged_lt entry old
    · rw [List.mem_singleton.mp new]
      exact below
  · intro other otherIn
    rw [ops, nextOp, finished]
    exact accounted.active other (by rwa [← same])
  · intro first second firstIn secondIn equal
    rw [ops] at equal
    exact accounted.active_injective first second (by rwa [← same])
      (by rwa [← same]) equal
  · intro entry member isCurrent
    rw [lh, mem_absorb]
    rcases List.mem_append.mp (logged ▸ member) with old | new
    · exact Or.inl (accounted.collected entry old ((current entry.1).mp isCurrent))
    · exact Or.inr (congrArg Prod.snd (List.mem_singleton.mp new))
  · intro other isInstalling
    rw [ended]
    exact accounted.flushed other (by rwa [← installing])
  · intro noneInstalling other member
    rw [logged]
    rcases mem_absorb.mp (lh ▸ member) with old | rfl
    · obtain ⟨op, isCurrent, source⟩ := accounted.sources
        (fun process => by rw [← installing]; exact noneInstalling process) other old
      exact ⟨op, (current op).mpr isCurrent, List.mem_append_left _ source⟩
    · exact ⟨state.history.op process, (current _).mpr (Or.inr ⟨process, inOp, rfl⟩), by simp⟩
  · -- an operation in progress belongs to no committed transaction
    intro transaction member op opMem other otherLogged
    rw [committed] at member
    rcases List.mem_append.mp (logged ▸ otherLogged) with old | new
    · exact accounted.complete transaction member op opMem other old
    · obtain rfl : op = state.history.op process := congrArg Prod.fst (List.mem_singleton.mp new)
      exact (unfinished (List.mem_append_left _
        (List.mem_flatMap.mpr ⟨transaction, member, opMem⟩))).elim
  · intro transaction member other otherMem
    rw [committed] at member
    obtain ⟨op, opMem, source⟩ := accounted.sound transaction member other otherMem
    exact ⟨op, opMem, by rw [logged]; exact List.mem_append_left _ source⟩

/-- `end_op` ends an operation. -/
theorem endOp (accounted : Accounted state) {process : Process} {pc : Pc}
    (places : after.pc = Function.update state.pc process pc)
    (inOp : (state.pc process).isInOp = true) (left : pc.isInOp = false)
    (notInstalling : pc.isInstalling = false)
    (noneInstalling : ∀ other, (state.pc other).isInstalling = false)
    (lh : after.lh = state.lh) (history : after.history = state.history.endOp process) :
    Accounted after := by
  have ops : after.history.op = state.history.op := by rw [history]; rfl
  have nextOp : after.history.nextOp = state.history.nextOp := by rw [history]; rfl
  have logged : after.history.logged = state.history.logged := by rw [history]; rfl
  have ended : after.history.ended =
      state.history.ended ++ [state.history.op process] := by rw [history]; rfl
  have committed : after.history.committed = state.history.committed := by
    rw [history]; rfl
  obtain ⟨below, unfinished⟩ := accounted.active process inOp
  have finished : after.finished = state.finished ++ [state.history.op process] := by
    simp only [State.finished, committed, ended, List.append_assoc]
  have insideAfter : ∀ other, (after.pc other).isInOp = true →
      other ≠ process ∧ (state.pc other).isInOp = true := by
    intro other otherIn
    rw [places] at otherIn
    by_cases same : other = process
    · subst same
      rw [Function.update_self, left] at otherIn
      cases otherIn
    · rw [Function.update_of_ne same] at otherIn
      exact ⟨same, otherIn⟩
  have current : ∀ op, after.Current op ↔ state.Current op := by
    intro op
    simp only [State.Current, ended, List.mem_append, List.mem_singleton, ops]
    constructor
    · rintro ((old | rfl) | ⟨other, otherIn, equal⟩)
      · exact Or.inl old
      · exact Or.inr ⟨process, inOp, rfl⟩
      · exact Or.inr ⟨other, (insideAfter other otherIn).2, equal⟩
    · rintro (old | ⟨other, otherIn, rfl⟩)
      · exact Or.inl (Or.inl old)
      · by_cases same : other = process
        · subst same
          exact Or.inl (Or.inr rfl)
        · exact Or.inr ⟨other, by rwa [places, Function.update_of_ne same], rfl⟩
  constructor
  · rw [finished]
    exact List.nodup_append.mpr ⟨accounted.finished_nodup, by simp, by
      intro op opMem other otherMem
      rw [List.mem_singleton.mp otherMem]
      rintro rfl
      exact unfinished opMem⟩
  · intro op member
    rw [nextOp]
    rcases List.mem_append.mp (finished ▸ member) with old | new
    · exact accounted.finished_lt op old
    · rw [List.mem_singleton.mp new]
      exact below
  · rw [logged, nextOp]; exact accounted.logged_lt
  · intro other otherIn
    obtain ⟨different, wasIn⟩ := insideAfter other otherIn
    obtain ⟨otherBelow, otherUnfinished⟩ := accounted.active other wasIn
    rw [ops, nextOp, finished]
    refine ⟨otherBelow, fun member => ?_⟩
    rcases List.mem_append.mp member with old | new
    · exact otherUnfinished old
    · exact different (accounted.active_injective other process wasIn inOp
        (List.mem_singleton.mp new))
  · intro first second firstIn secondIn equal
    rw [ops] at equal
    exact accounted.active_injective first second (insideAfter first firstIn).2
      (insideAfter second secondIn).2 equal
  · intro entry member isCurrent
    rw [logged] at member
    rw [lh]
    exact accounted.collected entry member ((current entry.1).mp isCurrent)
  · intro other isInstalling
    rw [places] at isInstalling
    by_cases same : other = process
    · subst same
      rw [Function.update_self, notInstalling] at isInstalling
      cases isInstalling
    · rw [Function.update_of_ne same, noneInstalling other] at isInstalling
      cases isInstalling
  · intro _ blockno member
    rw [lh] at member
    obtain ⟨op, isCurrent, source⟩ := accounted.sources noneInstalling blockno member
    exact ⟨op, (current op).mpr isCurrent, by rwa [logged]⟩
  · rw [committed, logged]; exact accounted.complete
  · rw [committed, logged]; exact accounted.sound

/-- The commit point: the ended operations become those of the new
transaction. -/
theorem recordCommit (accounted : Accounted state) {process : Process} {pc : Pc}
    (places : after.pc = Function.update state.pc process pc)
    (noneInside : ∀ other, (state.pc other).isInOp = false)
    (left : pc.isInOp = false)
    (noneInstalling : ∀ other, (state.pc other).isInstalling = false)
    (installs : pc.isInstalling = true ∨ state.lh = [])
    (lh : after.lh = state.lh) (history : after.history = state.history.commit state.lh) :
    Accounted after := by
  have nextOp : after.history.nextOp = state.history.nextOp := by rw [history]; rfl
  have logged : after.history.logged = state.history.logged := by rw [history]; rfl
  have ended : after.history.ended = [] := by rw [history]; rfl
  have committed : after.history.committed =
      state.history.committed ++ [⟨state.lh, state.history.ended⟩] := by rw [history]; rfl
  have finished : after.finished = state.finished := by
    simp [State.finished, committed, ended]
  have noneAfter : ∀ other, (after.pc other).isInOp = false := by
    intro other
    rw [places]
    by_cases same : other = process
    · subst same; rw [Function.update_self]; exact left
    · rw [Function.update_of_ne same]; exact noneInside other
  have endedOfCurrent : ∀ op, state.Current op → op ∈ state.history.ended := by
    rintro op (isEnded | ⟨other, inOp, -⟩)
    · exact isEnded
    · rw [noneInside other] at inOp
      cases inOp
  constructor
  · rw [finished]; exact accounted.finished_nodup
  · rw [finished, nextOp]; exact accounted.finished_lt
  · rw [logged, nextOp]; exact accounted.logged_lt
  · intro other inOp
    rw [noneAfter other] at inOp
    cases inOp
  · intro first second firstIn
    rw [noneAfter first] at firstIn
    cases firstIn
  · rintro entry - (isEnded | ⟨other, inOp, -⟩)
    · rw [ended] at isEnded
      cases isEnded
    · rw [noneAfter other] at inOp
      cases inOp
  · exact fun _ _ => ended
  · intro notInstalling blockno member
    rcases installs with isInstalling | empty
    · have here := notInstalling process
      rw [places, Function.update_self, isInstalling] at here
      cases here
    · rw [lh, empty] at member
      cases member
  · intro transaction member op opMem blockno isLogged
    rw [logged] at isLogged
    rcases List.mem_append.mp (committed ▸ member) with old | new
    · exact accounted.complete transaction old op opMem blockno isLogged
    · obtain rfl := List.mem_singleton.mp new
      exact accounted.collected (op, blockno) isLogged (Or.inl opMem)
  · intro transaction member blockno blockMem
    rw [logged]
    rcases List.mem_append.mp (committed ▸ member) with old | new
    · exact accounted.sound transaction old blockno blockMem
    · obtain rfl := List.mem_singleton.mp new
      obtain ⟨op, isCurrent, source⟩ :=
        accounted.sources noneInstalling blockno blockMem
      exact ⟨op, endedOfCurrent op isCurrent, source⟩

/-- Clearing the header after the installation drops no collected block. -/
theorem clear (accounted : Accounted state) {process : Process} {pc : Pc}
    (places : after.pc = Function.update state.pc process pc)
    (here : (state.pc process).isInstalling = true)
    (noneInside : ∀ other, (state.pc other).isInOp = false)
    (left : pc.isInOp = false)
    (lh : after.lh = []) (history : after.history = state.history) :
    Accounted after := by
  have empty := accounted.flushed process here
  have finished : after.finished = state.finished := by
    simp only [State.finished, history]
  have noneAfter : ∀ other, (after.pc other).isInOp = false := by
    intro other
    rw [places]
    by_cases same : other = process
    · subst same; rw [Function.update_self]; exact left
    · rw [Function.update_of_ne same]; exact noneInside other
  constructor
  · rw [finished]; exact accounted.finished_nodup
  · rw [finished, history]; exact accounted.finished_lt
  · rw [history]; exact accounted.logged_lt
  · intro other inOp
    rw [noneAfter other] at inOp
    cases inOp
  · intro first second firstIn
    rw [noneAfter first] at firstIn
    cases firstIn
  · rintro entry - (isEnded | ⟨other, inOp, -⟩)
    · rw [history, empty] at isEnded
      cases isEnded
    · rw [noneAfter other] at inOp
      cases inOp
  · exact fun _ _ => by rw [history, empty]
  · intro _ blockno member
    rw [lh] at member
    cases member
  · rw [history]; exact accounted.complete
  · rw [history]; exact accounted.sound

variable [Fintype Process]

omit [DecidableEq Process] in
theorem none_installing_of_endHeld (discipline : Discipline state) {process : Process}
    (here : state.pc process = .endHeld) (other : Process) :
    (state.pc other).isInstalling = false := by
  cases installing : (state.pc other).isInstalling with
  | false => rfl
  | true =>
      have committing := discipline.committing_of_place
        (Pc.isCommitting_of_isInstalling installing)
      rw [discipline.not_committing_of_endHeld here] at committing
      cases committing

omit [DecidableEq Process] in
theorem none_installing_of_committer (discipline : Discipline state) {process : Process}
    (commits : (state.pc process).isCommitting = true)
    (here : (state.pc process).isInstalling = false) (other : Process) :
    (state.pc other).isInstalling = false := by
  cases installing : (state.pc other).isInstalling with
  | false => rfl
  | true =>
      obtain rfl := discipline.committer_unique commits
        (Pc.isCommitting_of_isInstalling installing)
      exact installing.symm.trans here

/-- One move keeps the histories in agreement. -/
theorem move (accounted : Accounted state) (discipline : Discipline state)
    (move : Move state after) : Accounted after := by
  cases move with
  | control control =>
      have same := control.samePlace
      exact accounted.goto rfl same.isInOp same.isInstalling rfl rfl
  | @acquire process pc _ edge =>
      generalize here : state.pc process = old at edge
      refine accounted.goto rfl ?_ ?_ rfl rfl <;>
        rw [here] <;> cases edge <;> rfl
  | @release process pc edge =>
      generalize here : state.pc process = old at edge
      refine accounted.goto rfl ?_ ?_ rfl rfl <;>
        rw [here] <;> cases edge <;> rfl
  | @wakeup process pc _ edge =>
      have woken : Accounted { state with pc := fun other => (state.pc other).wake } :=
        accounted.congr rfl rfl (fun _ => by simp) (fun _ => by simp)
      generalize here : state.pc process = old at edge
      refine woken.goto rfl ?_ ?_ rfl rfl <;>
        (simp only [Pc.isInOp_wake, Pc.isInstalling_wake]; rw [here]; cases edge <;> rfl)
  | @enterOp process here _ =>
      exact accounted.enterOp rfl (by rw [here]; rfl) (by rw [here]; rfl) rfl rfl
  | @sleep process here _ =>
      exact accounted.goto rfl (by rw [here]; rfl) (by rw [here]; rfl) rfl rfl
  | @asleep process here =>
      exact accounted.goto rfl (by rw [here]; rfl) (by rw [here]; rfl) rfl rfl
  | @record process blockno here =>
      refine accounted.record (by rw [here]; rfl) (fun other => ?_) (fun other => ?_)
        rfl rfl
      all_goals
        by_cases same : other = process
        · subst same
          simp [State.releaseLog, State.goto, here, Pc.isInOp, Pc.isInstalling]
        · simp [State.releaseLog, State.goto, Function.update_of_ne same]
  | endPanic here committing =>
      rw [discipline.not_committing_of_endHeld here] at committing
      cases committing
  | @endLast process here _ _ =>
      exact accounted.endOp rfl (by rw [here]; rfl) rfl rfl
        (none_installing_of_endHeld discipline here) rfl rfl
  | @endOther process here _ _ =>
      exact accounted.endOp rfl (by rw [here]; rfl) rfl rfl
        (none_installing_of_endHeld discipline here) rfl rfl
  | @commitEmpty process here empty =>
      have commits : (state.pc process).isCommitting = true := by rw [here]; rfl
      exact accounted.recordCommit rfl
        (discipline.not_inOp (discipline.committing_of_place commits)) rfl
        (none_installing_of_committer discipline commits (by rw [here]; rfl))
        (Or.inr empty) rfl rfl
  | @commitHead process here =>
      have commits : (state.pc process).isCommitting = true := by rw [here]; rfl
      exact accounted.recordCommit rfl
        (discipline.not_inOp (discipline.committing_of_place commits)) rfl
        (none_installing_of_committer discipline commits (by rw [here]; rfl))
        (Or.inl rfl) rfl rfl
  | @clear process here =>
      have commits : (state.pc process).isCommitting = true := by rw [here]; rfl
      exact accounted.clear rfl (by rw [here]; rfl)
        (discipline.not_inOp (discipline.committing_of_place commits)) rfl rfl rfl
  | @erase process here =>
      exact accounted.goto rfl (by rw [here]; rfl) (by rw [here]; rfl) rfl rfl
  | @uncommit process here =>
      exact accounted.goto rfl (by rw [here]; rfl) (by rw [here]; rfl) rfl rfl

theorem step (accounted : Accounted state) (discipline : Discipline state)
    (step : Step state after) : Accounted after := by
  cases step with
  | call call =>
      have same := call.samePlace
      exact accounted.goto rfl same.isInOp same.isInstalling rfl rfl
  | move move => exact accounted.move discipline move

end Accounted

/-! ## Every reachable state -/

/-- No process is stopped in `panic("log.committing")`. -/
def NoCommitPanic (state : State Process) : Prop :=
  ∀ process, state.pc process ≠ .panicked .logCommitting

theorem NoCommitPanic.goto {state after : State Process} (none : NoCommitPanic state)
    {process : Process} {pc : Pc}
    (places : after.pc = Function.update state.pc process pc)
    (elsewhere : pc ≠ .panicked .logCommitting) : NoCommitPanic after := by
  intro other
  rw [places]
  by_cases same : other = process
  · subst same; rwa [Function.update_self]
  · rw [Function.update_of_ne same]; exact none other

theorem NoCommitPanic.move [Fintype Process] {state after : State Process}
    (none : NoCommitPanic state) (discipline : Discipline state)
    (move : Move state after) : NoCommitPanic after := by
  cases move with
  | control control => exact none.goto rfl (by cases control <;> simp)
  | @acquire process pc _ edge =>
      generalize state.pc process = old at edge
      exact none.goto rfl (by cases edge <;> simp)
  | @release process pc edge =>
      generalize state.pc process = old at edge
      exact none.goto rfl (by cases edge <;> simp)
  | @wakeup process pc _ edge =>
      have woken : NoCommitPanic { state with pc := fun other => (state.pc other).wake } :=
        fun other place => none other
          ((Pc.wake_eq_iff (by simp) (by simp)).mp place)
      generalize state.pc process = old at edge
      exact woken.goto rfl (by cases edge <;> simp)
  | endPanic here committing =>
      rw [discipline.not_committing_of_endHeld here] at committing
      cases committing
  | enterOp | sleep | asleep | record | endLast | endOther | commitEmpty | commitHead
  | clear | erase | uncommit => exact none.goto rfl (by simp)

theorem NoCommitPanic.step [Fintype Process] {state after : State Process}
    (none : NoCommitPanic state) (discipline : Discipline state)
    (step : Step state after) : NoCommitPanic after := by
  cases step with
  | call call => exact none.goto rfl (by cases call <;> simp)
  | move move => exact none.move discipline move

/-- What holds in every reachable state of the log. -/
structure Invariant [Fintype Process] (state : State Process) : Prop where
  discipline : Discipline state
  waits : Waits state
  accounted : Accounted state
  noPanic : NoCommitPanic state

omit [DecidableEq Process] in
theorem Invariant.initial [Fintype Process] {state : State Process}
    (initial : state.IsInitial) : Invariant state := by
  obtain ⟨lock, ptable, outstanding, committing, lh, logged, ended, committed, places⟩ :=
    initial
  have tracksNone : ∀ test : Pc → Bool, test .outside = false →
      Tracks none test state.pc := by
    intro test outside process
    rw [places process, outside]
    simp
  have counted : countWhere Pc.isInOp state.pc = 0 :=
    countWhere_eq_zero.mpr fun process => by rw [places process]; rfl
  refine ⟨⟨?_, ?_, ?_, ⟨none, ?_, tracksNone _ rfl⟩, fun _ => outstanding⟩, ⟨?_, ?_⟩, ?_, ?_⟩
  · rw [lock]; exact tracksNone _ rfl
  · rw [ptable]; exact tracksNone _ rfl
  · rw [outstanding, counted]; rfl
  · rw [committing]; rfl
  · intro process place
    rw [places process] at place
    cases place
  · rintro process (place | place) <;> rw [places process] at place <;> cases place
  · constructor <;> simp [State.finished, lh, logged, ended, committed, places, Pc.isInOp]
  · intro process
    rw [places process]
    simp

theorem Invariant.step [Fintype Process] {state after : State Process}
    (invariant : Invariant state) (step : Step state after) : Invariant after where
  discipline := invariant.discipline.step step
  waits := invariant.waits.step invariant.discipline step
  accounted := invariant.accounted.step invariant.discipline step
  noPanic := invariant.noPanic.step invariant.discipline step

theorem Invariant.of_run [Fintype Process] {size : Nat}
    {allowed : State Process → Action Process → Prop} {state : State Process}
    (run : Run (State.step size) allowed State.IsInitial state) : Invariant state :=
  run.invariant (fun _ => Invariant.initial)
    fun _ _ _ invariant _ taken => invariant.step (Step.of_step taken)

/-- In every reachable state a commit runs only while no operation does, the
panic of `end_op` is not reached, `log.outstanding` counts the processes inside
operations, the committed transactions hold disjoint sets of operations and each
holds exactly the blocks its operations logged, and with `log.lock` free every
sleeper of `begin_op` has to wait. -/
theorem groupCommit [Fintype Process] (size : Nat) (state : State Process)
    (run : Run (State.step size) anyStep State.IsInitial state) :
    (state.committing = true → state.outstanding = 0) ∧
    (∀ process, state.pc process ≠ .panicked .logCommitting) ∧
    state.outstanding = countWhere Pc.isInOp state.pc ∧
    (state.history.committed.flatMap Transaction.ops).Nodup ∧
    (∀ transaction ∈ state.history.committed, ∀ blockno, blockno ∈ transaction.blocks ↔
      ∃ op ∈ transaction.ops, (op, blockno) ∈ state.history.logged) ∧
    (state.lock = none → ∀ process, state.pc process = .sleeping → state.MustWait) := by
  obtain ⟨discipline, waits, accounted, noPanic⟩ := Invariant.of_run run
  refine ⟨discipline.idle, noPanic, discipline.counted,
    accounted.finished_nodup.sublist (List.sublist_append_left _ _), ?_, ?_⟩
  · intro transaction member blockno
    constructor
    · exact accounted.sound transaction member blockno
    · rintro ⟨op, opMem, isLogged⟩
      exact accounted.complete transaction member op opMem blockno isLogged
  · intro free process sleeping
    rcases waits.asleep process (Or.inr sleeping) with must | ⟨waker, wakes⟩
    · exact must
    · have holds := (discipline.log waker).mpr (Pc.holdsLog_of_willWake wakes)
      rw [free] at holds
      cases holds

/-- The system after `initlog`, with no process in an operation. -/
def booted (Process : Type*) : State Process where
  lock := none
  ptable := none
  outstanding := 0
  committing := false
  lh := []
  header := []
  pc := fun _ => .outside
  history :=
    { op := fun _ => 0, nextOp := 0, logged := [], ended := [], committed := [] }

theorem booted_isInitial (Process : Type*) : (booted Process).IsInitial :=
  ⟨rfl, rfl, rfl, rfl, rfl, rfl, rfl, rfl, fun _ => rfl⟩

/-- The moves of a process through a `begin_op` that admits it. -/
def enter {Process : Type*} (process : Process) : List (Action Process) :=
  [.beginOp process, .move process, .move process]

/-- Three processes enter operations and a fourth goes to sleep. -/
def fourthSleeps : List (Action (Fin 4)) :=
  enter 0 ++ enter 1 ++ enter 2 ++
    [.beginOp 3, .move 3, .move 3, .move 3, .move 3]

theorem fourthSleeps_enabled :
    (execute (State.step LOGSIZE) (fun _ _ => true) (booted (Fin 4))
      fourthSleeps).isSome = true := by
  decide +kernel

theorem groupCommit_fourthSleeps :
    ∃ state : State (Fin 4), state.lock = none ∧ state.pc 3 = .sleeping ∧
      state.outstanding = 3 ∧ state.MustWait := by
  have run := run_lastState (booted_isInitial (Fin 4)) fourthSleeps fourthSleeps_enabled
  obtain ⟨-, -, -, -, -, waits⟩ :=
    groupCommit LOGSIZE _ (run.mono fun _ _ _ => trivial)
  refine ⟨lastState _ _ _ _ fourthSleeps_enabled, by decide +kernel, by decide +kernel,
    by decide +kernel, waits (by decide +kernel) 3 (by decide +kernel)⟩

end Coursework.LogSystem
