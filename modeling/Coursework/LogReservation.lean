import Coursework.LogGroupCommit
import Mathlib.Data.Finset.Union

/-!
# Log space reservation

`begin_op` admits operations against `LOGSIZE` data blocks, `mkfs` makes a log
of `LOGSIZE` blocks that includes the header, and `log_write` tests for space
before it looks for the block in the header and before it takes `log.lock`.
Operations within their reservation can therefore reach the panic of
`log_write`, and can fill the header beyond the data blocks on disk.  Neither
happens in a run whose calls find fewer than `nlog - 1` blocks named in the
current transaction.
-/

namespace Coursework.LogSystem

/-- `mkfs.c`: the number of log blocks, the header included. -/
def nlog : Nat := LOGSIZE

variable {Process : Type*} [DecidableEq Process]

/-- The blocks named in calls of `log_write` since the last commit: recorded in
the header, or past the checks and not recorded yet. -/
def State.named [Fintype Process] (state : State Process) : Finset Nat :=
  state.lh.toFinset ∪
    Finset.univ.biUnion fun process => (state.pc process).pending.toFinset

/-- A call of `log_write` finds fewer blocks named than the log has data
blocks. -/
def HasRoom [Fintype Process] (state : State Process) : Action Process → Prop
  | .logWrite _ _ => state.named.card < nlog - 1
  | _ => True

instance [Fintype Process] (state : State Process) (action : Action Process) :
    Decidable (HasRoom state action) :=
  match action with
  | .logWrite _ _ => inferInstanceAs (Decidable (_ < _))
  | .beginOp _ | .endOp _ | .move _ | .kill _ => isTrue trivial

namespace State

variable [Fintype Process] {state after : State Process}

omit [DecidableEq Process] in
theorem mem_named {blockno : Nat} :
    blockno ∈ state.named ↔
      blockno ∈ state.lh ∨ ∃ process, blockno ∈ (state.pc process).pending := by
  simp [named]

theorem named_goto {process : Process} {pc : Pc}
    (places : after.pc = Function.update state.pc process pc)
    (header : ∀ blockno ∈ after.lh, blockno ∈ state.named)
    (pending : ∀ blockno ∈ pc.pending, blockno ∈ state.named) :
    after.named ⊆ state.named := by
  intro blockno member
  rcases mem_named.mp member with inHeader | ⟨other, isPending⟩
  · exact header blockno inHeader
  · rw [places] at isPending
    by_cases same : other = process
    · subst same
      rw [Function.update_self] at isPending
      exact pending blockno isPending
    · rw [Function.update_of_ne same] at isPending
      exact mem_named.mpr (Or.inr ⟨other, isPending⟩)

/-- A move that leaves the header alone. -/
theorem named_goto_same {process : Process} {pc : Pc}
    (places : after.pc = Function.update state.pc process pc)
    (header : after.lh = state.lh)
    (pending : ∀ blockno ∈ pc.pending, blockno ∈ state.named) :
    after.named ⊆ state.named := by
  refine named_goto places (fun blockno member => ?_) pending
  rw [header] at member
  exact mem_named.mpr (Or.inl member)

end State

namespace Pc

@[simp] theorem pending_wake (pc : Pc) : pc.wake.pending = pc.pending := by
  cases pc <;> rfl

end Pc

section Moves

variable [Fintype Process] {state after : State Process}

/-- Moving through the code names no further block. -/
theorem Move.named_subset (move : Move state after) : after.named ⊆ state.named := by
  cases move with
  | control control =>
      exact State.named_goto_same rfl rfl
        (by cases control <;> simp [Pc.pending])
  | @acquire process pc _ edge =>
      generalize here : state.pc process = old at edge
      refine State.named_goto_same rfl rfl fun blockno member => ?_
      refine State.mem_named.mpr (Or.inr ⟨process, ?_⟩)
      rw [here]
      cases edge with
      | logWrite => exact member
      | _ => simp [Pc.pending] at member
  | @release process pc edge =>
      generalize state.pc process = old at edge
      exact State.named_goto_same rfl rfl
        (by cases edge <;> simp [Pc.pending])
  | @wakeup process pc _ edge =>
      generalize state.pc process = old at edge
      have woken : ({ state with pc := fun other => (state.pc other).wake } :
          State Process).named = state.named := by
        simp [State.named]
      rw [← woken]
      exact State.named_goto_same rfl rfl
        (by cases edge <;> simp [Pc.pending])
  | @record process blockno here =>
      -- the pending block becomes a recorded one
      refine State.named_goto rfl (fun other member => ?_) (by simp [Pc.pending])
      rcases Accounted.mem_absorb.mp member with old | rfl
      · exact State.mem_named.mpr (Or.inl old)
      · exact State.mem_named.mpr (Or.inr ⟨process, by simp [here, Pc.pending]⟩)
  | clear => exact State.named_goto rfl (by simp) (by simp [Pc.pending])
  | enterOp | sleep | asleep | endPanic | endLast | endOther | commitEmpty | commitHead
  | erase | uncommit =>
      exact State.named_goto_same rfl rfl (by simp [Pc.pending])

end Moves

theorem absorb_nodup {blocks : List Nat} (distinct : blocks.Nodup) (blockno : Nat) :
    (absorb blocks blockno).Nodup := by
  unfold absorb
  split
  · exact distinct
  · next fresh => exact List.concat_eq_append ▸ distinct.concat fresh

theorem Move.lh_nodup {state after : State Process} (move : Move state after)
    (distinct : state.lh.Nodup) : after.lh.Nodup := by
  cases move with
  | record blockno => exact absorb_nodup distinct blockno
  | clear => exact List.nodup_nil
  | control | acquire | release | wakeup | enterOp | sleep | asleep | endPanic | endLast
  | endOther | commitEmpty | commitHead | erase | uncommit => exact distinct

/-- No process is stopped in `panic("too big a transaction")`. -/
def NotTooBig (state : State Process) : Prop :=
  ∀ process, state.pc process ≠ .panicked .tooBigTransaction

theorem NotTooBig.goto {state after : State Process} (none : NotTooBig state)
    {process : Process} {pc : Pc}
    (places : after.pc = Function.update state.pc process pc)
    (elsewhere : pc ≠ .panicked .tooBigTransaction) : NotTooBig after := by
  intro other
  rw [places]
  by_cases same : other = process
  · subst same; rwa [Function.update_self]
  · rw [Function.update_of_ne same]; exact none other

theorem NotTooBig.move {state after : State Process} (none : NotTooBig state)
    (move : Move state after) : NotTooBig after := by
  cases move with
  | control control => exact none.goto rfl (by cases control <;> simp)
  | @acquire process pc _ edge =>
      generalize state.pc process = old at edge
      exact none.goto rfl (by cases edge <;> simp)
  | @release process pc edge =>
      generalize state.pc process = old at edge
      exact none.goto rfl (by cases edge <;> simp)
  | @wakeup process pc _ edge =>
      have woken : NotTooBig { state with pc := fun other => (state.pc other).wake } :=
        fun other place => none other
          ((Pc.wake_eq_iff (by simp) (by simp)).mp place)
      generalize state.pc process = old at edge
      exact woken.goto rfl (by cases edge <;> simp)
  | enterOp | sleep | asleep | record | endPanic | endLast | endOther | commitEmpty
  | commitHead | clear | erase | uncommit => exact none.goto rfl (by simp)

/-- The transaction fits the log on disk. -/
structure FitsLog [Fintype Process] (state : State Process) : Prop where
  distinct : state.lh.Nodup
  named_le : state.named.card ≤ nlog - 1
  notTooBig : NotTooBig state

namespace FitsLog

variable [Fintype Process] {state after : State Process}

omit [DecidableEq Process] in
theorem length_le (fits : FitsLog state) : state.lh.length ≤ state.named.card := by
  rw [← List.toFinset_card_of_nodup fits.distinct]
  exact Finset.card_le_card Finset.subset_union_left

theorem move (fits : FitsLog state) (move : Move state after) : FitsLog after where
  distinct := move.lh_nodup fits.distinct
  named_le := (Finset.card_le_card move.named_subset).trans fits.named_le
  notTooBig := fits.notTooBig.move move

theorem call (fits : FitsLog state) {process : Process} {pc : Pc}
    (nothing : pc.pending = []) (elsewhere : pc ≠ .panicked .tooBigTransaction) :
    FitsLog (state.goto process pc) where
  distinct := fits.distinct
  named_le := by
    have subset : (state.goto process pc).named ⊆ state.named :=
      State.named_goto_same rfl rfl (by simp [nothing])
    exact (Finset.card_le_card subset).trans fits.named_le
  notTooBig := fits.notTooBig.goto rfl elsewhere

theorem logWrite (fits : FitsLog state) {process : Process} {blockno : Nat}
    (room : state.named.card < nlog - 1) :
    FitsLog (state.goto process (.logWriteAcquire blockno)) where
  distinct := fits.distinct
  named_le := by
    have subset : (state.goto process (.logWriteAcquire blockno)).named ⊆
        insert blockno state.named := by
      intro other member
      rcases State.mem_named.mp member with inHeader | ⟨owner, isPending⟩
      · exact Finset.mem_insert_of_mem (State.mem_named.mpr (Or.inl inHeader))
      · by_cases same : owner = process
        · subst same
          have named : other = blockno := by
            simpa [State.goto, Pc.pending] using isPending
          simp [named]
        · simp only [State.goto, Function.update_of_ne same] at isPending
          exact Finset.mem_insert_of_mem (State.mem_named.mpr (Or.inr ⟨owner, isPending⟩))
    have larger := Finset.card_le_card subset
    have inserted := Finset.card_insert_le blockno state.named
    omega
  notTooBig := fits.notTooBig.goto rfl (by simp)

theorem step (fits : FitsLog state) {action : Action Process}
    (room : HasRoom state action) (taken : state.step nlog action = some after) :
    FitsLog after := by
  cases action with
  | beginOp process =>
      simp only [State.step, Option.ite_none_right_eq_some, Option.some.injEq] at taken
      obtain ⟨-, rfl⟩ := taken
      exact fits.call rfl (by simp)
  | logWrite process blockno =>
      have length := fits.length_le
      have small : state.named.card < nlog - 1 := room
      simp only [State.step, Option.ite_none_right_eq_some] at taken
      obtain ⟨-, taken⟩ := taken
      split at taken
      · next big =>
        simp only [nlog] at small big
        omega
      · split at taken <;> obtain rfl := Option.some.inj taken
        · exact fits.call rfl (by simp)
        · exact fits.logWrite small
  | endOp process =>
      simp only [State.step, Option.ite_none_right_eq_some, Option.some.injEq] at taken
      obtain ⟨-, rfl⟩ := taken
      exact fits.call rfl (by simp)
  | move process => exact fits.move (.of_move taken)
  | kill process =>
      simp only [State.step, Option.ite_none_right_eq_some, Option.some.injEq] at taken
      obtain ⟨-, rfl⟩ := taken
      exact fits.call rfl (by simp)

end FitsLog

end Coursework.LogSystem
