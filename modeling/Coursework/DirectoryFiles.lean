import Coursework.DirectoryMoves

/-!
# Files and current directories

The steps of `iput`, and those of the calls that only move references about: opening, closing,
`chdir`, `exit` and `fork`.
-/

namespace Coursework.Directory

open FileSystem (FileType)

namespace State

variable {Pid : Type} [DecidableEq Pid] [Fintype Pid] {strict : Prop}
  {state after : State Pid} {pid : Pid} {proc : Proc} {ip : Inum}

/-! ## The steps of iput -/

/-- A process with `iput` before it holds an inode that is made. -/
theorem Inv.put_made (inv : state.Inv strict) (isPut : (state.proc pid).put = some (.check ip)) :
    0 < state.ledger.held ip ∧ state.ledger.making ip = 0 := by
  have extra : (state.proc pid).making ip < (state.proc pid).held ip := by
    have inside := count_making_le (state.proc pid).pc ip
    simp only [Proc.making, Proc.held, isPut, Option.elim_some, Put.held,
      List.count_singleton_self]
    omega
  exact ⟨Nat.lt_of_lt_of_le (Nat.lt_of_le_of_lt (Nat.zero_le _) extra) (state.held_le pid ip),
    making_eq_zero inv.sound extra⟩

/-- A step within `iput`, which changes no locked inode. -/
theorem Inv.put (inv : state.Inv strict) (balanced : after.Balanced) {next : Option Put}
    (isProc : after.proc = Function.update state.proc pid { state.proc pid with put := next })
    (step : Ledger.Step strict state.ledger after.ledger)
    (types : ∀ inum, 0 < after.ledger.held inum → after.type inum = state.type inum)
    (entries : ∀ inum, state.lock inum ≠ none → after.entries inum = state.entries inum)
    (valids : ∀ inum, 0 < after.ledger.held inum → after.valid inum = state.valid inum)
    (panic : after.panic = state.panic) : after.Inv strict := by
  refine inv.move balanced isProc (.single step) (fun inum isHeld _ => types inum isHeld) ?_ ?_ ?_
    panic
  · intro inum other _ isLocked
    exact entries inum (by simp [isLocked])
  · intro inum isHeld _ isRead
    rw [valids inum isHeld]
    exact isRead
  · have heldAfter : ∀ inum ∈ (state.proc pid).pc.held, 0 < after.ledger.held inum := by
      intro inum member
      have le := after.held_le pid inum
      have here : after.proc pid = { state.proc pid with put := next } := by
        rw [isProc, Function.update_self]
      have mine : 0 < (after.proc pid).held inum := held_pos_of_mem (by rw [here]; exact member)
      exact Nat.lt_of_lt_of_le mine le
    apply (inv.facts pid).stable
    · exact fun inum member => types inum (heldAfter inum member)
    · intro inum isLocked
      exact entries inum (by simp [(inv.locks inum pid).mpr isLocked])
    · intro inum member isRead
      rw [valids inum (heldAfter inum member)]
      exact isRead

/-- What `iput` may find when it checks an inode: it frees no directory that another directory has
as `..`, and in a strict run nobody else is past the check with a reference to an inode without
links. -/
structure MayCheck (strict : Prop) (state : State Pid) (ip : Inum) : Prop where
  noDotdot : state.valid ip = true → state.nlink ip = 0 → state.ref ip = 1 →
    ∀ dir, some (dotdot, ip) ∈ state.entries dir → dir = ip
  alone : strict → state.nlink ip = 0 → ∀ pid, (state.proc pid).put ≠ some (.drop ip)

omit [DecidableEq Pid] in
theorem dropping_eq_zero (alone : ∀ pid, (state.proc pid).put ≠ some (.drop ip)) :
    state.ledger.dropping ip = 0 := by
  refine Finset.sum_eq_zero fun pid _ => ?_
  change ((state.proc pid).put.elim [] Put.dropping).count ip = 0
  have notHere := alone pid
  cases isPut : (state.proc pid).put with
  | none => rfl
  | some put =>
      cases put with
      | check other => rfl
      | drop other =>
          have distinct : other ≠ ip := by
            rintro rfl
            exact notHere isPut
          simpa [Put.dropping, List.count_eq_zero] using Ne.symm distinct

theorem Inv.checkStep (inv : state.Inv strict) (balanced : after.Balanced)
    (isPut : (state.proc pid).put = some (.check ip)) (mayCheck : state.MayCheck strict ip)
    (taken : state.checkStep pid ip = some after) : after.Inv strict := by
  obtain ⟨isHeld, made⟩ := inv.put_made isPut
  have refs : state.ref ip = state.ledger.held ip + state.ledger.dropping ip := inv.sound.refs ip
  have more : ∀ inum, Proc.dropping { state.proc pid with put := some (.drop ip) } inum =
      (state.proc pid).dropping inum + [ip].count inum := by
    intro inum
    simp only [Proc.dropping, isPut, Option.elim_some, Put.dropping, List.count_nil]
    omega
  unfold State.checkStep at taken
  split at taken
  · cases taken
  · next unlocked =>
      split at taken
      · next frees =>
          obtain ⟨isRead, unlinked, last⟩ := frees
          have transition : Ledger.Step strict state.ledger (state.ledger.discard ip) :=
            .discard isHeld made unlinked last (mayCheck.noDotdot isRead unlinked last)
          have ledger : after.ledger = state.ledger.discard ip := by
            cases taken
            exact ledger_eq balanced (inv.sound.step transition).refs rfl rfl rfl rfl rfl rfl
              (tally_gain more) (tally_same fun _ => rfl) (tally_same fun _ => rfl)
          have notHeld : ∀ inum, 0 < after.ledger.held inum → inum ≠ ip := by
            rintro inum isHeldAfter rfl
            rw [ledger] at isHeldAfter
            simp only [Ledger.discard, Ledger.give, Function.update_self] at isHeldAfter
            omega
          cases taken
          refine inv.put balanced rfl (by rw [ledger]; exact transition) ?_ ?_ ?_ rfl
          · exact fun inum isHeldAfter => Function.update_of_ne (notHeld inum isHeldAfter) ..
          · intro inum isLocked
            refine Function.update_of_ne ?_ ..
            rintro rfl
            exact isLocked (by simpa using unlocked)
          · exact fun inum isHeldAfter => Function.update_of_ne (notHeld inum isHeldAfter) ..
      · next keeps =>
          cases taken
          refine inv.put balanced rfl ?_ (fun _ _ => rfl) (fun _ _ => rfl) (fun _ _ => rfl) rfl
          refine inv.ledger_step (.give isHeld made keeps fun isStrict unlinked => ?_) balanced rfl rfl
            rfl rfl rfl rfl (tally_gain more) (tally_same fun _ => rfl) (tally_same fun _ => rfl)
          exact dropping_eq_zero (mayCheck.alone isStrict unlinked)

/-- The reference is subtracted. -/
theorem Inv.dropStep (inv : state.Inv strict)
    (balanced : ({ state with ref := Function.update state.ref ip (state.ref ip - 1) }.setProc pid
      { state.proc pid with put := none }).Balanced)
    (isPut : (state.proc pid).put = some (.drop ip)) :
    ({ state with ref := Function.update state.ref ip (state.ref ip - 1) }.setProc pid
      { state.proc pid with put := none }).Inv strict := by
  have less : ∀ inum, Proc.dropping { state.proc pid with put := none } inum + [ip].count inum =
      (state.proc pid).dropping inum := by
    intro inum
    simp only [Proc.dropping, isPut, Option.elim_some, Option.elim_none, Put.dropping,
      List.count_nil]
    omega
  have isDropping : 0 < state.ledger.dropping ip := by
    have mine := le_total (fun proc : Proc => proc.dropping ip) state.proc pid
    have here := less ip
    rw [List.count_singleton_self] at here
    exact Nat.lt_of_lt_of_le (by omega) mine
  refine inv.put balanced rfl ?_ (fun _ _ => rfl) (fun _ _ => rfl) (fun _ _ => rfl) rfl
  exact inv.ledger_step (.drop isDropping) balanced rfl rfl rfl rfl rfl rfl (tally_lose less)
    (tally_same fun _ => rfl) (tally_same fun _ => rfl)

/-! ## Files and processes -/

/-- The end of `open` with the inode that the process holds at its place, and perhaps has locked. -/
theorem Inv.openFile (inv : state.Inv strict) {lock : Inum → Option Pid}
    (balanced : ({ state with lock := lock }.openFile pid ip).Balanced)
    (ready : (state.proc pid).put = none) (pending : (state.proc pid).pc.pending = [])
    (making : (state.proc pid).pc.making = []) :
    ({ state with lock := lock }.openFile pid ip).Inv strict := by
  revert balanced
  unfold State.openFile
  split
  · intro balanced
    refine inv.quiet balanced rfl ⟨fun _ => rfl, ?_, ?_⟩ trivial rfl rfl rfl rfl rfl rfl rfl
    · intro inum
      rw [Proc.pending, Proc.pending, pending]
      rfl
    · intro inum
      rw [Proc.making, Proc.making, making]
      rfl
  · intro balanced
    exact inv.iput balanced ready (by rw [pending]; rfl) (by rw [making]; rfl) trivial

theorem Inv.dup (inv : state.Inv strict) (fd : Fin NOFILE)
    (balanced : (state.dup pid fd).Balanced) : (state.dup pid fd).Inv strict := by
  revert balanced
  unfold State.dup
  split
  · intro balanced
    exact inv.quiet balanced rfl ⟨fun _ => rfl, fun _ => rfl, fun _ => rfl⟩ (inv.facts pid) rfl rfl
      rfl rfl rfl rfl rfl
  · exact fun _ => inv

/-- A process closes a descriptor. -/
theorem Inv.fileclose (inv : state.Inv strict) (fd : Fin NOFILE) {pc : Pc}
    (balanced : (state.fileclose pid fd pc).Balanced) (here : (state.proc pid).pc = pc)
    (ready : (state.proc pid).put = none) : (state.fileclose pid fd pc).Inv strict := by
  revert balanced
  have fact := inv.facts pid
  rw [here] at fact
  unfold State.fileclose
  split
  · exact fun balanced => inv.goto balanced (by rw [here]) (by rw [here]) fact
  · next f named =>
      set closed : Proc := { state.proc pid with
        ofile := Function.update (state.proc pid).ofile fd none, pc := pc } with isClosed
      have same : SameAccount closed (state.proc pid) :=
        ⟨fun _ => rfl, fun inum => by simp only [isClosed, Proc.pending, here],
          fun inum => by simp only [isClosed, Proc.making, here]⟩
      dsimp only
      split
      · exact fun balanced => inv.quiet balanced rfl same fact rfl rfl rfl rfl rfl rfl rfl
      · split
        · exact fun balanced => inv.quiet balanced rfl same fact rfl rfl rfl rfl rfl rfl rfl
        · next ip _ =>
            intro balanced
            have isProc : (State.iput { state.setProc pid closed with
                file := Function.update state.file f none } pid ip pc).proc =
                Function.update state.proc pid { closed with put := some (.check ip) } := by
              simp only [State.iput, State.setProc, Function.update_self, Function.update_idem]
              rfl
            refine inv.quiet balanced isProc ⟨?_, same.pending, same.making⟩ fact rfl rfl rfl rfl rfl
              rfl rfl
            intro inum
            simp only [Proc.dropping, ready, Option.elim_some, Option.elim_none, Put.dropping]

theorem Inv.exitStep (inv : state.Inv strict) (balanced : (state.exitStep pid).Balanced)
    (here : (state.proc pid).pc = .exiting) (ready : (state.proc pid).put = none) :
    (state.exitStep pid).Inv strict := by
  revert balanced
  unfold State.exitStep
  dsimp only
  split
  · exact fun balanced => inv.fileclose _ balanced here ready
  · split
    · next cwd _ =>
        intro balanced
        refine inv.quiet balanced rfl ⟨?_, fun _ => rfl, fun _ => rfl⟩ (inv.facts pid) rfl rfl rfl rfl
          rfl rfl rfl
        intro inum
        simp only [Proc.dropping, ready, Option.elim_some, Option.elim_none, Put.dropping]
    · intro balanced
      refine inv.quiet balanced rfl ⟨fun _ => rfl, ?_, ?_⟩ trivial rfl rfl rfl rfl rfl rfl rfl
      · intro inum
        simp only [Proc.pending, here]
        rfl
      · intro inum
        simp only [Proc.making, here]
        rfl

/-- A process forks; the child has the same files and the same current directory. -/
theorem Inv.fork (inv : state.Inv strict) {child : Pid} {cwd : Inum}
    (balanced : ((state.iget cwd).setProc child (state.proc pid)).Balanced)
    (isReady : state.ready pid = true) (dead : (state.proc child).alive = false)
    (isCwd : (state.proc pid).cwd = some cwd) :
    ((state.iget cwd).setProc child (state.proc pid)).Inv strict := by
  obtain ⟨idle, noPut, -, -⟩ := inv.dead child dead
  obtain ⟨-, here, ready⟩ := ready_spec isReady
  obtain ⟨allocated, made⟩ := inv.cwd_made isCwd
  refine inv.take allocated made balanced ?_ ?_ ?_ ?_
  · intro inum
    simp only [Proc.dropping, ready, noPut]
  · intro inum
    simp only [Proc.pending, here, idle]
  · intro inum
    simp only [Proc.making, here, idle]
  · rw [here]
    exact fun _ _ _ _ => trivial

end State

end Coursework.Directory
