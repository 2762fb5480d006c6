import Coursework.DirectoryRefinement

/-!
# The steps of the directory calls

Every step of a process keeps the invariant.  References and locks are accounted for already;
most steps change nothing else, the others follow the transitions of the ledger.
-/

namespace Coursework.Directory

open FileSystem (FileType)

namespace State

variable {Pid : Type} [DecidableEq Pid] [Fintype Pid] {strict : Prop}
  {state after : State Pid} {pid : Pid} {proc : Proc} {ip : Inum}

/-! ## Locks and references -/

/-- Read an inode from disk. -/
def load (state : State Pid) (ip : Inum) : State Pid :=
  { state with valid := Function.update state.valid ip true }

theorem Inv.load (inv : state.Inv strict) (pid : Pid) (ip : Inum) :
    (state.load ip).Inv strict := by
  have isProc : (state.load ip).proc = Function.update state.proc pid (state.proc pid) :=
    (Function.update_eq_self pid state.proc).symm
  have ledger : (state.load ip).ledger = state.ledger.load ip := rfl
  have valids : ∀ inum, state.valid inum = true → (state.load ip).valid inum = true := by
    intro inum isRead
    by_cases same : inum = ip
    · subst same
      exact Function.update_self _ _ _
    · simp only [State.load, Function.update_of_ne same]
      exact isRead
  refine inv.move (inv.stop rfl rfl rfl rfl inv.noIlock) isProc (ledger ▸ .single .load)
    (fun _ _ _ => rfl) (fun _ _ _ _ => rfl) (fun inum _ _ => valids inum) ?_ rfl
  exact (inv.facts pid).stable (fun _ _ => by rfl) (fun _ _ => by rfl) fun inum _ => valids inum

/-- Under `ilock` of an inode that a process holds. -/
theorem Inv.withLock {body : State Pid → State Pid} (inv : state.Inv strict)
    (balanced : after.Balanced) {pc : Pc} (here : (state.proc pid).pc = pc) (member : ip ∈ pc.held)
    (taken : state.withLock ip body = some after)
    (rest : ∀ loaded : State Pid, loaded.proc = state.proc → loaded.nlink = state.nlink →
      loaded.lock ip = none → loaded.valid ip = true → loaded.Inv strict →
      (body loaded).Balanced → (body loaded).Inv strict) : after.Inv strict := by
  have isUsed := inv.ref_pos here member
  have allocated := alive_of_held inv.sound (held_pos_of_mem (here ▸ member))
  unfold State.withLock at taken
  split at taken
  · omega
  · split at taken
    · cases taken
    · next isFree =>
        split at taken
        · next invalid => exact (allocated invalid.2).elim
        · cases taken
          exact rest (state.load ip) rfl rfl (by simpa [State.load] using isFree)
            (Function.update_self _ _ _) (inv.load pid ip) balanced

/-- A process takes a reference to an inode. -/
theorem Inv.take (inv : state.Inv strict) {next : Inum} (allocated : state.type next ≠ .free)
    (made : state.ledger.making next = 0) {lock : Inum → Option Pid}
    (balanced : ({ state.iget next with lock := lock }.setProc pid proc).Balanced)
    (dropping : ∀ inum, proc.dropping inum = (state.proc pid).dropping inum)
    (pending : ∀ inum, proc.pending inum = (state.proc pid).pending inum)
    (making : ∀ inum, proc.making inum = (state.proc pid).making inum)
    (fact : ∀ after : State Pid, after.type = state.type → after.entries = state.entries →
      (∀ inum, 0 < state.ref inum → state.valid inum = true → after.valid inum = true) →
      after.PcFact proc.pc) :
    ({ state.iget next with lock := lock }.setProc pid proc).Inv strict := by
  let after : State Pid := { state.iget next with lock := lock }.setProc pid proc
  have isProc : after.proc = Function.update state.proc pid proc := rfl
  have step : Ledger.Step strict state.ledger after.ledger :=
    inv.ledger_step (.take allocated made) balanced rfl rfl rfl rfl rfl rfl (tally_same dropping)
      (tally_same pending) (tally_same making)
  have valids : ∀ inum, 0 < state.ref inum → state.valid inum = true →
      after.valid inum = true := by
    intro inum used isRead
    change (if state.ref next = 0 then Function.update state.valid next false
      else state.valid) inum = true
    split
    · next unused =>
        have distinct : inum ≠ next := by
          rintro rfl
          omega
        rw [Function.update_of_ne distinct]
        exact isRead
    · exact isRead
  refine inv.move balanced isProc (.single step) (fun _ _ _ => rfl) (fun _ _ _ _ => rfl) ?_
    (fact after rfl rfl valids) rfl
  intro inum _ isHeld isRead
  have refs : state.ref inum = _ := inv.sound.refs inum
  exact valids inum (by omega) isRead

/-! ## Quiet steps -/

/-- Call `iput` for an inode that the process holds at its place, perhaps after it was unlocked. -/
theorem Inv.iput (inv : state.Inv strict) {pc : Pc} {lock : Inum → Option Pid}
    (balanced : ({ state with lock := lock }.iput pid ip pc).Balanced)
    (ready : (state.proc pid).put = none)
    (pending : pc.pending = (state.proc pid).pc.pending)
    (making : pc.making = (state.proc pid).pc.making)
    (fact : state.PcFact pc) : ({ state with lock := lock }.iput pid ip pc).Inv strict := by
  refine inv.quiet balanced rfl ⟨?_, ?_, ?_⟩ fact rfl rfl rfl rfl rfl rfl rfl
  · intro inum
    simp [Proc.dropping, ready, Put.dropping]
  · intro inum
    simp only [Proc.pending, pending]
  · intro inum
    simp only [Proc.making, making]

/-- Go on with the same references. -/
theorem Inv.goto (inv : state.Inv strict) {pc : Pc} (balanced : (state.goto pid pc).Balanced)
    (pending : pc.pending = (state.proc pid).pc.pending)
    (making : pc.making = (state.proc pid).pc.making)
    (fact : state.PcFact pc) : (state.goto pid pc).Inv strict := by
  refine inv.quiet balanced rfl ⟨fun _ => rfl, ?_, ?_⟩ fact rfl rfl rfl rfl rfl rfl rfl
  · intro inum
    simp only [Proc.pending, pending]
  · intro inum
    simp only [Proc.making, making]

omit [DecidableEq Pid] in
theorem Inv.fail (inv : state.Inv strict) {panic : Panic}
    (other : panic ≠ .ilock ∧ panic ≠ .noType) : (state.fail panic).Inv strict :=
  { inv with
    noIlock := by simpa [State.fail] using other.1
    noType := by simpa [State.fail] using other.2 }

theorem failed_account (lookup : Lookup) :
    lookup.failed.pending = lookup.target ∧ lookup.failed.making = [] := by
  cases lookup <;> exact ⟨rfl, rfl⟩

omit [DecidableEq Pid] [Fintype Pid] in
theorem failed_fact {lookup : Lookup} (fact : state.LookupFact lookup) :
    state.PcFact lookup.failed := by
  cases lookup with
  | linkNew target => exact fact
  | _ => trivial

omit [DecidableEq Pid] [Fintype Pid] in
theorem LookupFact.of_type {lookup : Lookup} (fact : state.LookupFact lookup)
    (types : after.type = state.type) : after.LookupFact lookup := by
  cases lookup with
  | linkNew target =>
      simp only [LookupFact] at fact ⊢
      rwa [types]
  | create type => exact fact
  | _ => trivial

/-- Take a reference, and perhaps start to put another one. -/
theorem Inv.takeAt (inv : state.Inv strict) {next : Inum} {pc : Pc} {put : Option Put}
    {lock : Inum → Option Pid} (found : state.type next ≠ .free ∧ state.ledger.making next = 0)
    (balanced : ({ state.iget next with lock := lock }.setProc pid
      { state.proc pid with pc := pc, put := put }).Balanced)
    (ready : (state.proc pid).put = none)
    (dropping : put.elim [] Put.dropping = [])
    (pending : pc.pending = (state.proc pid).pc.pending)
    (making : pc.making = (state.proc pid).pc.making)
    (fact : ∀ after : State Pid, after.type = state.type → after.entries = state.entries →
      (∀ inum, 0 < state.ref inum → state.valid inum = true → after.valid inum = true) →
      after.PcFact pc) :
    ({ state.iget next with lock := lock }.setProc pid
      { state.proc pid with pc := pc, put := put }).Inv strict := by
  refine inv.take found.1 found.2 balanced ?_ ?_ ?_ fact
  · intro inum
    simp only [Proc.dropping, ready, dropping, Option.elim_none]
  · intro inum
    simp only [Proc.pending, pending]
  · intro inum
    simp only [Proc.making, making]

/-! ## Inodes that are made -/

/-- The current directory of a process is not being made. -/
theorem Inv.cwd_made (inv : state.Inv strict) {cwd : Inum}
    (isCwd : (state.proc pid).cwd = some cwd) :
    state.type cwd ≠ .free ∧ state.ledger.making cwd = 0 := by
  have extra : (state.proc pid).making cwd < (state.proc pid).held cwd := by
    have inside := count_making_le (state.proc pid).pc cwd
    have here : (state.proc pid).cwd.toList.count cwd = 1 := by
      rw [isCwd]
      exact List.count_singleton_self
    simp only [Proc.making, Proc.held]
    omega
  exact ⟨alive_of_held inv.sound (lt_of_le_of_lt (Nat.zero_le _) extra),
    making_eq_zero inv.sound extra⟩

omit [DecidableEq Pid] in
theorem Inv.root_made (inv : state.Inv strict) :
    state.type rootInum ≠ .free ∧ state.ledger.making rootInum = 0 := by
  have isDir : state.type rootInum = .dir := inv.sound.attachedDir _ inv.sound.rooted.1
  exact ⟨by simp [isDir], inv.sound.rooted.2.2⟩

omit [DecidableEq Pid] in
/-- What an entry of a directory names is allocated and made. -/
theorem Inv.found_made (inv : state.Inv strict) {name : Name} {off : Nat} {next : Inum}
    (found : slotLookup name (state.entries ip) = some (off, next)) :
    state.type next ≠ .free ∧ state.ledger.making next = 0 :=
  inv.sound.named ip name next (slotLookup_mem found)

omit [DecidableEq Pid] in
theorem Inv.lookup_fact (inv : state.Inv strict) {lookup : Lookup} {path : List Char}
    (here : (state.proc pid).pc = .walk lookup ip path) : state.LookupFact lookup := by
  have fact := inv.facts pid
  rwa [here] at fact

/-! ## Path walks -/

theorem Inv.namex (inv : state.Inv strict) {lookup : Lookup} {path : List Char}
    (balanced : (state.namex pid lookup path).Balanced) (ready : (state.proc pid).put = none)
    (pending : (state.proc pid).pc.pending = lookup.target)
    (making : (state.proc pid).pc.making = [])
    (fact : state.LookupFact lookup) : (state.namex pid lookup path).Inv strict := by
  unfold State.namex at balanced ⊢
  dsimp only at balanced ⊢
  generalize isStart : (if path.head? = some '/' then rootInum
    else (state.proc pid).cwd.getD rootInum) = start at balanced ⊢
  have startMade : state.type start ≠ .free ∧ state.ledger.making start = 0 := by
    subst isStart
    split
    · exact inv.root_made
    · cases isCwd : (state.proc pid).cwd with
      | none => exact inv.root_made
      | some cwd => exact inv.cwd_made isCwd
  refine inv.takeAt startMade balanced ready ?_ ?_ ?_ ?_
  · change (state.proc pid).put.elim [] Put.dropping = []
    rw [ready]
    rfl
  · rw [pending]
    rfl
  · rw [making]
    rfl
  · intro after types _ _
    exact fact.of_type types

/-- `namex` gives up: its directory is put. -/
theorem Inv.walkFails (inv : state.Inv strict) {lookup : Lookup} {path : List Char}
    (balanced : (state.iput pid ip lookup.failed).Balanced)
    (here : (state.proc pid).pc = .walk lookup ip path) (ready : (state.proc pid).put = none) :
    (state.iput pid ip lookup.failed).Inv strict := by
  obtain ⟨pending, making⟩ := failed_account lookup
  apply inv.iput balanced ready
  · rw [here, pending]
    rfl
  · rw [here, making]
    rfl
  · exact failed_fact (inv.lookup_fact here)

theorem Inv.walkStep (inv : state.Inv strict) (balanced : after.Balanced) {lookup : Lookup}
    {path : List Char} (here : (state.proc pid).pc = .walk lookup ip path)
    (ready : (state.proc pid).put = none)
    (taken : state.walkStep pid lookup ip path = some after) : after.Inv strict := by
  unfold State.walkStep at taken
  split at taken
  · split at taken
    · cases taken
      exact inv.walkFails balanced here ready
    · next notParent =>
        cases taken
        apply inv.goto balanced
        · rw [here]
          rfl
        · rw [here]
          rfl
        · exact ⟨inv.lookup_fact here, fun isParent => (notParent isParent).elim⟩
  · next name rest _ =>
      refine inv.withLock balanced here (by simp [Pc.held]) taken ?_
      intro loaded same _ _ _ inv
      rw [← same] at here ready
      split
      · exact fun balanced => inv.walkFails balanced here ready
      · next isDir =>
          split
          · intro balanced
            apply inv.goto balanced
            · rw [here]
              rfl
            · rw [here]
              rfl
            · exact ⟨inv.lookup_fact here, fun _ => by simpa using isDir⟩
          · split
            · exact fun balanced => inv.walkFails balanced here ready
            · next off next found =>
                intro balanced
                refine inv.takeAt (inv.found_made found) balanced ready rfl ?_ ?_ ?_
                · rw [here]
                  rfl
                · rw [here]
                  rfl
                · intro after types _ _
                  exact (inv.lookup_fact here).of_type types

end State

end Coursework.Directory
