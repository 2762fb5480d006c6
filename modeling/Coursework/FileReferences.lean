import Coursework.FileTable

/-!
# References to open files

The references to an open file are the descriptors that name it and the
references that calls in progress hold; `ref` counts them.  An end of a pipe is
held by one open file, and after the last reference to that file is gone by the
call of `pipeclose` that closes the end, as long as the end is open; the page is
freed once, when the second end is closed.
-/

namespace Coursework.FileTable

/-! ## Holders -/

/-- The references that a call in progress holds. -/
def Pc.files {Pid : Type} : Pc Pid → List FileId
  | .opened f | .piped f => [f]
  | .paired f0 f1 => [f0, f1]
  | .closing files => files
  | _ => []

/-- The open files that no descriptor names yet. -/
def Pc.fresh {Pid : Type} : Pc Pid → List FileId
  | .opened f | .piped f => [f]
  | .paired f0 f1 => [f0, f1]
  | _ => []

/-- The references that a process holds. -/
def Proc.files {Pid : Type} (proc : Proc Pid) (f : FileId) : Nat :=
  countWhere (fun slot => decide (slot = some f)) proc.ofile + proc.pc.files.count f

namespace State

variable {Pid : Type} [DecidableEq Pid] [Fintype Pid]

/-- What keeps an end of a pipe open. -/
def holders (state : State Pid) (pipe : Nat) (writable : Bool) : Nat :=
  countWhere (fun file : File => decide (file.type = .FD_PIPE pipe writable)) state.file +
    countWhere (fun proc : Proc Pid => decide (proc.pipeclose = some (pipe, writable)))
      state.proc

/-- A child that is being set up belongs to one `fork`, and has no descriptors
from the place of that `fork` on. -/
structure Forks (state : State Pid) : Prop where
  child : ∀ pid child fd, (state.proc pid).pc = .forking child fd →
    (state.proc child).status = .embryo ∧
      ∀ slot : Fd, fd ≤ slot.val → (state.proc child).ofile slot = none
  unique : ∀ first second child fd fd', (state.proc first).pc = .forking child fd →
    (state.proc second).pc = .forking child fd' → first = second
  quiet : ∀ pid, (state.proc pid).status ≠ .alive →
    (state.proc pid).pc = .idle ∧ (state.proc pid).pipeclose = none
  unused : ∀ pid, (state.proc pid).status = .unused → ∀ fd, (state.proc pid).ofile fd = none

structure Inv (state : State Pid) : Prop where
  refs : ∀ f, (state.file f).ref = tally Proc.files state.proc f
  free : ∀ f, (state.file f).ref = 0 → (state.file f).type = .FD_NONE
  fresh : ∀ pid, ∀ f ∈ (state.proc pid).pc.fresh,
    (state.file f).ref = 1 ∧ (state.file f).type = .FD_NONE
  paired : ∀ pid f0 f1, (state.proc pid).pc = .paired f0 f1 → f0 ≠ f1
  holders : ∀ pipe writable, state.holders pipe writable =
    ((state.pipe pipe).isOpen writable).toNat
  unmade : ∀ pipe, state.pipes ≤ pipe → ∀ writable, (state.pipe pipe).isOpen writable = false
  kfrees : ∀ pipe, (state.pipe pipe).kfrees = if pipe < state.pipes ∧
    (state.pipe pipe).isOpen false = false ∧ (state.pipe pipe).isOpen true = false then 1 else 0
  forks : state.Forks
  panic : state.panic = none

variable {state after : State Pid} {pid : Pid} {proc : Proc Pid} {f : FileId}

omit [DecidableEq Pid] in
theorem files_le (inv : state.Inv) (pid : Pid) (f : FileId) :
    (state.proc pid).files f ≤ (state.file f).ref := by
  rw [inv.refs]
  exact le_total (fun proc : Proc Pid => proc.files f) state.proc pid

omit [DecidableEq Pid] [Fintype Pid] in
theorem count_fresh_le (pc : Pc Pid) (f : FileId) : pc.fresh.count f ≤ pc.files.count f := by
  cases pc <;> simp [Pc.fresh, Pc.files]

omit [DecidableEq Pid] [Fintype Pid] in
theorem files_pos_of_fresh (member : f ∈ proc.pc.fresh) : 0 < proc.files f := by
  have := count_fresh_le proc.pc f
  have := List.count_pos_iff.mpr member
  simp only [Proc.files]
  omega

/-- A file that is free or held by a process is not set up by another one. -/
theorem Inv.not_fresh (inv : state.Inv)
    (held : (state.file f).ref = 0 ∨ 0 < (state.proc pid).files f) (other : Pid)
    (distinct : other ≠ pid) : f ∉ (state.proc other).pc.fresh := by
  intro isFresh
  have one := (inv.fresh other f isFresh).1
  rcases held with free | mine
  · omega
  · have both := add_le_total (fun proc : Proc Pid => proc.files f) state.proc distinct
    have theirs := files_pos_of_fresh isFresh
    have refs : (state.file f).ref = total (fun proc : Proc Pid => proc.files f) state.proc :=
      inv.refs f
    omega

omit [Fintype Pid] in
/-- A step of a process that is alive and starts no `fork`. -/
theorem Forks.setProc (forks : state.Forks)
    (isProc : after.proc = Function.update state.proc pid proc)
    (alive : (state.proc pid).status = .alive) (status : proc.status = .alive)
    (place : ∀ child fd, proc.pc = .forking child fd →
      (state.proc pid).pc = .forking child fd) : after.Forks := by
  have here : after.proc pid = proc := by rw [isProc, Function.update_self]
  have others : ∀ other, other ≠ pid → after.proc other = state.proc other := by
    intro other distinct
    rw [isProc, Function.update_of_ne distinct]
  have before : ∀ other child fd, (after.proc other).pc = .forking child fd →
      (state.proc other).pc = .forking child fd := by
    intro other child fd isFork
    by_cases same : other = pid
    · subst same
      rw [here] at isFork
      exact place child fd isFork
    · rw [others other same] at isFork
      exact isFork
  constructor
  · intro other child fd isFork
    obtain ⟨embryo, empty⟩ := forks.child other child fd (before other child fd isFork)
    have distinct : child ≠ pid := by
      rintro rfl
      rw [alive] at embryo
      cases embryo
    rw [others child distinct]
    exact ⟨embryo, empty⟩
  · intro first second child fd fd' firstForks secondForks
    exact forks.unique first second child fd fd' (before first child fd firstForks)
      (before second child fd' secondForks)
  · intro other notAlive
    by_cases same : other = pid
    · subst same
      rw [here] at notAlive
      exact (notAlive status).elim
    · rw [others other same] at notAlive ⊢
      exact forks.quiet other notAlive
  · intro other unused
    by_cases same : other = pid
    · subst same
      rw [here, status] at unused
      cases unused
    · rw [others other same] at unused ⊢
      exact forks.unused other unused

/-- A step of one process that touches no open file that another one sets up. -/
theorem Inv.move (inv : state.Inv) (isProc : after.proc = Function.update state.proc pid proc)
    (refs : ∀ f, (after.file f).ref = tally Proc.files after.proc f)
    (free : ∀ f, (after.file f).ref = 0 → (after.file f).type = .FD_NONE)
    (touched : ∀ f, after.file f = state.file f ∨
      ∀ other, other ≠ pid → f ∉ (state.proc other).pc.fresh)
    (fresh : ∀ f ∈ proc.pc.fresh, (after.file f).ref = 1 ∧ (after.file f).type = .FD_NONE)
    (paired : ∀ f0 f1, proc.pc = .paired f0 f1 → f0 ≠ f1)
    (holders : ∀ pipe writable, after.holders pipe writable =
      ((after.pipe pipe).isOpen writable).toNat)
    (unmade : ∀ pipe, after.pipes ≤ pipe → ∀ writable, (after.pipe pipe).isOpen writable = false)
    (kfrees : ∀ pipe, (after.pipe pipe).kfrees = if pipe < after.pipes ∧
      (after.pipe pipe).isOpen false = false ∧ (after.pipe pipe).isOpen true = false then 1 else 0)
    (forks : after.Forks) (panic : after.panic = none) : after.Inv := by
  have here : after.proc pid = proc := by rw [isProc, Function.update_self]
  have others : ∀ other, other ≠ pid → after.proc other = state.proc other := by
    intro other distinct
    rw [isProc, Function.update_of_ne distinct]
  refine ⟨refs, free, ?_, ?_, holders, unmade, kfrees, forks, panic⟩
  · intro other f isFresh
    by_cases same : other = pid
    · subst same
      rw [here] at isFresh
      exact fresh f isFresh
    · rw [others other same] at isFresh
      have untouched : after.file f = state.file f := by
        rcases touched f with equal | notFresh
        · exact equal
        · exact (notFresh other same isFresh).elim
      rw [untouched]
      exact inv.fresh other f isFresh
  · intro other f0 f1 isPaired
    by_cases same : other = pid
    · subst same
      rw [here] at isPaired
      exact paired f0 f1 isPaired
    · rw [others other same] at isPaired
      exact inv.paired other f0 f1 isPaired

/-! ## Sums -/

omit [DecidableEq Pid] [Fintype Pid] in
theorem files_update (proc : Proc Pid) (fd : Fd) (value : Option FileId) (f : FileId) :
    ({ proc with ofile := Function.update proc.ofile fd value } : Proc Pid).files f +
        (proc.ofile fd).toList.count f =
      proc.files f + value.toList.count f := by
  have one : ∀ slot : Option FileId, (decide (slot = some f)).toNat = slot.toList.count f := by
    intro slot
    cases slot with
    | none => rfl
    | some g =>
        by_cases same : g = f
        · simp [same]
        · simp [same]
  have exchanged := countWhere_update (fun slot => decide (slot = some f)) proc.ofile fd value
  simp only [one] at exchanged
  simp only [Proc.files]
  omega

omit [DecidableEq Pid] in
theorem holders_same (types : ∀ f, (after.file f).type = (state.file f).type)
    (closes : ∀ pid, (after.proc pid).pipeclose = (state.proc pid).pipeclose) (pipe : Nat)
    (writable : Bool) : after.holders pipe writable = state.holders pipe writable := by
  have files : countWhere (fun file : File => decide (file.type = .FD_PIPE pipe writable))
      after.file =
        countWhere (fun file : File => decide (file.type = .FD_PIPE pipe writable)) state.file :=
    countWhere_congr fun f => by rw [types f]
  have procs : countWhere
      (fun proc : Proc Pid => decide (proc.pipeclose = some (pipe, writable))) after.proc =
        countWhere (fun proc : Proc Pid => decide (proc.pipeclose = some (pipe, writable)))
          state.proc :=
    countWhere_congr fun pid => by rw [closes pid]
  rw [holders, holders, files, procs]

omit [DecidableEq Pid] in
theorem holders_file {file : File} (isFile : after.file = Function.update state.file f file)
    (closes : ∀ pid, (after.proc pid).pipeclose = (state.proc pid).pipeclose) (pipe : Nat)
    (writable : Bool) : after.holders pipe writable +
        (decide ((state.file f).type = .FD_PIPE pipe writable)).toNat =
      state.holders pipe writable + (decide (file.type = .FD_PIPE pipe writable)).toNat := by
  have exchanged := countWhere_update
    (fun file : File => decide (file.type = .FD_PIPE pipe writable)) state.file f file
  have same : countWhere (fun proc : Proc Pid => decide (proc.pipeclose = some (pipe, writable)))
      after.proc = countWhere
        (fun proc : Proc Pid => decide (proc.pipeclose = some (pipe, writable))) state.proc :=
    countWhere_congr fun pid => by rw [closes pid]
  unfold holders
  rw [isFile, same]
  omega

theorem holders_proc (isProc : after.proc = Function.update state.proc pid proc)
    (types : ∀ f, (after.file f).type = (state.file f).type) (pipe : Nat) (writable : Bool) :
    after.holders pipe writable +
        (decide ((state.proc pid).pipeclose = some (pipe, writable))).toNat =
      state.holders pipe writable +
        (decide (proc.pipeclose = some (pipe, writable))).toNat := by
  have exchanged := countWhere_update
    (fun proc : Proc Pid => decide (proc.pipeclose = some (pipe, writable))) state.proc pid proc
  have same : countWhere (fun file : File => decide (file.type = .FD_PIPE pipe writable))
      after.file =
        countWhere (fun file : File => decide (file.type = .FD_PIPE pipe writable)) state.file :=
    countWhere_congr fun f => by rw [types f]
  unfold holders
  rw [isProc, same]
  omega

/-- A process that changes neither its references nor its call of `pipeclose`. -/
structure SameAccount (first second : Proc Pid) : Prop where
  files : ∀ f, first.files f = second.files f
  pipeclose : first.pipeclose = second.pipeclose

omit [Fintype Pid] in
theorem pipeclose_same (isProc : after.proc = Function.update state.proc pid proc)
    (same : proc.pipeclose = (state.proc pid).pipeclose) (other : Pid) :
    (after.proc other).pipeclose = (state.proc other).pipeclose := by
  rw [isProc]
  by_cases here : other = pid
  · subst here
    rw [Function.update_self, same]
  · rw [Function.update_of_ne here]

/-! ## Steps -/

/-- A step that leaves the table alone. -/
theorem Inv.quiet (inv : state.Inv) (same : SameAccount proc (state.proc pid))
    (fresh : ∀ f ∈ proc.pc.fresh, (state.file f).ref = 1 ∧ (state.file f).type = .FD_NONE)
    (paired : ∀ f0 f1, proc.pc = .paired f0 f1 → f0 ≠ f1)
    (forks : (state.setProc pid proc).Forks) : (state.setProc pid proc).Inv := by
  let after := state.setProc pid proc
  have isProc : after.proc = Function.update state.proc pid proc := rfl
  refine inv.move isProc ?_ inv.free (fun f => Or.inl rfl) fresh paired ?_ inv.unmade
    inv.kfrees forks inv.panic
  · intro f
    rw [isProc, tally_same same.files]
    exact inv.refs f
  · intro pipe writable
    have types : ∀ f, (after.file f).type = (state.file f).type := fun _ => rfl
    exact (holders_same types (pipeclose_same isProc same.pipeclose) pipe writable).trans
      (inv.holders pipe writable)

theorem Inv.goto (inv : state.Inv) {pc : Pc Pid} (alive : (state.proc pid).status = .alive)
    (files : pc.files = (state.proc pid).pc.files) (fresh : pc.fresh = [])
    (place : ∀ child fd, pc = .forking child fd →
      (state.proc pid).pc = .forking child fd) : (state.goto pid pc).Inv := by
  have isProc : (state.goto pid pc).proc =
    Function.update state.proc pid { state.proc pid with pc := pc } := rfl
  refine inv.quiet ⟨?_, rfl⟩ ?_ ?_ (inv.forks.setProc isProc alive alive place)
  · intro f
    simp only [Proc.files, files]
  · intro f isFresh
    rw [fresh] at isFresh
    cases isFresh
  · rintro f0 f1 rfl
    cases fresh

/-- `filealloc` finds an open file. -/
theorem Inv.filealloc (inv : state.Inv) {pc : Pc Pid} (alive : (state.proc pid).status = .alive)
    (free : (state.file f).ref = 0)
    (files : ∀ g, pc.files.count g = (state.proc pid).pc.files.count g + [f].count g)
    (fresh : ∀ g ∈ pc.fresh, g = f ∨ g ∈ (state.proc pid).pc.fresh)
    (paired : ∀ f0 f1, pc = .paired f0 f1 → f0 ≠ f1)
    (place : ∀ child fd, pc = .forking child fd →
      (state.proc pid).pc = .forking child fd) :
    ((state.setFile f { state.file f with ref := 1 }).goto pid pc).Inv := by
  let after := (state.setFile f { state.file f with ref := 1 }).goto pid pc
  have isProc : after.proc = Function.update state.proc pid { state.proc pid with pc := pc } := rfl
  have types : ∀ g, (after.file g).type = (state.file g).type := by
    intro g
    by_cases same : g = f
    · subst same
      simp [after, State.goto, State.setProc, State.setFile]
    · simp [after, State.goto, State.setProc, State.setFile, same]
  refine inv.move isProc ?_ ?_ ?_ ?_ paired ?_ inv.unmade inv.kfrees
    (inv.forks.setProc isProc alive alive place) inv.panic
  · intro g
    have gains : ∀ g, ({ state.proc pid with pc := pc } : Proc Pid).files g =
        (state.proc pid).files g + [f].count g := by
      intro g
      have := files g
      simp only [Proc.files]
      omega
    rw [isProc, tally_gain gains]
    by_cases same : g = f
    · subst same
      rw [Function.update_self, ← inv.refs, free]
      simp [State.goto, State.setProc, State.setFile]
    · rw [Function.update_of_ne same, ← inv.refs]
      simp [State.goto, State.setProc, State.setFile, same]
  · intro g isFree
    rw [types]
    by_cases same : g = f
    · subst same
      exact inv.free g free
    · apply inv.free g
      simpa [State.goto, State.setProc, State.setFile, same] using isFree
  · intro g
    by_cases same : g = f
    · subst same
      exact Or.inr (inv.not_fresh (Or.inl free))
    · left
      simp [State.goto, State.setProc, State.setFile, same]
  · intro g isFresh
    rw [types]
    by_cases same : g = f
    · subst same
      refine ⟨?_, inv.free g free⟩
      simp [State.goto, State.setProc, State.setFile]
    · have old := inv.fresh pid g ((fresh g isFresh).resolve_left same)
      simpa [State.goto, State.setProc, State.setFile, same] using old
  · intro pipe writable
    exact (holders_same types (pipeclose_same isProc rfl) pipe writable).trans
      (inv.holders pipe writable)

/-- `filedup`, for the process that gets the new reference. -/
theorem Inv.dup (inv : state.Inv) (used : 0 < (state.file f).ref)
    (notFresh : ∀ other, f ∉ (state.proc other).pc.fresh)
    (gains : ∀ g, proc.files g = (state.proc pid).files g + [f].count g)
    (pipeclose : proc.pipeclose = (state.proc pid).pipeclose) (pc : proc.pc = (state.proc pid).pc)
    (forks : ((state.filedup f).setProc pid proc).Forks) :
    ((state.filedup f).setProc pid proc).Inv := by
  have dups : state.filedup f =
      state.setFile f { state.file f with ref := (state.file f).ref + 1 } := by
    rw [State.filedup, if_neg (by omega)]
  rw [dups] at forks ⊢
  let after := (state.setFile f { state.file f with ref := (state.file f).ref + 1 }).setProc
    pid proc
  have isProc : after.proc = Function.update state.proc pid proc := rfl
  have isFile : after.file = Function.update state.file f
    { state.file f with ref := (state.file f).ref + 1 } := rfl
  have types : ∀ g, (after.file g).type = (state.file g).type := by
    intro g
    rw [isFile]
    by_cases same : g = f
    · subst same
      rw [Function.update_self]
    · rw [Function.update_of_ne same]
  refine inv.move isProc ?_ ?_ ?_ ?_ ?_ ?_ inv.unmade inv.kfrees forks inv.panic
  · intro g
    rw [isProc, tally_gain gains, isFile]
    by_cases same : g = f
    · subst same
      rw [Function.update_self, Function.update_self, ← inv.refs]
    · rw [Function.update_of_ne same, Function.update_of_ne same]
      exact inv.refs g
  · intro g isFree
    rw [types]
    rw [isFile] at isFree
    by_cases same : g = f
    · subst same
      rw [Function.update_self] at isFree
      cases isFree
    · rw [Function.update_of_ne same] at isFree
      exact inv.free g isFree
  · intro g
    by_cases same : g = f
    · subst same
      exact Or.inr fun other _ => notFresh other
    · left
      rw [isFile, Function.update_of_ne same]
  · intro g isFresh
    rw [pc] at isFresh
    have distinct : g ≠ f := by
      rintro rfl
      exact notFresh pid isFresh
    rw [isFile, Function.update_of_ne distinct]
    exact inv.fresh pid g isFresh
  · rw [pc]
    exact inv.paired pid
  · intro pipe writable
    exact (holders_same types (pipeclose_same isProc pipeclose) pipe writable).trans
      (inv.holders pipe writable)

/-- A process gives up a reference. -/
theorem Inv.release (inv : state.Inv) {file : File}
    (isRef : file.ref + 1 = (state.file f).ref)
    (isFree : file.ref = 0 → file.type = .FD_NONE)
    (loses : ∀ g, proc.files g + [f].count g = (state.proc pid).files g)
    (noneFresh : proc.pc.fresh = [])
    (holders : ∀ pipe writable, ((state.setFile f file).setProc pid proc).holders pipe writable =
      state.holders pipe writable)
    (forks : ((state.setFile f file).setProc pid proc).Forks) :
    ((state.setFile f file).setProc pid proc).Inv := by
  let after := (state.setFile f file).setProc pid proc
  have isProc : after.proc = Function.update state.proc pid proc := rfl
  have isFile : after.file = Function.update state.file f file := rfl
  have held : 0 < (state.proc pid).files f := by
    have := loses f
    rw [List.count_singleton_self] at this
    omega
  refine inv.move isProc ?_ ?_ ?_ ?_ ?_ ?_ inv.unmade inv.kfrees forks inv.panic
  · intro g
    rw [isProc, tally_lose loses, isFile]
    by_cases same : g = f
    · subst same
      rw [Function.update_self, Function.update_self, ← inv.refs]
      omega
    · rw [Function.update_of_ne same, Function.update_of_ne same]
      exact inv.refs g
  · intro g
    rw [isFile]
    by_cases same : g = f
    · subst same
      rw [Function.update_self]
      exact isFree
    · rw [Function.update_of_ne same]
      exact inv.free g
  · intro g
    by_cases same : g = f
    · subst same
      exact Or.inr (inv.not_fresh (Or.inr held))
    · left
      rw [isFile, Function.update_of_ne same]
  · intro g isFresh
    rw [noneFresh] at isFresh
    cases isFresh
  · intro f0 f1 isPaired
    rw [isPaired] at noneFresh
    cases noneFresh
  · intro pipe writable
    exact (holders pipe writable).trans (inv.holders pipe writable)

/-- The end of a pipe that is closed with the last reference to a file. -/
def closes : FileType → Option (Nat × Bool)
  | .FD_PIPE pipe writable => some (pipe, writable)
  | _ => none

/-- `fileclose` of a reference that the process gives up. -/
theorem Inv.fileclose (inv : state.Inv) (alive : (state.proc pid).status = .alive)
    (status : proc.status = .alive)
    (loses : ∀ g, proc.files g + [f].count g = (state.proc pid).files g)
    (noneFresh : proc.pc.fresh = []) (noClose : (state.proc pid).pipeclose = none)
    (same : proc.pipeclose = none)
    (place : ∀ child fd, proc.pc = .forking child fd →
      (state.proc pid).pc = .forking child fd) :
    (state.fileclose pid proc f).Inv := by
  have held : 0 < (state.proc pid).files f := by
    have := loses f
    rw [List.count_singleton_self] at this
    omega
  have used := lt_of_lt_of_le held (files_le inv pid f)
  unfold State.fileclose
  rw [if_neg (by omega)]
  split
  · next shared =>
      let file : File := { state.file f with ref := (state.file f).ref - 1 }
      let after := (state.setFile f file).setProc pid proc
      have isProc : after.proc = Function.update state.proc pid proc := rfl
      have types : ∀ g, (after.file g).type = (state.file g).type := by
        intro g
        have isFile : after.file = Function.update state.file f file := rfl
        rw [isFile]
        by_cases here : g = f
        · subst here
          rw [Function.update_self]
        · rw [Function.update_of_ne here]
      apply inv.release
      · simp only
        omega
      · simp only
        omega
      · exact loses
      · exact noneFresh
      · exact holders_same types (pipeclose_same isProc (same.trans noClose.symm))
      · exact inv.forks.setProc isProc alive status place
  · next last =>
      let closed : State Pid := state.setFile f ⟨0, .FD_NONE⟩
      let proc' : Proc Pid := { proc with pipeclose := closes (state.file f).type }
      have isProc : (closed.setProc pid proc').proc = Function.update state.proc pid proc' := rfl
      have pending : ∀ pipe writable, (decide (proc'.pipeclose = some (pipe, writable))) =
          decide ((state.file f).type = .FD_PIPE pipe writable) := by
        intro pipe writable
        cases isType : (state.file f).type with
        | FD_NONE => simp [proc', closes, isType]
        | FD_INODE => simp [proc', closes, isType]
        | FD_PIPE pipe' writable' => simp [proc', closes, isType]
      change (closed.setProc pid proc').Inv
      apply inv.release
      · simp only
        omega
      · simp
      · exact loses
      · exact noneFresh
      · intro pipe writable
        have isFile : closed.file = Function.update state.file f ⟨0, .FD_NONE⟩ := rfl
        have isProc' : (closed.setProc pid proc').proc =
          Function.update closed.proc pid proc' := rfl
        have filed := holders_file isFile (fun _ => rfl) pipe writable
        have moved := holders_proc isProc' (fun _ => rfl) pipe writable
        have old : (closed.proc pid).pipeclose = none := noClose
        rw [pending, old] at moved
        simp only [reduceCtorEq, decide_false, Bool.toNat_false, Nat.add_zero] at filed moved
        change (closed.setProc pid proc').holders pipe writable = state.holders pipe writable
        omega
      · exact inv.forks.setProc isProc alive status place

/-- `pipeclose`. -/
theorem Inv.closeEnd (inv : state.Inv) {pipe : Nat} {writable : Bool}
    (alive : (state.proc pid).status = .alive)
    (closes : (state.proc pid).pipeclose = some (pipe, writable)) :
    ((state.closeEnd pipe writable).setProc pid
      { state.proc pid with pipeclose := none }).Inv := by
  let proc : Proc Pid := { state.proc pid with pipeclose := none }
  let after := (state.closeEnd pipe writable).setProc pid proc
  have isProc : after.proc = Function.update state.proc pid proc := rfl
  have moved := holders_proc isProc (fun _ => rfl)
  have pending := inv.holders pipe writable
  have wasOpen : (state.pipe pipe).isOpen writable = true := by
    by_contra isClosed
    have here := moved pipe writable
    rw [closes] at here
    simp only [Bool.not_eq_true] at isClosed
    rw [isClosed] at pending
    simp [proc] at here pending
    omega
  have isMade : pipe < state.pipes := by
    by_contra unmade
    rw [inv.unmade pipe (by omega) writable] at wasOpen
    cases wasOpen
  have others : ∀ other, other ≠ pipe → after.pipe other = state.pipe other := by
    intro other distinct
    exact Function.update_of_ne distinct _ _
  have here : after.pipe pipe =
      ⟨Function.update (state.pipe pipe).isOpen writable false, (state.pipe pipe).kfrees +
        if Function.update (state.pipe pipe).isOpen writable false false = false ∧
          Function.update (state.pipe pipe).isOpen writable false true = false then 1 else 0⟩ :=
    Function.update_self _ _ _
  refine inv.move isProc ?_ inv.free (fun _ => Or.inl rfl) (inv.fresh pid) (inv.paired pid)
    ?_ ?_ ?_ (inv.forks.setProc isProc alive alive fun _ _ => id) inv.panic
  · intro f
    have same : ∀ f, proc.files f = (state.proc pid).files f := fun _ => rfl
    rw [isProc, tally_same same]
    exact inv.refs f
  · intro other side
    have exchanged := moved other side
    have before := inv.holders other side
    rw [closes] at exchanged
    by_cases samePipe : other = pipe
    · subst samePipe
      change after.holders other side = ((after.pipe other).isOpen side).toNat
      rw [here]
      by_cases sameSide : side = writable
      · subst sameSide
        rw [wasOpen] at before
        simp [proc] at exchanged before ⊢
        omega
      · simp [proc, sameSide, Ne.symm sameSide] at exchanged ⊢
        omega
    · change after.holders other side = ((after.pipe other).isOpen side).toNat
      rw [others other samePipe]
      simp [proc, Ne.symm samePipe] at exchanged
      omega
  · intro other unmade side
    have distinct : other ≠ pipe := by
      rintro rfl
      have : state.pipes ≤ other := unmade
      omega
    change (after.pipe other).isOpen side = false
    rw [others other distinct]
    exact inv.unmade other unmade side
  · intro other
    change (after.pipe other).kfrees = if other < state.pipes ∧
      (after.pipe other).isOpen false = false ∧ (after.pipe other).isOpen true = false then 1 else 0
    by_cases samePipe : other = pipe
    · subst samePipe
      have zero : (state.pipe other).kfrees = 0 := by
        rw [inv.kfrees, if_neg]
        rintro ⟨-, readClosed, writeClosed⟩
        cases writable
        · rw [readClosed] at wasOpen
          cases wasOpen
        · rw [writeClosed] at wasOpen
          cases wasOpen
      rw [here]
      simp [zero, isMade]
    · rw [others other samePipe]
      exact inv.kfrees other

/-! ## Setting up open files -/

omit [DecidableEq Pid] [Fintype Pid] in
theorem fdalloc_spec {proc' : Proc Pid} (found : fdalloc proc f = some proc') :
    (∀ g, proc'.files g = proc.files g + [f].count g) ∧ proc'.status = proc.status ∧
      proc'.pc = proc.pc ∧ proc'.pipeclose = proc.pipeclose := by
  obtain ⟨fd, isFree, rfl⟩ := Option.map_eq_some_iff.mp found
  have isNone : proc.ofile fd = none := by simpa using List.find?_some isFree
  refine ⟨?_, rfl, rfl, rfl⟩
  intro g
  have exchanged := files_update proc fd (some f) g
  rw [isNone] at exchanged
  exact exchanged

omit [DecidableEq Pid] [Fintype Pid] in
theorem files_setPc (proc : Proc Pid) (pc : Pc Pid) (g : FileId) :
    ({ proc with pc := pc } : Proc Pid).files g + proc.pc.files.count g =
      proc.files g + pc.files.count g := by
  simp only [Proc.files]
  omega

/-- A process gives an open file that it sets up its type. -/
theorem Inv.openFile (inv : state.Inv) (alive : (state.proc pid).status = .alive)
    (here : (state.proc pid).pc = .opened f) : (state.openFile pid f).Inv := by
  obtain ⟨one, isNone⟩ := inv.fresh pid f (by simp [here, Pc.fresh])
  have held : 0 < (state.proc pid).files f := by
    simp [Proc.files, here, Pc.files]
  unfold State.openFile
  cases found : fdalloc (state.proc pid) f with
  | none =>
      apply inv.goto alive
      · rw [here]
        rfl
      · rfl
      · intro child fd isFork
        cases isFork
  | some proc =>
      obtain ⟨gains, status, pc, pipeclose⟩ := fdalloc_spec found
      let after := (state.setFile f { state.file f with type := .FD_INODE }).setProc pid
        { proc with pc := .idle }
      have isProc : after.proc = Function.update state.proc pid { proc with pc := .idle } := rfl
      have isFile : after.file =
        Function.update state.file f { state.file f with type := .FD_INODE } := rfl
      have others : ∀ g, g ≠ f → after.file g = state.file g := by
        intro g distinct
        rw [isFile, Function.update_of_ne distinct]
      have sameRef : ∀ g, (after.file g).ref = (state.file g).ref := by
        intro g
        by_cases same : g = f
        · subst same
          rw [isFile, Function.update_self]
        · rw [others g same]
      have sameFiles : ∀ g, ({ proc with pc := .idle } : Proc Pid).files g =
          (state.proc pid).files g := by
        intro g
        have moved := files_setPc proc .idle g
        rw [pc, here, gains] at moved
        simp only [Pc.files, List.count_nil] at moved
        omega
      refine inv.move isProc ?_ ?_ ?_ (by simp [Pc.fresh]) (by simp) ?_ inv.unmade inv.kfrees
        (inv.forks.setProc isProc alive (status.trans alive) (by simp)) inv.panic
      · intro g
        rw [isProc, tally_same sameFiles]
        exact (sameRef g).trans (inv.refs g)
      · intro g isFree
        have wasFree : (state.file g).ref = 0 := (sameRef g).symm.trans isFree
        have distinct : g ≠ f := by
          rintro rfl
          omega
        change (after.file g).type = .FD_NONE
        rw [others g distinct]
        exact inv.free g wasFree
      · intro g
        by_cases same : g = f
        · subst same
          exact Or.inr (inv.not_fresh (Or.inr held))
        · exact Or.inl (others g same)
      · intro pipe writable
        have exchanged := holders_file isFile (pipeclose_same isProc pipeclose) pipe writable
        rw [isNone] at exchanged
        simp only [reduceCtorEq, decide_false, Bool.toNat_false, Nat.add_zero] at exchanged
        exact exchanged.trans (inv.holders pipe writable)

/-- `pipealloc` makes the two open files the ends of a new pipe. -/
theorem Inv.makePipe (inv : state.Inv) {f0 f1 : FileId}
    (alive : (state.proc pid).status = .alive) (here : (state.proc pid).pc = .paired f0 f1)
    (status : proc.status = .alive) (same : SameAccount proc (state.proc pid))
    (noneFresh : proc.pc.fresh = [])
    (place : ∀ child fd, proc.pc = .forking child fd →
      (state.proc pid).pc = .forking child fd) :
    ((state.makePipe f0 f1).setProc pid proc).Inv := by
  have distinct := inv.paired pid f0 f1 here
  obtain ⟨one0, none0⟩ := inv.fresh pid f0 (by simp [here, Pc.fresh])
  obtain ⟨one1, none1⟩ := inv.fresh pid f1 (by simp [here, Pc.fresh])
  let first : State Pid :=
    state.setFile f0 { state.file f0 with type := .FD_PIPE state.pipes false }
  let second : State Pid :=
    first.setFile f1 { state.file f1 with type := .FD_PIPE state.pipes true }
  let after : State Pid := (state.makePipe f0 f1).setProc pid proc
  have isProc : after.proc = Function.update state.proc pid proc := rfl
  have sameRef : ∀ g, (after.file g).ref = (state.file g).ref := by
    intro g
    change (Function.update (Function.update state.file f0 _) f1 _ g).ref = _
    by_cases is1 : g = f1
    · subst is1
      rw [Function.update_self]
    · rw [Function.update_of_ne is1]
      by_cases is0 : g = f0
      · subst is0
        rw [Function.update_self]
      · rw [Function.update_of_ne is0]
  have others : ∀ g, g ≠ f0 → g ≠ f1 → after.file g = state.file g := by
    intro g not0 not1
    change Function.update (Function.update state.file f0 _) f1 _ g = _
    rw [Function.update_of_ne not1, Function.update_of_ne not0]
  have touched : ∀ g, after.file g = state.file g ∨
      ∀ other, other ≠ pid → g ∉ (state.proc other).pc.fresh := by
    intro g
    by_cases is0 : g = f0
    · subst is0
      exact Or.inr (inv.not_fresh (Or.inr (by simp [Proc.files, here, Pc.files])))
    · by_cases is1 : g = f1
      · subst is1
        exact Or.inr (inv.not_fresh (Or.inr (by simp [Proc.files, here, Pc.files])))
      · exact Or.inl (others g is0 is1)
  have counts : ∀ pipe writable, after.holders pipe writable = state.holders pipe writable +
      (decide (pipe = state.pipes)).toNat := by
    intro pipe writable
    have isFirst : first.file = Function.update state.file f0
      { state.file f0 with type := .FD_PIPE state.pipes false } := rfl
    have isSecond : second.file = Function.update first.file f1
      { state.file f1 with type := .FD_PIPE state.pipes true } := rfl
    have first1 : first.file f1 = state.file f1 := by
      rw [isFirst, Function.update_of_ne (Ne.symm distinct)]
    have filed0 := holders_file isFirst (fun _ => rfl) pipe writable
    have filed1 := holders_file isSecond (fun _ => rfl) pipe writable
    have moved : after.holders pipe writable = second.holders pipe writable := by
      have types : ∀ g, (after.file g).type = (second.file g).type := fun _ => rfl
      exact holders_same types (pipeclose_same isProc same.pipeclose) pipe writable
    rw [none0] at filed0
    rw [first1, none1] at filed1
    rw [moved]
    by_cases isNew : pipe = state.pipes
    · subst isNew
      cases writable <;> simp at filed0 filed1 ⊢ <;> omega
    · have reversed := Ne.symm isNew
      simp [isNew, reversed] at filed0 filed1 ⊢
      omega
  have oldPipe : ∀ pipe, pipe ≠ state.pipes → after.pipe pipe = state.pipe pipe := by
    intro pipe isOld
    exact Function.update_of_ne isOld _ _
  have newPipe : after.pipe state.pipes = ⟨fun _ => true, 0⟩ := Function.update_self _ _ _
  refine inv.move isProc ?_ ?_ touched ?_ ?_ ?_ ?_ ?_
    (inv.forks.setProc isProc alive status place) inv.panic
  · intro g
    rw [isProc, tally_same same.files]
    exact (sameRef g).trans (inv.refs g)
  · intro g isFree
    have wasFree : (state.file g).ref = 0 := (sameRef g).symm.trans isFree
    have not0 : g ≠ f0 := by
      rintro rfl
      omega
    have not1 : g ≠ f1 := by
      rintro rfl
      omega
    change (after.file g).type = .FD_NONE
    rw [others g not0 not1]
    exact inv.free g wasFree
  · rw [noneFresh]
    intro g member
    cases member
  · intro g0 g1 isPaired
    rw [isPaired] at noneFresh
    cases noneFresh
  · intro pipe writable
    change after.holders pipe writable = ((after.pipe pipe).isOpen writable).toNat
    rw [counts, inv.holders]
    by_cases isNew : pipe = state.pipes
    · subst isNew
      rw [newPipe, inv.unmade state.pipes le_rfl]
      simp
    · rw [oldPipe pipe isNew]
      simp [isNew]
  · intro pipe unmade writable
    have bound : state.pipes + 1 ≤ pipe := unmade
    change (after.pipe pipe).isOpen writable = false
    rw [oldPipe pipe (by omega)]
    exact inv.unmade pipe (by omega) writable
  · intro pipe
    change (after.pipe pipe).kfrees = if pipe < state.pipes + 1 ∧
      (after.pipe pipe).isOpen false = false ∧ (after.pipe pipe).isOpen true = false then 1 else 0
    by_cases isNew : pipe = state.pipes
    · subst isNew
      rw [newPipe]
      simp
    · have bound : pipe < state.pipes + 1 ↔ pipe < state.pipes := by omega
      rw [oldPipe pipe isNew, inv.kfrees]
      simp only [bound]

theorem Inv.pipeFiles (inv : state.Inv) {f0 f1 : FileId} (memory : Bool)
    (alive : (state.proc pid).status = .alive) (here : (state.proc pid).pc = .paired f0 f1) :
    (state.pipeFiles pid f0 f1 memory).Inv := by
  have closes : (Pc.closing [f0, f1] : Pc Pid).files = (state.proc pid).pc.files := by
    rw [here]
    rfl
  unfold State.pipeFiles
  split
  · exact inv.goto alive closes rfl (by simp)
  · cases found : (fdalloc (state.proc pid) f0).bind fun proc => fdalloc proc f1 with
    | none =>
        refine inv.makePipe alive here (by exact alive) ⟨?_, by rfl⟩ (by rfl) (by simp)
        intro g
        simp only [Proc.files, closes]
        rfl
    | some proc =>
        obtain ⟨middle, found0, found1⟩ := Option.bind_eq_some_iff.mp found
        obtain ⟨gains0, status0, pc0, pipeclose0⟩ := fdalloc_spec found0
        obtain ⟨gains1, status1, pc1, pipeclose1⟩ := fdalloc_spec found1
        refine inv.makePipe alive here (by exact status1.trans (status0.trans alive))
          ⟨?_, by exact pipeclose1.trans pipeclose0⟩ (by rfl) (by simp)
        intro g
        have moved := files_setPc proc .idle g
        rw [pc1, pc0, here, gains1, gains0] at moved
        simp only [Pc.files, List.count_cons, List.count_nil] at moved
        omega

/-! ## Forks -/

omit [Fintype Pid] in
/-- A process that is not alive changes without starting a call. -/
theorem Forks.setChild (forks : state.Forks)
    (isProc : after.proc = Function.update state.proc pid proc)
    (pc : proc.pc = .idle) (pipeclose : proc.pipeclose = none)
    (unused : proc.status = .unused → ∀ fd, proc.ofile fd = none)
    (mine : ∀ parent fd, (state.proc parent).pc = .forking pid fd → parent ≠ pid →
      proc.status = .embryo ∧ ∀ slot : Fd, fd ≤ slot.val → proc.ofile slot = none) :
    after.Forks := by
  have here : after.proc pid = proc := by rw [isProc, Function.update_self]
  have others : ∀ other, other ≠ pid → after.proc other = state.proc other := by
    intro other distinct
    rw [isProc, Function.update_of_ne distinct]
  have away : ∀ other child fd, (after.proc other).pc = .forking child fd → other ≠ pid := by
    rintro other child fd isFork rfl
    rw [here, pc] at isFork
    cases isFork
  constructor
  · intro other child fd isFork
    have distinct := away other child fd isFork
    rw [others other distinct] at isFork
    by_cases same : child = pid
    · subst same
      rw [here]
      exact mine other fd isFork distinct
    · rw [others child same]
      exact forks.child other child fd isFork
  · intro first second child fd fd' firstForks secondForks
    rw [others first (away first child fd firstForks)] at firstForks
    rw [others second (away second child fd' secondForks)] at secondForks
    exact forks.unique first second child fd fd' firstForks secondForks
  · intro other notAlive
    by_cases same : other = pid
    · subst same
      rw [here]
      exact ⟨pc, pipeclose⟩
    · rw [others other same] at notAlive ⊢
      exact forks.quiet other notAlive
  · intro other isUnused
    by_cases same : other = pid
    · subst same
      rw [here] at isUnused ⊢
      exact unused isUnused
    · rw [others other same] at isUnused ⊢
      exact forks.unused other isUnused

omit [Fintype Pid] in
/-- A process starts `fork`, or goes on with it. -/
theorem Forks.fork (forks : state.Forks) {child : Pid} {fd : Nat}
    (alive : (state.proc pid).status = .alive) (embryo : (state.proc child).status = .embryo)
    (empty : ∀ slot : Fd, fd ≤ slot.val → (state.proc child).ofile slot = none)
    (only : ∀ other fd', (state.proc other).pc = .forking child fd' → other = pid) :
    (state.goto pid (.forking child fd)).Forks := by
  let after := state.goto pid (.forking child fd)
  have here : after.proc pid = { state.proc pid with pc := .forking child fd } :=
    Function.update_self _ _ _
  have others : ∀ other, other ≠ pid → after.proc other = state.proc other := by
    intro other distinct
    exact Function.update_of_ne distinct _ _
  have notParent : ∀ other, (state.proc other).status = .embryo → other ≠ pid := by
    rintro other isEmbryo rfl
    rw [alive] at isEmbryo
    cases isEmbryo
  change after.Forks
  constructor
  · intro other child' fd' isFork
    by_cases same : other = pid
    · subst same
      rw [here] at isFork
      cases isFork
      rw [others child (notParent child embryo)]
      exact ⟨embryo, empty⟩
    · rw [others other same] at isFork
      obtain ⟨isEmbryo, rest⟩ := forks.child other child' fd' isFork
      rw [others child' (notParent child' isEmbryo)]
      exact ⟨isEmbryo, rest⟩
  · intro first second child' fd1 fd2 firstForks secondForks
    by_cases isFirst : first = pid
    · subst isFirst
      rw [here] at firstForks
      cases firstForks
      by_cases isSecond : second = first
      · exact isSecond.symm
      · rw [others second isSecond] at secondForks
        exact (only second fd2 secondForks).symm
    · rw [others first isFirst] at firstForks
      by_cases isSecond : second = pid
      · subst isSecond
        rw [here] at secondForks
        cases secondForks
        exact only first fd1 firstForks
      · rw [others second isSecond] at secondForks
        exact forks.unique first second child' fd1 fd2 firstForks secondForks
  · intro other notAlive
    by_cases same : other = pid
    · subst same
      rw [here] at notAlive
      exact (notAlive alive).elim
    · rw [others other same] at notAlive ⊢
      exact forks.quiet other notAlive
  · intro other isUnused
    by_cases same : other = pid
    · subst same
      rw [here] at isUnused
      simp only [alive] at isUnused
      cases isUnused
    · rw [others other same] at isUnused ⊢
      exact forks.unused other isUnused

/-- The place of `fork` moves. -/
theorem Inv.gotoFork (inv : state.Inv) {child : Pid} {fd : Nat}
    (alive : (state.proc pid).status = .alive)
    (noFiles : (state.proc pid).pc.files = [])
    (embryo : (state.proc child).status = .embryo)
    (empty : ∀ slot : Fd, fd ≤ slot.val → (state.proc child).ofile slot = none)
    (only : ∀ other fd', (state.proc other).pc = .forking child fd' → other = pid) :
    (state.goto pid (.forking child fd)).Inv := by
  refine inv.quiet ⟨?_, by rfl⟩ ?_ ?_ (inv.forks.fork alive embryo empty only)
  · intro f
    simp only [Proc.files, noFiles]
    rfl
  · intro f isFresh
    cases isFresh
  · intro f0 f1 isPaired
    cases isPaired

theorem Inv.forkStart (inv : state.Inv) {child : Pid} (alive : (state.proc pid).status = .alive)
    (idle : (state.proc pid).pc = .idle) (unused : (state.proc child).status = .unused) :
    ((state.setProc child { state.proc child with status := .embryo }).setProc pid
      { state.proc pid with pc := .forking child 0 }).Inv := by
  have distinct : pid ≠ child := by
    rintro rfl
    rw [alive] at unused
    cases unused
  obtain ⟨childIdle, noClose⟩ := inv.forks.quiet child (by simp [unused])
  let reserved := state.setProc child { state.proc child with status := .embryo }
  have nobody : ∀ other fd, (state.proc other).pc ≠ .forking child fd := by
    intro other fd isFork
    have embryo := (inv.forks.child other child fd isFork).1
    rw [unused] at embryo
    cases embryo
  have reservedInv : reserved.Inv := by
    have isProc : reserved.proc =
      Function.update state.proc child { state.proc child with status := .embryo } := rfl
    refine inv.quiet ⟨fun _ => by rfl, by rfl⟩ (inv.fresh child) (inv.paired child) ?_
    refine inv.forks.setChild isProc childIdle noClose ?_ ?_
    · intro impossible
      cases impossible
    · intro parent fd isFork _
      exact (nobody parent fd isFork).elim
  have same : reserved.proc pid = state.proc pid := Function.update_of_ne distinct _ _
  have here : reserved.proc child = { state.proc child with status := .embryo } :=
    Function.update_self _ _ _
  have started : (reserved.goto pid (.forking child 0)).Inv := by
    apply reservedInv.gotoFork
    · rw [same]
      exact alive
    · rw [same, idle]
      rfl
    · rw [here]
    · intro slot _
      rw [here]
      exact inv.forks.unused child unused slot
    · intro other fd isFork
      have isOther : (reserved.proc other).pc = (state.proc other).pc := by
        by_cases isChild : other = child
        · subst isChild
          rw [here]
        · exact congrArg Proc.pc (Function.update_of_ne isChild _ _)
      rw [isOther] at isFork
      exact (nobody other fd isFork).elim
  rw [State.goto, same] at started
  exact started

omit [DecidableEq Pid] in
/-- What holds of a `fork` in progress. -/
theorem Inv.forking (inv : state.Inv) {child : Pid} {fd : Nat}
    (here : (state.proc pid).pc = .forking child fd) :
    (state.proc pid).status = .alive ∧ (state.proc child).status = .embryo ∧ pid ≠ child ∧
      (state.proc child).pc = .idle ∧ (state.proc child).pipeclose = none ∧
      ∀ other fd', (state.proc other).pc = .forking child fd' → other = pid := by
  have alive : (state.proc pid).status = .alive := by
    by_contra notAlive
    rw [(inv.forks.quiet pid notAlive).1] at here
    cases here
  have embryo := (inv.forks.child pid child fd here).1
  obtain ⟨idle, noClose⟩ := inv.forks.quiet child (by simp [embryo])
  refine ⟨alive, embryo, ?_, idle, noClose, ?_⟩
  · rintro rfl
    rw [alive] at embryo
    cases embryo
  · intro other fd' isFork
    exact inv.forks.unique other pid child fd' fd isFork here

/-- `fork` shares an open file with the child. -/
theorem Inv.forkCopy (inv : state.Inv) {child : Pid} {slot : Fd}
    (here : (state.proc pid).pc = .forking child (slot.val + 1))
    (holds : 0 < (state.proc pid).files f) (isNone : (state.proc child).ofile slot = none) :
    ((state.filedup f).setProc child { state.proc child with
      ofile := Function.update (state.proc child).ofile slot (some f) }).Inv := by
  obtain ⟨-, embryo, -, idle, noClose, only⟩ := inv.forking here
  have used : 0 < (state.file f).ref := lt_of_lt_of_le holds (files_le inv pid f)
  have notFresh : ∀ other, f ∉ (state.proc other).pc.fresh := by
    intro other
    by_cases same : other = pid
    · subst same
      rw [here]
      exact List.not_mem_nil
    · exact inv.not_fresh (Or.inr holds) other same
  let copy : Proc Pid := { state.proc child with
    ofile := Function.update (state.proc child).ofile slot (some f) }
  have isProc : ((state.filedup f).setProc child copy).proc =
      Function.update state.proc child copy := by
    unfold State.filedup
    split <;> rfl
  refine inv.dup used notFresh ?_ (by rfl) (by rfl) ?_
  · intro g
    have exchanged := files_update (state.proc child) slot (some f) g
    rw [isNone] at exchanged
    exact exchanged
  · refine inv.forks.setChild isProc idle noClose ?_ ?_
    · intro impossible
      rw [show copy.status = .embryo from embryo] at impossible
      cases impossible
    · intro parent fd isFork _
      obtain rfl := only parent fd isFork
      rw [here] at isFork
      cases isFork
      refine ⟨embryo, ?_⟩
      intro later bound
      have notHere : later ≠ slot := by
        rintro rfl
        omega
      change Function.update (state.proc child).ofile slot (some f) later = none
      rw [Function.update_of_ne notHere]
      exact (inv.forks.child parent child _ here).2 later bound

/-- `fork` lets the child run. -/
theorem Inv.forkEnd (inv : state.Inv) {child : Pid}
    (embryo : (state.proc child).status = .embryo)
    (nobody : ∀ other fd, (state.proc other).pc ≠ .forking child fd) :
    (state.setProc child { state.proc child with status := .alive }).Inv := by
  obtain ⟨idle, noClose⟩ := inv.forks.quiet child (by simp [embryo])
  have isProc : (state.setProc child { state.proc child with status := .alive }).proc =
    Function.update state.proc child { state.proc child with status := .alive } := rfl
  refine inv.quiet ⟨fun _ => by rfl, by rfl⟩ (inv.fresh child) (inv.paired child) ?_
  refine inv.forks.setChild isProc idle noClose ?_ ?_
  · intro impossible
    cases impossible
  · intro parent fd isFork _
    exact (nobody parent fd isFork).elim

theorem Inv.forkStep (inv : state.Inv) {child : Pid} {fd : Nat}
    (here : (state.proc pid).pc = .forking child fd) : (state.forkStep pid child fd).Inv := by
  obtain ⟨alive, embryo, distinct, idle, noClose, only⟩ := inv.forking here
  have empty := (inv.forks.child pid child fd here).2
  have noFiles : (state.proc pid).pc.files = [] := by
    rw [here]
    rfl
  have goto_here : ∀ pc, (state.goto pid pc).proc pid = { state.proc pid with pc := pc } :=
    fun _ => Function.update_self _ _ _
  have goto_other : ∀ pc other, other ≠ pid →
      (state.goto pid pc).proc other = state.proc other :=
    fun _ _ away => Function.update_of_ne away _ _
  have advanced : (state.goto pid (.forking child (fd + 1))).Inv := by
    apply inv.gotoFork alive noFiles embryo _ only
    intro slot bound
    exact empty slot (by omega)
  unfold State.forkStep
  split
  · next bound =>
      cases descriptor : (state.proc pid).ofile ⟨fd, bound⟩ with
      | none => exact advanced
      | some f =>
          have holds : 0 < (state.proc pid).files f := by
            have named : 0 < countWhere (fun slot => decide (slot = some f))
                (state.proc pid).ofile :=
              countWhere_pos (⟨fd, bound⟩ : Fd) (by simpa using descriptor)
            simp only [Proc.files]
            omega
          have used : ¬ (state.file f).ref < 1 := by
            have := files_le inv pid f
            omega
          have sameChild := goto_other (.forking child (fd + 1)) child (Ne.symm distinct)
          have copied : (((state.goto pid (.forking child (fd + 1))).filedup f).setProc child
              { state.proc child with
                ofile := Function.update (state.proc child).ofile ⟨fd, bound⟩ (some f) }).Inv := by
            rw [← sameChild]
            apply advanced.forkCopy
            · rw [goto_here]
            · have moved := files_setPc (state.proc pid) (.forking child (fd + 1)) f
              rw [noFiles] at moved
              rw [goto_here]
              exact lt_of_lt_of_eq holds moved.symm
            · rw [sameChild]
              exact empty ⟨fd, bound⟩ le_rfl
          have swapped : ((state.goto pid (.forking child (fd + 1))).filedup f).setProc child
              { state.proc child with
                ofile := Function.update (state.proc child).ofile ⟨fd, bound⟩ (some f) } =
              ((state.filedup f).setProc child { state.proc child with
                ofile := Function.update (state.proc child).ofile ⟨fd, bound⟩ (some f) }).setProc
                  pid { state.proc pid with pc := .forking child (fd + 1) } := by
            rw [State.filedup, State.filedup, if_neg used, if_neg (by exact used)]
            simp only [State.goto, State.setProc, State.setFile]
            rw [Function.update_comm distinct]
          rw [swapped] at copied
          exact copied
  · next ended =>
      have rested : (state.goto pid .idle).Inv := inv.goto alive noFiles.symm rfl (by simp)
      have sameChild := goto_other .idle child (Ne.symm distinct)
      have started : ((state.goto pid .idle).setProc child
          { state.proc child with status := .alive }).Inv := by
        rw [← sameChild]
        apply rested.forkEnd
        · rw [sameChild]
          exact embryo
        · intro other fd' isFork
          by_cases same : other = pid
          · subst same
            rw [goto_here] at isFork
            cases isFork
          · rw [goto_other .idle other same] at isFork
            exact same (only other fd' isFork)
      have swapped : (state.goto pid .idle).setProc child
          { state.proc child with status := .alive } =
          (state.setProc child { state.proc child with status := .alive }).setProc pid
            { state.proc pid with pc := .idle } := by
        simp only [State.goto, State.setProc]
        rw [Function.update_comm distinct]
      rw [swapped] at started
      exact started

/-! ## Calls -/

theorem Inv.allocates (inv : state.Inv) (alive : (state.proc pid).status = .alive)
    {found : FileId → Pc Pid} {full : Pc Pid} (old : List FileId)
    (files : (state.proc pid).pc.files = old) (fresh : (state.proc pid).pc.fresh = old)
    (foundFiles : ∀ f, (found f).files = old ++ [f])
    (foundFresh : ∀ f, (found f).fresh = old ++ [f])
    (paired : ∀ f f0 f1, found f = .paired f0 f1 → old = [f0] ∧ f = f1)
    (fullFiles : full.files = old) (fullFresh : full.fresh = [])
    (place : ∀ f child fd, found f ≠ .forking child fd ∧ full ≠ .forking child fd) :
    (state.filealloc pid found full).Inv := by
  unfold State.filealloc
  cases isFound : state.unusedFile with
  | none =>
      apply inv.goto alive (fullFiles.trans files.symm) fullFresh
      intro child fd isFork
      obtain ⟨f⟩ : Nonempty FileId := ⟨⟨0, by decide⟩⟩
      exact ((place f child fd).2 isFork).elim
  | some f =>
      have free : (state.file f).ref = 0 := by simpa using List.find?_some isFound
      apply inv.filealloc alive free
      · intro g
        rw [foundFiles, files, List.count_append]
      · intro g isFresh
        rw [foundFresh] at isFresh
        rw [fresh]
        rcases List.mem_append.mp isFresh with before | new
        · exact Or.inr before
        · exact Or.inl (List.mem_singleton.mp new)
      · intro f0 f1 isPaired
        obtain ⟨isOld, rfl⟩ := paired f f0 f1 isPaired
        rintro rfl
        have one := (inv.fresh pid f0 (by rw [fresh, isOld]; simp)).1
        omega
      · intro child fd isFork
        exact ((place f child fd).1 isFork).elim

theorem Inv.exitStep (inv : state.Inv) (alive : (state.proc pid).status = .alive)
    (here : (state.proc pid).pc = .exiting) (noClose : (state.proc pid).pipeclose = none) :
    (state.exitStep pid).Inv := by
  unfold State.exitStep
  simp only
  split
  · next fd found =>
      split
      · next f descriptor =>
          apply inv.fileclose alive
          · exact alive
          · intro g
            have exchanged := files_update (state.proc pid) fd none g
            rw [descriptor] at exchanged
            exact exchanged
          · simp only [here]
            rfl
          · exact noClose
          · exact noClose
          · intro child fd' isFork
            exact isFork
      · exact inv
  · next empty =>
      have closed : ∀ fd, (state.proc pid).ofile fd = none := by
        intro fd
        have := List.find?_eq_none.mp empty fd (List.mem_finRange fd)
        simpa using this
      have isProc : (state.setProc pid
          { state.proc pid with status := .unused, pc := .idle }).proc =
        Function.update state.proc pid
          { state.proc pid with status := .unused, pc := .idle } := rfl
      refine inv.quiet ⟨?_, by rfl⟩ ?_ ?_ ?_
      · intro g
        have moved := files_setPc (state.proc pid) .idle g
        rw [here] at moved
        exact moved
      · intro g isFresh
        cases isFresh
      · intro f0 f1 isPaired
        cases isPaired
      · refine inv.forks.setChild isProc rfl noClose (fun _ => closed) ?_
        intro parent fd isFork away
        have embryo := (inv.forks.child parent pid fd isFork).1
        rw [alive] at embryo
        cases embryo

theorem Inv.callStep (inv : state.Inv) (alive : (state.proc pid).status = .alive)
    (idle : (state.proc pid).pc = .idle) (noClose : (state.proc pid).pipeclose = none)
    (syscall : Syscall) : (state.callStep pid syscall).Inv := by
  have noFiles : (state.proc pid).pc.files = [] := by
    rw [idle]
    rfl
  cases syscall with
  | «open» => exact inv.goto alive noFiles.symm rfl (by simp)
  | pipe => exact inv.goto alive noFiles.symm rfl (by simp)
  | exit => exact inv.goto alive noFiles.symm rfl (by simp)
  | dup fd =>
      simp only [State.callStep]
      split
      · exact inv
      · next f descriptor =>
          split
          · exact inv
          · next proc found =>
              obtain ⟨gains, status, pc, pipeclose⟩ := fdalloc_spec found
              have holds : 0 < (state.proc pid).files f := by
                have named : 0 < countWhere (fun slot => decide (slot = some f))
                    (state.proc pid).ofile :=
                  countWhere_pos fd (by simpa using descriptor)
                simp only [Proc.files]
                omega
              have isProc : ((state.filedup f).setProc pid proc).proc =
                  Function.update state.proc pid proc := by
                unfold State.filedup
                split <;> rfl
              apply inv.dup (lt_of_lt_of_le holds (files_le inv pid f)) _ gains pipeclose pc
              · apply inv.forks.setProc isProc alive (status.trans alive)
                rw [pc]
                exact fun _ _ => id
              · intro other
                by_cases same : other = pid
                · subst same
                  rw [idle]
                  exact List.not_mem_nil
                · exact inv.not_fresh (Or.inr holds) other same
  | close fd =>
      simp only [State.callStep]
      split
      · exact inv
      · next f descriptor =>
          let closing : Proc Pid := { state.proc pid with
            ofile := Function.update (state.proc pid).ofile fd none, pc := .closing [f] }
          have isProc : (state.setProc pid closing).proc =
            Function.update state.proc pid closing := rfl
          refine inv.quiet ⟨?_, by rfl⟩ ?_ ?_ ?_
          · intro g
            have exchanged := files_update (state.proc pid) fd none g
            have moved := files_setPc { state.proc pid with
              ofile := Function.update (state.proc pid).ofile fd none } (.closing [f]) g
            rw [descriptor] at exchanged
            simp only [noFiles] at moved
            exact moved.trans exchanged
          · intro g isFresh
            cases isFresh
          · intro f0 f1 isPaired
            cases isPaired
          · apply inv.forks.setProc isProc alive alive
            intro child fd' isFork
            cases isFork

theorem Inv.runStep (inv : state.Inv) {memory : Bool}
    (taken : state.runStep pid memory = some after) : after.Inv := by
  have aliveOf : ((state.proc pid).pc ≠ .idle ∨ (state.proc pid).pipeclose ≠ none) →
      (state.proc pid).status = .alive := by
    intro busy
    by_contra notAlive
    obtain ⟨idle, noClose⟩ := inv.forks.quiet pid notAlive
    exact busy.elim (· idle) (· noClose)
  unfold State.runStep at taken
  split at taken
  · next pipe writable closes =>
      cases taken
      exact inv.closeEnd (aliveOf (Or.inr (by simp [closes]))) closes
  · next noClose =>
      split at taken
      · cases taken
      · next here =>
          cases taken
          have alive := aliveOf (Or.inl (by simp [here]))
          apply inv.allocates alive []
          · rw [here]
            rfl
          · rw [here]
            rfl
          · exact fun _ => rfl
          · exact fun _ => rfl
          · intro f f0 f1 isPaired
            cases isPaired
          · rfl
          · rfl
          · simp
      · next f here =>
          cases taken
          exact inv.openFile (aliveOf (Or.inl (by simp [here]))) here
      · next here =>
          cases taken
          have alive := aliveOf (Or.inl (by simp [here]))
          apply inv.allocates alive []
          · rw [here]
            rfl
          · rw [here]
            rfl
          · exact fun _ => rfl
          · exact fun _ => rfl
          · intro f f0 f1 isPaired
            cases isPaired
          · rfl
          · rfl
          · simp
      · next f0 here =>
          cases taken
          have alive := aliveOf (Or.inl (by simp [here]))
          apply inv.allocates alive [f0]
          · rw [here]
            rfl
          · rw [here]
            rfl
          · exact fun _ => rfl
          · exact fun _ => rfl
          · intro f g0 g1 isPaired
            cases isPaired
            exact ⟨rfl, rfl⟩
          · rfl
          · rfl
          · simp
      · next f0 f1 here =>
          cases taken
          exact inv.pipeFiles memory (aliveOf (Or.inl (by simp [here]))) here
      · next here =>
          cases taken
          apply inv.goto (aliveOf (Or.inl (by simp [here]))) _ rfl (by simp)
          rw [here]
          rfl
      · next f rest here =>
          cases taken
          have alive := aliveOf (Or.inl (by simp [here]))
          refine inv.fileclose alive (by exact alive) ?_ (by rfl) noClose (by exact noClose)
            (by simp)
          intro g
          have moved := files_setPc (state.proc pid) (.closing rest) g
          rw [here] at moved
          simp only [Pc.files, List.count_cons, List.count_nil] at moved ⊢
          omega
      · next child fd here =>
          cases taken
          exact inv.forkStep here
      · next here =>
          cases taken
          exact inv.exitStep (aliveOf (Or.inl (by simp [here]))) here noClose

theorem Inv.step (inv : state.Inv) {action : Action Pid}
    (taken : state.step action = some after) : after.Inv := by
  have ready : ∀ pid, state.ready pid = true → (state.proc pid).status = .alive ∧
      (state.proc pid).pc = .idle ∧ (state.proc pid).pipeclose = none := by
    intro pid isReady
    simpa [State.ready, and_assoc] using isReady
  unfold State.step at taken
  split at taken
  · cases taken
  · cases action with
    | call pid syscall =>
        simp only [Option.ite_none_right_eq_some, Option.some.injEq] at taken
        obtain ⟨isReady, rfl⟩ := taken
        obtain ⟨alive, idle, noClose⟩ := ready pid isReady
        exact inv.callStep alive idle noClose syscall
    | run pid memory => exact inv.runStep taken
    | fork parent child =>
        simp only [Option.ite_none_right_eq_some, Option.some.injEq] at taken
        obtain ⟨⟨isReady, unused⟩, rfl⟩ := taken
        obtain ⟨alive, idle, -⟩ := ready parent isReady
        exact inv.forkStart alive idle unused

omit [DecidableEq Pid] in
theorem Inv.of_fresh (fresh : IsFresh state) : state.Inv := by
  have noFiles : ∀ pid f, (state.proc pid).files f = 0 := by
    intro pid f
    have named : countWhere (fun slot => decide (slot = some f)) (state.proc pid).ofile = 0 := by
      apply countWhere_eq_zero.mpr
      intro fd
      simp [fresh.ofile pid fd]
    rw [Proc.files, named, (fresh.idle pid).1]
    rfl
  refine ⟨?_, ?_, ?_, ?_, ?_, ?_, ?_, ⟨?_, ?_, ?_, ?_⟩, fresh.panic⟩
  · intro f
    rw [fresh.file]
    symm
    exact Finset.sum_eq_zero fun pid _ => noFiles pid f
  · intro f _
    rw [fresh.file]
  · intro pid f isFresh
    rw [(fresh.idle pid).1] at isFresh
    cases isFresh
  · intro pid f0 f1 isPaired
    rw [(fresh.idle pid).1] at isPaired
    cases isPaired
  · intro pipe writable
    have files : countWhere (fun file : File => decide (file.type = .FD_PIPE pipe writable))
        state.file = 0 := countWhere_eq_zero.mpr fun f => by simp [fresh.file f]
    have procs : countWhere
        (fun proc : Proc Pid => decide (proc.pipeclose = some (pipe, writable))) state.proc = 0 :=
      countWhere_eq_zero.mpr fun pid => by simp [(fresh.idle pid).2]
    rw [State.holders, files, procs, fresh.pipe]
    rfl
  · intro pipe _ writable
    rw [fresh.pipe]
  · intro pipe
    rw [fresh.pipe, fresh.pipes]
    simp
  · intro pid child fd isFork
    rw [(fresh.idle pid).1] at isFork
    cases isFork
  · intro first second child fd fd' isFork
    rw [(fresh.idle first).1] at isFork
    cases isFork
  · intro pid _
    exact fresh.idle pid
  · intro pid _ fd
    exact fresh.ofile pid fd

omit [DecidableEq Pid] in
/-- The page of a pipe is free once nothing keeps an end of it open. -/
theorem Inv.kfrees_iff (inv : state.Inv) (pipe : Nat) :
    (state.pipe pipe).kfrees = 1 ↔ pipe < state.pipes ∧ ∀ writable,
      (∀ f, (state.file f).type ≠ .FD_PIPE pipe writable) ∧
        ∀ pid, (state.proc pid).pipeclose ≠ some (pipe, writable) := by
  have closed : ∀ writable, (state.pipe pipe).isOpen writable = false ↔
      (∀ f, (state.file f).type ≠ .FD_PIPE pipe writable) ∧
        ∀ pid, (state.proc pid).pipeclose ≠ some (pipe, writable) := by
    intro writable
    have count := inv.holders pipe writable
    have noHolders : state.holders pipe writable = 0 ↔
        (∀ f, (state.file f).type ≠ .FD_PIPE pipe writable) ∧
          ∀ pid, (state.proc pid).pipeclose ≠ some (pipe, writable) := by
      rw [State.holders, Nat.add_eq_zero_iff, countWhere_eq_zero, countWhere_eq_zero]
      simp only [decide_eq_false_iff_not, ne_eq]
    rw [← noHolders, count]
    cases (state.pipe pipe).isOpen writable <;> simp
  rw [inv.kfrees, Bool.forall_bool, ← closed false, ← closed true]
  split <;> simp_all

/-- No call is in progress. -/
def Quiet (state : State Pid) : Prop :=
  ∀ pid, (state.proc pid).pc = .idle ∧ (state.proc pid).pipeclose = none

omit [DecidableEq Pid] in
theorem Inv.refs_of_quiet (inv : state.Inv) (quiet : state.Quiet) (f : FileId) :
    (state.file f).ref = total
      (fun proc : Proc Pid => countWhere (fun slot => decide (slot = some f)) proc.ofile)
      state.proc := by
  rw [inv.refs]
  apply Finset.sum_congr rfl
  intro pid _
  simp [Proc.files, (quiet pid).1, Pc.files]

omit [DecidableEq Pid] in
theorem Inv.kfrees_of_quiet (inv : state.Inv) (quiet : state.Quiet) (pipe : Nat)
    (made : pipe < state.pipes) : (state.pipe pipe).kfrees =
      if ∀ f writable, (state.file f).type ≠ .FD_PIPE pipe writable then 1 else 0 := by
  have freed := inv.kfrees_iff pipe
  have least := inv.kfrees pipe
  split
  · next noFile =>
      apply freed.mpr
      refine ⟨made, fun writable => ⟨fun f => noFile f writable, fun pid => ?_⟩⟩
      simp [(quiet pid).2]
  · next someFile =>
      have notFreed : (state.pipe pipe).kfrees ≠ 1 := by
        intro isFreed
        exact someFile fun f writable => ((freed.mp isFreed).2 writable).1 f
      split at least
      · exact (notFreed least).elim
      · exact least

end State

/-- The table of open files in every run.  The page of a pipe is freed at most
once: when no open file is an end of it any more and no `fileclose` of such a
file is about to close its end. -/
theorem references_balanced {Pid : Type} [DecidableEq Pid] [Fintype Pid] {state : State Pid}
    (run : Run State.step anyStep IsFresh state) :
    state.panic = none ∧
      (∀ f, (state.file f).ref = 0 → (state.file f).type = .FD_NONE) ∧
      (∀ pipe, (state.pipe pipe).kfrees ≤ 1) ∧
      (∀ pipe, (state.pipe pipe).kfrees = 1 ↔ pipe < state.pipes ∧ ∀ writable,
        (∀ f, (state.file f).type ≠ .FD_PIPE pipe writable) ∧
          ∀ pid, (state.proc pid).pipeclose ≠ some (pipe, writable)) ∧
      (state.Quiet →
        (∀ f, (state.file f).ref = total
          (fun proc : Proc Pid => countWhere (fun slot => decide (slot = some f)) proc.ofile)
          state.proc) ∧
        ∀ pipe, pipe < state.pipes → (state.pipe pipe).kfrees =
          if ∀ f writable, (state.file f).type ≠ .FD_PIPE pipe writable then 1 else 0) := by
  have inv : state.Inv := run.invariant (fun _ fresh => State.Inv.of_fresh fresh)
    fun _ _ _ inv _ taken => inv.step taken
  refine ⟨inv.panic, inv.free, ?_, inv.kfrees_iff, ?_⟩
  · intro pipe
    rw [inv.kfrees]
    split <;> omega
  · intro quiet
    exact ⟨inv.refs_of_quiet quiet, inv.kfrees_of_quiet quiet⟩

/-- One process that is running and one slot. -/
def booted : State Bool where
  file := fun _ => ⟨0, .FD_NONE⟩
  pipe := fun _ => ⟨fun _ => false, 0⟩
  pipes := 0
  proc := fun pid => ⟨if pid then .unused else .alive, fun _ => none, .idle, none⟩
  panic := none

theorem booted_fresh : IsFresh booted :=
  ⟨fun _ => rfl, rfl, fun _ => rfl, fun _ _ => rfl, fun _ => ⟨rfl, rfl⟩,
    fun pid => by cases pid <;> decide, rfl⟩

/-- A pipe is made and both of its ends are closed. -/
def closedPipe : List (Action Bool) :=
  [.call false .pipe, .run false true, .run false true, .run false true,
    .call false (.close ⟨0, by decide⟩), .run false true, .run false true, .run false true,
    .call false (.close ⟨1, by decide⟩), .run false true, .run false true, .run false true]

theorem closedPipe_enabled :
    (execute State.step (fun _ _ => true) booted closedPipe).isSome = true := by
  decide +kernel

theorem references_balanced_closedPipe :
    ∃ state : State Bool, state.pipes = 1 ∧ state.Quiet ∧ (state.pipe 0).kfrees = 1 ∧
      ∀ f writable, (state.file f).type ≠ .FD_PIPE 0 writable := by
  have run := run_lastState booted_fresh closedPipe closedPipe_enabled
  obtain ⟨-, -, -, freed, -⟩ := references_balanced (run.mono fun _ _ _ => trivial)
  have made : (lastState State.step _ booted _ closedPipe_enabled).pipes = 1 := by
    decide +kernel
  have quiet : (lastState State.step _ booted _ closedPipe_enabled).Quiet := by
    intro pid
    cases pid <;> decide +kernel
  have kfrees : ((lastState State.step _ booted _ closedPipe_enabled).pipe 0).kfrees = 1 := by
    decide +kernel
  obtain ⟨-, noFile⟩ := (freed 0).mp kfrees
  exact ⟨_, made, quiet, kfrees, fun f writable => (noFile writable).1 f⟩

end Coursework.FileTable
