import Coursework.DirectoryCalls
import Coursework.EntryUpdates
import Coursework.TransitionRuns

/-!
# References of the directory calls

Every reference to an inode belongs to somebody: to the place where a process is, to its current
directory, to a call of `iput` that has not subtracted it yet, or to an open file.  This holds in
every run, whatever the calls find on their paths, since a step moves the references it holds and
takes or drops at most one.  So no lock is asked for without a reference, and between calls an
inode has as many references as current directories and open files.
-/

namespace Coursework.Directory

open FileSystem (FileType)

/-! ## What a process holds -/

/-- The inode whose link count was raised for the entry to be written. -/
def Lookup.target : Lookup → List Inum
  | .linkNew ip => [ip]
  | _ => []

/-- The references that a process holds apart from its current directory. -/
def Pc.held : Pc → List Inum
  | .idle | .exiting => []
  | .walk lookup ip _ | .resolved lookup ip _ => ip :: lookup.target
  | .unlinkFound dp _ ip | .creating dp _ ip _ | .linkExists dp ip => [dp, ip]
  | .unlinkBad ip | .unlinkCleared ip | .createFound _ ip | .created ip _ | .linked ip
  | .undo ip | .chdirPut ip => [ip]

/-- The inode that the process keeps locked. -/
def Pc.lock : Pc → Option Inum
  | .unlinkFound dp _ _ | .unlinkBad dp | .creating dp _ _ _ | .linkExists dp _ => some dp
  | .unlinkCleared ip | .created ip _ => some ip
  | _ => none

def Put.held : Put → List Inum
  | .check ip => [ip]
  | .drop _ => []

def Put.dropping : Put → List Inum
  | .check _ => []
  | .drop ip => [ip]

def Proc.held (proc : Proc) (inum : Inum) : Nat :=
  proc.pc.held.count inum + proc.cwd.toList.count inum +
    (proc.put.elim [] Put.held).count inum

def Proc.dropping (proc : Proc) (inum : Inum) : Nat :=
  (proc.put.elim [] Put.dropping).count inum

/-- The references of a process that are counted. -/
def Proc.uses (proc : Proc) (inum : Inum) : Nat := proc.held inum + proc.dropping inum

theorem held_pos_of_mem {proc : Proc} {inum : Inum} (member : inum ∈ proc.pc.held) :
    0 < proc.held inum := by
  have := List.count_pos_iff.mpr member
  simp only [Proc.held]
  omega

theorem lock_mem_held {pc : Pc} {inum : Inum} (isLocked : pc.lock = some inum) :
    inum ∈ pc.held := by
  cases pc <;> simp_all [Pc.lock, Pc.held]

/-- A call whose path leads nowhere keeps the inode for the undo. -/
theorem failed_place (lookup : Lookup) :
    lookup.failed.held = lookup.target ∧ lookup.failed.lock = none ∧
      ∀ ip, lookup.failed ≠ .chdirPut ip := by
  cases lookup <;> exact ⟨rfl, rfl, nofun⟩

namespace State

section Locks

variable {Pid : Type}

/-- A process without a lock takes one. -/
theorem lock_gain (lock : Inum → Option Pid) (pid : Pid) (ip inum : Inum) :
    Function.update lock ip (some pid) inum = if some ip = some inum then some pid
      else if (none : Option Inum) = some inum then none else lock inum := by
  by_cases isIp : inum = ip
  · subst isIp
    rw [Function.update_self, if_pos rfl]
  · rw [Function.update_of_ne isIp, if_neg fun same => isIp (Option.some.inj same).symm]
    rfl

/-- A process releases its lock. -/
theorem lock_lose (lock : Inum → Option Pid) (ip inum : Inum) :
    Function.update lock ip none inum = if some ip = some inum then none else lock inum := by
  by_cases isIp : inum = ip
  · subst isIp
    rw [Function.update_self, if_pos rfl]
  · rw [Function.update_of_ne isIp, if_neg fun same => isIp (Option.some.inj same).symm]

/-- A process locks an inode and releases another one. -/
theorem lock_handOver (lock : Inum → Option Pid) (pid : Pid) (dp ip inum : Inum) :
    Function.update (Function.update lock dp none) ip (some pid) inum =
      if some ip = some inum then some pid else if some dp = some inum then none else lock inum := by
  by_cases isIp : inum = ip
  · subst isIp
    rw [Function.update_self, if_pos rfl]
  · rw [Function.update_of_ne isIp, if_neg fun same => isIp (Option.some.inj same).symm]
    exact lock_lose lock dp inum

end Locks

variable {Pid : Type} [DecidableEq Pid] [Fintype Pid]

omit [DecidableEq Pid] [Fintype Pid] in
@[simp]
theorem iget_proc (state : State Pid) (ip : Inum) : (state.iget ip).proc = state.proc := rfl

/-- The open files on an inode. -/
def opened (state : State Pid) (inum : Inum) : Nat :=
  countWhere (fun file => decide (file = some inum)) state.file

/-- References, locks and open files are accounted for. -/
structure Balanced (state : State Pid) : Prop where
  refs : ∀ inum, state.ref inum = tally Proc.uses state.proc inum + state.opened inum
  locks : ∀ inum pid, state.lock inum = some pid ↔ (state.proc pid).pc.lock = some inum
  dead : ∀ pid, (state.proc pid).alive = false → (state.proc pid).pc = .idle ∧
    (state.proc pid).put = none ∧ (state.proc pid).cwd = none ∧
    ∀ fd, (state.proc pid).ofile fd = none
  chdir : ∀ pid ip, (state.proc pid).pc = .chdirPut ip → (state.proc pid).cwd = none
  files : ∀ f, state.file f ≠ none ↔ ∃ pid fd, (state.proc pid).ofile fd = some f
  noIlock : state.panic ≠ some .ilock

variable {state after : State Pid} {pid : Pid} {proc : Proc} {ip dp : Inum}

/-- A step of one process that accounts for its references and keeps locks in order. -/
theorem Balanced.move (balanced : state.Balanced)
    (isProc : after.proc = Function.update state.proc pid proc)
    (refs : ∀ inum, after.ref inum + (state.proc pid).uses inum + state.opened inum =
      state.ref inum + proc.uses inum + after.opened inum)
    (locks : ∀ inum, after.lock inum = if proc.pc.lock = some inum then some pid
      else if (state.proc pid).pc.lock = some inum then none else state.lock inum)
    (taken : ∀ inum, proc.pc.lock = some inum →
      state.lock inum = none ∨ state.lock inum = some pid)
    (dead : proc.alive = false → proc.pc = .idle ∧ proc.put = none ∧ proc.cwd = none ∧
      ∀ fd, proc.ofile fd = none)
    (chdir : ∀ ip, proc.pc = .chdirPut ip → proc.cwd = none)
    (files : ∀ f, after.file f ≠ none ↔ ∃ pid fd, (after.proc pid).ofile fd = some f)
    (panic : after.panic = state.panic) : after.Balanced := by
  have here : after.proc pid = proc := by rw [isProc, Function.update_self]
  have others : ∀ other, other ≠ pid → after.proc other = state.proc other := by
    intro other distinct
    rw [isProc, Function.update_of_ne distinct]
  refine ⟨?_, ?_, ?_, ?_, files, ?_⟩
  · intro inum
    have exchanged := total_update (fun proc : Proc => proc.uses inum) state.proc pid proc
    have before := balanced.refs inum
    have moved := refs inum
    rw [tally] at before
    rw [isProc, tally]
    omega
  · intro inum other
    rw [locks inum]
    by_cases same : other = pid
    · subst same
      rw [here]
      have before := balanced.locks inum other
      by_cases isNew : proc.pc.lock = some inum
      · simp [isNew]
      · by_cases isOld : (state.proc other).pc.lock = some inum
        · simp [isNew, isOld]
        · simp only [isNew, isOld, if_false]
          exact before.trans (by simp [isOld])
    · rw [others other same]
      have before := balanced.locks inum other
      by_cases isNew : proc.pc.lock = some inum
      · simp only [isNew, if_true]
        constructor
        · intro equal
          exact (same (Option.some.inj equal).symm).elim
        · intro isTheirs
          have theirs := before.mpr isTheirs
          rcases taken inum isNew with free | mine
          · rw [free] at theirs
            cases theirs
          · rw [mine] at theirs
            exact (same (Option.some.inj theirs).symm).elim
      · by_cases isOld : (state.proc pid).pc.lock = some inum
        · simp only [isNew, isOld, if_false, if_true]
          constructor
          · intro impossible
            cases impossible
          · intro isTheirs
            have theirs := before.mpr isTheirs
            have mine := (balanced.locks inum pid).mpr isOld
            rw [mine] at theirs
            exact (same (Option.some.inj theirs).symm).elim
        · simpa only [isNew, isOld, if_false] using before
  · intro other
    by_cases same : other = pid
    · subst same
      rw [here]
      exact dead
    · rw [others other same]
      exact balanced.dead other
  · intro other
    by_cases same : other = pid
    · subst same
      rw [here]
      exact chdir
    · rw [others other same]
      exact balanced.chdir other
  · rw [panic]
    exact balanced.noIlock

/-! ## Parts of a step -/

omit [DecidableEq Pid] in
/-- A process that does anything is alive. -/
theorem Balanced.alive (balanced : state.Balanced) (busy : (state.proc pid).pc ≠ .idle) :
    (state.proc pid).alive = true := by
  by_contra dead
  exact busy (balanced.dead pid (by simpa using dead)).1

omit [DecidableEq Pid] in
theorem Balanced.alive_of_put (balanced : state.Balanced) {put : Put}
    (isPut : (state.proc pid).put = some put) : (state.proc pid).alive = true := by
  by_contra dead
  have noPut := (balanced.dead pid (by simpa using dead)).2.1
  rw [isPut] at noPut
  cases noPut

omit [DecidableEq Pid] in
/-- Locks after a step that takes and releases none. -/
theorem Balanced.locks_kept (balanced : state.Balanced) {lock : Inum → Option Pid} {pc : Pc}
    (kept : lock = state.lock) (same : pc.lock = (state.proc pid).pc.lock) (inum : Inum) :
    lock inum = if pc.lock = some inum then some pid
      else if (state.proc pid).pc.lock = some inum then none else state.lock inum := by
  rw [kept, same]
  by_cases isLocked : (state.proc pid).pc.lock = some inum
  · simp only [isLocked, if_true]
    exact (balanced.locks inum pid).mpr isLocked
  · simp only [isLocked, if_false]

omit [DecidableEq Pid] in
theorem Balanced.taken_kept (balanced : state.Balanced) {pc : Pc}
    (same : pc.lock = (state.proc pid).pc.lock) (inum : Inum)
    (isLocked : pc.lock = some inum) :
    state.lock inum = none ∨ state.lock inum = some pid :=
  Or.inr ((balanced.locks inum pid).mpr (same ▸ isLocked))

/-- Files stay open as long as the descriptors stay. -/
theorem Balanced.files_same (balanced : state.Balanced)
    (isProc : after.proc = Function.update state.proc pid proc)
    (files : after.file = state.file) (ofile : proc.ofile = (state.proc pid).ofile) (f) :
    after.file f ≠ none ↔ ∃ pid fd, (after.proc pid).ofile fd = some f := by
  have same : ∀ other, (after.proc other).ofile = (state.proc other).ofile := by
    intro other
    rw [isProc]
    by_cases here : other = pid
    · subst here
      rw [Function.update_self, ofile]
    · rw [Function.update_of_ne here]
  simp only [files, same]
  exact balanced.files f

/-- A file is opened at a free descriptor. -/
theorem Balanced.files_opened (balanced : state.Balanced) {f : Fin NFILE} {fd : Fin NOFILE}
    (isProc : after.proc = Function.update state.proc pid proc)
    (isFile : after.file = Function.update state.file f (some ip))
    (isDescriptor : proc.ofile = Function.update (state.proc pid).ofile fd (some f))
    (notUsed : state.file f = none) (noFd : (state.proc pid).ofile fd = none) (file : Fin NFILE) :
    after.file file ≠ none ↔ ∃ pid fd, (after.proc pid).ofile fd = some file := by
  rw [isFile, isProc]
  by_cases same : file = f
  · subst same
    refine iff_of_true (by simp) ⟨pid, fd, ?_⟩
    rw [Function.update_self, isDescriptor, Function.update_self]
  · rw [Function.update_of_ne same, balanced.files file]
    constructor
    · rintro ⟨other, descriptor, names⟩
      refine ⟨other, descriptor, ?_⟩
      by_cases mine : other = pid
      · subst mine
        have distinct : descriptor ≠ fd := by
          rintro rfl
          rw [noFd] at names
          cases names
        rw [Function.update_self, isDescriptor, Function.update_of_ne distinct, names]
      · rw [Function.update_of_ne mine, names]
    · rintro ⟨other, descriptor, names⟩
      refine ⟨other, descriptor, ?_⟩
      by_cases mine : other = pid
      · subst mine
        rw [Function.update_self, isDescriptor] at names
        by_cases here : descriptor = fd
        · rw [here, Function.update_self] at names
          exact (same (Option.some.inj names).symm).elim
        · rwa [Function.update_of_ne here] at names
      · rwa [Function.update_of_ne mine] at names

/-- A descriptor is closed, and the file with it if no other descriptor names it. -/
theorem Balanced.files_closed (balanced : state.Balanced) {f : Fin NFILE} {fd : Fin NOFILE}
    (isProc : after.proc = Function.update state.proc pid proc)
    (isDescriptor : proc.ofile = Function.update (state.proc pid).ofile fd none)
    (named : (state.proc pid).ofile fd = some f)
    (others : ∀ file, file ≠ f → after.file file = state.file file)
    (here : after.file f ≠ none ↔ ∃ pid fd, (after.proc pid).ofile fd = some f)
    (file : Fin NFILE) :
    after.file file ≠ none ↔ ∃ pid fd, (after.proc pid).ofile fd = some file := by
  by_cases same : file = f
  · exact same ▸ here
  · rw [others file same, balanced.files file, isProc]
    constructor
    · rintro ⟨other, descriptor, names⟩
      refine ⟨other, descriptor, ?_⟩
      by_cases mine : other = pid
      · subst mine
        have distinct : descriptor ≠ fd := by
          rintro rfl
          rw [named] at names
          exact same (Option.some.inj names).symm
        rw [Function.update_self, isDescriptor, Function.update_of_ne distinct, names]
      · rw [Function.update_of_ne mine, names]
    · rintro ⟨other, descriptor, names⟩
      refine ⟨other, descriptor, ?_⟩
      by_cases mine : other = pid
      · subst mine
        rw [Function.update_self, isDescriptor] at names
        by_cases isFd : descriptor = fd
        · rw [isFd, Function.update_self] at names
          cases names
        · rwa [Function.update_of_ne isFd] at names
      · rwa [Function.update_of_ne mine] at names

omit [DecidableEq Pid] [Fintype Pid] in
/-- A file of the table is opened or closed. -/
theorem opened_update {file : Fin NFILE} {entry : Option Inum}
    (files : after.file = Function.update state.file file entry) (inum : Inum) :
    after.opened inum + (decide (state.file file = some inum)).toNat =
      state.opened inum + (decide (entry = some inum)).toNat := by
  rw [opened, files]
  exact countWhere_update (fun file => decide (file = some inum)) state.file file entry

/-- A step that keeps the references of the process and the open files. -/
theorem Balanced.keep (balanced : state.Balanced)
    (isProc : after.proc = Function.update state.proc pid proc) (ref : after.ref = state.ref)
    (file : after.file = state.file) (panic : after.panic = state.panic)
    (uses : ∀ inum, proc.uses inum = (state.proc pid).uses inum)
    (ofile : proc.ofile = (state.proc pid).ofile) (alive : proc.alive = true)
    (locks : ∀ inum, after.lock inum = if proc.pc.lock = some inum then some pid
      else if (state.proc pid).pc.lock = some inum then none else state.lock inum)
    (taken : ∀ inum, proc.pc.lock = some inum →
      state.lock inum = none ∨ state.lock inum = some pid)
    (chdir : ∀ ip, proc.pc = .chdirPut ip → proc.cwd = none) : after.Balanced := by
  refine balanced.move isProc ?_ locks taken ?_ chdir (balanced.files_same isProc file ofile) panic
  · intro inum
    rw [ref, uses inum, opened, opened, file]
  · intro dead
    exact absurd (alive.symm.trans dead) (by simp)

/-- A step that ends with a call of `iput` for an inode that the process holds at its place. -/
theorem Balanced.put (balanced : state.Balanced) {pc : Pc}
    (isProc : after.proc = Function.update state.proc pid
      { state.proc pid with pc := pc, put := some (.check ip) })
    (ref : after.ref = state.ref) (file : after.file = state.file)
    (panic : after.panic = state.panic) (ready : (state.proc pid).put = none)
    (busy : (state.proc pid).pc ≠ .idle)
    (held : ∀ inum, pc.held.count inum + [ip].count inum = (state.proc pid).pc.held.count inum)
    (locks : ∀ inum, after.lock inum = if pc.lock = some inum then some pid
      else if (state.proc pid).pc.lock = some inum then none else state.lock inum)
    (taken : ∀ inum, pc.lock = some inum → state.lock inum = none ∨ state.lock inum = some pid)
    (notChdir : ∀ ip, pc ≠ .chdirPut ip) : after.Balanced := by
  refine balanced.keep isProc ref file panic ?_ rfl (balanced.alive busy) locks taken
    fun ip isChdir => (notChdir ip isChdir).elim
  intro inum
  have := held inum
  simp only [Proc.uses, Proc.held, Proc.dropping, ready, Option.elim_some, Option.elim_none,
    Put.held, Put.dropping, List.count_nil]
  omega

/-- A step that takes a reference. -/
theorem Balanced.take (balanced : state.Balanced) {next : Inum}
    (isProc : after.proc = Function.update state.proc pid proc)
    (ref : after.ref = Function.update state.ref next (state.ref next + 1))
    (file : after.file = state.file) (panic : after.panic = state.panic)
    (uses : ∀ inum, proc.uses inum = (state.proc pid).uses inum + [next].count inum)
    (files : ∀ f, after.file f ≠ none ↔ ∃ pid fd, (after.proc pid).ofile fd = some f)
    (alive : proc.alive = true)
    (locks : ∀ inum, after.lock inum = if proc.pc.lock = some inum then some pid
      else if (state.proc pid).pc.lock = some inum then none else state.lock inum)
    (taken : ∀ inum, proc.pc.lock = some inum →
      state.lock inum = none ∨ state.lock inum = some pid)
    (chdir : ∀ ip, proc.pc = .chdirPut ip → proc.cwd = none) : after.Balanced := by
  refine balanced.move isProc ?_ locks taken ?_ chdir files panic
  · intro inum
    rw [ref, uses inum, opened, opened, file]
    by_cases same : inum = next
    · subst same
      rw [Function.update_self, List.count_singleton_self]
      omega
    · rw [Function.update_of_ne same, List.count_eq_zero.mpr (by simpa using same)]
      omega
  · intro dead
    exact absurd (alive.symm.trans dead) (by simp)

omit [DecidableEq Pid] in
/-- A panic keeps the references. -/
theorem Balanced.stop (balanced : state.Balanced) (proc : after.proc = state.proc)
    (ref : after.ref = state.ref) (lock : after.lock = state.lock) (file : after.file = state.file)
    (panic : after.panic ≠ some .ilock) : after.Balanced where
  refs := by
    intro inum
    rw [ref, proc, opened, file]
    exact balanced.refs inum
  locks := by
    intro inum pid
    rw [lock, proc]
    exact balanced.locks inum pid
  dead := by
    rw [proc]
    exact balanced.dead
  chdir := by
    rw [proc]
    exact balanced.chdir
  files := by
    intro f
    rw [file, proc]
    exact balanced.files f
  noIlock := panic

omit [DecidableEq Pid] in
theorem Balanced.ref_pos (balanced : state.Balanced) {pc : Pc} (here : (state.proc pid).pc = pc)
    (member : ip ∈ pc.held) : 0 < state.ref ip := by
  have mine : 0 < (state.proc pid).held ip := held_pos_of_mem (here ▸ member)
  have counted := le_total (fun proc : Proc => proc.uses ip) state.proc pid
  have refs := balanced.refs ip
  rw [tally] at refs
  rw [Proc.uses] at counted
  omega

omit [DecidableEq Pid] in
/-- Under `ilock` of an inode that a process holds. -/
theorem Balanced.withLock {body : State Pid → State Pid} (balanced : state.Balanced) {pc : Pc}
    (here : (state.proc pid).pc = pc) (member : ip ∈ pc.held)
    (taken : state.withLock ip body = some after)
    (rest : ∀ loaded : State Pid, loaded.proc = state.proc → loaded.lock ip = none →
      loaded.Balanced → (body loaded).Balanced) : after.Balanced := by
  have isUsed := balanced.ref_pos here member
  unfold State.withLock at taken
  split at taken
  · omega
  · split at taken
    · cases taken
    · next isFree =>
        split at taken
        · cases taken
          exact balanced.stop rfl rfl rfl rfl nofun
        · cases taken
          refine rest _ rfl (by simpa using isFree) ?_
          exact balanced.stop rfl rfl rfl rfl balanced.noIlock

end State

end Coursework.Directory
