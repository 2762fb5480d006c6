import Coursework.DirectoryBalance
import Mathlib.Algebra.BigOperators.Group.Finset.Piecewise

/-!
# References after any run

Every step of a call accounts for the references that it takes and drops, on all of its exits.
-/

namespace Coursework.Directory

open FileSystem (FileType)

namespace State

variable {Pid : Type} [DecidableEq Pid] [Fintype Pid]
  {state after : State Pid} {pid : Pid} {proc : Proc} {ip dp : Inum}

/-! ## Path walks -/

/-- The start of `namex`, with the inode in its hands for which a link is made. -/
theorem Balanced.namex (balanced : state.Balanced) {lookup : Lookup} (path : List Char)
    (alive : (state.proc pid).alive = true)
    (held : (state.proc pid).pc.held = lookup.target) (lock : (state.proc pid).pc.lock = none) :
    (state.namex pid lookup path).Balanced := by
  unfold State.namex
  dsimp only
  generalize (if path.head? = some '/' then rootInum
    else (state.proc pid).cwd.getD rootInum) = start
  refine balanced.take rfl rfl rfl rfl ?_ (balanced.files_same rfl rfl rfl) alive ?_ (by simp [Pc.lock]) (by simp)
  · intro inum
    change (start :: lookup.target).count inum + _ + _ + _ = _
    rw [Proc.uses, Proc.held, held, List.count_cons, List.count_singleton]
    change _ + (state.proc pid).cwd.toList.count inum +
      ((state.proc pid).put.elim [] Put.held).count inum + (state.proc pid).dropping inum = _
    omega
  · exact balanced.locks_kept rfl (by rw [lock]; rfl)

theorem Balanced.walkStep (balanced : state.Balanced) {lookup : Lookup} {path : List Char}
    (here : (state.proc pid).pc = .walk lookup ip path) (ready : (state.proc pid).put = none)
    (taken : state.walkStep pid lookup ip path = some after) : after.Balanced := by
  have fails : ∀ state : State Pid, state.Balanced → (state.proc pid).pc = .walk lookup ip path →
      (state.proc pid).put = none → (state.iput pid ip lookup.failed).Balanced := by
    intro state balanced here ready
    obtain ⟨held, lock, notChdir⟩ := failed_place lookup
    refine balanced.put rfl rfl rfl rfl ready (by simp [here]) ?_ ?_ ?_ notChdir
    · intro inum
      rw [here, held]
      simp only [Pc.held, List.count_cons, List.count_nil]
      omega
    · exact balanced.locks_kept rfl (by rw [here, lock]; rfl)
    · exact balanced.taken_kept (by rw [here, lock]; rfl)
  have goesOn : ∀ (state : State Pid) (name : Name), state.Balanced →
      (state.proc pid).pc = .walk lookup ip path →
      (state.goto pid (.resolved lookup ip name)).Balanced := by
    intro state name balanced here
    refine balanced.keep rfl rfl rfl rfl ?_ rfl (balanced.alive (by simp [here])) ?_ ?_ (by simp)
    · intro inum
      simp only [Proc.uses, Proc.held, here]
      rfl
    · exact balanced.locks_kept rfl (by rw [here]; rfl)
    · exact balanced.taken_kept (by rw [here]; rfl)
  unfold State.walkStep at taken
  split at taken
  · split at taken
    · cases taken
      exact fails state balanced here ready
    · cases taken
      exact goesOn state [] balanced here
  · next name rest _ =>
      refine balanced.withLock here (by simp [Pc.held]) taken ?_
      intro loaded same _ balanced
      rw [← same] at here ready
      split
      · exact fails loaded balanced here ready
      · split
        · exact goesOn loaded name balanced here
        · split
          · exact fails loaded balanced here ready
          · next off next _ =>
              refine balanced.take rfl rfl rfl rfl ?_ (balanced.files_same rfl rfl rfl)
                (balanced.alive (by simp [here])) ?_ ?_ (by simp)
              · intro inum
                simp only [Proc.uses, Proc.held, Proc.dropping, iget_proc, here, ready, Pc.held,
                  Put.held, Put.dropping, Option.elim_some, Option.elim_none, List.count_cons,
                  List.count_nil]
                omega
              · exact balanced.locks_kept rfl (by rw [here]; rfl)
              · exact balanced.taken_kept (by rw [here]; rfl)

/-! ## Files and processes -/

/-- The end of `open` with the inode that the process holds at its place, and perhaps has locked. -/
theorem Balanced.openFile (balanced : state.Balanced) {lock : Inum → Option Pid}
    (busy : (state.proc pid).pc ≠ .idle) (ready : (state.proc pid).put = none)
    (held : (state.proc pid).pc.held = [ip])
    (locks : ∀ inum, lock inum = if (state.proc pid).pc.lock = some inum then none
      else state.lock inum) :
    ({ state with lock := lock }.openFile pid ip).Balanced := by
  have alive := balanced.alive busy
  unfold State.openFile
  split
  · next f fd isFree isSlot =>
      have notUsed : state.file f = none := by simpa using List.find?_some isFree
      have noFd : (state.proc pid).ofile fd = none := by simpa using List.find?_some isSlot
      refine balanced.move rfl ?_ locks (by simp [Pc.lock]) ?_ (by simp) ?_ rfl
      · intro inum
        have counted := @opened_update _ state
          { state with file := Function.update state.file f (some ip) } f (some ip) rfl inum
        have here : (decide (some ip = some inum)).toNat = [ip].count inum := by
          by_cases isIp : ip = inum
          · simp [isIp]
          · simp [isIp]
        rw [notUsed, here] at counted
        simp only [reduceCtorEq, decide_false, Bool.toNat_false, Nat.add_zero] at counted
        have isOpened : ∀ inum, Pc.idle.held.count inum = 0 := fun _ => rfl
        simp only [Proc.uses, Proc.held, Proc.dropping, held, isOpened]
        change state.ref inum + _ + state.opened inum = state.ref inum + _ +
          State.opened { state with file := Function.update state.file f (some ip) } inum
        omega
      · intro dead
        exact absurd (alive.symm.trans dead) (by simp)
      · exact balanced.files_opened rfl rfl rfl notUsed noFd
  · refine balanced.put rfl rfl rfl rfl ready busy ?_ locks (by simp [Pc.lock]) (by simp)
    intro inum
    rw [held]
    exact Nat.zero_add _

theorem Balanced.dup (balanced : state.Balanced) (fd : Fin NOFILE)
    (alive : (state.proc pid).alive = true) : (state.dup pid fd).Balanced := by
  unfold State.dup
  split
  · next f new named isFree =>
      have noFd : (state.proc pid).ofile new = none := by simpa using List.find?_some isFree
      set proc : Proc := { state.proc pid with
        ofile := Function.update (state.proc pid).ofile new (some f) } with isDup
      have isDescriptor : proc.ofile = Function.update (state.proc pid).ofile new (some f) := rfl
      refine balanced.move rfl (fun _ => rfl) (balanced.locks_kept rfl rfl)
        (balanced.taken_kept rfl) ?_ (balanced.chdir pid) ?_ rfl
      · intro dead
        exact absurd (alive.symm.trans dead) (by simp)
      · intro file
        change state.file file ≠ none ↔
          ∃ other fd, (Function.update state.proc pid proc other).ofile fd = some file
        rw [balanced.files file]
        constructor
        · rintro ⟨other, descriptor, names⟩
          refine ⟨other, descriptor, ?_⟩
          by_cases mine : other = pid
          · subst mine
            have distinct : descriptor ≠ new := by
              rintro rfl
              rw [noFd] at names
              cases names
            rw [Function.update_self, isDescriptor, Function.update_of_ne distinct, names]
          · rw [Function.update_of_ne mine, names]
        · rintro ⟨other, descriptor, names⟩
          by_cases mine : other = pid
          · subst mine
            rw [Function.update_self, isDescriptor] at names
            by_cases isNew : descriptor = new
            · rw [isNew, Function.update_self] at names
              exact ⟨other, fd, named.trans names⟩
            · rw [Function.update_of_ne isNew] at names
              exact ⟨other, descriptor, names⟩
          · rw [Function.update_of_ne mine] at names
            exact ⟨other, descriptor, names⟩
  · exact balanced

/-- A process closes a descriptor, at a place where it holds nothing. -/
theorem Balanced.fileclose (balanced : state.Balanced) (fd : Fin NOFILE) {pc : Pc}
    (here : (state.proc pid).pc = pc) (isPc : pc = .idle ∨ pc = .exiting)
    (alive : (state.proc pid).alive = true) (ready : (state.proc pid).put = none) :
    (state.fileclose pid fd pc).Balanced := by
  have notChdir : ∀ ip, pc ≠ .chdirPut ip := by
    rintro ip rfl
    simp at isPc
  have noLock : pc.lock = none := by
    rcases isPc with rfl | rfl <;> rfl
  have locks := balanced.locks_kept (rfl : state.lock = state.lock) (congrArg Pc.lock here.symm)
  have noneTaken : ∀ inum, pc.lock = some inum →
      state.lock inum = none ∨ state.lock inum = some pid := by
    rw [noLock]
    simp
  have uses : ∀ inum, Proc.uses { state.proc pid with
      ofile := Function.update (state.proc pid).ofile fd none, pc := pc } inum =
        (state.proc pid).uses inum := by
    intro inum
    rw [← here]
    rfl
  unfold State.fileclose
  split
  · refine balanced.keep rfl rfl rfl rfl (fun inum => ?_) rfl alive locks noneTaken
      fun ip isChdir => (notChdir ip isChdir).elim
    rw [← here]
  · next f named =>
      dsimp only
      split
      · next still =>
          refine balanced.move rfl (fun inum => ?_) locks noneTaken ?_
            (fun ip isChdir => (notChdir ip isChdir).elim) ?_ rfl
          · rw [uses inum]
            rfl
          · intro dead
            exact absurd (alive.symm.trans dead) (by simp)
          · exact balanced.files_closed rfl rfl named (fun _ _ => rfl)
              (iff_of_true ((balanced.files f).mpr ⟨pid, fd, named⟩) still)
      · next noOther =>
          have isOpen : state.file f ≠ none := (balanced.files f).mpr ⟨pid, fd, named⟩
          split
          · next isNone => exact (isOpen isNone).elim
          · next ip isFile =>
              set closed : Proc := { state.proc pid with
                ofile := Function.update (state.proc pid).ofile fd none, pc := pc } with isClosed
              set proc : Proc := { closed with put := some (.check ip) } with isPutting
              have isProc : (State.iput { state.setProc pid closed with
                  file := Function.update state.file f none } pid ip pc).proc =
                  Function.update state.proc pid proc := by
                simp only [State.iput, State.setProc, Function.update_self, Function.update_idem]
                rfl
              refine balanced.move isProc (fun inum => ?_) locks noneTaken ?_
                (fun ip isChdir => (notChdir ip isChdir).elim) ?_ rfl
              · have counted := @opened_update _ state
                  { state with file := Function.update state.file f none } f none rfl inum
                have isCount : (decide (some ip = some inum)).toNat = [ip].count inum := by
                  by_cases isIp : ip = inum
                  · simp [isIp]
                  · simp [isIp]
                rw [isFile, isCount] at counted
                simp only [reduceCtorEq, decide_false, Bool.toNat_false, Nat.add_zero] at counted
                simp only [isPutting, isClosed, Proc.uses, Proc.held, Proc.dropping, here, ready,
                  Option.elim_some, Option.elim_none, Put.held, Put.dropping, List.count_nil]
                change state.ref inum + _ + state.opened inum = state.ref inum + _ +
                  State.opened { state with file := Function.update state.file f none } inum
                omega
              · intro dead
                exact absurd (alive.symm.trans dead) (by simp)
              · refine balanced.files_closed isProc rfl named
                  (fun file other => Function.update_of_ne other ..) (iff_of_false ?_ ?_)
                · exact not_not.mpr (Function.update_self ..)
                · rintro ⟨other, descriptor, names⟩
                  apply noOther
                  refine ⟨other, descriptor, ?_⟩
                  rw [isProc] at names
                  change (Function.update state.proc pid closed other).ofile descriptor = some f
                  by_cases mine : other = pid
                  · subst mine
                    rw [Function.update_self] at names ⊢
                    exact names
                  · rw [Function.update_of_ne mine] at names ⊢
                    exact names

theorem Balanced.exitStep (balanced : state.Balanced) (here : (state.proc pid).pc = .exiting)
    (ready : (state.proc pid).put = none) : (state.exitStep pid).Balanced := by
  have alive : (state.proc pid).alive = true := balanced.alive (by simp [here])
  unfold State.exitStep
  dsimp only
  split
  · exact balanced.fileclose _ here (.inr rfl) alive ready
  · next noFiles =>
      split
      · next cwd isCwd =>
          refine balanced.keep rfl rfl rfl rfl ?_ rfl alive (balanced.locks_kept rfl rfl)
            (balanced.taken_kept rfl) fun _ _ => rfl
          intro inum
          simp only [Proc.uses, Proc.held, Proc.dropping, isCwd, ready, Option.toList_some,
            Option.toList_none, Option.elim_some, Option.elim_none, Put.held, Put.dropping,
            List.count_nil]
          omega
      · next noCwd =>
          refine balanced.move rfl (fun inum => ?_) (balanced.locks_kept rfl (by rw [here]; rfl))
            (by simp [Pc.lock]) ?_ (by simp) (balanced.files_same rfl rfl rfl) rfl
          · simp only [Proc.uses, Proc.held, here]
            rfl
          · refine fun _ => ⟨rfl, ready, noCwd, fun fd => ?_⟩
            have passes := List.find?_eq_none.mp noFiles fd (List.mem_finRange fd)
            simpa using passes

omit [DecidableEq Pid] [Fintype Pid] in
/-- A process that is ready is between calls. -/
theorem ready_spec (isReady : state.ready pid = true) :
    (state.proc pid).alive = true ∧ (state.proc pid).pc = .idle ∧ (state.proc pid).put = none := by
  unfold State.ready at isReady
  obtain ⟨alive, idle⟩ := Bool.and_eq_true_iff.mp isReady
  split at idle
  · next isPc isPut => exact ⟨alive, isPc, isPut⟩
  · cases idle

/-- A process forks; the child has the same files and the same current directory. -/
theorem Balanced.fork (balanced : state.Balanced) {child : Pid} {cwd : Inum}
    (isReady : state.ready pid = true) (dead : (state.proc child).alive = false)
    (isCwd : (state.proc pid).cwd = some cwd) :
    ((state.iget cwd).setProc child (state.proc pid)).Balanced := by
  obtain ⟨idle, noPut, noCwd, noFiles⟩ := balanced.dead child dead
  obtain ⟨alive, here, ready⟩ := ready_spec isReady
  refine balanced.take rfl rfl rfl rfl ?_ ?_ alive (balanced.locks_kept rfl (by rw [here, idle]))
    ?_ ?_
  · intro inum
    simp only [Proc.uses, Proc.held, Proc.dropping, here, ready, isCwd, idle, noPut, noCwd,
      Option.toList_some, Option.toList_none, Option.elim_none, List.count_nil]
    omega
  · intro f
    change state.file f ≠ none ↔
      ∃ other fd, (Function.update state.proc child (state.proc pid) other).ofile fd = some f
    rw [balanced.files f]
    constructor
    · rintro ⟨other, fd, names⟩
      refine ⟨other, fd, ?_⟩
      have notChild : other ≠ child := by
        rintro rfl
        rw [noFiles fd] at names
        cases names
      rw [Function.update_of_ne notChild, names]
    · rintro ⟨other, fd, names⟩
      by_cases isChild : other = child
      · subst isChild
        rw [Function.update_self] at names
        exact ⟨pid, fd, names⟩
      · rw [Function.update_of_ne isChild] at names
        exact ⟨other, fd, names⟩
  · rw [here]
    simp [Pc.lock]
  · rw [here]
    simp

/-! ## The calls after their path walks -/

/-- A call that found an inode puts it. -/
theorem Balanced.resolvedPut (balanced : state.Balanced) {lookup : Lookup} {name : Name}
    (here : (state.proc pid).pc = .resolved lookup ip name) (ready : (state.proc pid).put = none)
    (noTarget : lookup.target = []) : (state.iput pid ip .idle).Balanced := by
  refine balanced.put rfl rfl rfl rfl ready (by simp [here]) ?_
    (balanced.locks_kept rfl (by rw [here]; rfl)) (by simp [Pc.lock]) (by simp)
  intro inum
  rw [here]
  simp [Pc.held, noTarget]

theorem Balanced.resolvedStep (balanced : state.Balanced) {lookup : Lookup} {name : Name}
    (here : (state.proc pid).pc = .resolved lookup ip name)
    (ready : (state.proc pid).put = none)
    (taken : state.resolvedStep pid lookup ip name = some after) : after.Balanced := by
  unfold State.resolvedStep at taken
  refine balanced.withLock here (by simp [Pc.held]) taken ?_
  intro loaded same unlocked balanced
  rw [← same] at here ready
  have busy : (loaded.proc pid).pc ≠ .idle := by simp [here]
  have alive := balanced.alive busy
  have panics : ∀ panic, panic ≠ .ilock → (loaded.fail panic).Balanced := fun panic other =>
    balanced.stop rfl rfl rfl rfl fun same => other (Option.some.inj same)
  -- an entry was found: the directory stays locked
  have keepsLock : ∀ (pc : Pc), pc.lock = some ip → ∀ inum, Function.update loaded.lock ip (some pid)
      inum = if pc.lock = some inum then some pid
        else if (loaded.proc pid).pc.lock = some inum then none else loaded.lock inum := by
    intro pc lock inum
    rw [lock, here]
    exact lock_gain loaded.lock pid ip inum
  have wasFree : ∀ (pc : Pc), pc.lock = some ip → ∀ inum, pc.lock = some inum →
      loaded.lock inum = none ∨ loaded.lock inum = some pid := by
    intro pc lock inum isLocked
    left
    rw [lock] at isLocked
    rwa [← Option.some.inj isLocked]
  cases lookup with
  | «open» omode =>
      dsimp only
      split
      · exact balanced.resolvedPut here ready rfl
      · exact balanced.openFile busy ready (by rw [here]; rfl) (by rw [here]; exact fun _ => rfl)
  | exec => exact balanced.resolvedPut here ready rfl
  | chdir =>
      dsimp only
      split
      · exact balanced.resolvedPut here ready rfl
      · refine balanced.keep rfl rfl rfl rfl ?_ rfl alive
          (balanced.locks_kept rfl (by rw [here]; rfl)) (by simp [Pc.lock]) fun _ _ => rfl
        intro inum
        simp only [Proc.uses, Proc.held, Proc.dropping, here, ready, Pc.held, Lookup.target]
        cases (loaded.proc pid).cwd with
        | none => rfl
        | some cwd =>
            simp only [Option.map_some, Option.elim_some, Option.elim_none, Option.toList_some,
              Option.toList_none, Put.held, Put.dropping, List.count_nil]
            omega
  | linkOld new =>
      dsimp only
      split
      · exact balanced.resolvedPut here ready rfl
      · have raised : (loaded.setNlink ip (loaded.nlink ip + 1)).Balanced :=
          balanced.stop rfl rfl rfl rfl balanced.noIlock
        have isPc : ((loaded.setNlink ip (loaded.nlink ip + 1)).proc pid).pc =
            .resolved (.linkOld new) ip name := here
        exact raised.namex new alive (by rw [isPc]; rfl) (by rw [isPc]; rfl)
  | linkNew target =>
      dsimp only
      split
      · exact panics _ (by simp)
      · split
        · next off existing _ =>
            refine balanced.take rfl rfl rfl rfl ?_ (balanced.files_same rfl rfl rfl) alive
              (keepsLock _ rfl) (wasFree _ rfl) (by simp)
            intro inum
            simp only [State.setLock, Proc.uses, Proc.held, Proc.dropping, iget_proc, here, ready,
              Pc.held, Lookup.target, Put.held, Put.dropping, Option.elim_some, Option.elim_none,
              List.count_cons, List.count_nil]
            omega
        · refine balanced.put rfl rfl rfl rfl ready busy ?_
            (balanced.locks_kept rfl (by rw [here]; rfl)) (by simp [Pc.lock]) (by simp)
          intro inum
          rw [here]
          simp only [Pc.held, Lookup.target, List.count_cons, List.count_nil]
          omega
  | unlink =>
      dsimp only
      split
      · exact balanced.resolvedPut here ready rfl
      · split
        · exact panics _ (by simp)
        · split
          · exact balanced.resolvedPut here ready rfl
          · next off found _ =>
              refine balanced.take rfl rfl rfl rfl ?_ (balanced.files_same rfl rfl rfl) alive
                (keepsLock _ rfl) (wasFree _ rfl) (by simp)
              intro inum
              simp only [State.setLock, Proc.uses, Proc.held, Proc.dropping, iget_proc, here, ready,
                Pc.held, Lookup.target, Option.elim_none, List.count_cons, List.count_nil]
              omega
  | create type =>
      dsimp only
      split
      · exact panics _ (by simp)
      · split
        · next off found _ =>
            refine balanced.take rfl rfl rfl rfl ?_ (balanced.files_same rfl rfl rfl) alive
              (balanced.locks_kept rfl (by rw [here]; rfl)) (by simp [Pc.lock]) (by simp)
            intro inum
            simp only [Proc.uses, Proc.held, Proc.dropping, iget_proc, here, ready, Pc.held,
              Lookup.target, Put.held, Put.dropping, Option.elim_some, Option.elim_none,
              List.count_cons, List.count_nil]
            omega
        · split
          · exact panics _ (by simp)
          · next new _ =>
              refine balanced.take rfl rfl rfl rfl ?_ (balanced.files_same rfl rfl rfl) alive
                (keepsLock _ rfl) (wasFree _ rfl) (by simp)
              intro inum
              simp only [State.setLock, State.ialloc, Proc.uses, Proc.held, Proc.dropping, iget_proc,
                here, ready, Pc.held, Lookup.target, Option.elim_none, List.count_cons,
                List.count_nil]
              omega

/-- A process that has a directory locked puts it, and keeps another inode locked. -/
theorem Balanced.handOver (balanced : state.Balanced) {pc : Pc}
    (isProc : after.proc = Function.update state.proc pid
      { state.proc pid with pc := pc, put := some (.check dp) })
    (ref : after.ref = state.ref) (file : after.file = state.file)
    (panic : after.panic = state.panic) (ready : (state.proc pid).put = none)
    (heldBefore : (state.proc pid).pc.held = [dp, ip])
    (lockBefore : (state.proc pid).pc.lock = some dp) (held : pc.held = [ip])
    (isLock : pc.lock = some ip) (unlocked : state.lock ip = none)
    (lock : after.lock = Function.update (Function.update state.lock dp none) ip (some pid))
    (notChdir : ∀ ip, pc ≠ .chdirPut ip) : after.Balanced := by
  have busy : (state.proc pid).pc ≠ .idle := by
    intro idle
    rw [idle] at lockBefore
    cases lockBefore
  refine balanced.put isProc ref file panic ready busy ?_ ?_ ?_ notChdir
  · intro inum
    rw [heldBefore, held]
    simp only [List.count_cons, List.count_nil]
    omega
  · intro inum
    rw [lock, isLock, lockBefore]
    exact lock_handOver state.lock pid dp ip inum
  · intro inum isLocked
    left
    rw [isLock] at isLocked
    rwa [← Option.some.inj isLocked]

theorem Balanced.unlinkStep (balanced : state.Balanced) {off : Nat}
    (here : (state.proc pid).pc = .unlinkFound dp off ip) (ready : (state.proc pid).put = none)
    (taken : state.unlinkStep pid dp off ip = some after) : after.Balanced := by
  unfold State.unlinkStep at taken
  refine balanced.withLock here (by simp [Pc.held]) taken ?_
  intro loaded same unlocked balanced
  rw [← same] at here ready
  have busy : (loaded.proc pid).pc ≠ .idle := by simp [here]
  split
  · exact balanced.stop rfl rfl rfl rfl (by simp [fail])
  · split
    · refine balanced.put rfl rfl rfl rfl ready busy ?_ (balanced.locks_kept rfl (by rw [here]; rfl))
        (balanced.taken_kept (by rw [here]; rfl)) (by simp)
      intro inum
      rw [here]
      simp only [Pc.held, List.count_cons, List.count_nil]
      omega
    · have clears : ∀ after : State Pid, after.proc = Function.update loaded.proc pid
          { loaded.proc pid with pc := .unlinkCleared ip, put := some (.check dp) } →
          after.ref = loaded.ref → after.file = loaded.file → after.panic = loaded.panic →
          after.lock = Function.update (Function.update loaded.lock dp none) ip (some pid) →
          after.Balanced := fun after isProc ref file panic lock =>
        balanced.handOver isProc ref file panic ready (by rw [here]; rfl) (by rw [here]; rfl) rfl rfl
          unlocked lock (by simp)
      dsimp only
      split
      · exact clears _ rfl rfl rfl rfl rfl
      · exact clears _ rfl rfl rfl rfl rfl

theorem Balanced.createStep (balanced : state.Balanced) {name : Name} {type : FileType}
    (here : (state.proc pid).pc = .creating dp name ip type) (ready : (state.proc pid).put = none)
    (taken : state.createStep pid dp name ip type = some after) : after.Balanced := by
  unfold State.createStep at taken
  refine balanced.withLock here (by simp [Pc.held]) taken ?_
  intro loaded same unlocked balanced
  rw [← same] at here ready
  have busy : (loaded.proc pid).pc ≠ .idle := by simp [here]
  have creates : ∀ after : State Pid, after.proc = Function.update loaded.proc pid
      { loaded.proc pid with pc := .created ip type, put := some (.check dp) } →
      after.ref = loaded.ref → after.file = loaded.file → after.panic = loaded.panic →
      after.lock = Function.update (Function.update loaded.lock dp none) ip (some pid) →
      after.Balanced := fun after isProc ref file panic lock =>
    balanced.handOver isProc ref file panic ready (by rw [here]; rfl) (by rw [here]; rfl) rfl rfl
      unlocked lock (by simp)
  dsimp only
  split
  · split
    · exact balanced.stop rfl rfl rfl rfl (by simp [fail])
    · split
      · exact balanced.stop rfl rfl rfl rfl (by simp [fail])
      · exact creates _ rfl rfl rfl rfl rfl
  · split
    · exact balanced.stop rfl rfl rfl rfl (by simp [fail])
    · exact creates _ rfl rfl rfl rfl rfl

/-! ## All steps -/

/-- `iput` checks the inode; its reference is still counted. -/
theorem Balanced.checkStep (balanced : state.Balanced)
    (isPut : (state.proc pid).put = some (.check ip))
    (taken : state.checkStep pid ip = some after) : after.Balanced := by
  have checks : ∀ after : State Pid, after.proc = Function.update state.proc pid
      { state.proc pid with put := some (.drop ip) } → after.ref = state.ref →
      after.file = state.file → after.panic = state.panic → after.lock = state.lock →
      after.Balanced := by
    intro after isProc ref file panic lock
    refine balanced.keep isProc ref file panic ?_ rfl (balanced.alive_of_put isPut)
      (balanced.locks_kept lock rfl) (balanced.taken_kept rfl) (balanced.chdir pid)
    intro inum
    simp only [Proc.uses, Proc.held, Proc.dropping, isPut, Option.elim_some, Put.held, Put.dropping,
      List.count_nil]
    omega
  unfold State.checkStep at taken
  split at taken
  · cases taken
  · split at taken
    · cases taken
      exact checks _ rfl rfl rfl rfl rfl
    · cases taken
      exact checks _ rfl rfl rfl rfl rfl

/-- The reference is subtracted. -/
theorem Balanced.dropStep (balanced : state.Balanced)
    (isPut : (state.proc pid).put = some (.drop ip)) :
    ({ state with ref := Function.update state.ref ip (state.ref ip - 1) }.setProc pid
      { state.proc pid with put := none }).Balanced := by
  refine balanced.move rfl (fun inum => ?_) (balanced.locks_kept rfl rfl) (balanced.taken_kept rfl)
    ?_ (balanced.chdir pid) (balanced.files_same rfl rfl rfl) rfl
  · have counted := le_total (fun proc : Proc => proc.uses inum) state.proc pid
    have refs := balanced.refs inum
    rw [tally] at refs
    have less : Proc.uses { state.proc pid with put := none } inum + [ip].count inum =
        (state.proc pid).uses inum := by
      simp only [Proc.uses, Proc.held, Proc.dropping, isPut, Option.elim_some, Option.elim_none,
        Put.held, Put.dropping, List.count_nil]
    change Function.update state.ref ip (state.ref ip - 1) inum + _ + state.opened inum =
      state.ref inum + _ + state.opened inum
    by_cases same : inum = ip
    · subst same
      rw [List.count_singleton_self] at less
      rw [Function.update_self]
      omega
    · rw [List.count_eq_zero.mpr (by simpa using same)] at less
      rw [Function.update_of_ne same]
      omega
  · intro dead
    have alive := balanced.alive_of_put isPut
    exact absurd (alive.symm.trans dead) (by simp)

theorem Balanced.runStep (balanced : state.Balanced)
    (taken : state.runStep pid = some after) : after.Balanced := by
  unfold State.runStep at taken
  split at taken
  · next ip isPut => exact balanced.checkStep isPut taken
  · next ip isPut =>
      cases taken
      exact balanced.dropStep isPut
  · next ready =>
      have puts : ∀ (pc : Pc) (ip : Inum), (state.proc pid).pc = pc → pc.held = [ip] →
          ∀ lock, (∀ inum, lock inum = if pc.lock = some inum then none else state.lock inum) →
          ∀ nlink, ({ state with nlink := nlink, lock := lock }.iput pid ip .idle).Balanced := by
        rintro pc ip rfl held lock locks nlink
        refine balanced.put rfl rfl rfl rfl ready ?_ ?_ locks (by simp [Pc.lock]) (by simp)
        · intro idle
          rw [idle] at held
          cases held
        · intro inum
          rw [held]
          exact Nat.zero_add _
      split at taken
      · cases taken
      · next lookup ip path here => exact balanced.walkStep here ready taken
      · next lookup ip name here => exact balanced.resolvedStep here ready taken
      · next dp off ip here => exact balanced.unlinkStep here ready taken
      · next dp here =>
          cases taken
          exact puts _ dp here rfl _ (lock_lose state.lock dp) state.nlink
      · next ip here =>
          cases taken
          exact puts _ ip here rfl _ (lock_lose state.lock ip) _
      · next type ip here =>
          refine balanced.withLock here (by simp [Pc.held]) taken ?_
          intro loaded same _ balanced
          rw [← same] at here ready
          split
          · exact balanced.openFile (by simp [here]) ready (by rw [here]; rfl)
              (by rw [here]; exact fun _ => rfl)
          · exact balanced.put rfl rfl rfl rfl ready (by simp [here])
              (by rw [here]; exact fun _ => by simp [Pc.held])
              (balanced.locks_kept rfl (by rw [here]; rfl)) (by simp [Pc.lock]) (by simp)
      · next dp name ip type here => exact balanced.createStep here ready taken
      · next ip type here =>
          split at taken
          · cases taken
            refine balanced.openFile (by simp [here]) ready (by rw [here]; rfl) fun inum => ?_
            rw [here]
            exact lock_lose state.lock ip inum
          · cases taken
            exact puts _ ip here rfl _ (lock_lose state.lock ip) state.nlink
      · next dp ip here =>
          cases taken
          refine balanced.put rfl rfl rfl rfl ready (by simp [here]) ?_ ?_ (by simp [Pc.lock]) (by simp)
          · intro inum
            rw [here]
            simp only [Pc.held, List.count_cons, List.count_nil]
            omega
          · intro inum
            rw [here]
            exact lock_lose state.lock dp inum
      · next ip here =>
          cases taken
          exact puts _ ip here rfl _ (fun _ => rfl) state.nlink
      · next ip here =>
          refine balanced.withLock here (by simp [Pc.held]) taken ?_
          intro loaded same _ balanced
          rw [← same] at here ready
          exact balanced.put rfl rfl rfl rfl ready (by simp [here])
            (by rw [here]; exact fun _ => by simp [Pc.held])
            (balanced.locks_kept rfl (by rw [here]; rfl)) (by simp [Pc.lock]) (by simp)
      · next ip here =>
          cases taken
          refine balanced.keep rfl rfl rfl rfl ?_ rfl (balanced.alive (by simp [here]))
            (balanced.locks_kept rfl (by rw [here]; rfl)) (by simp [Pc.lock]) (by simp)
          intro inum
          have noCwd := balanced.chdir pid ip here
          simp only [Proc.uses, Proc.held, Proc.dropping, here, noCwd, Pc.held, Option.toList_some,
            Option.toList_none, List.count_nil]
          omega
      · next here =>
          cases taken
          exact balanced.exitStep here ready

theorem Balanced.callStep (balanced : state.Balanced) (isReady : state.ready pid = true)
    (syscall : Syscall) : (state.callStep pid syscall).Balanced := by
  obtain ⟨alive, here, ready⟩ := ready_spec isReady
  have walks : ∀ (lookup : Lookup) (path : List Char), lookup.target = [] →
      (state.namex pid lookup path).Balanced := by
    intro lookup path noTarget
    exact balanced.namex path alive (by rw [here, noTarget]; rfl) (by rw [here]; rfl)
  cases syscall with
  | «open» path omode =>
      dsimp only [State.callStep]
      split
      · exact walks _ path rfl
      · exact walks _ path rfl
  | mkdir path => exact walks _ path rfl
  | mknod path => exact walks _ path rfl
  | link old new => exact walks _ old rfl
  | unlink path => exact walks _ path rfl
  | chdir path => exact walks _ path rfl
  | exec path => exact walks _ path rfl
  | dup fd => exact balanced.dup fd alive
  | close fd => exact balanced.fileclose fd here (.inl rfl) alive ready
  | exit =>
      refine balanced.keep rfl rfl rfl rfl ?_ rfl alive
        (balanced.locks_kept rfl (by rw [here]; rfl)) (by simp [Pc.lock]) (by simp)
      intro inum
      simp only [Proc.uses, Proc.held, here]
      rfl

theorem Balanced.step {action : Action Pid} (balanced : state.Balanced)
    (taken : state.step action = some after) : after.Balanced := by
  unfold State.step at taken
  split at taken
  · cases taken
  · split at taken
    · next pid syscall =>
        split at taken
        · next isReady =>
            cases taken
            exact balanced.callStep isReady syscall
        · cases taken
    · exact balanced.runStep taken
    · next parent child =>
        split at taken
        · next mayFork =>
            dsimp only at taken
            split at taken
            · next cwd isCwd =>
                cases taken
                exact balanced.fork mayFork.1 mayFork.2.1 isCwd
            · cases taken
        · cases taken

/-! ## A fresh image -/

/-- What `mkfs` enters in the root directory: names of distinct files. -/
structure RootFiles (files : List (Name × Inum)) : Prop where
  notDots : ∀ entry ∈ files, entry.1 ≠ dot ∧ entry.1 ≠ dotdot
  notRoot : ∀ entry ∈ files, entry.2 ≠ rootInum
  nodup : (files.map Prod.snd).Nodup

/-- The state after `mkfs` and `userinit`: the first process is at the root. -/
def fresh (files : List (Name × Inum)) (padding : Nat) (init : Pid) : State Pid where
  type := fun ip => if ip = rootInum then .dir else if ip ∈ files.map Prod.snd then .file else .free
  nlink := fun ip => if ip = rootInum ∨ ip ∈ files.map Prod.snd then 1 else 0
  entries := fun ip => if ip = rootInum then
    dotEntries rootInum rootInum ++ (files.map some ++ List.replicate padding none) else []
  ref := fun ip => if ip = rootInum then 1 else 0
  valid := fun _ => false
  lock := fun _ => none
  proc := fun pid => ⟨decide (pid = init), if pid = init then some rootInum else none, fun _ => none,
    .idle, none⟩
  file := fun _ => none
  panic := none
  history := ⟨fun _ => 0, fun ip => decide (ip = rootInum), fun _ => 0, 1, fun _ => (rootInum, 0)⟩

def IsFresh (state : State Pid) : Prop :=
  ∃ files padding init, RootFiles files ∧ state = fresh files padding init

theorem IsFresh.balanced (isFresh : state.IsFresh) : state.Balanced := by
  obtain ⟨files, padding, init, -, rfl⟩ := isFresh
  refine ⟨fun inum => ?_, fun inum pid => iff_of_false nofun nofun, fun pid dead => ?_,
    fun pid ip => nofun, fun f => ?_, nofun⟩
  · have opened : (fresh files padding init).opened inum = 0 := countWhere_eq_zero.mpr fun _ => rfl
    have first : ((fresh files padding init).proc init).uses inum =
        if inum = rootInum then 1 else 0 := by
      change [].count inum + (if init = init then some rootInum else none).toList.count inum +
        [].count inum + [].count inum = _
      rw [if_pos rfl, Option.toList_some, List.count_nil, List.count_singleton]
      by_cases isRoot : inum = rootInum
      · rw [if_pos isRoot, isRoot, if_pos (beq_self_eq_true rootInum)]
      · rw [if_neg isRoot, if_neg fun same => isRoot (eq_of_beq same).symm]
    have sum : tally Proc.uses (fresh files padding init).proc inum =
        ((fresh files padding init).proc init).uses inum := by
      unfold tally total
      refine Finset.sum_eq_single init (fun pid _ other => ?_) (fun absent => ?_)
      · simp [fresh, Proc.uses, Proc.held, Proc.dropping, other, Pc.held]
      · exact (absent (Finset.mem_univ init)).elim
    rw [opened, sum, first]
    rfl
  · have other : pid ≠ init := by simpa [fresh] using dead
    exact ⟨rfl, rfl, if_neg other, fun _ => rfl⟩
  · refine iff_of_false (not_not.mpr rfl) ?_
    rintro ⟨pid, fd, impossible⟩
    cases impossible

/-- No call is in progress. -/
def Quiet (state : State Pid) : Prop :=
  ∀ pid, (state.proc pid).pc = .idle ∧ (state.proc pid).put = none

instance (state : State Pid) : Decidable state.Quiet :=
  inferInstanceAs (Decidable (∀ _, _ ∧ _))

/-- Every reference is that of a current directory or of an open file, and nothing is locked. -/
structure ReferencesExact (state : State Pid) : Prop where
  refs : ∀ inum, state.ref inum =
    countWhere (fun proc : Proc => decide (proc.cwd = some inum)) state.proc + state.opened inum
  locks : ∀ inum, state.lock inum = none
  files : ∀ f, state.file f ≠ none ↔ ∃ pid fd, (state.proc pid).ofile fd = some f

/-- In every run no inode is locked without a reference, and whenever no call is in progress the
references are exact. -/
theorem references_exact (run : Run step anyStep IsFresh state) :
    state.panic ≠ some .ilock ∧ (state.Quiet → state.ReferencesExact) := by
  have balanced : state.Balanced := run.invariant (fun _ isFresh => isFresh.balanced)
    fun _ _ _ balanced _ taken => balanced.step taken
  refine ⟨balanced.noIlock, fun quiet => ⟨fun inum => ?_, fun inum => ?_, balanced.files⟩⟩
  · rw [balanced.refs inum, countWhere, Finset.card_filter]
    congr 1
    refine Finset.sum_congr rfl fun pid _ => ?_
    obtain ⟨idle, noPut⟩ := quiet pid
    have isCwd : (state.proc pid).cwd.toList.count inum =
        if decide ((state.proc pid).cwd = some inum) = true then 1 else 0 := by
      cases (state.proc pid).cwd with
      | none => rfl
      | some cwd => simp [List.count_singleton]
    rw [← isCwd]
    simp only [Proc.uses, Proc.held, Proc.dropping, idle, noPut]
    exact Nat.zero_add _
  · by_contra isLocked
    obtain ⟨pid, isPid⟩ := Option.ne_none_iff_exists'.mp isLocked
    have impossible := (balanced.locks inum pid).mp isPid
    rw [(quiet pid).1] at impossible
    cases impossible

/-- A process makes a directory, enters it and forks; its child removes the directory. -/
def rmdirInUse : List (Action Bool) :=
  .call false (.mkdir ['d']) :: List.replicate 8 (.run false) ++
    .call false (.chdir ['d']) :: List.replicate 8 (.run false) ++
    .fork false true :: .call true (.unlink ['/', 'd']) :: List.replicate 8 (.run true)

/-- A fresh image with one file. -/
def oneFile : State Bool := fresh [(['i'], ⟨2, by decide⟩)] 3 false

theorem oneFile_isFresh : oneFile.IsFresh := by
  refine ⟨_, _, _, ⟨?_, ?_, ?_⟩, rfl⟩
  · decide
  · decide
  · decide

/-- Both processes use the removed directory in the end. -/
theorem references_exact_rmdirInUse : ∃ state : State Bool, state.Quiet ∧
    state.ref ⟨3, by decide⟩ = 2 ∧ state.ReferencesExact := by
  have ran : ((execute step (fun _ _ => true) oneFile rmdirInUse).any fun state =>
      decide (state.Quiet ∧ state.ref ⟨3, by decide⟩ = 2)) = true := by
    decide +kernel
  obtain ⟨last, isLast, holds⟩ := (Option.any_eq_true _ _).mp ran
  obtain ⟨quiet, refs⟩ := of_decide_eq_true holds
  have run := run_of_execute rmdirInUse (.start oneFile_isFresh) isLast
  exact ⟨last, quiet, refs, (references_exact (run.mono fun _ _ _ => trivial)).2 quiet⟩

end State

end Coursework.Directory
