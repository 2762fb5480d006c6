import Coursework.DirectoryFiles

/-!
# Link, unlink and create

The steps of the calls that change link counts and directory entries follow the transitions of
the ledger that are made for them.
-/

namespace Coursework.Directory

open FileSystem (FileType)

namespace State

variable {Pid : Type} [DecidableEq Pid] [Fintype Pid] {strict : Prop}
  {state after : State Pid} {pid : Pid} {proc : Proc} {ip dp : Inum}

/-- In a strict run an entry is written only into a directory with links. -/
def MayWrite (strict : Prop) (state : State Pid) (dp : Inum) : Prop := strict → 1 ≤ state.nlink dp

omit [DecidableEq Pid] in
/-- A directory whose unlinking is not under way has no link count to settle. -/
theorem Inv.settled (inv : state.Inv strict) (isDir : state.type ip = .dir)
    (notCleared : ∀ pid, (state.proc pid).pc ≠ .unlinkCleared ip) :
    state.ledger.pending ip = 0 := by
  refine Finset.sum_eq_zero fun pid _ => ?_
  change (state.proc pid).pc.pending.count ip = 0
  have fact := inv.facts pid
  have notHere := notCleared pid
  have noTarget : ∀ lookup : Lookup, state.LookupFact lookup → lookup.target.count ip = 0 := by
    intro lookup known
    cases lookup with
    | linkNew other =>
        apply List.count_eq_zero.mpr
        rintro member
        rw [List.mem_singleton.mp member] at isDir
        exact known isDir
    | _ => rfl
  have notNamed : ∀ other, state.type other ≠ .dir → [other].count ip = 0 := by
    intro other notDir
    apply List.count_eq_zero.mpr
    intro member
    rw [List.mem_singleton.mp member] at isDir
    exact notDir isDir
  cases isPc : (state.proc pid).pc with
  | walk lookup inum path =>
      rw [isPc] at fact
      exact noTarget lookup fact
  | resolved lookup inum name =>
      rw [isPc] at fact
      exact noTarget lookup fact.1
  | unlinkCleared inum =>
      rw [isPc] at notHere
      apply List.count_eq_zero.mpr
      intro member
      exact notHere (congrArg Pc.unlinkCleared (List.mem_singleton.mp member).symm)
  | linkExists dir inum =>
      rw [isPc] at fact
      exact notNamed inum fact
  | undo inum =>
      rw [isPc] at fact
      exact notNamed inum fact
  | _ => rfl

omit [DecidableEq Pid] in
/-- Nobody unlinks an inode that is not locked. -/
theorem Inv.notCleared (inv : state.Inv strict) (unlocked : state.lock ip = none) (pid : Pid) :
    (state.proc pid).pc ≠ .unlinkCleared ip := by
  intro isPc
  have locked := (inv.locks ip pid).mpr (by rw [isPc]; rfl)
  rw [unlocked] at locked
  cases locked

/-! ## Link -/

/-- `link` raises the link count before it looks for the directory. -/
theorem Inv.linkOld (inv : state.Inv strict) {new : List Char} {name : Name}
    (balanced : ((state.setNlink ip (state.nlink ip + 1)).namex pid (.linkNew ip) new).Balanced)
    (here : (state.proc pid).pc = .resolved (.linkOld new) ip name)
    (ready : (state.proc pid).put = none) (notDir : state.type ip ≠ .dir) :
    ((state.setNlink ip (state.nlink ip + 1)).namex pid (.linkNew ip) new).Inv strict := by
  have member : ip ∈ (state.proc pid).pc.held := by rw [here]; exact List.mem_cons_self ..
  have allocated := alive_of_held inv.sound (held_pos_of_mem member)
  have made : state.ledger.making ip = 0 := by
    have extra : (state.proc pid).making ip < (state.proc pid).held ip := by
      have isHeld := held_pos_of_mem member
      rw [Proc.making, here]
      exact isHeld
    exact making_eq_zero inv.sound extra
  -- the count is raised as if the call stood at its undo, and then the walk starts
  set proc : Proc := { state.proc pid with pc := .undo ip } with isUndo
  set raised : State Pid := (state.setNlink ip (state.nlink ip + 1)).setProc pid proc with isRaised
  have pending : ∀ inum, proc.pending inum = (state.proc pid).pending inum + [ip].count inum := by
    intro inum
    simp [isUndo, Proc.pending, here, Pc.pending, Lookup.target]
  have making : ∀ inum, proc.making inum = (state.proc pid).making inum := by
    intro inum
    simp only [isUndo, Proc.making, here]
    rfl
  have raisedBalanced : raised.Balanced := by
    refine inv.keep rfl rfl rfl rfl ?_ rfl (inv.alive (by simp [here]))
      (inv.locks_kept rfl (by rw [here]; rfl)) (by simp [Pc.lock]) (by simp)
    intro inum
    simp only [isUndo, Proc.uses, Proc.held, here]
    rfl
  have raisedInv : raised.Inv strict := by
    refine inv.move raisedBalanced rfl (.single ?_) (fun _ _ _ => rfl) (fun _ _ _ _ => rfl)
      (fun _ _ _ => id) notDir rfl
    exact inv.ledger_step (.raise allocated made) raisedBalanced rfl rfl rfl rfl rfl rfl
      (tally_same fun _ => rfl) (tally_gain pending) (tally_same making)
  have undo : raised.proc pid = proc := Function.update_self ..
  have same : raised.namex pid (.linkNew ip) new =
      (state.setNlink ip (state.nlink ip + 1)).namex pid (.linkNew ip) new := by
    simp only [isRaised, isUndo, State.namex, State.goto, State.setProc, State.iget, State.setNlink,
      Function.update_self, Function.update_idem]
    rfl
  rw [← same] at balanced ⊢
  exact raisedInv.namex balanced (by rw [undo]; exact ready) (by rw [undo]; rfl) (by rw [undo]; rfl)
    notDir

/-- A call settles the link count of the inode that it holds, and puts it. -/
theorem Inv.lower (inv : state.Inv strict) {lock : Inum → Option Pid}
    (balanced : ({ state.setNlink ip (state.nlink ip - 1) with lock := lock }.iput pid ip
      .idle).Balanced)
    (held : ip ∈ (state.proc pid).pc.held) (pending : (state.proc pid).pc.pending = [ip])
    (making : (state.proc pid).pc.making = []) (ready : (state.proc pid).put = none)
    (isRead : state.valid ip = true) :
    ({ state.setNlink ip (state.nlink ip - 1) with lock := lock }.iput pid ip .idle).Inv strict := by
  set proc : Proc := { state.proc pid with pc := .idle, put := some (.check ip) } with isPutting
  have sameDropping : ∀ inum, proc.dropping inum = (state.proc pid).dropping inum := by
    intro inum
    simp only [isPutting, Proc.dropping, ready, Option.elim_some, Option.elim_none, Put.dropping]
  have lessPending : ∀ inum, proc.pending inum + [ip].count inum = (state.proc pid).pending inum := by
    intro inum
    simp only [isPutting, Proc.pending, pending]
    exact Nat.zero_add _
  have sameMaking : ∀ inum, proc.making inum = (state.proc pid).making inum := by
    intro inum
    simp only [isPutting, Proc.making, making]
    rfl
  have isPending : 0 < state.ledger.pending ip := by
    have mine := le_total (fun proc : Proc => proc.pending ip) state.proc pid
    have here := lessPending ip
    rw [List.count_singleton_self] at here
    exact Nat.lt_of_lt_of_le (by omega) mine
  have isHeld : 0 < state.ledger.held ip :=
    Nat.lt_of_lt_of_le (held_pos_of_mem held) (state.held_le pid ip)
  refine inv.move balanced rfl (.single ?_) (fun _ _ _ => rfl) (fun _ _ _ _ => rfl)
    (fun _ _ _ => id) trivial rfl
  exact inv.ledger_step (.lower isPending isHeld isRead) balanced rfl rfl rfl rfl rfl rfl
    (tally_same sameDropping) (tally_lose lessPending) (tally_same sameMaking)

/-- `link` writes the entry. -/
theorem Inv.enter (inv : state.Inv strict) {target : Inum} {name : Name}
    (balanced : ((state.dirlink ip name target).iput pid ip (.linked target)).Balanced)
    (here : (state.proc pid).pc = .resolved (.linkNew target) ip name)
    (ready : (state.proc pid).put = none) (unlocked : state.lock ip = none)
    (isDir : state.type ip = .dir) (missing : slotLookup name (state.entries ip) = none)
    (mayWrite : state.MayWrite strict ip) :
    ((state.dirlink ip name target).iput pid ip (.linked target)).Inv strict := by
  have fact := inv.facts pid
  rw [here] at fact
  have notDir : state.type target ≠ .dir := fact.1
  have noMaking : ∀ inum, (state.proc pid).making inum = 0 := by
    intro inum
    rw [Proc.making, here]
    rfl
  have holds : ∀ inum ∈ [ip, target], state.type inum ≠ .free ∧ state.ledger.making inum = 0 := by
    intro inum member
    have isHeld : 0 < (state.proc pid).held inum := held_pos_of_mem (by rw [here]; exact member)
    exact ⟨alive_of_held inv.sound isHeld, making_eq_zero inv.sound (by rw [noMaking]; exact isHeld)⟩
  obtain ⟨-, dirMade⟩ := holds ip (by simp)
  obtain ⟨allocated, made⟩ := holds target (by simp)
  set proc : Proc := { state.proc pid with pc := .linked target, put := some (.check ip) }
    with isPutting
  have sameDropping : ∀ inum, proc.dropping inum = (state.proc pid).dropping inum := by
    intro inum
    simp only [isPutting, Proc.dropping, ready, Option.elim_some, Option.elim_none, Put.dropping]
  have lessPending : ∀ inum,
      proc.pending inum + [target].count inum = (state.proc pid).pending inum := by
    intro inum
    simp [isPutting, Proc.pending, here, Pc.pending, Lookup.target]
  have sameMaking : ∀ inum, proc.making inum = (state.proc pid).making inum := by
    intro inum
    simp only [isPutting, Proc.making, here]
    rfl
  have isPending : 0 < state.ledger.pending target := by
    have mine := le_total (fun proc : Proc => proc.pending target) state.proc pid
    have here := lessPending target
    rw [List.count_singleton_self] at here
    exact Nat.lt_of_lt_of_le (by omega) mine
  have settled := inv.settled isDir (inv.notCleared unlocked)
  refine inv.move balanced rfl (.single ?_) (fun _ _ _ => rfl) ?_ (fun _ _ _ => id) trivial rfl
  · exact inv.ledger_step (.enter isDir dirMade settled missing isPending notDir allocated made
      mayWrite) balanced rfl rfl rfl rfl rfl rfl (tally_same sameDropping) (tally_lose lessPending)
      (tally_same sameMaking)
  · intro inum other _ isLocked
    refine Function.update_of_ne ?_ ..
    rintro rfl
    rw [unlocked] at isLocked
    cases isLocked

/-! ## Unlink -/

/-- A step under the locks of a directory and of an inode, which puts the directory. -/
theorem Inv.handOver (inv : state.Inv strict) (balanced : after.Balanced) {pc : Pc}
    (isProc : after.proc = Function.update state.proc pid
      { state.proc pid with pc := pc, put := some (.check dp) })
    (lockBefore : (state.proc pid).pc.lock = some dp) (unlocked : state.lock ip = none)
    (step : Ledger.Step strict state.ledger after.ledger)
    (entries : ∀ inum, inum ≠ dp → inum ≠ ip → after.entries inum = state.entries inum)
    (type : after.type = state.type) (valid : after.valid = state.valid)
    (fact : after.PcFact pc) (panic : after.panic = state.panic) : after.Inv strict := by
  have mine : state.lock dp = some pid := (inv.locks dp pid).mpr lockBefore
  refine inv.move balanced isProc (.single step) (fun inum _ _ => congrFun type inum) ?_ ?_ fact panic
  · intro inum other distinct isLocked
    apply entries
    · rintro rfl
      rw [mine] at isLocked
      exact distinct (Option.some.inj isLocked).symm
    · rintro rfl
      rw [unlocked] at isLocked
      cases isLocked
  · intro inum _ _ wasRead
    rw [valid]
    exact wasRead

theorem Inv.unlinkStep (inv : state.Inv strict) (balanced : after.Balanced) {off : Nat}
    (here : (state.proc pid).pc = .unlinkFound dp off ip) (ready : (state.proc pid).put = none)
    (taken : state.unlinkStep pid dp off ip = some after) : after.Inv strict := by
  unfold State.unlinkStep at taken
  refine inv.withLock balanced here (by simp [Pc.held]) taken ?_
  intro loaded same _ unlocked isRead inv
  rw [← same] at here ready
  split
  · exact fun _ => inv.fail (by decide)
  · split
    · exact fun balanced => inv.iput balanced ready (by rw [here]; rfl) (by rw [here]; rfl) trivial
    · next notFull =>
        have fact := inv.facts pid
        rw [here] at fact
        obtain ⟨dirRead, name, isEntry, notDot, notDotdot⟩ := fact
        have dirHeld : 0 < loaded.ledger.held dp :=
          Nat.lt_of_lt_of_le (held_pos_of_mem (by rw [here]; exact List.mem_cons_self ..))
            (loaded.held_le pid dp)
        set proc : Proc := { loaded.proc pid with pc := .unlinkCleared ip, put := some (.check dp) }
          with isPutting
        have dropping : ∀ inum, proc.dropping inum = (loaded.proc pid).dropping inum := by
          intro inum
          simp only [isPutting, Proc.dropping, ready, Option.elim_some, Option.elim_none,
            Put.dropping]
        have pending : ∀ inum,
            proc.pending inum = (loaded.proc pid).pending inum + [ip].count inum := by
          intro inum
          simp [isPutting, Proc.pending, here, Pc.pending]
        have making : ∀ inum, proc.making inum = (loaded.proc pid).making inum := by
          intro inum
          simp only [isPutting, Proc.making, here]
          rfl
        dsimp only
        split
        · next isDir =>
            intro balanced
            have isEmpty : loaded.isdirempty ip = true := by
              by_contra full
              exact notFull ⟨isDir, by simpa using full⟩
            have nothing : ∀ slot ∈ (loaded.entries ip).drop 2, slot = none := by
              intro slot member
              have none := List.all_eq_true.mp isEmpty slot member
              simpa using none
            refine inv.handOver balanced rfl (by rw [here]; rfl) unlocked ?_
              (fun inum notDp _ => Function.update_of_ne notDp ..) rfl rfl isRead rfl
            exact inv.ledger_step (.detach isEntry notDot notDotdot isDir nothing dirHeld dirRead)
              balanced rfl rfl rfl rfl rfl rfl (tally_same dropping) (tally_gain pending)
              (tally_same making)
        · next notDir =>
            intro balanced
            refine inv.handOver balanced rfl (by rw [here]; rfl) unlocked ?_
              (fun inum notDp _ => Function.update_of_ne notDp ..) rfl rfl isRead rfl
            exact inv.ledger_step (.clear isEntry notDot notDotdot notDir) balanced rfl rfl rfl rfl
              rfl rfl (tally_same dropping) (tally_gain pending) (tally_same making)

/-! ## Create -/

/-- `create` allocates an inode and keeps its directory locked. -/
theorem Inv.alloc (inv : state.Inv strict) {type : FileType} {name : Name} {new : Inum}
    (balanced : (((state.ialloc new type).setLock ip (some pid)).goto pid
      (.creating ip name new type)).Balanced)
    (here : (state.proc pid).pc = .resolved (.create type) ip name) (isDir : state.type ip = .dir)
    (missing : slotLookup name (state.entries ip) = none) (isFree : state.type new = .free) :
    (((state.ialloc new type).setLock ip (some pid)).goto pid (.creating ip name new type)).Inv
      strict := by
  have fact := inv.facts pid
  rw [here] at fact
  have real : type ≠ .free := fact.1
  have distinct : ip ≠ new := by
    rintro rfl
    rw [isDir] at isFree
    cases isFree
  set proc : Proc := { state.proc pid with pc := .creating ip name new type } with isCreating
  have samePending : ∀ inum, proc.pending inum = (state.proc pid).pending inum := by
    intro inum
    simp only [isCreating, Proc.pending, here]
    rfl
  have moreMaking : ∀ inum, proc.making inum = (state.proc pid).making inum + [new].count inum := by
    intro inum
    simp [isCreating, Proc.making, here, Pc.making]
  refine inv.move balanced rfl (.single ?_) ?_ ?_ ?_ ?_ rfl
  · exact inv.ledger_step (.alloc isFree real) balanced rfl rfl rfl rfl rfl rfl
      (tally_same fun _ => rfl) (tally_same samePending) (tally_gain moreMaking)
  · intro inum _ allocated
    apply Function.update_of_ne
    rintro rfl
    exact allocated isFree
  · intro inum other _ isLocked
    apply Function.update_of_ne
    rintro rfl
    have isHeld := held_pos_of_mem (lock_mem_held ((inv.locks inum other).mp isLocked))
    exact alive_of_held inv.sound isHeld isFree
  · intro inum _ wasHeld wasRead
    have other : inum ≠ new := by
      rintro rfl
      exact inv.sound.heldAlive inum wasHeld isFree
    change (if state.ref new = 0 then Function.update state.valid new false
      else state.valid) inum = true
    split
    · rw [Function.update_of_ne other]
      exact wasRead
    · exact wasRead
  · refine ⟨Function.update_self .., real, ?_, ?_⟩
    · exact (Function.update_of_ne distinct ..).trans isDir
    · have same : Function.update state.entries new [] ip = state.entries ip :=
        Function.update_of_ne distinct ..
      change slotLookup name (Function.update state.entries new [] ip) = none
      rw [same]
      exact missing

/-- What `create` may rely on when it has both locks. -/
theorem Inv.creating_facts (inv : state.Inv strict) {name : Name} {type : FileType}
    (here : (state.proc pid).pc = .creating dp name ip type) (unlocked : state.lock ip = none) :
    dp ≠ ip ∧ 0 < state.ledger.making ip ∧ state.ledger.making dp = 0 ∧
      state.ledger.pending dp = 0 := by
  have fact := inv.facts pid
  rw [here] at fact
  have isDir : state.type dp = .dir := fact.2.2.1
  have mine : state.lock dp = some pid := (inv.locks dp pid).mpr (by rw [here]; rfl)
  have distinct : dp ≠ ip := by
    rintro rfl
    rw [unlocked] at mine
    cases mine
  have dirHeld : 0 < (state.proc pid).held dp :=
    held_pos_of_mem (by rw [here]; exact List.mem_cons_self ..)
  refine ⟨distinct, ?_, ?_, ?_⟩
  · have counted := le_total (fun proc : Proc => proc.making ip) state.proc pid
    have one : (state.proc pid).making ip = 1 := by
      rw [Proc.making, here]
      exact List.count_singleton_self
    exact Nat.lt_of_lt_of_le (by omega) counted
  · have none : (state.proc pid).making dp = 0 := by
      simp [Proc.making, here, Pc.making, Ne.symm distinct]
    have extra : (state.proc pid).making dp < (state.proc pid).held dp := by
      rw [none]
      exact dirHeld
    exact making_eq_zero inv.sound extra
  · apply inv.settled isDir
    intro other isPc
    have theirs := (inv.locks dp other).mpr (by rw [isPc]; rfl)
    rw [mine] at theirs
    obtain rfl := Option.some.inj theirs
    rw [here] at isPc
    cases isPc

omit [DecidableEq Pid] [Fintype Pid] in
/-- The dots of a new directory. -/
theorem dirlink_dots (empty : state.entries ip = []) :
    ((state.dirlink ip dot ip).dirlink ip dotdot dp).entries =
      Function.update state.entries ip (dotEntries ip dp) := by
  change Function.update (Function.update state.entries ip (slotInsert (dot, ip) (state.entries ip)))
    ip (slotInsert (dotdot, dp)
      (Function.update state.entries ip (slotInsert (dot, ip) (state.entries ip)) ip)) = _
  rw [Function.update_self, Function.update_idem, empty]
  rfl

theorem Inv.createStep (inv : state.Inv strict) (balanced : after.Balanced) {name : Name}
    {type : FileType} (here : (state.proc pid).pc = .creating dp name ip type)
    (ready : (state.proc pid).put = none) (mayWrite : state.MayWrite strict dp)
    (taken : state.createStep pid dp name ip type = some after) : after.Inv strict := by
  unfold State.createStep at taken
  refine inv.withLock balanced here (by simp [Pc.held]) taken ?_
  intro loaded same nlinks unlocked _ inv
  rw [← same] at here ready
  have mayWrite : loaded.MayWrite strict dp := by
    intro isStrict
    rw [nlinks]
    exact mayWrite isStrict
  have fact := inv.facts pid
  rw [here] at fact
  obtain ⟨isType, real, isDir, missing⟩ := fact
  obtain ⟨distinct, isMade, dirMade, settled⟩ := inv.creating_facts here unlocked
  have empty : loaded.entries ip = [] := inv.sound.plain ip (.inr isMade)
  set proc : Proc := { loaded.proc pid with pc := .created ip type, put := some (.check dp) }
    with isPutting
  have dropping : ∀ inum, proc.dropping inum = (loaded.proc pid).dropping inum := by
    intro inum
    simp only [isPutting, Proc.dropping, ready, Option.elim_some, Option.elim_none, Put.dropping]
  have pending : ∀ inum, proc.pending inum = (loaded.proc pid).pending inum := by
    intro inum
    simp only [isPutting, Proc.pending, here]
    rfl
  have making : ∀ inum, proc.making inum + [ip].count inum = (loaded.proc pid).making inum := by
    intro inum
    simp [isPutting, Proc.making, here, Pc.making]
  dsimp only
  split
  · next isNewDir =>
      have noDots : ¬ ((slotLookup dot ((loaded.setNlink ip 1).entries ip)).isSome ∨
          (slotLookup dotdot ((loaded.setNlink ip 1).entries ip)).isSome) := by
        change ¬ ((slotLookup dot (loaded.entries ip)).isSome ∨
          (slotLookup dotdot (loaded.entries ip)).isSome)
        rw [empty]
        decide
      rw [if_neg noDots]
      have dots : ((((loaded.setNlink ip 1).setNlink dp
          ((loaded.setNlink ip 1).nlink dp + 1)).dirlink ip dot ip).dirlink ip dotdot dp).entries =
          Function.update loaded.entries ip (dotEntries ip dp) := dirlink_dots empty
      have sameDir : Function.update loaded.entries ip (dotEntries ip dp) dp = loaded.entries dp :=
        Function.update_of_ne distinct ..
      split
      · next found =>
          rw [dots, sameDir, missing] at found
          cases found
      · intro balanced
        refine inv.handOver balanced rfl (by rw [here]; rfl) unlocked ?_ (fun inum notDp notIp => ?_)
          rfl rfl trivial rfl
        · refine inv.ledger_step (.initDir isMade (isType.trans isNewDir) isDir dirMade settled missing
            mayWrite) balanced rfl ?_ ?_ rfl rfl rfl (tally_same dropping) (tally_same pending)
            (tally_lose making)
          · change Function.update (Function.update loaded.nlink ip 1) dp
              (Function.update loaded.nlink ip 1 dp + 1) = Function.update
              (Function.update loaded.nlink ip 1) dp (loaded.nlink dp + 1)
            rw [Function.update_of_ne distinct]
          · change Function.update _ dp (slotInsert (name, ip) _) = Function.update
              (Function.update loaded.entries ip (dotEntries ip dp)) dp
              (slotInsert (name, ip) (loaded.entries dp))
            rw [dots, sameDir]
        · refine (Function.update_of_ne notDp ..).trans ?_
          rw [dots]
          exact Function.update_of_ne notIp ..
  · next notDir =>
      split
      · next found =>
          change (slotLookup name (loaded.entries dp)).isSome = true at found
          rw [missing] at found
          cases found
      · intro balanced
        refine inv.handOver balanced rfl (by rw [here]; rfl) unlocked ?_
          (fun inum notDp _ => Function.update_of_ne notDp ..) rfl rfl trivial rfl
        have isFile : loaded.type ip ≠ .dir := isType ▸ notDir
        exact inv.ledger_step (.initFile isMade isFile isDir dirMade settled missing mayWrite) balanced
          rfl rfl rfl rfl rfl rfl (tally_same dropping) (tally_same pending) (tally_lose making)

end State

end Coursework.Directory
