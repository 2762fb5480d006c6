import Coursework.DirectoryChanges

/-!
# Runs of the directory calls

Every action of every process keeps the invariant, so it holds in every run from a fresh image.
Two things can go wrong in `iput`, and one in `link` and `create`; a run is careful where they do
not.  A careful run never frees a directory that is the `..` of another one.  A strict run also
enters nothing in a directory without links, and no two processes drop their references to an
inode without links at the same time.
-/

namespace Coursework.Directory

open FileSystem (FileType)

/-- The inode that `iput` is about to check. -/
def Proc.checks (proc : Proc) : Option Inum :=
  match proc.put with
  | some (.check ip) => some ip
  | _ => none

/-- The directory that the next step may write an entry into. -/
def Proc.writes (proc : Proc) : Option Inum :=
  match proc.put, proc.pc with
  | none, .resolved (.linkNew _) ip _ => some ip
  | none, .creating dp _ _ _ => some dp
  | _, _ => none

namespace State

variable {Pid : Type} [DecidableEq Pid] [Fintype Pid] {strict : Prop}
  {state after : State Pid} {pid : Pid} {proc : Proc} {ip dp : Inum}

/-! ## The calls after their path walks -/

/-- A call that found an inode puts it. -/
theorem Inv.resolvedPut (inv : state.Inv strict) {lookup : Lookup} {name : Name}
    (balanced : (state.iput pid ip .idle).Balanced)
    (here : (state.proc pid).pc = .resolved lookup ip name) (ready : (state.proc pid).put = none)
    (noTarget : lookup.target = []) : (state.iput pid ip .idle).Inv strict := by
  apply inv.iput balanced ready
  · rw [here]
    exact noTarget.symm
  · rw [here]
    rfl
  · trivial

theorem Inv.resolvedStep (inv : state.Inv strict) (balanced : after.Balanced) {lookup : Lookup}
    {name : Name} (here : (state.proc pid).pc = .resolved lookup ip name)
    (ready : (state.proc pid).put = none)
    (mayWrite : ∀ target, lookup = .linkNew target → state.MayWrite strict ip)
    (taken : state.resolvedStep pid lookup ip name = some after) : after.Inv strict := by
  unfold State.resolvedStep at taken
  refine inv.withLock balanced here (by simp [Pc.held]) taken ?_
  intro loaded same nlinks unlocked isRead inv
  rw [← same] at here ready
  have fact := inv.facts pid
  rw [here] at fact
  have noMaking : (loaded.proc pid).pc.making = [] := by
    rw [here]
    rfl
  have isPending : (loaded.proc pid).pc.pending = lookup.target := by
    rw [here]
    rfl
  cases lookup with
  | «open» omode =>
      dsimp only
      split
      · exact fun balanced => inv.resolvedPut balanced here ready rfl
      · exact fun balanced => inv.openFile balanced ready isPending noMaking
  | exec => exact fun balanced => inv.resolvedPut balanced here ready rfl
  | chdir =>
      dsimp only
      split
      · exact fun balanced => inv.resolvedPut balanced here ready rfl
      · intro balanced
        refine inv.quiet balanced rfl ⟨?_, ?_, ?_⟩ trivial rfl rfl rfl rfl rfl rfl rfl
        · intro inum
          simp only [Proc.dropping, ready]
          cases (loaded.proc pid).cwd <;> rfl
        · intro inum
          rw [Proc.pending, Proc.pending, isPending]
          rfl
        · intro inum
          rw [Proc.making, Proc.making, noMaking]
          rfl
  | linkOld new =>
      dsimp only
      split
      · exact fun balanced => inv.resolvedPut balanced here ready rfl
      · next notDir => exact fun balanced => inv.linkOld balanced here ready notDir
  | linkNew target =>
      have isDir : loaded.type ip = .dir := fact.2 rfl
      dsimp only
      rw [if_neg (not_not.mpr isDir)]
      split
      · next off existing found =>
          intro balanced
          refine inv.takeAt (inv.found_made found) balanced ready rfl isPending.symm noMaking.symm ?_
          intro after types _ _
          change after.type target ≠ .dir
          rw [types]
          exact fact.1
      · next missing =>
          intro balanced
          refine inv.enter balanced here ready unlocked isDir missing fun isStrict => ?_
          rw [nlinks]
          exact mayWrite target rfl isStrict
  | unlink =>
      have isDir : loaded.type ip = .dir := fact.2 rfl
      dsimp only
      split
      · exact fun balanced => inv.resolvedPut balanced here ready rfl
      · next notDots =>
          rw [if_neg (not_not.mpr isDir)]
          split
          · exact fun balanced => inv.resolvedPut balanced here ready rfl
          · next off found isFound =>
              intro balanced
              refine inv.takeAt (inv.found_made isFound) balanced ready ?_ isPending.symm
                noMaking.symm ?_
              · change (loaded.proc pid).put.elim [] Put.dropping = []
                rw [ready]
                rfl
              · intro after _ entries valids
                have isUsed := inv.ref_pos here (List.mem_cons_self ..)
                refine ⟨valids ip isUsed isRead, name, ?_, fun isDot => notDots (.inl isDot),
                  fun isDotdot => notDots (.inr isDotdot)⟩
                rw [entries]
                exact slotLookup_get isFound
  | create type =>
      have isDir : loaded.type ip = .dir := fact.2 rfl
      dsimp only
      rw [if_neg (not_not.mpr isDir)]
      split
      · next off found isFound =>
          intro balanced
          exact inv.takeAt (inv.found_made isFound) balanced ready rfl isPending.symm noMaking.symm
            fun _ _ _ _ => trivial
      · next missing =>
          split
          · exact fun _ => inv.fail (by decide)
          · next new isNew =>
              intro balanced
              have isFree : loaded.type new = .free := by
                have passes := List.find?_some isNew
                simp at passes
                exact passes.2
              exact inv.alloc balanced here isDir missing isFree

/-! ## All steps -/

/-- The next step of a process meets nothing that spoils the account. -/
def CarefulStep (strict : Prop) (state : State Pid) (pid : Pid) : Prop :=
  (∀ ip ∈ (state.proc pid).checks, state.MayCheck strict ip) ∧
    ∀ dp ∈ (state.proc pid).writes, state.MayWrite strict dp

/-- The side condition of a careful run, and of a strict run. -/
def Careful (strict : Prop) (state : State Pid) : Action Pid → Prop
  | .run pid => state.CarefulStep strict pid
  | _ => True

instance [Decidable strict] (state : State Pid) (ip : Inum) : Decidable (MayCheck strict state ip) :=
  decidable_of_iff ((state.valid ip = true → state.nlink ip = 0 → state.ref ip = 1 →
      ∀ dir, some (dotdot, ip) ∈ state.entries dir → dir = ip) ∧
    (strict → state.nlink ip = 0 → ∀ pid, (state.proc pid).put ≠ some (.drop ip)))
    ⟨fun both => ⟨both.1, both.2⟩, fun may => ⟨may.noDotdot, may.alone⟩⟩

instance [Decidable strict] (state : State Pid) (dp : Inum) : Decidable (MayWrite strict state dp) :=
  inferInstanceAs (Decidable (strict → 1 ≤ state.nlink dp))

instance [Decidable strict] (state : State Pid) (pid : Pid) :
    Decidable (CarefulStep strict state pid) :=
  inferInstanceAs (Decidable (_ ∧ _))

instance [Decidable strict] (state : State Pid) : DecidablePred (Careful strict state)
  | .run pid => inferInstanceAs (Decidable (CarefulStep strict state pid))
  | .call _ _ | .fork _ _ => isTrue trivial

theorem Inv.runStep (inv : state.Inv strict) (balanced : after.Balanced)
    (careful : state.CarefulStep strict pid) (taken : state.runStep pid = some after) :
    after.Inv strict := by
  unfold State.runStep at taken
  split at taken
  · next ip isPut =>
      exact inv.checkStep balanced isPut (careful.1 ip (by rw [Proc.checks, isPut]; rfl)) taken
  · next ip isPut =>
      cases taken
      exact inv.dropStep balanced isPut
  · next ready =>
      split at taken
      · cases taken
      · next lookup ip path here => exact inv.walkStep balanced here ready taken
      · next lookup ip name here =>
          refine inv.resolvedStep balanced here ready (fun target isLink => ?_) taken
          rw [isLink] at here
          exact careful.2 ip (by rw [Proc.writes, ready, here]; rfl)
      · next dp off ip here => exact inv.unlinkStep balanced here ready taken
      · next dp here =>
          cases taken
          exact inv.iput balanced ready (by rw [here]; rfl) (by rw [here]; rfl) trivial
      · next ip here =>
          cases taken
          have isRead : state.valid ip = true := by
            have fact := inv.facts pid
            rwa [here] at fact
          exact inv.lower balanced (by rw [here]; exact List.mem_cons_self ..) (by rw [here]; rfl)
            (by rw [here]; rfl) ready isRead
      · next type ip here =>
          refine inv.withLock balanced here (by simp [Pc.held]) taken ?_
          intro loaded same _ _ _ inv
          rw [← same] at here ready
          split
          · exact fun balanced => inv.openFile balanced ready (by rw [here]; rfl) (by rw [here]; rfl)
          · exact fun balanced =>
              inv.iput balanced ready (by rw [here]; rfl) (by rw [here]; rfl) trivial
      · next dp name ip type here =>
          exact inv.createStep balanced here ready
            (careful.2 dp (by rw [Proc.writes, ready, here]; rfl)) taken
      · next ip type here =>
          split at taken
          · cases taken
            exact inv.openFile balanced ready (by rw [here]; rfl) (by rw [here]; rfl)
          · cases taken
            exact inv.iput balanced ready (by rw [here]; rfl) (by rw [here]; rfl) trivial
      · next dp ip here =>
          cases taken
          have fact := inv.facts pid
          rw [here] at fact
          exact inv.iput balanced ready (by rw [here]; rfl) (by rw [here]; rfl) fact
      · next ip here =>
          cases taken
          exact inv.iput balanced ready (by rw [here]; rfl) (by rw [here]; rfl) trivial
      · next ip here =>
          refine inv.withLock balanced here (by simp [Pc.held]) taken ?_
          intro loaded same _ _ isRead inv balanced
          rw [← same] at here ready
          exact inv.lower balanced (by rw [here]; exact List.mem_cons_self ..) (by rw [here]; rfl)
            (by rw [here]; rfl) ready isRead
      · next ip here =>
          cases taken
          refine inv.quiet balanced rfl ⟨fun _ => rfl, ?_, ?_⟩ trivial rfl rfl rfl rfl rfl rfl rfl
          · intro inum
            simp only [Proc.pending, here]
            rfl
          · intro inum
            simp only [Proc.making, here]
            rfl
      · next here =>
          cases taken
          exact inv.exitStep balanced here ready

theorem Inv.callStep (inv : state.Inv strict) {syscall : Syscall}
    (balanced : (state.callStep pid syscall).Balanced) (isReady : state.ready pid = true) :
    (state.callStep pid syscall).Inv strict := by
  obtain ⟨-, here, ready⟩ := ready_spec isReady
  have walks : ∀ (lookup : Lookup) (path : List Char), lookup.target = [] →
      state.LookupFact lookup → (state.namex pid lookup path).Balanced →
      (state.namex pid lookup path).Inv strict := by
    intro lookup path noTarget fact balanced
    exact inv.namex balanced ready (by rw [here, noTarget]; rfl) (by rw [here]; rfl) fact
  cases syscall with
  | «open» path omode =>
      refine walks _ path ?_ ?_ balanced
      · split <;> rfl
      · split
        · exact nofun
        · trivial
  | mkdir path => exact walks _ path rfl nofun balanced
  | mknod path => exact walks _ path rfl nofun balanced
  | link old new => exact walks _ old rfl trivial balanced
  | unlink path => exact walks _ path rfl trivial balanced
  | chdir path => exact walks _ path rfl trivial balanced
  | exec path => exact walks _ path rfl trivial balanced
  | dup fd => exact inv.dup fd balanced
  | close fd => exact inv.fileclose fd balanced here ready
  | exit => exact inv.goto balanced (by rw [here]; rfl) (by rw [here]; rfl) trivial

theorem Inv.step {action : Action Pid} (inv : state.Inv strict)
    (careful : state.Careful strict action) (taken : state.step action = some after) :
    after.Inv strict := by
  have balanced := inv.toBalanced.step taken
  unfold State.step at taken
  split at taken
  · cases taken
  · split at taken
    · next pid syscall =>
        split at taken
        · next isReady =>
            cases taken
            exact inv.callStep balanced isReady
        · cases taken
    · exact inv.runStep balanced careful taken
    · next parent child =>
        split at taken
        · next mayFork =>
            dsimp only at taken
            split at taken
            · next cwd isCwd =>
                cases taken
                exact inv.fork balanced mayFork.1 mayFork.2.1 isCwd
            · cases taken
        · cases taken

end State

end Coursework.Directory
