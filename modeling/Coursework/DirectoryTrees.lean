import Coursework.DirectoryRuns
import Coursework.LedgerTrees

/-!
# The directory tree after any run

A fresh image has a root directory with files in it, and one process at the root.  After a careful
run of any number of processes every entry names an allocated inode and `..` names the directory
where its directory was made, so no path walk meets a freed inode.  After a strict run, when no call
is in progress, the allocated inodes are those of a tree with exact link counts, and those without
links that some process still uses.
-/

namespace Coursework.Directory

open FileSystem (FileType)

namespace State

variable {Pid : Type} [DecidableEq Pid] [Fintype Pid] {strict : Prop}
  {state after : State Pid} {pid : Pid} {ip : Inum}

/-! ## A fresh image -/

theorem fresh_tallies (files : List (Name × Inum)) (padding : Nat) (init : Pid) (inum : Inum) :
    (fresh files padding init).ledger.dropping inum = 0 ∧
      (fresh files padding init).ledger.pending inum = 0 ∧
      (fresh files padding init).ledger.making inum = 0 :=
  ⟨Finset.sum_eq_zero fun _ _ => rfl, Finset.sum_eq_zero fun _ _ => rfl,
    Finset.sum_eq_zero fun _ _ => rfl⟩

omit [Fintype Pid] in
theorem fresh_entries (files : List (Name × Inum)) (padding : Nat) (init : Pid) :
    (fresh files padding init).entries rootInum =
      dotEntries rootInum rootInum ++ (files.map some ++ List.replicate padding none) := by
  simp only [fresh, if_true]

omit [Fintype Pid] in
theorem fresh_entries_other (files : List (Name × Inum)) (padding : Nat) (init : Pid) {dir : Inum}
    (notRoot : dir ≠ rootInum) : (fresh files padding init).entries dir = [] :=
  if_neg notRoot

omit [Fintype Pid] in
/-- An entry of a fresh image is a dot of the root directory or names a file. -/
theorem fresh_entry {files : List (Name × Inum)} {padding : Nat} {init : Pid} {dir inum : Inum}
    {name : Name} (member : some (name, inum) ∈ (fresh files padding init).entries dir) :
    dir = rootInum ∧ (inum = rootInum ∧ (name = dot ∨ name = dotdot) ∨ (name, inum) ∈ files) := by
  by_cases isRoot : dir = rootInum
  · refine ⟨isRoot, ?_⟩
    rw [isRoot, fresh_entries] at member
    rcases List.mem_append.mp member with isDot | inRest
    · left
      simp only [dotEntries, List.mem_cons, Option.some.injEq, Prod.mk.injEq, List.not_mem_nil,
        or_false] at isDot
      rcases isDot with ⟨isName, isInum⟩ | ⟨isName, isInum⟩
      · exact ⟨isInum, .inl isName⟩
      · exact ⟨isInum, .inr isName⟩
    · right
      rcases List.mem_append.mp inRest with isFile | isNone
      · obtain ⟨entry, isEntry, same⟩ := List.mem_map.mp isFile
        rwa [← Option.some.inj same]
      · cases List.eq_of_mem_replicate isNone
  · rw [fresh_entries_other files padding init isRoot] at member
    cases member

theorem RootFiles.entry_dots {files : List (Name × Inum)} (rootFiles : RootFiles files)
    (padding : Nat) {name : Name} {inum : Inum}
    (member : some (name, inum) ∈ files.map some ++ List.replicate padding none) :
    name ≠ dot ∧ name ≠ dotdot := by
  rcases List.mem_append.mp member with isFile | isNone
  · obtain ⟨entry, isEntry, same⟩ := List.mem_map.mp isFile
    have notDots := rootFiles.notDots entry isEntry
    rwa [Option.some.inj same] at notDots
  · cases List.eq_of_mem_replicate isNone

/-- The names in the root directory are those of the files. -/
theorem RootFiles.named {files : List (Name × Inum)} (rootFiles : RootFiles files) (padding : Nat)
    (init : Pid) (inum : Inum) :
    (fresh files padding init).ledger.named inum = (files.map Prod.snd).count inum := by
  have here : (fresh files padding init).ledger.named inum =
      ((fresh files padding init).entries rootInum).countP (linksTo inum) := by
    unfold Ledger.named total
    refine Finset.sum_eq_single rootInum (fun dir _ notRoot => ?_) (fun absent => ?_)
    · change ((fresh files padding init).entries dir).countP (linksTo inum) = 0
      rw [fresh_entries_other files padding init notRoot, List.countP_nil]
    · exact (absent (Finset.mem_univ rootInum)).elim
  rw [here, fresh_entries, List.countP_append, List.countP_append, Ledger.countP_dotEntries]
  have padded : (List.replicate padding (none : Slot Inum)).countP (linksTo inum) = 0 := by
    rw [List.countP_replicate]
    rfl
  have counted : (files.map some).countP (linksTo inum) = (files.map Prod.snd).count inum := by
    rw [List.countP_map, List.count, List.countP_map]
    apply List.countP_congr
    intro entry isEntry
    obtain ⟨notDot, notDotdot⟩ := rootFiles.notDots entry isEntry
    change linksTo inum (some entry) = true ↔ (entry.2 == inum) = true
    rw [Ledger.linksTo_iff]
    simp [notDot, notDotdot]
  omega

/-- The root directory is its own container, and the only attached directory. -/
theorem fresh_children (files : List (Name × Inum)) (padding : Nat) (init : Pid) (inum : Inum) :
    (fresh files padding init).ledger.children inum = if inum = rootInum then 1 else 0 := by
  unfold Ledger.children
  by_cases isRoot : inum = rootInum
  · subst isRoot
    rw [if_pos rfl, countWhere, Finset.card_eq_one]
    refine ⟨rootInum, ?_⟩
    ext other
    rw [Finset.mem_filter, Finset.mem_singleton]
    change other ∈ Finset.univ ∧
      (decide (other = rootInum) && decide (rootInum = rootInum)) = true ↔ _
    rw [decide_eq_true rfl, Bool.and_true, decide_eq_true_iff]
    exact and_iff_right (Finset.mem_univ other)
  · rw [if_neg isRoot]
    refine countWhere_eq_zero.mpr fun other => ?_
    change (decide (other = rootInum) && decide (rootInum = inum)) = false
    rw [decide_eq_false (Ne.symm isRoot), Bool.and_false]

omit [Fintype Pid] in
theorem fresh_type (files : List (Name × Inum)) (padding : Nat) (init : Pid) (inum : Inum) :
    ((fresh files padding init).type inum = .dir ↔ inum = rootInum) ∧
      ((fresh files padding init).type inum = .free ↔
        inum ≠ rootInum ∧ inum ∉ files.map Prod.snd) := by
  simp only [fresh]
  by_cases isRoot : inum = rootInum
  · simp [isRoot]
  · by_cases isFile : inum ∈ files.map Prod.snd
    · rw [if_neg isRoot, if_pos isFile]
      exact ⟨iff_of_false (by simp) isRoot, iff_of_false (by simp) fun free => free.2 isFile⟩
    · rw [if_neg isRoot, if_neg isFile]
      exact ⟨iff_of_false (by simp) isRoot, iff_of_true rfl ⟨isRoot, isFile⟩⟩

theorem fresh_root_attached (files : List (Name × Inum)) (padding : Nat) (init : Pid) :
    (fresh files padding init).ledger.attached rootInum = true := by
  change decide (rootInum = rootInum) = true
  exact decide_eq_true rfl

theorem RootFiles.sound {files : List (Name × Inum)} (rootFiles : RootFiles files) (padding : Nat)
    (init : Pid) : (fresh files padding init).ledger.Sound rootInum where
  refs := (IsFresh.balanced ⟨files, padding, init, rootFiles, rfl⟩).ledger_refs
  heldAlive := by
    intro inum isHeld isFree
    have notRoot := ((fresh_type files padding init inum).2.mp isFree).1
    have unused : (fresh files padding init).ledger.ref inum = 0 := if_neg notRoot
    have refs := (IsFresh.balanced ⟨files, padding, init, rootFiles, rfl⟩).ledger_refs inum
    omega
  freeBlank := by
    intro inum isFree
    obtain ⟨notRoot, noFile⟩ := (fresh_type files padding init inum).2.mp isFree
    change (if inum = rootInum ∨ inum ∈ files.map Prod.snd then (1 : Int) else 0) = 0
    exact if_neg (not_or.mpr ⟨notRoot, noFile⟩)
  named := by
    intro dir name inum member
    refine ⟨fun isFree => ?_, (fresh_tallies files padding init inum).2.2⟩
    obtain ⟨notRoot, noFile⟩ := (fresh_type files padding init inum).2.mp isFree
    have entry : some (name, inum) ∈ (fresh files padding init).entries dir := member
    rcases (fresh_entry entry).2 with ⟨isRoot, -⟩ | isFile
    · exact notRoot isRoot
    · exact noFile (List.mem_map_of_mem isFile)
  plain := by
    rintro dir (notDir | isMade)
    · exact fresh_entries_other files padding init fun isRoot =>
        notDir ((fresh_type files padding init dir).1.mpr isRoot)
    · rw [(fresh_tallies files padding init dir).2.2] at isMade
      cases isMade
  dots := by
    intro dir isDir _
    obtain rfl := (fresh_type files padding init dir).1.mp isDir
    exact ⟨_, fresh_entries files padding init, fun name inum => rootFiles.entry_dots padding⟩
  making := by
    intro inum isMade
    rw [(fresh_tallies files padding init inum).2.2] at isMade
    cases isMade
  balance := by
    intro inum
    rw [rootFiles.named, fresh_children, (fresh_tallies files padding init inum).2.1]
    change (if inum = rootInum ∨ inum ∈ files.map Prod.snd then (1 : Int) else 0) = _
    have rootless : (files.map Prod.snd).count rootInum = 0 := by
      apply List.count_eq_zero.mpr
      intro member
      obtain ⟨entry, isFile, isRoot⟩ := List.mem_map.mp member
      exact rootFiles.notRoot entry isFile isRoot
    by_cases isRoot : inum = rootInum
    · rw [if_pos (.inl isRoot), if_pos isRoot, isRoot, rootless]
      rfl
    · by_cases isFile : inum ∈ files.map Prod.snd
      · rw [if_pos (.inr isFile), if_neg isRoot, List.count_eq_one_of_mem rootFiles.nodup isFile]
        rfl
      · rw [if_neg (not_or.mpr ⟨isRoot, isFile⟩), if_neg isRoot, List.count_eq_zero.mpr isFile]
        rfl
  attachedDir := by
    intro inum attached
    exact (fresh_type files padding init inum).1.mpr (of_decide_eq_true attached)
  placed := by
    intro dir name inum member notDot notDotdot isDir
    obtain rfl := (fresh_type files padding init inum).1.mp isDir
    have entry : some (name, rootInum) ∈ (fresh files padding init).entries dir := member
    rcases (fresh_entry entry).2 with ⟨-, isDot | isDotdot⟩ | isFile
    · exact (notDot isDot).elim
    · exact (notDotdot isDotdot).elim
    · exact (rootFiles.notRoot _ isFile rfl).elim
  single := by
    intro inum _ attached notRoot
    exact (notRoot (of_decide_eq_true attached)).elim
  rooted := ⟨fresh_root_attached files padding init, rfl, (fresh_tallies files padding init rootInum).2.2⟩
  older := by
    intro inum isDir _
    obtain rfl := (fresh_type files padding init inum).1.mp isDir
    exact ⟨isDir, rfl, fun notRoot => (notRoot rfl).elim, Nat.zero_lt_one⟩

theorem fresh_exact (files : List (Name × Inum)) (padding : Nat) (init : Pid) :
    (fresh files padding init).ledger.Exact := by
  have linked : ∀ inum, (fresh files padding init).ledger.type inum ≠ .free →
      (fresh files padding init).ledger.nlink inum ≠ 0 := by
    intro inum allocated
    have used : inum = rootInum ∨ inum ∈ files.map Prod.snd := by
      by_contra unused
      exact allocated ((fresh_type files padding init inum).2.mpr (not_or.mp unused))
    change (if inum = rootInum ∨ inum ∈ files.map Prod.snd then (1 : Int) else 0) ≠ 0
    rw [if_pos used]
    exact Int.one_ne_zero
  refine ⟨?_, fun _ => rfl, ?_, ?_⟩
  · intro dir isDir removed
    obtain rfl := (fresh_type files padding init dir).1.mp isDir
    rw [fresh_root_attached] at removed
    cases removed
  · intro inum allocated unlinked
    exact (linked inum allocated unlinked).elim
  · intro inum allocated unlinked
    exact (linked inum allocated unlinked).elim

theorem IsFresh.inv (isFresh : state.IsFresh) : state.Inv strict := by
  refine ⟨isFresh.balanced, ?_, fun _ => ?_, ?_, ?_⟩
  all_goals obtain ⟨files, padding, init, rootFiles, rfl⟩ := isFresh
  · exact rootFiles.sound padding init
  · exact fresh_exact files padding init
  · exact fun _ => trivial
  · exact nofun

/-- Every state of a careful run keeps the invariant. -/
theorem inv_of_run (run : Run step (Careful strict) IsFresh state) : state.Inv strict :=
  run.invariant (fun _ isFresh => isFresh.inv) fun _ _ _ inv careful taken => inv.step careful taken

/-! ## Path walks -/

/-- What path walks rely on: whatever they may reach is allocated, and `..` leads to the directory
that contained the directory when it was made, which has not been freed since. -/
structure PathsSafe (state : State Pid) : Prop where
  entries : ∀ dir name inum, some (name, inum) ∈ state.entries dir → state.type inum ≠ .free
  uses : ∀ pid inum, inum ∈ (state.proc pid).pc.held ∨ (state.proc pid).cwd = some inum →
    state.type inum ≠ .free
  files : ∀ f inum, state.file f = some inum → state.type inum ≠ .free
  dots : ∀ dir, state.type dir = .dir →
    (∀ pid dp name type, (state.proc pid).pc ≠ .creating dp name dir type) →
    slotLookup dot (state.entries dir) = some (0, dir) ∧
      slotLookup dotdot (state.entries dir) = some (1, (state.history.container dir).1)
  containers : ∀ dir name inum, some (name, inum) ∈ state.entries dir →
    state.type (state.history.container dir).1 = .dir ∧
      state.history.born (state.history.container dir).1 = (state.history.container dir).2
  panic : state.panic ≠ some .ilock ∧ state.panic ≠ some .noType

omit [DecidableEq Pid] in
/-- An inode that nobody is making is made. -/
theorem making_eq_zero_of_nobody
    (nobody : ∀ pid dp name type, (state.proc pid).pc ≠ .creating dp name ip type) :
    state.ledger.making ip = 0 := by
  refine Finset.sum_eq_zero fun pid _ => ?_
  change (state.proc pid).pc.making.count ip = 0
  have notHere := nobody pid
  cases isPc : (state.proc pid).pc with
  | creating dp name inum type =>
      have distinct : inum ≠ ip := by
        rintro rfl
        exact notHere dp name type isPc
      simpa [Pc.making, List.count_eq_zero] using distinct.symm
  | _ => rfl

omit [DecidableEq Pid] in
theorem Inv.pathsSafe (inv : state.Inv strict) : state.PathsSafe where
  entries := fun dir name inum member => (inv.sound.named dir name inum member).1
  uses := by
    rintro pid inum (member | isCwd)
    · exact alive_of_held inv.sound (held_pos_of_mem member)
    · have isHeld : 0 < (state.proc pid).held inum := by simp [Proc.held, isCwd]
      exact alive_of_held inv.sound isHeld
  files := by
    intro f inum isFile
    apply inv.sound.heldAlive
    have opened : 0 < state.opened inum := countWhere_pos f (decide_eq_true isFile)
    exact Nat.lt_of_lt_of_le opened (Nat.le_add_left ..)
  dots := by
    intro dir isDir nobody
    obtain ⟨rest, isEntries, -⟩ := inv.sound.dots dir isDir (making_eq_zero_of_nobody nobody)
    change state.entries dir = _ at isEntries
    rw [isEntries]
    exact ⟨rfl, rfl⟩
  containers := by
    intro dir name inum member
    obtain ⟨isDir, made, -⟩ := inv.sound.entry_dots member
    obtain ⟨containerDir, born, -⟩ := inv.sound.older dir isDir made
    exact ⟨containerDir, born⟩
  panic := ⟨inv.noIlock, inv.noType⟩

/-- Path walks never reach a freed inode in a careful run. -/
theorem paths_safe (run : Run step (Careful False) IsFresh state) : state.PathsSafe :=
  (inv_of_run run).pathsSafe

/-- A careful run removes a directory that both processes are in. -/
theorem rmdirInUse_careful : ∃ state : State Bool, Run step (Careful True) IsFresh state ∧
    state.Quiet ∧ state.type ⟨3, by decide⟩ = .dir ∧ state.nlink ⟨3, by decide⟩ = 0 := by
  have ran : ((execute step (fun state action => decide (Careful True state action)) oneFile
      rmdirInUse).any fun state => decide (state.Quiet ∧ state.type ⟨3, by decide⟩ = .dir ∧
        state.nlink ⟨3, by decide⟩ = 0)) = true := by
    decide +kernel
  obtain ⟨last, isLast, holds⟩ := (Option.any_eq_true _ _).mp ran
  have run := run_of_execute rmdirInUse (.start oneFile_isFresh) isLast
  exact ⟨last, run.mono fun _ _ => of_decide_eq_true, of_decide_eq_true holds⟩

theorem paths_safe_rmdirInUse : ∃ state : State Bool, state.type ⟨3, by decide⟩ = .dir ∧
    state.nlink ⟨3, by decide⟩ = 0 ∧ state.PathsSafe := by
  obtain ⟨last, run, -, isDir, unlinked⟩ := rmdirInUse_careful
  refine ⟨last, isDir, unlinked, paths_safe (run.mono fun state action careful => ?_)⟩
  cases action with
  | run pid =>
      refine ⟨fun ip isChecked => ?_, fun _ _ => nofun⟩
      exact ⟨(careful.1 ip isChecked).noDotdot, nofun⟩
  | _ => trivial

/-! ## The tree -/

/-- The directories are a tree with exact link counts, and nothing is leaked. -/
structure TreeExact (state : State Pid) : Prop where
  nlink : ∀ inum, state.nlink inum = linksFrom state.nlink state.entries inum
  reachable : ∀ inum, state.nlink inum ≠ 0 →
    Relation.ReflTransGen (Names state.entries) rootInum inum
  used : ∀ inum, state.type inum ≠ .free → state.nlink inum = 0 →
    (∃ pid, (state.proc pid).cwd = some inum) ∨ ∃ f, state.file f = some inum
  noLeak : (∀ pid cwd, (state.proc pid).cwd = some cwd → cwd = rootInum) →
    (∀ f, state.file f = none) → ∀ inum, state.type inum ≠ .free →
    Relation.ReflTransGen (Names state.entries) rootInum inum

omit [DecidableEq Pid] in
theorem Quiet.tallies (quiet : state.Quiet) (inum : Inum) :
    state.ledger.pending inum = 0 ∧ state.ledger.making inum = 0 := by
  constructor
  · refine Finset.sum_eq_zero fun pid _ => ?_
    change (state.proc pid).pc.pending.count inum = 0
    rw [(quiet pid).1]
    rfl
  · refine Finset.sum_eq_zero fun pid _ => ?_
    change (state.proc pid).pc.making.count inum = 0
    rw [(quiet pid).1]
    rfl

omit [DecidableEq Pid] in
/-- Between calls only current directories and open files hold an inode. -/
theorem Quiet.user (quiet : state.Quiet) (isHeld : 0 < state.ledger.held ip) :
    (∃ pid, (state.proc pid).cwd = some ip) ∨ ∃ f, state.file f = some ip := by
  by_contra unused
  obtain ⟨noCwd, noFile⟩ := not_or.mp unused
  have opened : state.opened ip = 0 := by
    refine countWhere_eq_zero.mpr fun f => decide_eq_false fun isFile => noFile ⟨f, isFile⟩
  have held : tally Proc.held state.proc ip = 0 := by
    refine Finset.sum_eq_zero fun pid _ => ?_
    obtain ⟨idle, noPut⟩ := quiet pid
    have notCwd : (state.proc pid).cwd.toList.count ip = 0 := by
      apply List.count_eq_zero.mpr
      intro member
      exact noCwd ⟨pid, Option.mem_toList.mp member⟩
    change (state.proc pid).pc.held.count ip + (state.proc pid).cwd.toList.count ip +
      ((state.proc pid).put.elim [] Put.held).count ip = 0
    rw [idle, noPut, notCwd]
    rfl
  have total : state.ledger.held ip = tally Proc.held state.proc ip + state.opened ip := rfl
  omega

/-- Between the calls of a strict run the link counts are exact and nothing is leaked. -/
theorem tree_exact (run : Run step (Careful True) IsFresh state) (quiet : state.Quiet) :
    state.TreeExact := by
  have inv : state.Inv True := inv_of_run run
  have exactly := inv.exact trivial
  have reachable : ∀ inum, state.nlink inum ≠ 0 →
      Relation.ReflTransGen (Names state.entries) rootInum inum := fun inum linked =>
    exactly.linked_reachable inv.sound (quiet.tallies inum).1 linked
  have used : ∀ inum, state.type inum ≠ .free → state.nlink inum = 0 →
      (∃ pid, (state.proc pid).cwd = some inum) ∨ ∃ f, state.file f = some inum :=
    fun inum allocated unlinked => quiet.user (exactly.noLeak inum allocated unlinked)
  refine ⟨fun inum => ?_, reachable, used, fun atRoot noFiles inum allocated => ?_⟩
  · exact exactly.nlink_eq inv.sound (fun inum => (quiet.tallies inum).1)
      (fun inum => (quiet.tallies inum).2) inum
  · by_cases linked : state.nlink inum = 0
    · rcases used inum allocated linked with ⟨pid, isCwd⟩ | ⟨f, isFile⟩
      · rw [atRoot pid inum isCwd]
      · rw [noFiles f] at isFile
        cases isFile
    · exact reachable inum linked

theorem tree_exact_rmdirInUse : ∃ state : State Bool, state.type ⟨3, by decide⟩ = .dir ∧
    state.nlink ⟨3, by decide⟩ = 0 ∧ state.TreeExact := by
  obtain ⟨last, run, quiet, isDir, unlinked⟩ := rmdirInUse_careful
  exact ⟨last, isDir, unlinked, tree_exact run quiet⟩

end State

end Coursework.Directory
