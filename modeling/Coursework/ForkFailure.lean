import Coursework.AliveProcesses
import Coursework.PageDemand

/-!
# Forks that fail

`fork` with its result, the numbers of processes and the references that a child takes
to files and i-nodes.  A `fork` that runs out of memory gives back what it has taken,
with one exception: in `copyuvm` the page for a copy is in no page table yet when there
is no page for its table.  The first page of every page table has the table made right
after its copy, so that the exception is a matter of the number of free pages.
-/

namespace Coursework.Paging

/-- The part of the kernel that `fork` works on. -/
structure Kernel (PipeId FileId InodeId : Type) where
  memory : State PipeId
  nextpid : Nat
  number : Pid → Nat
  ofile : Pid → Fin NOFILE → Option FileId
  cwd : Pid → InodeId
  fileRef : FileId → Nat
  inodeRef : InodeId → Nat

/-! ## Address spaces -/

namespace State

variable {PipeId : Type} {layout : Layout} {state : State PipeId} {pid : Pid}

/-- The processes have page directories. -/
def Spaced (state : State PipeId) : Prop :=
  ∀ pid, (state.proc pid).status = .alive → (state.proc pid).pgdir.isSome = true

theorem endows_space (layout : Layout) : Endows layout fun proc => proc.pgdir.isSome = true where
  parent _ _ := id
  copied _ _ _ _ _ _ _ _ := (Outcome.any _).mono (fun _ => id) fun _ _ _ _ => rfl
  loaded _ _ _ _ := (Outcome.any _).mono (fun _ => id) fun _ _ _ _ _ => rfl
  grown _ _ _ _ _ _ _ _ := (Outcome.any _).mono (fun _ => id) fun _ _ => rfl

theorem Spaced.of_run [DecidableEq PipeId] [Fintype PipeId]
    (run : Run (State.step layout) anyStep (State.IsBooted layout) state) : state.Spaced :=
  ((endows_space layout).run (fun _ _ _ => rfl) run).2

/-- The number of pages that a copy of the address space comes to: those below the size of
the process, up to the first one that is missing. -/
def copiable (state : State PipeId) (pid : Pid) : Nat :=
  match (state.proc pid).pgdir with
  | none => 0
  | some dir => (List.range (pagesBelow (state.proc pid).sz)).findIdx fun page =>
      (dir.pte page).isNone

theorem reaches_copiable {dir : Dir} (isDir : (state.proc pid).pgdir = some dir) :
    Reaches dir 0 (pagesBelow (state.proc pid).sz) (state.copiable pid) := by
  generalize count : pagesBelow (state.proc pid).sz = n
  have isStop : state.copiable pid = (List.range n).findIdx fun page => (dir.pte page).isNone := by
    rw [copiable, isDir, count]
  have atMost : state.copiable pid ≤ n := by
    rw [isStop]
    exact List.findIdx_le_length.trans_eq List.length_range
  refine ⟨Nat.zero_le _, ?_, ?_⟩
  · intro other _ below
    rw [isStop] at below
    have present := List.not_of_lt_findIdx below
    rw [List.getElem_range, Option.isNone_eq_false_iff] at present
    exact present
  · rcases Nat.eq_or_lt_of_le atMost with isEnd | before
    · exact Or.inl (by omega)
    · refine Or.inr ⟨by omega, ?_⟩
      rw [isStop] at before ⊢
      have missing := List.findIdx_getElem (w := before.trans_eq List.length_range.symm)
      rw [List.getElem_range, Option.isNone_iff_eq_none] at missing
      exact missing

end State

/-! ## The call -/

namespace Kernel

variable {PipeId FileId InodeId : Type} [DecidableEq FileId] [DecidableEq InodeId]

/-- `p->pid = nextpid++`. -/
def assign (kernel : Kernel PipeId FileId InodeId) (child : Pid) : Kernel PipeId FileId InodeId :=
  { kernel with
    nextpid := kernel.nextpid + 1
    number := Function.update kernel.number child kernel.nextpid }

/-- `np->ofile[i] = filedup(curproc->ofile[i])` for a file that is open. -/
def dupFile (kernel : Kernel PipeId FileId InodeId) (pid child : Pid) (fd : Fin NOFILE) :
    Kernel PipeId FileId InodeId :=
  match kernel.ofile pid fd with
  | none => kernel
  | some f =>
      { kernel with
        fileRef := Function.update kernel.fileRef f (kernel.fileRef f + 1)
        ofile := Function.update kernel.ofile child
          (Function.update (kernel.ofile child) fd (some f)) }

/-- `np->cwd = idup(curproc->cwd)`. -/
def dupCwd (kernel : Kernel PipeId FileId InodeId) (pid child : Pid) :
    Kernel PipeId FileId InodeId :=
  { kernel with
    inodeRef := Function.update kernel.inodeRef (kernel.cwd pid)
      (kernel.inodeRef (kernel.cwd pid) + 1)
    cwd := Function.update kernel.cwd child (kernel.cwd pid) }

/-- The files of a child. -/
def dup (kernel : Kernel PipeId FileId InodeId) (pid child : Pid) :
    Kernel PipeId FileId InodeId :=
  ((List.finRange NOFILE).foldl (fun kernel fd => kernel.dupFile pid child fd) kernel).dupCwd
    pid child

/-- `fork`: the result and the kernel after it. -/
def fork (layout : Layout) (kernel : Kernel PipeId FileId InodeId) (pid : Pid) :
    Except Panic (Int × Kernel PipeId FileId InodeId) :=
  match kernel.memory.unusedSlot, (kernel.memory.proc pid).pgdir with
  | some child, some dir =>
      let kernel := kernel.assign child
      let state := kernel.memory
      match kalloc state.freelist with
      | none =>
          .ok (-1, { kernel with
            memory := state.setProc child { state.proc child with kstack := none } })
      | some (kstack, freelist) => do
          let (copy, freelist) ← copyuvm layout freelist dir (state.proc pid).sz
          match copy with
          | none => do
              let freelist ← kfree layout freelist kstack
              return (-1, { kernel with
                memory := { state with freelist := freelist }.setProc child
                  { state.proc child with kstack := none, pgdir := none } })
          | some copied =>
              return (kernel.number child, ({ kernel with
                memory := { state with freelist := freelist }.setProc child
                  ⟨.alive, some kstack, some copied, (state.proc pid).sz, some pid⟩ }).dup
                    pid child)
  | _, _ => .ok (-1, kernel)

theorem memory_dup (kernel : Kernel PipeId FileId InodeId) (pid child : Pid) :
    (kernel.dup pid child).memory = kernel.memory := by
  have files : ∀ fds : List (Fin NOFILE), (fds.foldl (fun kernel fd =>
      kernel.dupFile pid child fd) kernel).memory = kernel.memory := by
    intro fds
    induction fds generalizing kernel with
    | nil => rfl
    | cons fd fds ih =>
        rw [List.foldl_cons, ih, dupFile]
        split <;> rfl
  exact files _

/-- On the memory this is the `fork` of the processes. -/
theorem memory_fork (layout : Layout) (kernel : Kernel PipeId FileId InodeId) (pid : Pid) :
    (kernel.fork layout pid).map (fun result => result.2.memory) =
      kernel.memory.fork layout pid := by
  rw [fork, State.fork]
  cases kernel.memory.unusedSlot with
  | none => rfl
  | some child =>
      cases (kernel.memory.proc pid).pgdir with
      | none => rfl
      | some dir =>
          simp only [assign]
          cases kalloc kernel.memory.freelist with
          | none => rfl
          | some allocated =>
              obtain ⟨kstack, rest⟩ := allocated
              simp only
              cases copyuvm layout rest dir (kernel.memory.proc pid).sz with
              | error panic => rfl
              | ok copy =>
                  obtain ⟨copied, freelist⟩ := copy
                  cases copied with
                  | none =>
                      simp only [bind, Except.bind]
                      cases kfree layout freelist kstack <;> rfl
                  | some copied =>
                      simp only [bind, Except.bind, Except.map, pure, Except.pure, memory_dup]

/-- The pages that a `fork` takes for the user pages below a page: a kernel stack, the
kernel's part of the page directory, and the copies. -/
def forkPages (page : Nat) : Nat := 1 + kernelPages + copyPages page

/-- The slot of the child and all references are as before, and so are the free pages
except for those that are lost. -/
structure Returned (before after : Kernel PipeId FileId InodeId) (child : Pid)
    (lost : List Frame) : Prop where
  files : after.fileRef = before.fileRef
  inodes : after.inodeRef = before.inodeRef
  unused : (after.memory.proc child).status = .unused
  noStack : (after.memory.proc child).kstack = none
  pages : ∀ frame, after.memory.freelist.count frame + lost.count frame =
    before.memory.freelist.count frame

variable {layout : Layout} {kernel : Kernel PipeId FileId InodeId} {pid child : Pid} {dir : Dir}
  {stop : Nat}

/-- `fork` fails exactly when there are too few pages, and loses a page exactly when there
is none for a page table of the user. -/
theorem fork_spec [Fintype PipeId] (owned : kernel.memory.Owned layout)
    (alive : (kernel.memory.proc pid).status = .alive)
    (slot : kernel.memory.unusedSlot = some child)
    (isDir : (kernel.memory.proc pid).pgdir = some dir)
    (reaches : Reaches dir 0 (pagesBelow (kernel.memory.proc pid).sz) stop) :
    Outcome (fun _ => forkPages stop ≤ kernel.memory.freelist.length)
      (fun result =>
        0 ≤ result.1 ∧ forkPages stop ≤ kernel.memory.freelist.length ∨
        result.1 = -1 ∧ kernel.memory.freelist.length < forkPages stop ∧
          ∃ lost, Returned kernel result.2 child lost ∧ (lost ≠ [] ↔
            ∃ table, table * NPDENTRIES < stop ∧
              kernel.memory.freelist.length = forkPages (table * NPDENTRIES) + 1))
      (kernel.fork layout pid) := by
  have unused : (kernel.memory.proc child).status = .unused := by
    simpa using List.find?_some slot
  have inside := owned.sizes pid alive
  unfold fork
  rw [slot, isDir]
  simp only [assign]
  split
  · next exhausted =>
      have isEmpty : kernel.memory.freelist = [] := kalloc_none exhausted
      refine Or.inr ⟨rfl, ?_, [], ⟨rfl, rfl, ?_, ?_, fun _ => Nat.add_zero _⟩, ?_⟩
      · rw [isEmpty, List.length_nil, forkPages]
        omega
      · simpa [State.setProc] using unused
      · simp [State.setProc]
      · simp only [ne_eq, not_true_eq_false, false_iff]
        rintro ⟨table, -, isFree⟩
        rw [isEmpty, List.length_nil] at isFree
        omega
  · next kstack rest allocated =>
      have isList := kalloc_some allocated
      have size : kernel.memory.freelist.length = rest.length + 1 := by
        rw [isList, List.length_cons]
      have taken : ∀ frame, kernel.memory.freelist.count frame =
          rest.count frame + single kstack frame := by
        intro frame
        rw [isList, count_cons_eq]
      have bounded : ∀ frame, rest.count frame ≤ capacity layout frame := by
        intro frame
        have := taken frame
        have := owned.bounded frame
        omega
      apply Outcome.bind ((copyuvm_exact bounded inside.le reaches).mono ?_ fun _ same => same)
      · rintro ⟨copy, freelist1⟩ copied
        cases copy with
        | none =>
            obtain ⟨tooFew, lost, isLost, account⟩ := copied
            simp only at tooFew account
            have mine := account kstack
            have mineTaken := taken kstack
            have mineBound := owned.bounded kstack
            rw [single_self] at mineTaken
            simp only
            rw [kfree_ok (by omega)]
            refine Or.inr ⟨rfl, by rw [forkPages]; omega, lost, ⟨rfl, rfl, ?_, ?_, ?_⟩, ?_⟩
            · simpa [State.setProc] using unused
            · simp [State.setProc]
            · intro frame
              have := account frame
              have := taken frame
              change (kstack :: freelist1).count frame + lost.count frame = _
              rw [count_cons_eq]
              omega
            · rw [isLost]
              simp only [forkPages, size]
              constructor
              · rintro ⟨table, below, isFree⟩
                exact ⟨table, below, by omega⟩
              · rintro ⟨table, below, isFree⟩
                exact ⟨table, below, by omega⟩
        | some copy =>
            refine Or.inl ⟨Int.natCast_nonneg _, ?_⟩
            simp only at copied
            rw [forkPages]
            omega
      · intro error enough
        rw [forkPages]
        omega

/-- A `fork` that fails leaves the free pages, the references and the slot as they were. -/
structure Restored (before after : Kernel PipeId FileId InodeId) (child : Pid) : Prop where
  pages : ∀ frame, frame ∈ after.memory.freelist ↔ frame ∈ before.memory.freelist
  files : after.fileRef = before.fileRef
  inodes : after.inodeRef = before.inodeRef
  unused : (after.memory.proc child).status = .unused
  noStack : (after.memory.proc child).kstack = none

omit [DecidableEq FileId] [DecidableEq InodeId] in
theorem Returned.restored_iff {after : Kernel PipeId FileId InodeId} {lost : List Frame}
    (returned : Returned kernel after child lost)
    (bounded : ∀ frame, kernel.memory.freelist.count frame ≤ capacity layout frame) :
    Restored kernel after child ↔ lost = [] := by
  constructor
  · intro restored
    by_contra isLost
    obtain ⟨frame, rest, rfl⟩ := List.exists_cons_of_ne_nil isLost
    have account := returned.pages frame
    have bound := bounded frame
    have atMost : capacity layout frame ≤ 1 := by
      unfold capacity
      split <;> omega
    rw [count_cons_eq, single_self] at account
    have gone : frame ∉ after.memory.freelist := by
      rw [← List.count_eq_zero]
      omega
    apply gone
    rw [restored.pages frame, ← List.count_pos_iff]
    omega
  · rintro rfl
    refine ⟨?_, returned.files, returned.inodes, returned.unused, returned.noStack⟩
    intro frame
    have account := returned.pages frame
    rw [List.count_nil, Nat.add_zero] at account
    rw [← List.count_pos_iff, account, List.count_pos_iff]

theorem forkPages_table (table : Nat) :
    forkPages (table * NPDENTRIES) + 1 = 67 + 1025 * table := by
  simp only [forkPages, kernelPages, copyPages, NPDENTRIES]
  omega

theorem table_lt_forkPages {table stop : Nat} (below : table * NPDENTRIES < stop) :
    67 + 1025 * table < forkPages stop := by
  have least := copyPages_mono (Nat.succ_le_of_lt below)
  have next := copyPages_succ (table * NPDENTRIES)
  rw [if_pos (Nat.mul_mod_left _ _)] at next
  rw [← forkPages_table]
  simp only [forkPages, Nat.succ_eq_add_one] at *
  omega

/-- `fork` in a state of a run. -/
theorem fork_of_run [Fintype PipeId] [DecidableEq PipeId]
    (run : Run (State.step layout) anyStep (State.IsBooted layout) kernel.memory)
    (alive : (kernel.memory.proc pid).status = .alive)
    (slot : kernel.memory.unusedSlot = some child) :
    Outcome (fun _ => forkPages (kernel.memory.copiable pid) ≤ kernel.memory.freelist.length)
      (fun result =>
        0 ≤ result.1 ∧
          forkPages (kernel.memory.copiable pid) ≤ kernel.memory.freelist.length ∨
        result.1 = -1 ∧
          kernel.memory.freelist.length < forkPages (kernel.memory.copiable pid) ∧
          (Restored kernel result.2 child ↔
            ∀ table, table * NPDENTRIES < kernel.memory.copiable pid →
              kernel.memory.freelist.length ≠ 67 + 1025 * table))
      (kernel.fork layout pid) := by
  have owned : State.Owned layout kernel.memory :=
    run.invariant (fun _ booted => State.Owned.of_booted booted)
      fun _ _ _ owned _ taken => owned.step taken
  have spaced : State.Spaced kernel.memory := State.Spaced.of_run run
  obtain ⟨dir, isDir⟩ := Option.isSome_iff_exists.mp (spaced pid alive)
  apply (fork_spec owned alive slot isDir (State.reaches_copiable isDir)).mono (fun _ => id)
  rintro ⟨returned, after⟩ (succeeded | ⟨isFailure, tooFew, lost, isReturned, isLost⟩)
  · exact Or.inl succeeded
  · refine Or.inr ⟨isFailure, tooFew, ?_⟩
    rw [isReturned.restored_iff owned.bounded, ← not_ne_iff, isLost]
    simp only [forkPages_table, not_exists, not_and]

/-- In every run: a `fork` with a free slot fails exactly when the free pages are fewer
than it takes.  Then the free pages, the references and the slot are as before, unless
the pages run out at a page table of the user. -/
theorem failed_fork_restores_iff [Fintype PipeId] [DecidableEq PipeId]
    (run : Run (State.step layout) anyStep (State.IsBooted layout) kernel.memory)
    (alive : (kernel.memory.proc pid).status = .alive)
    (slot : kernel.memory.unusedSlot = some child) :
    ((∃ after, kernel.fork layout pid = .ok (-1, after)) ↔
      kernel.memory.freelist.length < forkPages (kernel.memory.copiable pid)) ∧
    ((kernel.memory.freelist.length < forkPages (kernel.memory.copiable pid) →
        ∃ after, kernel.fork layout pid = .ok (-1, after) ∧ Restored kernel after child) ↔
      ∀ table, table * NPDENTRIES < kernel.memory.copiable pid →
        kernel.memory.freelist.length ≠ 67 + 1025 * table) := by
  have outcome := fork_of_run run alive slot
  have noTable : forkPages (kernel.memory.copiable pid) ≤ kernel.memory.freelist.length →
      ∀ table, table * NPDENTRIES < kernel.memory.copiable pid →
        kernel.memory.freelist.length ≠ 67 + 1025 * table := by
    intro enough table below
    have := table_lt_forkPages below
    omega
  cases isFork : kernel.fork layout pid with
  | error panic =>
      rw [isFork] at outcome
      have enough : forkPages (kernel.memory.copiable pid) ≤ kernel.memory.freelist.length := outcome
      refine ⟨⟨?_, fun tooFew => by omega⟩, ⟨fun _ => noTable enough, fun _ tooFew => by omega⟩⟩
      rintro ⟨after, impossible⟩
      cases impossible
  | ok result =>
      obtain ⟨returned, after⟩ := result
      rw [isFork] at outcome
      rcases outcome with ⟨succeeded, enough⟩ | ⟨isFailure, tooFew, isRestored⟩
      · refine ⟨⟨?_, fun tooFew => by omega⟩, ⟨fun _ => noTable enough, fun _ tooFew => by omega⟩⟩
        rintro ⟨other, same⟩
        cases same
        simp at succeeded
      · simp only at isFailure isRestored
        subst isFailure
        refine ⟨⟨fun _ => tooFew, fun _ => ⟨after, rfl⟩⟩, ?_⟩
        rw [← isRestored]
        constructor
        · intro property
          obtain ⟨other, same, restored⟩ := property tooFew
          cases same
          exact restored
        · exact fun restored _ => ⟨after, rfl, restored⟩

/-- A kernel whose processes have no open files. -/
def withoutFiles (memory : State Unit) : Kernel Unit Unit Unit where
  memory := memory
  nextpid := 2
  number := fun _ => 1
  ofile := fun _ _ => none
  cwd := fun _ => ()
  fileRef := fun _ => 0
  inodeRef := fun _ => 1

/-- With three free pages the first process cannot make a page directory. -/
theorem failed_fork_restores_iff_small : ∃ after,
    (withoutFiles smallMachine).fork smallLayout initproc = .ok (-1, after) ∧
      Restored (withoutFiles smallMachine) after ⟨1, by decide⟩ := by
  have facts : (smallMachine.proc initproc).status = .alive ∧
      smallMachine.unusedSlot = some ⟨1, by decide⟩ ∧ smallMachine.copiable initproc = 1 := by
    decide +kernel
  obtain ⟨alive, slot, isCopiable⟩ := facts
  have run : Run (State.step smallLayout) anyStep (State.IsBooted smallLayout)
      (withoutFiles smallMachine).memory := .start smallMachine_booted
  obtain ⟨-, clean⟩ := failed_fork_restores_iff run alive slot
  apply clean.mpr
  · intro table _
    change 3 ≠ 67 + 1025 * table
    omega
  · change 3 < forkPages (smallMachine.copiable initproc)
    rw [isCopiable]
    decide

/-- The small machine with as many pages as a process of one page takes, less one. -/
def tightMachine : State Unit := { smallMachine with freelist := List.range' 700 67 }

theorem tightMachine_booted : tightMachine.IsBooted smallLayout :=
  spareMachine_booted (by decide)

/-- With 67 free pages there is a page for the copy and none for its page table: `fork`
fails and the page is lost. -/
theorem fork_loses_page : ∃ after,
    (withoutFiles tightMachine).fork smallLayout initproc = .ok (-1, after) ∧
      (withoutFiles tightMachine).memory.freelist.length <
        forkPages ((withoutFiles tightMachine).memory.copiable initproc) ∧
      ¬ Restored (withoutFiles tightMachine) after ⟨1, by decide⟩ := by
  have facts : (tightMachine.proc initproc).status = .alive ∧
      tightMachine.unusedSlot = some ⟨1, by decide⟩ ∧ tightMachine.copiable initproc = 1 ∧
      tightMachine.freelist.length = 67 := by
    decide +kernel
  have booted := tightMachine_booted
  have isMemory : (withoutFiles tightMachine).memory = tightMachine := rfl
  rw [← isMemory] at facts booted
  generalize withoutFiles tightMachine = kernel at *
  obtain ⟨alive, slot, isCopiable, size⟩ := facts
  have outcome := fork_of_run (.start booted) alive slot
  have tooFew : kernel.memory.freelist.length <
      forkPages (kernel.memory.copiable initproc) := by
    have needed : forkPages 1 = 68 := by decide
    rw [isCopiable, needed]
    omega
  cases isFork : kernel.fork smallLayout initproc with
  | error panic =>
      rw [isFork] at outcome
      exact absurd tooFew (Nat.not_lt.mpr outcome)
  | ok result =>
      obtain ⟨returned, after⟩ := result
      rw [isFork] at outcome
      rcases outcome with ⟨-, enough⟩ | ⟨isFailure, -, isRestored⟩
      · exact absurd tooFew (Nat.not_lt.mpr enough)
      · simp only at isFailure isRestored
        subst isFailure
        refine ⟨after, rfl, tooFew, ?_⟩
        rw [isRestored]
        intro noTable
        apply noTable 0 _ size
        rw [isCopiable]
        decide

end Kernel

end Coursework.Paging
