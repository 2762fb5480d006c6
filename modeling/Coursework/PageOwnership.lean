import Coursework.PageAccounts
import Coursework.ProcessMemory

/-!
# Ownership of physical pages

The roles of a physical page: an element of the free list, a page directory, a
page table, a user page, a kernel stack or a pipe.  Every call moves pages
between roles, and the number of roles of a page never grows, whatever fails on
the way.  So a page that has at most one role at boot keeps at most one, and
`kfree` is never called on a page that is free.
-/

namespace Coursework.Paging

/-! ## Loading a program -/

section Exec

variable {layout : Layout} {freelist : Freelist} {dir : Dir} {sz : Nat}

/-- An address space that is large enough for `allocuvm` to grow. -/
theorem allocuvm_maps {oldsz newsz : Nat} (sole : Sole layout freelist dir)
    (maps : Maps dir (pagesBelow oldsz)) (user : oldsz < KERNBASE) :
    Outcome (fun _ => False)
      (fun result => (∀ frame, result.2.1.count frame + result.2.2.uses frame =
          freelist.count frame + dir.uses frame) ∧
        (result.1 = 0 ∧ Maps result.2.2 (pagesBelow oldsz) ∨
          result.1 = max oldsz newsz ∧ result.1 < KERNBASE ∧
            Maps result.2.2 (pagesBelow result.1)))
      (allocuvm layout freelist dir oldsz newsz) := by
  apply (allocuvm_spec sole).mono
  · rintro error ⟨-, inside, other, lower, upper, present⟩
    have limit := pagesBelow_le inside.le
    have := (maps other (by omega)).mp present
    omega
  · rintro ⟨size, freelist1, dir1⟩ ⟨account, cases⟩
    refine ⟨account, ?_⟩
    simp only at cases ⊢
    rcases cases with ⟨rfl, inside, larger, grows⟩ | ⟨rfl, clears⟩ | ⟨rfl, smaller, rfl⟩ |
      ⟨rfl, rfl⟩
    · refine Or.inr ⟨by omega, inside, ?_⟩
      intro other userPage
      have order : pagesBelow oldsz ≤ pagesBelow size := by
        simp only [pagesBelow, PGSIZE]
        omega
      rw [grows other (by have := user_lt_all; omega), maps other userPage]
      omega
    · refine Or.inl ⟨rfl, ?_⟩
      intro other userPage
      rw [clears other (by have := user_lt_all; omega)]
      split
      · next range =>
          simp only [Option.isSome_none, Bool.false_eq_true, false_iff]
          omega
      · exact maps other userPage
    · exact Or.inr ⟨by omega, user, maps⟩
    · exact Or.inl ⟨rfl, maps⟩

theorem loadSegments_spec (phdrs : List Proghdr) {freelist : Freelist} {dir : Dir} {sz : Nat}
    (sole : Sole layout freelist dir) (maps : Maps dir (pagesBelow sz)) (user : sz < KERNBASE) :
    Outcome (fun _ => False)
      (fun result => (∀ frame, result.2.1.count frame + result.2.2.uses frame ≤
          freelist.count frame + dir.uses frame) ∧
        ∀ size, result.1 = some size → size < KERNBASE ∧ Maps result.2.2 (pagesBelow size))
      (loadSegments layout phdrs freelist dir sz) := by
  induction phdrs generalizing freelist dir sz with
  | nil =>
      refine ⟨fun _ => le_refl _, ?_⟩
      rintro size isSize
      cases isSize
      exact ⟨user, maps⟩
  | cons ph rest ih =>
      have bad : (∀ frame, freelist.count frame + dir.uses frame ≤
          freelist.count frame + dir.uses frame) ∧ ∀ size, (none : Option Nat) = some size →
            size < KERNBASE ∧ Maps dir (pagesBelow size) :=
        ⟨fun _ => le_refl _, fun _ impossible => by cases impossible⟩
      unfold loadSegments
      split
      · exact bad
      · split
        · exact ih sole maps user
        · split
          · exact bad
          · next fits =>
              split
              · exact bad
              · next noWrap =>
                  apply Outcome.bind (allocuvm_maps sole maps user)
                  rintro ⟨size, freelist1, dir1⟩ ⟨exactly, cases⟩
                  simp only at exactly cases
                  have account := fun frame => (exactly frame).le
                  have bad1 : (∀ frame, freelist1.count frame + dir1.uses frame ≤
                      freelist.count frame + dir.uses frame) ∧
                        ∀ size, (none : Option Nat) = some size →
                          size < KERNBASE ∧ Maps dir1 (pagesBelow size) :=
                    ⟨account, fun _ impossible => by cases impossible⟩
                  simp only
                  split
                  · exact bad1
                  · next nonzero =>
                      split
                      · exact bad1
                      · next aligned =>
                          rcases cases with ⟨zero, -⟩ | ⟨isMax, inside, maps1⟩
                          · exact (nonzero zero).elim
                          · apply Outcome.bind ((loadLoop_spec ph.reads _).mono ?_
                              fun _ same => same)
                            · rintro loaded -
                              cases loaded with
                              | false => exact bad1
                              | true =>
                                  apply (ih (sole.of_le account) maps1 inside).mono (fun _ => id)
                                  rintro ⟨last, freelist2, dir2⟩ ⟨account', sizes⟩
                                  exact ⟨fun frame => (account' frame).trans (account frame),
                                    sizes⟩
                            · rintro error ⟨-, other, lower, upper, missing⟩
                              have covered : other < pagesBelow size := by
                                have := ph.vaddrFits
                                have := ph.memszFits
                                simp only [pagesBelow, PGSIZE, UINT] at *
                                omega
                              have limit := pagesBelow_le inside.le
                              have present := (maps1 other (by omega)).mpr covered
                              rw [missing] at present
                              cases present

/-- The pages for the guard and the user stack. -/
theorem allocuvm_stack {oldsz newsz : Nat} (sole : Sole layout freelist dir)
    (maps : Maps dir (pagesBelow oldsz)) (top : oldsz ≤ KERNBASE)
    (isNew : (oldsz + 2 * PGSIZE) % UINT = newsz) :
    Outcome (fun _ => False)
      (fun result => (∀ frame, result.2.1.count frame + result.2.2.uses frame =
          freelist.count frame + dir.uses frame) ∧
        (result.1 ≠ 0 → 2 * PGSIZE ≤ result.1 ∧ result.1 < KERNBASE ∧
          Maps result.2.2 (pagesBelow result.1)))
      (allocuvm layout freelist dir oldsz newsz) := by
  have isNew : newsz = oldsz + 2 * PGSIZE := by
    rw [← isNew]
    simp only [PGSIZE, KERNBASE, UINT] at *
    omega
  by_cases inside : oldsz < KERNBASE
  · apply (allocuvm_maps sole maps inside).mono (fun _ => id)
    rintro ⟨last, freelist1, dir1⟩ ⟨account, ⟨zero, -⟩ | ⟨isMax, below, maps1⟩⟩
    · exact ⟨account, fun nonzero => (nonzero zero).elim⟩
    · refine ⟨account, fun _ => ⟨?_, below, maps1⟩⟩
      simp only at isMax ⊢
      omega
  · rw [allocuvm, if_pos (by omega)]
    exact ⟨fun _ => rfl, fun nonzero => (nonzero rfl).elim⟩

theorem loadProgram_spec {program : Program} (sole : Sole layout freelist dir)
    (maps : Maps dir 0) :
    Outcome (fun _ => False)
      (fun result => (∀ frame, result.2.1.count frame + result.2.2.uses frame ≤
          freelist.count frame + dir.uses frame) ∧
        ∀ size, result.1 = some size →
          0 < size ∧ size < KERNBASE ∧ Maps result.2.2 (pagesBelow size))
      (loadProgram layout freelist dir program) := by
  have noPages : pagesBelow 0 = 0 := by decide
  rw [← noPages] at maps
  apply Outcome.bind (loadSegments_spec program.phdrs sole maps (by decide))
  rintro ⟨size, freelist1, dir1⟩ ⟨account, sizes⟩
  simp only at account sizes
  cases size with
  | none => exact ⟨account, fun _ impossible => by cases impossible⟩
  | some sz =>
      have valid1 := sizes sz rfl
      have inside := valid1.1
      have maps1 := valid1.2
      have sole1 := sole.of_le account
      have rounded : pagesBelow (PGROUNDUP sz) = pagesBelow sz := by
        simp only [pagesBelow, PGROUNDUP, PGSIZE]
        omega
      have top : PGROUNDUP sz ≤ KERNBASE := by
        simp only [PGROUNDUP, PGSIZE, KERNBASE] at *
        omega
      rw [← rounded] at maps1
      simp only
      generalize isNew : (PGROUNDUP sz + 2 * PGSIZE) % UINT = newsz
      apply Outcome.bind (allocuvm_stack sole1 maps1 top isNew)
      rintro ⟨last, freelist2, dir2⟩ ⟨account', valid⟩
      simp only at account' valid
      have account2 : ∀ frame, freelist2.count frame + dir2.uses frame ≤
          freelist.count frame + dir.uses frame :=
        fun frame => (account' frame).le.trans (account frame)
      simp only
      split
      · exact ⟨account2, fun _ impossible => by cases impossible⟩
      · next nonzero =>
          obtain ⟨atLeast, below, maps2⟩ := valid nonzero
          have limit := pagesBelow_le below.le
          have guard : (last - 2 * PGSIZE) / PGSIZE < pagesBelow last := by
            simp only [pagesBelow, PGSIZE] at *
            omega
          apply Outcome.bind ((clearpteu_spec (by have := user_lt_all; omega)).mono ?_
            fun _ same => same)
          · rintro dir3 ⟨present, same⟩
            have account3 : ∀ frame, freelist2.count frame + dir3.uses frame ≤
                freelist.count frame + dir.uses frame := by
              intro frame
              rw [same frame]
              exact account2 frame
            split
            · refine ⟨account3, ?_⟩
              rintro size isSize
              cases isSize
              refine ⟨by omega, below, ?_⟩
              intro other userPage
              change (dir3.pte other).isSome = true ↔ _
              rw [present other (by have := user_lt_all; omega)]
              exact maps2 other userPage
            · exact ⟨account3, fun _ impossible => by cases impossible⟩
          · rintro error ⟨-, missing⟩
            have present := (maps2 _ (by omega)).mpr guard
            rw [missing] at present
            cases present

/-- `exec` builds an address space that maps the pages below its size, or none;
it cannot panic. -/
theorem exec_spec {program : Program}
    (bounded : ∀ frame, freelist.count frame ≤ capacity layout frame) :
    Outcome (fun _ => False)
      (fun result => match result.1 with
        | none => ∀ frame, result.2.count frame ≤ freelist.count frame
        | some (dir, sz) => 0 < sz ∧ sz < KERNBASE ∧ Maps dir (pagesBelow sz) ∧
            ∀ frame, result.2.count frame + dir.uses frame ≤ freelist.count frame)
      (exec layout freelist program) := by
  unfold exec
  split
  · exact fun _ => le_refl _
  · apply Outcome.bind (setupkvm_spec bounded)
    rintro ⟨copy, freelist1⟩ isSetup
    cases copy with
    | none => exact isSetup
    | some dir =>
        obtain ⟨clear, account⟩ := isSetup
        simp only at clear account
        have sole : Sole layout freelist1 dir := fun frame =>
          (account frame).trans (bounded frame)
        have maps : Maps dir 0 := by
          intro other userPage
          rw [clear other userPage]
          simp
        apply Outcome.bind (loadProgram_spec sole maps)
        rintro ⟨size, freelist2, dir2⟩ ⟨account', sizes⟩
        simp only at account' sizes
        have account2 : ∀ frame, freelist2.count frame + dir2.uses frame ≤
            freelist.count frame := fun frame => (account' frame).trans (account frame)
        cases size with
        | some sz =>
            obtain ⟨positive, below, maps2⟩ := sizes sz rfl
            exact ⟨positive, below, maps2, account2⟩
        | none =>
            have sole2 : Sole layout freelist2 dir2 := fun frame =>
              (account2 frame).trans (bounded frame)
            apply Outcome.bind (freevm_spec sole2)
            intro freelist3 counted frame
            exact (counted frame).trans (account2 frame)

/-- `growproc` moves pages between the free list and the address space. -/
theorem growproc_account {n : Int} (sole : Sole layout freelist dir) (user : sz < KERNBASE) :
    Outcome (fun error => error = .remap)
      (fun result => result.1 < KERNBASE ∧
        ∀ frame, result.2.1.count frame + result.2.2.uses frame ≤
          freelist.count frame + dir.uses frame)
      (growproc layout freelist dir sz n) := by
  unfold growproc
  simp only
  split
  · apply Outcome.bind ((allocuvm_spec sole).mono (fun _ error => error.1) fun _ same => same)
    rintro ⟨size, freelist1, dir1⟩ ⟨account, cases⟩
    refine ⟨?_, fun frame => (account frame).le⟩
    simp only at cases ⊢
    split
    · exact user
    · next nonzero =>
        rcases cases with ⟨rfl, inside, -⟩ | ⟨zero, -⟩ | ⟨rfl, -⟩ | ⟨zero, -⟩
        · exact inside
        · exact (nonzero zero).elim
        · exact user
        · exact (nonzero zero).elim
  · split
    · apply Outcome.bind ((deallocuvm_spec sole user.le).mono (fun _ => False.elim)
        fun _ same => same)
      rintro ⟨size, freelist1, dir1⟩ ⟨isSize, -, account⟩
      refine ⟨?_, fun frame => (account frame).le⟩
      simp only at isSize ⊢
      have smaller : size ≤ sz := by
        rw [isSize]
        split <;> omega
      split <;> omega
    · exact ⟨user, fun _ => le_refl _⟩

end Exec

/-! ## Roles -/

def pageUses (page : Option Frame) (frame : Frame) : Nat :=
  match page with
  | none => 0
  | some page => single page frame

def dirUses (dir : Option Dir) (frame : Frame) : Nat :=
  match dir with
  | none => 0
  | some dir => dir.uses frame

def Proc.uses (proc : Proc) (frame : Frame) : Nat :=
  if proc.status = .unused then 0 else pageUses proc.kstack frame + dirUses proc.pgdir frame

namespace State

variable {PipeId : Type} [Fintype PipeId]

/-- The number of roles of a page. -/
def roles (state : State PipeId) (frame : Frame) : Nat :=
  state.freelist.count frame + state.kpgdir.uses frame +
    total (fun proc => Proc.uses proc frame) state.proc +
    total (fun pipe => pageUses pipe.page frame) state.pipe

/-- The pages of the machine have at most one role, and other pages none. -/
structure Owned (layout : Layout) (state : State PipeId) : Prop where
  roles : ∀ frame, state.roles frame ≤ capacity layout frame
  sizes : ∀ pid, (state.proc pid).status = .alive → (state.proc pid).sz < KERNBASE
  panic : state.panic ≠ some .kfree ∧ state.panic ≠ some .doubleFree

variable {layout : Layout} {state : State PipeId} {pid : Pid} {dir : Dir}

theorem freelist_le_roles (state : State PipeId) (frame : Frame) :
    state.freelist.count frame ≤ state.roles frame := by
  simp only [State.roles]
  omega

theorem uses_le_roles (state : State PipeId) (pid : Pid) (frame : Frame) :
    state.freelist.count frame + (state.proc pid).uses frame ≤ state.roles frame := by
  have := le_total (fun proc => Proc.uses proc frame) state.proc pid
  simp only [State.roles]
  omega

theorem pipe_le_roles (state : State PipeId) (pipe : PipeId) (frame : Frame) :
    state.freelist.count frame + pageUses (state.pipe pipe).page frame ≤ state.roles frame := by
  have := le_total (fun pipe => pageUses pipe.page frame) state.pipe pipe
  simp only [State.roles]
  omega

theorem Owned.bounded (owned : state.Owned layout) (frame : Frame) :
    state.freelist.count frame ≤ capacity layout frame :=
  (freelist_le_roles state frame).trans (owned.roles frame)

theorem Owned.sole (owned : state.Owned layout) (used : (state.proc pid).status ≠ .unused)
    (isDir : (state.proc pid).pgdir = some dir) : Sole layout state.freelist dir := by
  intro frame
  have least := uses_le_roles state pid frame
  have most := owned.roles frame
  rw [Proc.uses, if_neg used, isDir, dirUses] at least
  omega

/-- The pages of a process can be given back. -/
theorem Owned.reap (owned : state.Owned layout) {kstack : Frame}
    (used : (state.proc pid).status ≠ .unused) (isStack : (state.proc pid).kstack = some kstack)
    (isDir : (state.proc pid).pgdir = some dir) :
    kfree layout state.freelist kstack = .ok (kstack :: state.freelist) ∧
      Sole layout (kstack :: state.freelist) dir := by
  have room : ∀ frame, state.freelist.count frame + single kstack frame + dir.uses frame ≤
      capacity layout frame := by
    intro frame
    have least := uses_le_roles state pid frame
    have most := owned.roles frame
    rw [Proc.uses, if_neg used, isStack, isDir, pageUses, dirUses] at least
    omega
  constructor
  · have mine := room kstack
    rw [single_self] at mine
    exact kfree_ok (by omega)
  · intro frame
    rw [count_cons_eq]
    exact room frame

/-- The address space that `exec` leaves can be given back after the new one is
built. -/
theorem Owned.replaced (owned : state.Owned layout) (used : (state.proc pid).status ≠ .unused)
    (isDir : (state.proc pid).pgdir = some dir) {freelist : Freelist} {image : Dir}
    (account : ∀ frame, freelist.count frame + image.uses frame ≤
      state.freelist.count frame) : Sole layout freelist dir := by
  intro frame
  have := account frame
  have := owned.sole used isDir frame
  omega

/-- A call that changes the free list and one slot. -/
theorem roles_setProc (state : State PipeId) (freelist : Freelist) (pid : Pid) (proc : Proc)
    (frame : Frame) :
    ({ state with freelist := freelist }.setProc pid proc).roles frame +
        state.freelist.count frame + (state.proc pid).uses frame =
      state.roles frame + freelist.count frame + proc.uses frame := by
  have exchanged := total_update (fun proc => Proc.uses proc frame) state.proc pid proc
  simp only [State.roles, setProc]
  omega

theorem Owned.setProc (owned : state.Owned layout) {freelist : Freelist} {proc : Proc}
    (account : ∀ frame, freelist.count frame + proc.uses frame ≤
      state.freelist.count frame + (state.proc pid).uses frame)
    (size : proc.status = .alive → proc.sz < KERNBASE) :
    ({ state with freelist := freelist }.setProc pid proc).Owned layout := by
  refine ⟨?_, ?_, owned.panic⟩
  · intro frame
    have exchanged := roles_setProc state freelist pid proc frame
    have := account frame
    have := owned.roles frame
    omega
  · intro other alive
    rcases eq_or_ne other pid with rfl | distinct
    · simp only [State.setProc, Function.update_self] at alive ⊢
      exact size alive
    · simp only [State.setProc, Function.update_of_ne distinct] at alive ⊢
      exact owned.sizes other alive

theorem Owned.setFreelist (owned : state.Owned layout) {freelist : Freelist}
    (account : ∀ frame, freelist.count frame ≤ state.freelist.count frame) :
    ({ state with freelist := freelist } : State PipeId).Owned layout := by
  refine ⟨?_, owned.sizes, owned.panic⟩
  intro frame
  have := account frame
  have := owned.roles frame
  simp only [State.roles] at *
  omega

/-- A panic that is not about the free list. -/
def NotKfree (panic : Panic) : Prop := panic ≠ .kfree ∧ panic ≠ .doubleFree

theorem Owned.fork (owned : state.Owned layout) (alive : (state.proc pid).status = .alive) :
    Outcome NotKfree (Owned layout) (state.fork layout pid) := by
  have inside := owned.sizes pid alive
  unfold State.fork
  split
  · next child dir isSlot isDir =>
      have unused : (state.proc child).status = .unused := by
        simpa using List.find?_some isSlot
      have noUses : ∀ frame, (state.proc child).uses frame = 0 := fun _ => if_pos unused
      split
      · apply owned.setProc
        · intro frame
          rw [noUses, Proc.uses, if_pos (by exact unused)]
        · intro isAlive
          rw [show (state.proc child).status = .alive from isAlive] at unused
          cases unused
      · next kstack rest allocated =>
          have isList := kalloc_some allocated
          have taken : ∀ frame, state.freelist.count frame =
              rest.count frame + single kstack frame := by
            intro frame
            rw [isList, count_cons_eq]
          have bounded : ∀ frame, rest.count frame ≤ capacity layout frame := by
            intro frame
            have := taken frame
            have := owned.bounded frame
            omega
          apply Outcome.bind ((copyuvm_spec bounded inside.le).mono ?_ fun _ same => same)
          · rintro ⟨copy, freelist1⟩ copied
            cases copy with
            | none =>
                simp only at copied
                have mine := copied kstack
                have mineTaken := taken kstack
                have mineBound := owned.bounded kstack
                rw [single_self] at mineTaken
                simp only
                rw [kfree_ok (by omega)]
                apply owned.setProc
                · intro frame
                  have := copied frame
                  have := taken frame
                  rw [noUses, Proc.uses, if_pos (by exact unused), count_cons_eq]
                  omega
                · intro isAlive
                  rw [show (state.proc child).status = .alive from isAlive] at unused
                  cases unused
            | some copy =>
                obtain ⟨-, account⟩ := copied
                simp only at account
                apply owned.setProc
                · intro frame
                  have := account frame
                  have := taken frame
                  rw [noUses, Proc.uses, if_neg (by simp), pageUses, dirUses]
                  omega
                · exact fun _ => inside
          · rintro error ⟨rfl | rfl, -⟩
            · exact ⟨by decide, by decide⟩
            · exact ⟨by decide, by decide⟩
  · exact owned

theorem Owned.execCall (owned : state.Owned layout) (alive : (state.proc pid).status = .alive)
    (program : Program) :
    Outcome NotKfree (Owned layout) (state.execCall layout pid program) := by
  have used : (state.proc pid).status ≠ .unused := by simp [alive]
  apply Outcome.bind ((exec_spec owned.bounded).mono (fun _ => False.elim) fun _ same => same)
  rintro ⟨image, freelist1⟩ built
  cases image with
  | none => exact owned.setFreelist built
  | some image =>
      obtain ⟨dir, sz⟩ := image
      obtain ⟨-, inside, -, account⟩ := built
      simp only at account ⊢
      cases isDir : (state.proc pid).pgdir with
      | none =>
          apply owned.setFreelist
          intro frame
          have := account frame
          omega
      | some oldpgdir =>
          have sole1 := owned.replaced used isDir account
          apply Outcome.bind ((freevm_spec sole1).mono (fun _ => False.elim) fun _ same => same)
          intro freelist2 counted
          apply owned.setProc
          · intro frame
            have := counted frame
            have := account frame
            rw [Proc.uses, if_neg (by exact used), Proc.uses, if_neg used, isDir]
            simp only [dirUses]
            omega
          · exact fun _ => inside

theorem Owned.sbrk (owned : state.Owned layout) (alive : (state.proc pid).status = .alive)
    (n : Int32) : Outcome NotKfree (Owned layout) (state.sbrk layout pid n) := by
  have used : (state.proc pid).status ≠ .unused := by simp [alive]
  unfold State.sbrk
  split
  · exact owned
  · next dir isDir =>
      apply Outcome.bind ((growproc_account (owned.sole used isDir) (owned.sizes pid alive)).mono
        ?_ fun _ same => same)
      · rintro ⟨size, freelist1, dir1⟩ ⟨inside, account⟩
        simp only at inside account
        apply owned.setProc
        · intro frame
          have := account frame
          rw [Proc.uses, if_neg (by exact used), Proc.uses, if_neg used, isDir]
          simp only [dirUses]
          omega
        · exact fun _ => inside
      · rintro error rfl
        exact ⟨by decide, by decide⟩

theorem Proc.uses_reparent (pid : Pid) (proc : Proc) (frame : Frame) :
    (reparent pid proc).uses frame = proc.uses frame := by
  unfold reparent
  split <;> rfl

theorem status_reparent (pid : Pid) (proc : Proc) :
    (reparent pid proc).status = proc.status ∧ (reparent pid proc).sz = proc.sz := by
  unfold reparent
  split <;> exact ⟨rfl, rfl⟩

theorem Owned.exit (owned : state.Owned layout) (alive : (state.proc pid).status = .alive) :
    Outcome NotKfree (Owned layout) (state.exit pid) := by
  unfold State.exit
  split
  · exact ⟨by decide, by decide⟩
  · set passed : State PipeId := { state with proc := fun other => reparent pid (state.proc other) }
      with isPassed
    have ownedPassed : passed.Owned layout := by
      refine ⟨?_, ?_, owned.panic⟩
      · intro frame
        have same : total (fun proc => Proc.uses proc frame) passed.proc =
            total (fun proc => Proc.uses proc frame) state.proc :=
          Finset.sum_congr rfl fun other _ => Proc.uses_reparent pid _ frame
        have := owned.roles frame
        simp only [State.roles, same] at *
        exact this
      · intro other isAlive
        obtain ⟨status, size⟩ := status_reparent pid (state.proc other)
        change (reparent pid (state.proc other)).sz < KERNBASE
        change (reparent pid (state.proc other)).status = .alive at isAlive
        rw [size]
        exact owned.sizes other (status.symm.trans isAlive)
    apply ownedPassed.setProc
    · intro frame
      have before : (passed.proc pid).status ≠ .unused := by
        change (reparent pid (state.proc pid)).status ≠ .unused
        rw [(status_reparent pid _).1, alive]
        decide
      rw [Proc.uses, if_neg (by simp), Proc.uses, if_neg before]
    · intro impossible
      cases impossible

theorem Owned.wait (owned : state.Owned layout) :
    Outcome NotKfree (Owned layout) (state.wait layout pid) := by
  unfold State.wait
  split
  · exact owned
  · next child isChild =>
      have zombie : (state.proc child).status = .zombie := by
        have found := List.find?_some isChild
        simp only [decide_eq_true_eq] at found
        exact found.2
      have used : (state.proc child).status ≠ .unused := by simp [zombie]
      split
      · next kstack dir isStack isDir =>
          obtain ⟨isFreed, sole⟩ := owned.reap used isStack isDir
          rw [isFreed]
          apply Outcome.bind ((freevm_spec sole).mono (fun _ => False.elim) fun _ same => same)
          intro freelist1 counted
          apply owned.setProc
          · intro frame
            have counted := counted frame
            rw [count_cons_eq] at counted
            rw [Proc.uses, if_pos rfl, Proc.uses, if_neg used, isStack, isDir, pageUses,
              dirUses]
            omega
          · intro impossible
            cases impossible
      · exact owned

variable [DecidableEq PipeId]

theorem Owned.setPipe (owned : state.Owned layout) {freelist : Freelist} {id : PipeId}
    {pipe : Pipe} (account : ∀ frame, freelist.count frame + pageUses pipe.page frame ≤
      state.freelist.count frame + pageUses (state.pipe id).page frame) :
    ({ state with freelist := freelist, pipe := Function.update state.pipe id pipe } :
      State PipeId).Owned layout := by
  refine ⟨?_, owned.sizes, owned.panic⟩
  intro frame
  have exchanged := total_update (fun pipe => pageUses pipe.page frame) state.pipe id pipe
  have := account frame
  have := owned.roles frame
  simp only [State.roles] at *
  omega

theorem Owned.pipealloc (owned : state.Owned layout) {id : PipeId}
    (isFree : (state.pipe id).page = none) : (state.pipealloc id).Owned layout := by
  unfold State.pipealloc
  split
  · exact owned
  · next page rest allocated =>
      have isList := kalloc_some allocated
      apply owned.setPipe
      intro frame
      rw [isList, count_cons_eq, isFree]
      simp only [pageUses]
      omega

theorem Owned.pipeclose (owned : state.Owned layout) (id : PipeId) (writable : Bool) :
    Outcome NotKfree (Owned layout) (state.pipeclose layout id writable) := by
  unfold State.pipeclose
  simp only
  split
  · exact owned
  · next page isPage =>
      have least := pipe_le_roles state id page
      have bound := owned.roles page
      rw [isPage, pageUses, single_self] at least
      split
      · rw [kfree_ok (by omega)]
        apply owned.setPipe
        intro frame
        rw [count_cons_eq, isPage]
        simp only [pageUses]
        omega
      · apply owned.setPipe
        intro frame
        rw [isPage]

theorem Owned.call (owned : state.Owned layout) {action : Action PipeId}
    {result : Except Panic (State PipeId)} (made : state.call layout action = some result) :
    Outcome NotKfree (Owned layout) result := by
  have alive : ∀ pid, state.isAlive pid = true → (state.proc pid).status = .alive := by
    intro pid isAlive
    simpa [State.isAlive] using isAlive
  cases action with
  | fork pid =>
      obtain ⟨isAlive, same⟩ := Option.ite_none_right_eq_some.mp made
      cases same
      exact owned.fork (alive pid isAlive)
  | exec pid program =>
      obtain ⟨isAlive, same⟩ := Option.ite_none_right_eq_some.mp made
      cases same
      exact owned.execCall (alive pid isAlive) program
  | sbrk pid n =>
      obtain ⟨isAlive, same⟩ := Option.ite_none_right_eq_some.mp made
      cases same
      exact owned.sbrk (alive pid isAlive) n
  | exit pid =>
      obtain ⟨isAlive, same⟩ := Option.ite_none_right_eq_some.mp made
      cases same
      exact owned.exit (alive pid isAlive)
  | wait pid =>
      obtain ⟨isAlive, same⟩ := Option.ite_none_right_eq_some.mp made
      cases same
      exact owned.wait
  | pipe pid id =>
      obtain ⟨⟨-, isFree⟩, same⟩ := Option.ite_none_right_eq_some.mp made
      cases same
      exact owned.pipealloc isFree
  | pipeclose id writable =>
      obtain ⟨-, same⟩ := Option.ite_none_right_eq_some.mp made
      cases same
      exact owned.pipeclose id writable

theorem Owned.step (owned : state.Owned layout) {action : Action PipeId} {after : State PipeId}
    (taken : state.step layout action = some after) : after.Owned layout := by
  unfold State.step at taken
  split at taken
  · cases taken
  · obtain ⟨result, made, isAfter⟩ := Option.map_eq_some_iff.mp taken
    have outcome := owned.call made
    cases result with
    | ok next =>
        cases isAfter
        exact outcome
    | error panic =>
        cases isAfter
        refine ⟨owned.roles, owned.sizes, ?_⟩
        simp only [ne_eq, Option.some.injEq]
        exact outcome

/-- After boot there is one process, with one page, and every page has at most one
role. -/
structure IsBooted (layout : Layout) (state : State PipeId) : Prop where
  roles : ∀ frame, state.roles frame ≤ capacity layout frame
  first : ∃ kstack dir, state.proc initproc = ⟨.alive, some kstack, some dir, PGSIZE, none⟩ ∧
    Maps dir 1
  others : ∀ pid, pid ≠ initproc → (state.proc pid).status = .unused
  pipes : ∀ id, state.pipe id = ⟨none, fun _ => false⟩
  panic : state.panic = none

omit [DecidableEq PipeId] in
theorem Owned.of_booted (booted : state.IsBooted layout) : state.Owned layout := by
  refine ⟨booted.roles, ?_, by simp [booted.panic]⟩
  intro pid alive
  rcases eq_or_ne pid initproc with rfl | distinct
  · obtain ⟨kstack, dir, isProc, -⟩ := booted.first
    rw [isProc]
    exact (by decide : PGSIZE < KERNBASE)
  · rw [booted.others pid distinct] at alive
    cases alive

end State

/-- Two user pages of one page directory that are the same page. -/
theorem Dir.two_le_uses {dir : Dir} {first second : Nat} {frame : Frame}
    (distinct : first ≠ second) (firstUser : first < USERPAGES) (secondUser : second < USERPAGES)
    (isFirst : pteUses (dir.pte first) frame = 1)
    (isSecond : pteUses (dir.pte second) frame = 1) : 2 ≤ dir.uses frame := by
  have all := user_lt_all
  cases here : dir.table first with
  | none => simp [Dir.pte, here, pteUses] at isFirst
  | some table =>
      have exchanged : (dir.setPte first none).uses frame + _ = _ :=
        Dir.uses_setPte here (by omega) frame
      have kept : (dir.setPte first none).pte second = dir.pte second := by
        rw [Dir.pte_setPte here (by omega) (by omega), if_neg distinct.symm]
      have least : pteUses ((dir.setPte first none).pte second) frame ≤ _ :=
        Dir.pteUses_le secondUser frame
      rw [kept, isSecond] at least
      rw [if_pos firstUser, if_pos firstUser, isFirst, pteUses] at exchanged
      omega

/-- A user page of a process. -/
def State.userPage {PipeId : Type} (state : State PipeId) (pid : Pid) (page : Nat) :
    Option Frame :=
  if (state.proc pid).status ≠ .unused ∧ page < USERPAGES then
    ((state.proc pid).pgdir.bind fun dir => dir.pte page).map Pte.frame
  else none

def smallLayout : Layout where
  data := 300
  kend := 400
  aboveText := by decide
  aboveData := by decide
  belowTop := by decide

/-- A page directory that maps page zero. -/
def smallDir : Dir where
  frame := 602
  pdes := fun index =>
    if index.val = 0 then
      some ⟨603, fun entry => if entry.val = 0 then some ⟨604, true, true⟩ else none⟩
    else none

/-- The first process and three free pages. -/
def smallMachine : State Unit where
  freelist := [500, 501, 502]
  kpgdir := ⟨600, fun _ => none⟩
  proc := fun pid =>
    if pid = initproc then ⟨.alive, some 601, some smallDir, PGSIZE, none⟩
    else ⟨.unused, none, none, 0, none⟩
  pipe := fun _ => ⟨none, fun _ => false⟩
  panic := none

theorem smallMachine_first : smallMachine.proc initproc =
    ⟨.alive, some 601, some smallDir, PGSIZE, none⟩ := by
  simp [smallMachine]

theorem smallDir_uses (frame : Frame) :
    smallDir.uses frame = single 602 frame + (single 603 frame + single 604 frame) := by
  have first : (⟨0, by decide⟩ : Fin NPDENTRIES) ∈ Finset.univ := Finset.mem_univ _
  have inner : total (fun pte => pteUses pte frame) (fun entry : Fin NPDENTRIES =>
      if entry.val = 0 then some (⟨604, true, true⟩ : Pte) else none) = single 604 frame := by
    rw [total, Finset.sum_eq_single_of_mem ⟨0, by decide⟩ first]
    · rfl
    · intro entry _ distinct
      have nonzero : entry.val ≠ 0 := fun zero => distinct (Fin.ext zero)
      simp [nonzero, pteUses]
  have outer : total (fun entry => pdeUses entry frame)
      (fun index => (index, smallDir.pdes index)) = single 603 frame + single 604 frame := by
    rw [total, Finset.sum_eq_single_of_mem ⟨0, by decide⟩ first]
    · simp only [smallDir, if_true, pdeUses, Nat.zero_mul]
      rw [if_pos (by decide), inner]
    · intro index _ distinct
      have nonzero : index.val ≠ 0 := fun zero => distinct (Fin.ext zero)
      simp [smallDir, nonzero, pdeUses]
  rw [Dir.uses, outer]
  rfl

theorem smallMachine_roles (frame : Frame) :
    smallMachine.roles frame = [500, 501, 502, 600, 601, 602, 603, 604].count frame := by
  have procs : total (fun proc => Proc.uses proc frame) smallMachine.proc =
      single 601 frame + (single 602 frame + (single 603 frame + single 604 frame)) := by
    rw [total, Finset.sum_eq_single_of_mem initproc (Finset.mem_univ _)]
    · rw [smallMachine_first, Proc.uses, if_neg (by simp), pageUses, dirUses, smallDir_uses]
    · intro pid _ distinct
      have here : smallMachine.proc pid = ⟨.unused, none, none, 0, none⟩ := if_neg distinct
      rw [here]
      rfl
  have pipes : total (fun pipe => pageUses pipe.page frame) smallMachine.pipe = 0 :=
    Finset.sum_eq_zero fun _ _ => rfl
  have kernel : smallMachine.kpgdir.uses frame = single 600 frame := uses_empty 600 frame
  rw [State.roles, procs, pipes, kernel]
  simp only [smallMachine, count_cons_eq, List.count_nil]
  omega

theorem smallMachine_booted : smallMachine.IsBooted smallLayout := by
  refine ⟨?_, ⟨601, smallDir, smallMachine_first, ?_⟩, ?_, fun _ => rfl, rfl⟩
  · intro frame
    rw [smallMachine_roles]
    by_cases member : frame ∈ [500, 501, 502, 600, 601, 602, 603, 604]
    · have once : [500, 501, 502, 600, 601, 602, 603, 604].count frame ≤ 1 :=
        List.nodup_iff_count_le_one.mp (by decide) frame
      have inside : capacity smallLayout frame = 1 := by
        simp only [List.mem_cons, List.not_mem_nil, or_false] at member
        rcases member with rfl | rfl | rfl | rfl | rfl | rfl | rfl | rfl <;> decide
      omega
    · rw [List.count_eq_zero_of_not_mem member]
      exact Nat.zero_le _
  · intro page user
    have inFirst : (PDX page).val = 0 ∧ (PTX page).val = 0 ↔ page = 0 := by
      simp only [PDX, PTX, USERPAGES, KERNBASE, PGSIZE, NPDENTRIES] at *
      omega
    simp only [Dir.pte, Dir.table, smallDir]
    by_cases isFirst : page = 0
    · subst isFirst
      decide
    · have apart : ¬ ((PDX page).val = 0 ∧ (PTX page).val = 0) := mt inFirst.mp isFirst
      by_cases directory : (PDX page).val = 0
      · have table : (PTX page).val ≠ 0 := fun zero => apart ⟨directory, zero⟩
        simp [directory, table, isFirst]
      · simp [directory, isFirst]
  · intro pid distinct
    have here : smallMachine.proc pid = ⟨.unused, none, none, 0, none⟩ := if_neg distinct
    rw [here]

/-- The small machine with a number of free pages. -/
def spareMachine (count : Nat) : State Unit :=
  { smallMachine with freelist := List.range' 700 count }

theorem not_smallMachine {frame : Nat} (lower : 700 ≤ frame) :
    frame ∉ [500, 501, 502, 600, 601, 602, 603, 604] := by
  simp only [List.mem_cons, List.not_mem_nil, or_false]
  omega

theorem spareMachine_booted {count : Nat} (few : 700 + count ≤ PHYSTOP / PGSIZE) :
    (spareMachine count).IsBooted smallLayout := by
  refine ⟨?_, smallMachine_booted.first, smallMachine_booted.others, smallMachine_booted.pipes, rfl⟩
  intro frame
  have before := smallMachine_booted.roles frame
  have exchanged : (spareMachine count).roles frame + smallMachine.freelist.count frame =
      smallMachine.roles frame + (List.range' 700 count).count frame := by
    simp only [State.roles, spareMachine]
    omega
  by_cases member : frame ∈ List.range' 700 count
  · have once : (List.range' 700 count).count frame ≤ 1 :=
      List.nodup_iff_count_le_one.mp List.nodup_range' frame
    have bounds := List.mem_range'_1.mp member
    have elsewhere : smallMachine.roles frame = 0 := by
      rw [smallMachine_roles]
      exact List.count_eq_zero_of_not_mem (not_smallMachine bounds.1)
    have inside : capacity smallLayout frame = 1 :=
      if_pos ⟨le_trans (by decide : 400 ≤ 700) bounds.1, lt_of_lt_of_le bounds.2 few⟩
    omega
  · rw [List.count_eq_zero_of_not_mem member] at exchanged
    omega

end Coursework.Paging
