import Coursework.PageOwnership

/-!
# Process sizes and page tables

The user pages that a process maps are those below its size.  `fork` and `exec`
build an address space for the size they store, and `sbrk` changes both in the
same way or neither, with one exception: shrinking a process to nothing frees all
its pages, but then `growproc` takes the new size zero for a failure and leaves the
old size in place.
-/

namespace Coursework.Paging

namespace State

variable {PipeId : Type} {layout : Layout} {state : State PipeId} {pid : Pid}

/-- An address space that maps the pages below the size of its process. -/
def Fits (proc : Proc) : Prop :=
  ∃ dir, proc.pgdir = some dir ∧ Maps dir (pagesBelow proc.sz) ∧ 0 < proc.sz ∧ proc.sz < KERNBASE

structure Sized (state : State PipeId) : Prop where
  fits : ∀ pid, (state.proc pid).status = .alive → Fits (state.proc pid)
  panic : state.panic = none ∨ state.panic = some .initExiting

/-- No process gives up its whole address space. -/
def keepsSome (state : State PipeId) : Action PipeId → Prop
  | .sbrk pid n => n.toInt + (state.proc pid).sz ≠ 0
  | _ => True

/-- `growproc` that does not ask for size zero. -/
theorem growproc_maps {freelist : Freelist} {dir : Dir} {sz : Nat} {n : Int}
    (sole : Sole layout freelist dir) (maps : Maps dir (pagesBelow sz)) (positive : 0 < sz)
    (user : sz < KERNBASE) (least : -2 ^ 31 ≤ n) (keeps : n + sz ≠ 0) :
    Outcome (fun _ => False)
      (fun result => Maps result.2.2 (pagesBelow result.1) ∧ 0 < result.1 ∧ result.1 < KERNBASE)
      (growproc layout freelist dir sz n) := by
  unfold growproc
  simp only
  generalize isNew : ((sz + n) % UINT).toNat = newsz
  split
  · apply Outcome.bind (allocuvm_maps sole maps user)
    rintro ⟨size, freelist1, dir1⟩ ⟨-, ⟨rfl, maps1⟩ | ⟨isMax, inside, maps1⟩⟩
    · exact ⟨maps1, positive, user⟩
    · simp only at isMax inside maps1
      have nonzero : size ≠ 0 := by omega
      simp only [if_neg nonzero]
      exact ⟨maps1, by omega, inside⟩
  · split
    · next negative =>
        apply Outcome.bind (deallocuvm_spec sole user.le)
        rintro ⟨size, freelist1, dir1⟩ ⟨isSize, entries, -⟩
        simp only at isSize entries
        have newPositive : 0 < newsz := by
          simp only [UINT, KERNBASE] at *
          omega
        have limit := pagesBelow_le user.le
        by_cases larger : sz ≤ newsz
        · rw [if_pos larger] at isSize
          have nonzero : size ≠ 0 := by omega
          have order : pagesBelow sz ≤ pagesBelow newsz := by
            simp only [pagesBelow, PGSIZE]
            omega
          simp only [if_neg nonzero]
          subst isSize
          refine ⟨?_, positive, user⟩
          intro other userPage
          change (dir1.pte other).isSome = true ↔ _
          rw [entries other (by have := user_lt_all; omega), if_neg (by omega)]
          exact maps other userPage
        · rw [if_neg larger] at isSize
          have nonzero : size ≠ 0 := by omega
          simp only [if_neg nonzero]
          subst isSize
          refine ⟨?_, newPositive, by omega⟩
          have order : pagesBelow size ≤ pagesBelow sz := by
            simp only [pagesBelow, PGSIZE]
            omega
          intro other userPage
          change (dir1.pte other).isSome = true ↔ other < pagesBelow size
          rw [entries other (by have := user_lt_all; omega)]
          split
          · next cleared =>
              simp only [Option.isSome_none, Bool.false_eq_true, false_iff]
              omega
          · next kept =>
              rw [maps other userPage]
              omega
    · exact ⟨maps, positive, user⟩

theorem Sized.setProc (sized : state.Sized) {freelist : Freelist} {proc : Proc}
    (fits : proc.status = .alive → Fits proc) :
    ({ state with freelist := freelist }.setProc pid proc).Sized := by
  refine ⟨?_, sized.panic⟩
  intro other alive
  rcases eq_or_ne other pid with rfl | distinct
  · simp only [State.setProc, Function.update_self] at alive ⊢
    exact fits alive
  · simp only [State.setProc, Function.update_of_ne distinct] at alive ⊢
    exact sized.fits other alive

variable [Fintype PipeId]

theorem Sized.fork (sized : state.Sized) (owned : state.Owned layout)
    (alive : (state.proc pid).status = .alive) :
    Outcome (fun _ => False) Sized (state.fork layout pid) := by
  have inside := owned.sizes pid alive
  obtain ⟨dir, isDir, maps, positive, -⟩ := sized.fits pid alive
  unfold State.fork
  rw [isDir]
  split
  · next child source isSlot same =>
      cases same
      have unused : (state.proc child).status = .unused := by
        simpa using List.find?_some isSlot
      split
      · apply sized.setProc
        intro isAlive
        rw [show (state.proc child).status = .alive from isAlive] at unused
        cases unused
      · next kstack rest allocated =>
          have isList := kalloc_some allocated
          have bounded : ∀ frame, rest.count frame ≤ capacity layout frame := by
            intro frame
            have bound := owned.bounded frame
            rw [isList, count_cons_eq] at bound
            omega
          apply Outcome.bind ((copyuvm_spec bounded inside.le).mono ?_ fun _ same => same)
          · rintro ⟨copy, freelist1⟩ copied
            cases copy with
            | none =>
                simp only at copied
                have mine := copied kstack
                have mineBound := owned.bounded kstack
                rw [isList, count_cons_eq, single_self] at mineBound
                simp only
                rw [kfree_ok (by omega)]
                apply sized.setProc
                intro isAlive
                rw [show (state.proc child).status = .alive from isAlive] at unused
                cases unused
            | some copy =>
                apply sized.setProc
                intro _
                exact ⟨copy, rfl, copied.1, positive, inside⟩
          · rintro error ⟨-, other, below, missing⟩
            have limit := pagesBelow_le inside.le
            have present := (maps other (by omega)).mpr below
            rw [missing] at present
            cases present
  · exact sized

theorem Sized.execCall (sized : state.Sized) (owned : state.Owned layout)
    (alive : (state.proc pid).status = .alive) (program : Program) :
    Outcome (fun _ => False) Sized (state.execCall layout pid program) := by
  have used : (state.proc pid).status ≠ .unused := by simp [alive]
  apply Outcome.bind (exec_spec owned.bounded)
  rintro ⟨image, freelist1⟩ built
  cases image with
  | none => exact ⟨sized.fits, sized.panic⟩
  | some image =>
      obtain ⟨dir, sz⟩ := image
      obtain ⟨positive, inside, maps, account⟩ := built
      simp only at account ⊢
      cases isDir : (state.proc pid).pgdir with
      | none => exact ⟨sized.fits, sized.panic⟩
      | some oldpgdir =>
          apply Outcome.bind (freevm_spec (owned.replaced used isDir account))
          intro freelist2 _
          apply sized.setProc
          intro _
          exact ⟨dir, rfl, maps, positive, inside⟩

theorem Sized.sbrk (sized : state.Sized) (owned : state.Owned layout)
    (alive : (state.proc pid).status = .alive) {n : Int32}
    (keeps : n.toInt + (state.proc pid).sz ≠ 0) :
    Outcome (fun _ => False) Sized (state.sbrk layout pid n) := by
  have used : (state.proc pid).status ≠ .unused := by simp [alive]
  obtain ⟨dir, isDir, maps, positive, inside⟩ := sized.fits pid alive
  unfold State.sbrk
  rw [isDir]
  apply Outcome.bind (growproc_maps (owned.sole used isDir) maps positive inside n.le_toInt keeps)
  rintro ⟨size, freelist1, dir1⟩ ⟨maps1, positive1, inside1⟩
  apply sized.setProc
  intro _
  exact ⟨dir1, rfl, maps1, positive1, inside1⟩

omit [Fintype PipeId] in
theorem Sized.exit (sized : state.Sized) :
    Outcome (fun panic => panic = .initExiting) Sized (state.exit pid) := by
  unfold State.exit
  split
  · exact rfl
  · set passed : State PipeId := { state with proc := fun other => reparent pid (state.proc other) }
      with isPassed
    have sizedPassed : passed.Sized := by
      refine ⟨?_, sized.panic⟩
      intro other isAlive
      change (reparent pid (state.proc other)).status = .alive at isAlive
      change Fits (reparent pid (state.proc other))
      rw [(status_reparent pid _).1] at isAlive
      have fits := sized.fits other isAlive
      unfold reparent
      split
      · exact fits
      · exact fits
    apply sizedPassed.setProc
    intro impossible
    cases impossible

theorem Sized.wait (sized : state.Sized) (owned : state.Owned layout) :
    Outcome (fun _ => False) Sized (state.wait layout pid) := by
  unfold State.wait
  split
  · exact sized
  · next child isChild =>
      have zombie : (state.proc child).status = .zombie := by
        have found := List.find?_some isChild
        simp only [decide_eq_true_eq] at found
        exact found.2
      have used : (state.proc child).status ≠ .unused := by simp [zombie]
      split
      · next kstack dir isStack isDir =>
          obtain ⟨isFreed, sole⟩ := owned.reap used isStack isDir
          rw [isFreed]
          apply Outcome.bind (freevm_spec sole)
          intro freelist1 _
          apply sized.setProc
          intro impossible
          cases impossible
      · exact sized

variable [DecidableEq PipeId]

omit [Fintype PipeId] in
theorem Sized.pipealloc (sized : state.Sized) (id : PipeId) : (state.pipealloc id).Sized := by
  unfold State.pipealloc
  split
  · exact sized
  · exact ⟨sized.fits, sized.panic⟩

theorem Sized.pipeclose (sized : state.Sized) (owned : state.Owned layout) (id : PipeId)
    (writable : Bool) :
    Outcome (fun _ => False) Sized (state.pipeclose layout id writable) := by
  unfold State.pipeclose
  simp only
  split
  · exact sized
  · next page isPage =>
      have least := pipe_le_roles state id page
      have bound := owned.roles page
      rw [isPage, pageUses, single_self] at least
      split
      · rw [kfree_ok (by omega)]
        exact ⟨sized.fits, sized.panic⟩
      · exact ⟨sized.fits, sized.panic⟩

theorem Sized.call (sized : state.Sized) (owned : state.Owned layout) {action : Action PipeId}
    (keeps : state.keepsSome action) {result : Except Panic (State PipeId)}
    (made : state.call layout action = some result) :
    Outcome (fun panic => panic = .initExiting) Sized result := by
  have alive : ∀ pid, state.isAlive pid = true → (state.proc pid).status = .alive := by
    intro pid isAlive
    simpa [State.isAlive] using isAlive
  have widen : ∀ result : Except Panic (State PipeId), Outcome (fun _ => False) Sized result →
      Outcome (fun panic => panic = .initExiting) Sized result :=
    fun _ outcome => outcome.mono (fun _ => False.elim) fun _ => id
  cases action with
  | fork pid =>
      obtain ⟨isAlive, same⟩ := Option.ite_none_right_eq_some.mp made
      cases same
      exact widen _ (sized.fork owned (alive pid isAlive))
  | exec pid program =>
      obtain ⟨isAlive, same⟩ := Option.ite_none_right_eq_some.mp made
      cases same
      exact widen _ (sized.execCall owned (alive pid isAlive) program)
  | sbrk pid n =>
      obtain ⟨isAlive, same⟩ := Option.ite_none_right_eq_some.mp made
      cases same
      exact widen _ (sized.sbrk owned (alive pid isAlive) keeps)
  | exit pid =>
      obtain ⟨isAlive, same⟩ := Option.ite_none_right_eq_some.mp made
      cases same
      exact sized.exit
  | wait pid =>
      obtain ⟨isAlive, same⟩ := Option.ite_none_right_eq_some.mp made
      cases same
      exact widen _ (sized.wait owned)
  | pipe pid id =>
      obtain ⟨-, same⟩ := Option.ite_none_right_eq_some.mp made
      cases same
      exact sized.pipealloc id
  | pipeclose id writable =>
      obtain ⟨-, same⟩ := Option.ite_none_right_eq_some.mp made
      cases same
      exact widen _ (sized.pipeclose owned id writable)

theorem Sized.step (sized : state.Sized) (owned : state.Owned layout) {action : Action PipeId}
    {after : State PipeId} (keeps : state.keepsSome action)
    (taken : state.step layout action = some after) : after.Sized := by
  unfold State.step at taken
  split at taken
  · cases taken
  · obtain ⟨result, made, isAfter⟩ := Option.map_eq_some_iff.mp taken
    have outcome := sized.call owned keeps made
    cases result with
    | ok next =>
        cases isAfter
        exact outcome
    | error panic =>
        cases isAfter
        exact ⟨sized.fits, Or.inr (congrArg some outcome)⟩

omit [DecidableEq PipeId] in
theorem Sized.of_booted (booted : state.IsBooted layout) : state.Sized := by
  refine ⟨?_, Or.inl booted.panic⟩
  intro pid alive
  rcases eq_or_ne pid initproc with rfl | distinct
  · obtain ⟨kstack, dir, isProc, maps⟩ := booted.first
    have onePage : pagesBelow PGSIZE = 1 := by decide
    have positive : 0 < PGSIZE := by decide
    have inside : PGSIZE < KERNBASE := by decide
    rw [← onePage] at maps
    rw [isProc]
    exact ⟨dir, rfl, maps, positive, inside⟩
  · rw [booted.others pid distinct] at alive
    cases alive

end State

/-- The user pages of a process are those below its size, rounded up to a page. -/
def SizeMatches (proc : Proc) : Prop :=
  ∃ dir, proc.pgdir = some dir ∧ proc.sz < KERNBASE ∧
    ∀ page < USERPAGES, (dir.pte page).isSome = true ↔ page * PGSIZE < PGROUNDUP proc.sz

/-- An address below the size of a process is mapped. -/
theorem SizeMatches.mapped {proc : Proc} (matched : SizeMatches proc) {addr : Nat}
    (below : addr < proc.sz) :
    ∃ dir, proc.pgdir = some dir ∧ (dir.pte (addr / PGSIZE)).isSome = true := by
  obtain ⟨dir, isDir, inside, maps⟩ := matched
  refine ⟨dir, isDir, (maps _ ?_).mpr ?_⟩
  · simp only [USERPAGES, KERNBASE, PGSIZE] at *
    omega
  · simp only [PGROUNDUP, PGSIZE]
    omega

end Coursework.Paging
