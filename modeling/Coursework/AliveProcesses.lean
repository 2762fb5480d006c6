import Coursework.PageOwnership

/-!
# Properties of the processes that are alive

A property of the address space and the size of a process holds of every process that is
alive, in every run, if `fork`, `exec` and `sbrk` give it to the processes they make or
change.  The other calls only end processes or change their parents.
-/

namespace Coursework.Paging

/-- The calls give a property to the processes that they make or change. -/
structure Endows (layout : Layout) (property : Proc → Prop) : Prop where
  parent : ∀ proc parent, property proc → property { proc with parent := parent }
  copied : ∀ (proc : Proc) (kstack : Frame) (pid : Pid) (source : Dir) (freelist : Freelist),
    property proc → proc.sz < KERNBASE → (∀ frame, freelist.count frame ≤ capacity layout frame) →
    Outcome (fun _ => True)
      (fun result => ∀ dir, result.1 = some dir →
        property ⟨.alive, some kstack, some dir, proc.sz, some pid⟩)
      (copyuvm layout freelist source proc.sz)
  loaded : ∀ (proc : Proc) (program : Program) (freelist : Freelist),
    (∀ frame, freelist.count frame ≤ capacity layout frame) →
    Outcome (fun _ => True)
      (fun result => ∀ dir sz, result.1 = some (dir, sz) →
        property { proc with pgdir := some dir, sz := sz })
      (exec layout freelist program)
  grown : ∀ (proc : Proc) (dir : Dir) (freelist : Freelist) (n : Int32), property proc →
    proc.pgdir = some dir → proc.sz < KERNBASE → Sole layout freelist dir →
    Outcome (fun _ => True)
      (fun result => property { proc with pgdir := some result.2.2, sz := result.1 })
      (growproc layout freelist dir proc.sz n.toInt)

namespace State

variable {PipeId : Type} {layout : Layout} {state : State PipeId} {pid : Pid}
  {property : Proc → Prop}

/-- A property of every process that is alive. -/
def EachAlive (property : Proc → Prop) (state : State PipeId) : Prop :=
  ∀ pid, (state.proc pid).status = .alive → property (state.proc pid)

theorem EachAlive.setProc (each : state.EachAlive property) {freelist : Freelist} {proc : Proc}
    (here : proc.status = .alive → property proc) :
    ({ state with freelist := freelist }.setProc pid proc).EachAlive property := by
  intro other alive
  rcases eq_or_ne other pid with rfl | distinct
  · simp only [State.setProc, Function.update_self] at alive ⊢
    exact here alive
  · simp only [State.setProc, Function.update_of_ne distinct] at alive ⊢
    exact each other alive

variable [Fintype PipeId]

theorem EachAlive.fork (each : state.EachAlive property) (endows : Endows layout property)
    (owned : state.Owned layout) (alive : (state.proc pid).status = .alive) :
    Outcome (fun _ => True) (EachAlive property) (state.fork layout pid) := by
  unfold State.fork
  split
  · next child dir isSlot isDir =>
      have unused : (state.proc child).status ≠ .alive := by
        have isUnused : (state.proc child).status = .unused := by
          simpa using List.find?_some isSlot
        simp [isUnused]
      split
      · exact each.setProc fun isAlive => (unused isAlive).elim
      · next kstack rest allocated =>
          have bounded : ∀ frame, rest.count frame ≤ capacity layout frame := by
            intro frame
            have bound := owned.bounded frame
            rw [kalloc_some allocated, count_cons_eq] at bound
            omega
          apply Outcome.bind (endows.copied (state.proc pid) kstack pid dir rest (each pid alive)
            (owned.sizes pid alive) bounded)
          rintro ⟨copy, freelist1⟩ isCopy
          cases copy with
          | none =>
              apply Outcome.bind (Outcome.any _)
              intro freelist2 _
              exact each.setProc fun isAlive => (unused isAlive).elim
          | some copied => exact each.setProc fun _ => isCopy copied rfl
  · exact each

theorem EachAlive.execCall (each : state.EachAlive property) (endows : Endows layout property)
    (owned : state.Owned layout) (program : Program) :
    Outcome (fun _ => True) (EachAlive property) (state.execCall layout pid program) := by
  apply Outcome.bind (endows.loaded (state.proc pid) program state.freelist owned.bounded)
  rintro ⟨image, freelist1⟩ isImage
  simp only
  split
  · next dir sz oldpgdir isDir =>
      apply Outcome.bind (Outcome.any _)
      intro freelist2 _
      exact each.setProc fun _ => isImage _ _ rfl
  · exact each

theorem EachAlive.sbrk (each : state.EachAlive property) (endows : Endows layout property)
    (owned : state.Owned layout) (alive : (state.proc pid).status = .alive) (n : Int32) :
    Outcome (fun _ => True) (EachAlive property) (state.sbrk layout pid n) := by
  have used : (state.proc pid).status ≠ .unused := by simp [alive]
  unfold State.sbrk
  split
  · exact each
  · next dir isDir =>
      apply Outcome.bind (endows.grown (state.proc pid) dir state.freelist n (each pid alive) isDir
        (owned.sizes pid alive) (owned.sole used isDir))
      rintro ⟨size, freelist1, dir1⟩ isGrown
      exact each.setProc fun _ => isGrown

omit [Fintype PipeId] in
theorem EachAlive.exit (each : state.EachAlive property) (endows : Endows layout property) :
    Outcome (fun _ => True) (EachAlive property) (state.exit pid) := by
  unfold State.exit
  split
  · trivial
  · have passed : ({ state with proc := fun other => reparent pid (state.proc other) } :
        State PipeId).EachAlive property := by
      intro other alive
      change (reparent pid (state.proc other)).status = .alive at alive
      have before := each other ((status_reparent pid _).1.symm.trans alive)
      change property (reparent pid (state.proc other))
      unfold reparent
      split
      · exact endows.parent _ _ before
      · exact before
    exact passed.setProc nofun

omit [Fintype PipeId] in
theorem EachAlive.wait (each : state.EachAlive property) :
    Outcome (fun _ => True) (EachAlive property) (state.wait layout pid) := by
  unfold State.wait
  split
  · exact each
  · split
    · apply Outcome.bind (Outcome.any _)
      intro freelist1 _
      apply Outcome.bind (Outcome.any _)
      intro freelist2 _
      exact each.setProc nofun
    · exact each

variable [DecidableEq PipeId]

omit [Fintype PipeId] in
theorem EachAlive.pipealloc (each : state.EachAlive property) (id : PipeId) :
    (state.pipealloc id).EachAlive property := by
  unfold State.pipealloc
  split
  · exact each
  · exact each

omit [Fintype PipeId] in
theorem EachAlive.pipeclose (each : state.EachAlive property) (id : PipeId) (writable : Bool) :
    Outcome (fun _ => True) (EachAlive property) (state.pipeclose layout id writable) := by
  unfold State.pipeclose
  simp only
  split
  · exact each
  · split
    · apply Outcome.bind (Outcome.any _)
      intro freelist1 _
      exact each
    · exact each

theorem EachAlive.step (each : state.EachAlive property) (endows : Endows layout property)
    (owned : state.Owned layout) {action : Action PipeId} {after : State PipeId}
    (taken : state.step layout action = some after) : after.EachAlive property := by
  unfold State.step at taken
  split at taken
  · cases taken
  · obtain ⟨result, made, isAfter⟩ := Option.map_eq_some_iff.mp taken
    have alive : ∀ pid, state.isAlive pid = true → (state.proc pid).status = .alive := by
      intro pid isAlive
      simpa [State.isAlive] using isAlive
    have outcome : Outcome (fun _ => True) (EachAlive property) result := by
      cases action with
      | fork pid =>
          obtain ⟨isAlive, same⟩ := Option.ite_none_right_eq_some.mp made
          cases same
          exact each.fork endows owned (alive pid isAlive)
      | exec pid program =>
          cases (Option.ite_none_right_eq_some.mp made).2
          exact each.execCall endows owned program
      | sbrk pid n =>
          obtain ⟨isAlive, same⟩ := Option.ite_none_right_eq_some.mp made
          cases same
          exact each.sbrk endows owned (alive pid isAlive) n
      | exit pid =>
          cases (Option.ite_none_right_eq_some.mp made).2
          exact each.exit endows
      | wait pid =>
          cases (Option.ite_none_right_eq_some.mp made).2
          exact each.wait
      | pipe pid id =>
          cases (Option.ite_none_right_eq_some.mp made).2
          exact each.pipealloc id
      | pipeclose id writable =>
          cases (Option.ite_none_right_eq_some.mp made).2
          exact each.pipeclose id writable
    cases result with
    | ok next =>
        cases isAfter
        exact outcome
    | error panic =>
        cases isAfter
        exact each

omit [DecidableEq PipeId] in
theorem EachAlive.of_booted (booted : state.IsBooted layout)
    (first : ∀ kstack dir, Maps dir 1 → property ⟨.alive, some kstack, some dir, PGSIZE, none⟩) :
    state.EachAlive property := by
  intro pid alive
  rcases eq_or_ne pid initproc with rfl | distinct
  · obtain ⟨kstack, dir, isProc, maps⟩ := booted.first
    rw [isProc]
    exact first kstack dir maps
  · rw [booted.others pid distinct] at alive
    cases alive

end State

/-- In every run, a property that the calls give to the processes. -/
theorem Endows.run {PipeId : Type} [DecidableEq PipeId] [Fintype PipeId] {layout : Layout}
    {state : State PipeId} {property : Proc → Prop} (endows : Endows layout property)
    (first : ∀ kstack dir, Maps dir 1 → property ⟨.alive, some kstack, some dir, PGSIZE, none⟩)
    (run : Run (State.step layout) anyStep (State.IsBooted layout) state) :
    state.Owned layout ∧ state.EachAlive property := by
  have both : ∀ reached : State PipeId, reached.IsBooted layout →
      reached.Owned layout ∧ reached.EachAlive property :=
    fun _ booted => ⟨State.Owned.of_booted booted, State.EachAlive.of_booted booted first⟩
  have preserved : ∀ (before : State PipeId) (action : Action PipeId) (after : State PipeId),
      before.Owned layout ∧ before.EachAlive property → anyStep before action →
      before.step layout action = some after →
      after.Owned layout ∧ after.EachAlive property := by
    rintro before action after ⟨owned, each⟩ - taken
    exact ⟨owned.step taken, each.step endows owned taken⟩
  exact run.invariant both preserved

end Coursework.Paging
