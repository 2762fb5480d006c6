import Coursework.BufferCache
import Coursework.EntryUpdates

/-!
# References to buffers

`refcnt` counts the references of processes to a buffer, from the lookup in
`bget` to the last section of `brelse`, and the sleeplock is held by the process
that works with the buffer or waits in `iderw` for it.  A process relies on the
block of a buffer that it refers to, and on the flags of a buffer that it has
locked; the steps of the other processes leave both alone.
-/

namespace Coursework.BufferCache

/-! ## References -/

/-- The buffer that a call in progress refers to before it is returned or after it is
given back. -/
def Pc.refs : Pc → BufId → Nat
  | .acquiring _ c, b | .reading _ c, b | .releasing c, b => [c].count b
  | _, _ => 0

/-- The references of a process to a buffer. -/
def Proc.refs (proc : Proc) (b : BufId) : Nat :=
  (proc.held b).isSome.toNat + proc.pc.refs b

/-- A process waits in `iderw`. -/
def Proc.waits (proc : Proc) (b : BufId) : Prop :=
  (∃ block, proc.pc = .reading block b) ∨ proc.pc = .writing b

/-- A process that has the sleeplock of a buffer. -/
def Proc.holds (b : BufId) (proc : Proc) : Bool :=
  (proc.held b).isSome ||
    match proc.pc with
    | .reading _ c => decide (c = b)
    | _ => false

section Proc

variable {Pid Data : Type} {dev : Nat} {buf buf' : BufId → Buf Pid Data}
  {queue queue' : List BufId} {proc : Proc} {b : BufId} {block : Block}

/-- What a process relies on. -/
structure Proc.Ok (dev : Nat) (buf : BufId → Buf Pid Data) (queue : List BufId)
    (proc : Proc) : Prop where
  acquiring : ∀ block b, proc.pc = .acquiring block b →
    (buf b).block = block ∧ block.1 = dev
  reading : ∀ block b, proc.pc = .reading block b →
    (buf b).block = block ∧ block.1 = dev ∧ proc.held b = none ∧
      (buf b).dirty = false ∧ (b ∈ queue ↔ (buf b).valid = false)
  writing : ∀ b, proc.pc = .writing b →
    (proc.held b).isSome = true ∧ (b ∈ queue ↔ (buf b).dirty = true)
  held : ∀ b block, proc.held b = some block →
    (buf b).block = block ∧ block.1 = dev ∧ (buf b).valid = true

theorem Proc.waits_unique {c : BufId} (waits : proc.waits b) (also : proc.waits c) : c = b := by
  rcases waits with ⟨block, place⟩ | place <;> rcases also with ⟨block', place'⟩ | place'
  · rw [place] at place'
    cases place'
    rfl
  · rw [place] at place'
    cases place'
  · rw [place] at place'
    cases place'
  · rw [place] at place'
    cases place'
    rfl

theorem Proc.holds_of_reading (isReading : proc.pc = .reading block b) :
    proc.holds b = true := by
  simp [Proc.holds, isReading]

theorem Proc.holds_of_held (isHeld : (proc.held b).isSome = true) : proc.holds b = true := by
  simp [Proc.holds, isHeld]

theorem Proc.refs_of_holds (holds : proc.holds b = true) : 0 < proc.refs b := by
  simp only [Proc.holds, Bool.or_eq_true] at holds
  rcases holds with isHeld | isReading
  · simp [Proc.refs, isHeld]
  · cases place : proc.pc with
    | reading block c =>
        have same : c = b := by simpa [place] using isReading
        simp [Proc.refs, place, Pc.refs, same]
    | idle => simp [place] at isReading
    | acquiring block c => simp [place] at isReading
    | writing c => simp [place] at isReading
    | releasing c => simp [place] at isReading

/-- A process relies on the blocks of the buffers that it refers to and on the flags of
those that it has locked. -/
theorem Proc.Ok.frame (ok : proc.Ok dev buf queue)
    (blocks : ∀ b, 0 < proc.refs b → (buf' b).block = (buf b).block)
    (flags : ∀ b, proc.holds b = true → (buf' b).valid = (buf b).valid ∧
      (buf' b).dirty = (buf b).dirty ∧ (b ∈ queue' ↔ b ∈ queue)) :
    proc.Ok dev buf' queue' := by
  constructor
  · intro block b place
    rw [blocks b (by simp [Proc.refs, place, Pc.refs])]
    exact ok.acquiring block b place
  · intro block b place
    obtain ⟨valid, dirty, member⟩ := flags b (Proc.holds_of_reading place)
    rw [blocks b (by simp [Proc.refs, place, Pc.refs]), valid, dirty, member]
    exact ok.reading block b place
  · intro b place
    have facts := ok.writing b place
    obtain ⟨-, dirty, member⟩ := flags b (Proc.holds_of_held facts.1)
    rw [dirty, member]
    exact facts
  · intro b block isHeld
    have some : (proc.held b).isSome = true := by simp [isHeld]
    obtain ⟨valid, -, -⟩ := flags b (Proc.holds_of_held some)
    rw [blocks b (Proc.refs_of_holds (Proc.holds_of_held some)), valid]
    exact ok.held b block isHeld

/-- A process that is in no call, or has only to give back its reference. -/
theorem Proc.Ok.resting (rests : proc.pc = .idle ∨ ∃ c, proc.pc = .releasing c)
    (held : ∀ b block, proc.held b = some block →
      (buf b).block = block ∧ block.1 = dev ∧ (buf b).valid = true) :
    proc.Ok dev buf queue := by
  refine ⟨?_, ?_, ?_, held⟩
  · intro block b place
    simp [place] at rests
  · intro block b place
    simp [place] at rests
  · intro b place
    simp [place] at rests

/-- A process to which `bread` returns a buffer. -/
theorem Proc.Ok.returned (ok : proc.Ok dev buf queue) (isBlock : (buf' b).block = block)
    (onDevice : block.1 = dev) (valid : (buf' b).valid = true)
    (others : ∀ c, (buf' c).block = (buf c).block ∧ (buf' c).valid = (buf c).valid) :
    (⟨.idle, Function.update proc.held b (some block)⟩ : Proc).Ok dev buf' queue' := by
  apply Proc.Ok.resting (.inl rfl)
  intro c block' isHeld
  replace isHeld : Function.update proc.held b (some block) c = some block' := isHeld
  by_cases same : c = b
  · subst same
    rw [Function.update_self] at isHeld
    cases isHeld
    exact ⟨isBlock, onDevice, valid⟩
  · rw [Function.update_of_ne same] at isHeld
    rw [(others c).1, (others c).2]
    exact ok.held c block' isHeld

theorem Proc.isSome_returned {c : BufId} (mine : (proc.held c).isSome = true) :
    (Function.update proc.held b (some block) c).isSome = true := by
  by_cases same : c = b
  · subst same
    simp
  · rw [Function.update_of_ne same]
    exact mine

end Proc

namespace State

variable {Pid Data : Type} [DecidableEq Pid] [Fintype Pid] {dev : Nat}

/-- The references and locks of all processes, and the requests to the disk. -/
structure Claims (dev : Nat) (state : State Pid Data) : Prop where
  refs : ∀ b, (state.buf b).refcnt = tally Proc.refs state.proc b
  locks : ∀ b, Tracks (state.buf b).lock (Proc.holds b) state.proc
  procs : ∀ pid, (state.proc pid).Ok dev state.buf state.idequeue
  queued : ∀ b ∈ state.idequeue, ∃ pid, (state.proc pid).waits b
  nodup : state.idequeue.Nodup
  modified : ∀ b, state.modified b = true →
    ∃ pid, ((state.proc pid).held b).isSome = true ∧ (state.proc pid).pc ≠ .writing b

variable {state after : State Pid Data} {pid : Pid} {proc : Proc} {b : BufId} {block : Block}

/-! ## What the references give -/

omit [DecidableEq Pid] in
theorem Claims.refcnt_pos (claims : state.Claims dev) (refs : 0 < (state.proc pid).refs b) :
    0 < (state.buf b).refcnt := by
  rw [claims.refs]
  exact lt_of_lt_of_le refs (le_total (fun proc => proc.refs b) state.proc pid)

omit [DecidableEq Pid] in
theorem Claims.lock_of_held (claims : state.Claims dev)
    (isHeld : ((state.proc pid).held b).isSome = true) : (state.buf b).lock = some pid :=
  (claims.locks b pid).mpr (Proc.holds_of_held isHeld)

omit [DecidableEq Pid] in
theorem Claims.lock_of_waits (claims : state.Claims dev) (waits : (state.proc pid).waits b) :
    (state.buf b).lock = some pid := by
  apply (claims.locks b pid).mpr
  rcases waits with ⟨block, isReading⟩ | isWriting
  · exact Proc.holds_of_reading isReading
  · exact Proc.holds_of_held ((claims.procs pid).writing b isWriting).1

omit [DecidableEq Pid] in
theorem Claims.refcnt_of_lock (claims : state.Claims dev)
    (isLocked : (state.buf b).lock = some pid) : 0 < (state.buf b).refcnt :=
  claims.refcnt_pos (Proc.refs_of_holds ((claims.locks b pid).mp isLocked))

omit [DecidableEq Pid] in
theorem Claims.not_queued (claims : state.Claims dev)
    (notWaiting : ∀ pid, (state.buf b).lock = some pid → ¬ (state.proc pid).waits b) :
    b ∉ state.idequeue := by
  intro member
  obtain ⟨pid, waits⟩ := claims.queued b member
  exact notWaiting pid (claims.lock_of_waits waits) waits

omit [DecidableEq Pid] in
theorem Claims.not_queued_of_uses (claims : state.Claims dev)
    (idle : (state.proc pid).pc = .idle) (isHeld : ((state.proc pid).held b).isSome = true) :
    b ∉ state.idequeue := by
  apply claims.not_queued
  intro other isLocked waits
  rw [claims.lock_of_held isHeld] at isLocked
  cases isLocked
  simp [Proc.waits, idle] at waits

omit [DecidableEq Pid] in
theorem Claims.not_queued_of_free (claims : state.Claims dev)
    (free : (state.buf b).lock = none) : b ∉ state.idequeue := by
  apply claims.not_queued
  intro other isLocked
  rw [free] at isLocked
  cases isLocked

omit [DecidableEq Pid] in
theorem Claims.not_modified_of_queued (claims : state.Claims dev)
    (member : b ∈ state.idequeue) : state.modified b = false := by
  by_contra isModified
  obtain ⟨pid, isHeld, notWriting⟩ := claims.modified b (by simpa using isModified)
  obtain ⟨other, waits⟩ := claims.queued b member
  have same := (claims.lock_of_held isHeld).symm.trans (claims.lock_of_waits waits)
  cases same
  rcases waits with ⟨block, isReading⟩ | isWriting
  · rw [((claims.procs pid).reading block b isReading).2.2.1] at isHeld
    cases isHeld
  · exact notWriting isWriting

omit [DecidableEq Pid] in
/-- A queued buffer caches a block of the device. -/
theorem Claims.dev_of_queued (claims : state.Claims dev) (member : b ∈ state.idequeue) :
    (state.buf b).dev = dev := by
  obtain ⟨pid, waits⟩ := claims.queued b member
  rcases waits with ⟨block, isReading⟩ | isWriting
  · obtain ⟨isBlock, onDevice, -⟩ := (claims.procs pid).reading block b isReading
    rw [← onDevice, ← isBlock]
    rfl
  · obtain ⟨block, isHeld⟩ :=
      Option.isSome_iff_exists.mp ((claims.procs pid).writing b isWriting).1
    obtain ⟨isBlock, onDevice, -⟩ := (claims.procs pid).held b block isHeld
    rw [← onDevice, ← isBlock]
    rfl

/-! ## Moves of one process -/

/-- A step of one process that leaves alone what the others rely on. -/
theorem Claims.move (claims : state.Claims dev) (pid : Pid) (proc : Proc)
    (isProc : after.proc = Function.update state.proc pid proc)
    (here : proc.Ok dev after.buf after.idequeue)
    (blocks : ∀ b, 0 < (state.buf b).refcnt → (after.buf b).block = (state.buf b).block)
    (flags : ∀ b other, other ≠ pid → (state.buf b).lock = some other →
      (after.buf b).valid = (state.buf b).valid ∧ (after.buf b).dirty = (state.buf b).dirty ∧
        (b ∈ after.idequeue ↔ b ∈ state.idequeue))
    (refs : ∀ b, (after.buf b).refcnt = tally Proc.refs after.proc b)
    (locks : ∀ b, Tracks (after.buf b).lock (Proc.holds b) after.proc)
    (queued : ∀ b ∈ after.idequeue,
      (b ∈ state.idequeue ∧ ¬ (state.proc pid).waits b) ∨ proc.waits b)
    (nodup : after.idequeue.Nodup)
    (modified : ∀ b, after.modified b = true →
      (state.modified b = true ∧ ((state.proc pid).held b).isSome = false) ∨
        ((proc.held b).isSome = true ∧ proc.pc ≠ .writing b)) :
    after.Claims dev := by
  have isHere : after.proc pid = proc := by rw [isProc, Function.update_self]
  have others : ∀ other, other ≠ pid → after.proc other = state.proc other := by
    intro other distinct
    rw [isProc, Function.update_of_ne distinct]
  refine ⟨refs, locks, ?_, ?_, nodup, ?_⟩
  · intro other
    by_cases same : other = pid
    · subst same
      rw [isHere]
      exact here
    · rw [others other same]
      apply (claims.procs other).frame
      · intro b isRef
        exact blocks b (claims.refcnt_pos isRef)
      · intro b holds
        exact flags b other same ((claims.locks b other).mpr holds)
  · intro b member
    rcases queued b member with ⟨before, notMine⟩ | mine
    · obtain ⟨other, waits⟩ := claims.queued b before
      have distinct : other ≠ pid := by
        rintro rfl
        exact notMine waits
      exact ⟨other, by rw [others other distinct]; exact waits⟩
    · exact ⟨pid, by rw [isHere]; exact mine⟩
  · intro b isModified
    rcases modified b isModified with ⟨before, notMine⟩ | mine
    · obtain ⟨other, isHeld, place⟩ := claims.modified b before
      have distinct : other ≠ pid := by
        rintro rfl
        rw [isHeld] at notMine
        cases notMine
      exact ⟨other, by rw [others other distinct]; exact ⟨isHeld, place⟩⟩
    · exact ⟨pid, by rw [isHere]; exact mine⟩

/-- `bget` adds a reference to a buffer, which it may reassign only when there was
none. -/
theorem Claims.join {buf : Buf Pid Data} (claims : state.Claims dev)
    (idle : (state.proc pid).pc = .idle) (isBlock : buf.block = block)
    (onDevice : block.1 = dev) (lock : buf.lock = (state.buf b).lock)
    (refcnt : buf.refcnt = (state.buf b).refcnt + 1)
    (kept : 0 < (state.buf b).refcnt → buf.block = (state.buf b).block ∧
      buf.valid = (state.buf b).valid ∧ buf.dirty = (state.buf b).dirty) :
    ((state.setBuf b buf).goto pid (.acquiring block b)).Claims dev := by
  have same : ∀ c, 0 < (state.buf c).refcnt →
      (Function.update state.buf b buf c).block = (state.buf c).block ∧
        (Function.update state.buf b buf c).valid = (state.buf c).valid ∧
          (Function.update state.buf b buf c).dirty = (state.buf c).dirty := by
    intro c positive
    by_cases here : c = b
    · subst here
      rw [Function.update_self]
      exact kept positive
    · rw [Function.update_of_ne here]
      exact ⟨rfl, rfl, rfl⟩
  have framed : (state.proc pid).Ok dev (Function.update state.buf b buf) state.idequeue := by
    apply (claims.procs pid).frame
    · intro c isRef
      exact (same c (claims.refcnt_pos isRef)).1
    · intro c holds
      have facts := same c (claims.refcnt_pos (Proc.refs_of_holds holds))
      exact ⟨facts.2.1, facts.2.2, Iff.rfl⟩
  apply claims.move pid { state.proc pid with pc := .acquiring block b } rfl
  · refine ⟨?_, ?_, ?_, framed.held⟩
    · intro block' c place
      cases place
      simp only [goto, setProc, setBuf, Function.update_self]
      exact ⟨isBlock, onDevice⟩
    · intro block' c place
      cases place
    · intro c place
      cases place
  · intro c positive
    exact (same c positive).1
  · intro c other distinct isLocked
    have facts := same c (claims.refcnt_of_lock isLocked)
    exact ⟨facts.2.1, facts.2.2, Iff.rfl⟩
  · have gained : tally Proc.refs (Function.update state.proc pid
        { state.proc pid with pc := .acquiring block b }) =
        Function.update (tally Proc.refs state.proc) b (tally Proc.refs state.proc b + 1) := by
      apply tally_gain
      intro c
      simp [Proc.refs, Pc.refs, idle]
    intro c
    simp only [goto, setProc, setBuf, gained]
    by_cases here : c = b
    · subst here
      rw [Function.update_self, Function.update_self, refcnt, claims.refs]
    · rw [Function.update_of_ne here, Function.update_of_ne here, claims.refs]
  · intro c
    have isLock : (Function.update state.buf b buf c).lock = (state.buf c).lock := by
      by_cases here : c = b
      · subst here
        rw [Function.update_self]
        exact lock
      · rw [Function.update_of_ne here]
    simp only [goto, setProc, setBuf, isLock]
    apply (claims.locks c).keep
    simp [Proc.holds, idle]
  · intro c member
    left
    exact ⟨member, by simp [Proc.waits, idle]⟩
  · exact claims.nodup
  · intro c isModified
    by_cases mine : ((state.proc pid).held c).isSome = true
    · right
      exact ⟨mine, by simp⟩
    · left
      exact ⟨isModified, by simpa using mine⟩

/-- A step that changes neither the references to a buffer nor its block. -/
theorem Claims.shift (claims : state.Claims dev) (pid : Pid) (proc : Proc)
    (isProc : after.proc = Function.update state.proc pid proc)
    (same : ∀ b, (after.buf b).block = (state.buf b).block ∧
      (after.buf b).refcnt = (state.buf b).refcnt)
    (refs : ∀ b, proc.refs b = (state.proc pid).refs b)
    (here : proc.Ok dev after.buf after.idequeue)
    (flags : ∀ b other, other ≠ pid → (state.buf b).lock = some other →
      (after.buf b).valid = (state.buf b).valid ∧ (after.buf b).dirty = (state.buf b).dirty ∧
        (b ∈ after.idequeue ↔ b ∈ state.idequeue))
    (locks : ∀ b, Tracks (after.buf b).lock (Proc.holds b) after.proc)
    (queued : ∀ b ∈ after.idequeue,
      (b ∈ state.idequeue ∧ ¬ (state.proc pid).waits b) ∨ proc.waits b)
    (nodup : after.idequeue.Nodup)
    (modified : ∀ b, after.modified b = true →
      (state.modified b = true ∧ ((state.proc pid).held b).isSome = false) ∨
        ((proc.held b).isSome = true ∧ proc.pc ≠ .writing b)) :
    after.Claims dev := by
  apply claims.move pid proc isProc here (fun b _ => (same b).1) flags _ locks queued nodup
    modified
  intro b
  rw [(same b).2, claims.refs, isProc, tally_same refs]

omit [DecidableEq Pid] in
theorem Claims.held_of_free (claims : state.Claims dev) (free : (state.buf b).lock = none)
    (pid : Pid) : (state.proc pid).held b = none := by
  cases isHeld : (state.proc pid).held b with
  | none => rfl
  | some block =>
      rw [claims.lock_of_held (by rw [isHeld]; rfl)] at free
      cases free

/-- A step that takes the free sleeplock of a buffer. -/
theorem Claims.locks_take (claims : state.Claims dev) (free : (state.buf b).lock = none)
    (isHere : proc.holds b = true)
    (others : ∀ c, c ≠ b → proc.holds c = (state.proc pid).holds c) (c : BufId) :
    Tracks (Function.update state.buf b { state.buf b with lock := some pid } c).lock
      (Proc.holds c) (Function.update state.proc pid proc) := by
  by_cases same : c = b
  · subst same
    have tracks := claims.locks c
    rw [free] at tracks
    rw [Function.update_self]
    exact tracks.take isHere
  · rw [Function.update_of_ne same]
    exact (claims.locks c).keep (others c same)

omit [DecidableEq Pid] [Fintype Pid] in
theorem update_lock (state : State Pid Data) (lock : Option Pid) (b c : BufId) :
    (Function.update state.buf b { state.buf b with lock := lock } c).block =
        (state.buf c).block ∧
      (Function.update state.buf b { state.buf b with lock := lock } c).refcnt =
        (state.buf c).refcnt ∧
      (Function.update state.buf b { state.buf b with lock := lock } c).valid =
        (state.buf c).valid ∧
      (Function.update state.buf b { state.buf b with lock := lock } c).dirty =
        (state.buf c).dirty ∧
      (Function.update state.buf b { state.buf b with lock := lock } c).data =
        (state.buf c).data := by
  by_cases same : c = b
  · subst same
    rw [Function.update_self]
    exact ⟨rfl, rfl, rfl, rfl, rfl⟩
  · rw [Function.update_of_ne same]
    exact ⟨rfl, rfl, rfl, rfl, rfl⟩

omit [DecidableEq Pid] [Fintype Pid] in
/-- What a process has modified it still holds. -/
theorem modified_kept (isModified : state.modified b = true)
    (held : ((state.proc pid).held b).isSome = true → (proc.held b).isSome = true)
    (place : ∀ c, proc.pc ≠ .writing c) :
    (state.modified b = true ∧ ((state.proc pid).held b).isSome = false) ∨
      ((proc.held b).isSome = true ∧ proc.pc ≠ .writing b) := by
  by_cases mine : ((state.proc pid).held b).isSome = true
  · exact .inr ⟨held mine, place b⟩
  · exact .inl ⟨isModified, by simpa using mine⟩

/-- `bread` of a valid buffer returns with its sleeplock. -/
theorem Claims.take (claims : state.Claims dev)
    (place : (state.proc pid).pc = .acquiring block b) (free : (state.buf b).lock = none)
    (valid : (state.buf b).valid = true) :
    ((state.setBuf b { state.buf b with lock := some pid }).returned pid block b).Claims dev := by
  have notHeld := claims.held_of_free free pid
  have isBlock := (claims.procs pid).acquiring block b place
  have kept := update_lock state (some pid) b
  apply claims.shift pid
    { pc := .idle, held := Function.update (state.proc pid).held b (some block) } rfl
  · intro c
    exact ⟨(kept c).1, (kept c).2.1⟩
  · intro c
    by_cases same : c = b
    · subst same
      simp [Proc.refs, Pc.refs, place, notHeld]
    · simp [Proc.refs, Pc.refs, place, Function.update_of_ne same, Ne.symm same]
  · apply (claims.procs pid).returned ((kept b).1.trans isBlock.1) isBlock.2
      ((kept b).2.2.1.trans valid)
    intro c
    exact ⟨(kept c).1, (kept c).2.2.1⟩
  · intro c other distinct isLocked
    exact ⟨(kept c).2.2.1, (kept c).2.2.2.1, Iff.rfl⟩
  · apply claims.locks_take free
    · simp [Proc.holds]
    · intro c distinct
      simp [Proc.holds, place, Function.update_of_ne distinct, setBuf]
  · intro c member
    exact .inl ⟨member, by simp [Proc.waits, place]⟩
  · exact claims.nodup
  · intro c isModified
    exact modified_kept isModified Proc.isSome_returned (by simp)

/-- `bread` of a buffer that is not valid takes its sleeplock and waits. -/
theorem Claims.read (claims : state.Claims dev)
    (place : (state.proc pid).pc = .acquiring block b) (free : (state.buf b).lock = none)
    (invalid : (state.buf b).valid = false) (clean : (state.buf b).dirty = false) :
    ((state.setBuf b { state.buf b with lock := some pid }).enqueue pid b
      (.reading block b)).Claims dev := by
  have notHeld := claims.held_of_free free pid
  have notQueued := claims.not_queued_of_free free
  have isBlock := (claims.procs pid).acquiring block b place
  have kept := update_lock state (some pid) b
  apply claims.shift pid { state.proc pid with pc := .reading block b } rfl
  · intro c
    exact ⟨(kept c).1, (kept c).2.1⟩
  · intro c
    simp [Proc.refs, Pc.refs, place]
  · refine ⟨?_, ?_, ?_, ?_⟩
    · intro block' c isPlace
      cases isPlace
    · intro block' c isPlace
      cases isPlace
      refine ⟨(kept b).1.trans isBlock.1, isBlock.2, notHeld, (kept b).2.2.2.1.trans clean, ?_⟩
      have isInvalid := (kept b).2.2.1.trans invalid
      simp only [enqueue, goto, setProc, setBuf, isInvalid, List.mem_append, List.mem_singleton,
        or_true]
    · intro c isPlace
      cases isPlace
    · intro c block' isHeld
      have facts := (claims.procs pid).held c block' isHeld
      exact ⟨(kept c).1.trans facts.1, facts.2.1, (kept c).2.2.1.trans facts.2.2⟩
  · intro c other distinct isLocked
    refine ⟨(kept c).2.2.1, (kept c).2.2.2.1, ?_⟩
    have notHere : c ≠ b := by
      rintro rfl
      rw [free] at isLocked
      cases isLocked
    simp [enqueue, goto, setProc, setBuf, notHere]
  · apply claims.locks_take free
    · simp [Proc.holds]
    · intro c distinct
      simp [Proc.holds, place, setBuf, Ne.symm distinct]
  · intro c member
    rcases List.mem_append.mp member with before | isHere
    · exact .inl ⟨before, by simp [Proc.waits, place]⟩
    · cases List.mem_singleton.mp isHere
      exact .inr (.inl ⟨block, rfl⟩)
  · exact List.nodup_append'.mpr
      ⟨claims.nodup, List.nodup_singleton b, by simpa [setBuf] using notQueued⟩
  · intro c isModified
    exact modified_kept isModified id (by simp)

/-- `bread` returns when its request is finished. -/
theorem Claims.returned (claims : state.Claims dev)
    (place : (state.proc pid).pc = .reading block b) (valid : (state.buf b).valid = true) :
    (state.returned pid block b).Claims dev := by
  obtain ⟨isBlock, onDevice, notHeld, clean, isQueued⟩ :=
    (claims.procs pid).reading block b place
  apply claims.shift pid
    { pc := .idle, held := Function.update (state.proc pid).held b (some block) } rfl
  · intro c
    exact ⟨rfl, rfl⟩
  · intro c
    by_cases same : c = b
    · subst same
      simp [Proc.refs, Pc.refs, place, notHeld]
    · simp [Proc.refs, Pc.refs, place, Function.update_of_ne same, Ne.symm same]
  · apply (claims.procs pid).returned isBlock onDevice valid
    intro c
    exact ⟨rfl, rfl⟩
  · intro c other distinct isLocked
    exact ⟨rfl, rfl, Iff.rfl⟩
  · intro c
    apply (claims.locks c).keep
    by_cases same : c = b
    · subst same
      simp [Proc.holds, place]
    · simp [Proc.holds, place, Function.update_of_ne same, Ne.symm same]
  · intro c member
    refine .inl ⟨member, ?_⟩
    rintro (⟨block', isReading⟩ | isWriting)
    · rw [place] at isReading
      cases isReading
      rw [isQueued.mp member] at valid
      cases valid
    · rw [place] at isWriting
      cases isWriting
  · exact claims.nodup
  · intro c isModified
    exact modified_kept isModified Proc.isSome_returned (by simp)

/-- `bwrite` returns when its request is finished. -/
theorem Claims.written (claims : state.Claims dev)
    (place : (state.proc pid).pc = .writing b) (clean : (state.buf b).dirty = false) :
    (state.goto pid .idle).Claims dev := by
  have isQueued := ((claims.procs pid).writing b place).2
  apply claims.shift pid { state.proc pid with pc := .idle } rfl
  · intro c
    exact ⟨rfl, rfl⟩
  · intro c
    simp [Proc.refs, Pc.refs, place]
  · exact Proc.Ok.resting (.inl rfl) (claims.procs pid).held
  · intro c other distinct isLocked
    exact ⟨rfl, rfl, Iff.rfl⟩
  · intro c
    apply (claims.locks c).keep
    simp [Proc.holds, place]
  · intro c member
    refine .inl ⟨member, ?_⟩
    rintro (⟨block', isReading⟩ | isWriting)
    · rw [place] at isReading
      cases isReading
    · rw [place] at isWriting
      cases isWriting
      rw [isQueued.mp member] at clean
      cases clean
  · exact claims.nodup
  · intro c isModified
    exact modified_kept isModified id (by simp)

/-- The holder of a buffer changes its contents or its dirty flag. -/
theorem Claims.touch {buf : Buf Pid Data} (claims : state.Claims dev)
    (idle : (state.proc pid).pc = .idle) (isHeld : ((state.proc pid).held b).isSome = true)
    (isProc : after.proc = state.proc) (isQueue : after.idequeue = state.idequeue)
    (isBuf : after.buf = Function.update state.buf b buf)
    (kept : buf.block = (state.buf b).block ∧ buf.refcnt = (state.buf b).refcnt ∧
      buf.valid = (state.buf b).valid ∧ buf.lock = (state.buf b).lock)
    (modified : ∀ c, c ≠ b → after.modified c = state.modified c) : after.Claims dev := by
  have same : ∀ c, (after.buf c).block = (state.buf c).block ∧
      (after.buf c).refcnt = (state.buf c).refcnt ∧
        (after.buf c).valid = (state.buf c).valid ∧ (after.buf c).lock = (state.buf c).lock := by
    intro c
    rw [isBuf]
    by_cases here : c = b
    · subst here
      rw [Function.update_self]
      exact kept
    · rw [Function.update_of_ne here]
      exact ⟨rfl, rfl, rfl, rfl⟩
  apply claims.shift pid (state.proc pid) (by rw [isProc, Function.update_eq_self])
  · intro c
    exact ⟨(same c).1, (same c).2.1⟩
  · intro c
    rfl
  · apply Proc.Ok.resting (.inl idle)
    intro c block' holds
    rw [(same c).1, (same c).2.2.1]
    exact (claims.procs pid).held c block' holds
  · intro c other distinct isLocked
    have notHere : c ≠ b := by
      rintro rfl
      rw [claims.lock_of_held isHeld] at isLocked
      cases isLocked
      exact distinct rfl
    rw [isBuf, isQueue, Function.update_of_ne notHere]
    exact ⟨rfl, rfl, Iff.rfl⟩
  · intro c
    rw [(same c).2.2.2, isProc]
    exact claims.locks c
  · intro c member
    rw [isQueue] at member
    exact .inl ⟨member, by simp [Proc.waits, idle]⟩
  · rw [isQueue]
    exact claims.nodup
  · intro c isModified
    by_cases here : c = b
    · subst here
      exact .inr ⟨isHeld, by simp [idle]⟩
    · rw [modified c here] at isModified
      exact modified_kept isModified id (by simp [idle])

/-- `bwrite` waits for a dirty buffer. -/
theorem Claims.write (claims : state.Claims dev)
    (idle : (state.proc pid).pc = .idle) (isHeld : ((state.proc pid).held b).isSome = true)
    (dirty : (state.buf b).dirty = true) (unmodified : state.modified b = false) :
    (state.enqueue pid b (.writing b)).Claims dev := by
  have notQueued := claims.not_queued_of_uses idle isHeld
  apply claims.shift pid { state.proc pid with pc := .writing b } rfl
  · intro c
    exact ⟨rfl, rfl⟩
  · intro c
    simp [Proc.refs, Pc.refs, idle]
  · refine ⟨?_, ?_, ?_, (claims.procs pid).held⟩
    · intro block' c isPlace
      cases isPlace
    · intro block' c isPlace
      cases isPlace
    · intro c isPlace
      cases isPlace
      refine ⟨isHeld, ?_⟩
      simp [enqueue, goto, setProc, dirty]
  · intro c other distinct isLocked
    have notHere : c ≠ b := by
      rintro rfl
      rw [claims.lock_of_held isHeld] at isLocked
      cases isLocked
      exact distinct rfl
    refine ⟨rfl, rfl, ?_⟩
    simp [enqueue, goto, setProc, notHere]
  · intro c
    apply (claims.locks c).keep
    simp [Proc.holds, idle]
  · intro c member
    rcases List.mem_append.mp member with before | isHere
    · exact .inl ⟨before, by simp [Proc.waits, idle]⟩
    · cases List.mem_singleton.mp isHere
      exact .inr (.inr rfl)
  · exact List.nodup_append'.mpr ⟨claims.nodup, List.nodup_singleton b, by simpa using notQueued⟩
  · intro c isModified
    replace isModified : state.modified c = true := isModified
    by_cases mine : ((state.proc pid).held c).isSome = true
    · refine .inr ⟨mine, ?_⟩
      intro isPlace
      cases isPlace
      rw [unmodified] at isModified
      cases isModified
    · exact .inl ⟨isModified, by simpa using mine⟩

/-- `brelse` gives up the sleeplock. -/
theorem Claims.brelse (claims : state.Claims dev)
    (idle : (state.proc pid).pc = .idle) (isHeld : ((state.proc pid).held b).isSome = true)
    (unmodified : state.modified b = false) :
    ((state.setBuf b { state.buf b with lock := none }).setProc pid
      { pc := .releasing b, held := Function.update (state.proc pid).held b none }).Claims
        dev := by
  have kept := update_lock state none b
  apply claims.shift pid
    { pc := .releasing b, held := Function.update (state.proc pid).held b none } rfl
  · intro c
    exact ⟨(kept c).1, (kept c).2.1⟩
  · intro c
    by_cases same : c = b
    · subst same
      simp [Proc.refs, Pc.refs, idle, isHeld]
    · simp [Proc.refs, Pc.refs, idle, Function.update_of_ne same, Ne.symm same]
  · apply Proc.Ok.resting (.inr ⟨b, rfl⟩)
    intro c block' holds
    replace holds : Function.update (state.proc pid).held b none c = some block' := holds
    by_cases same : c = b
    · subst same
      simp at holds
    · rw [Function.update_of_ne same] at holds
      have facts := (claims.procs pid).held c block' holds
      exact ⟨(kept c).1.trans facts.1, facts.2.1, (kept c).2.2.1.trans facts.2.2⟩
  · intro c other distinct isLocked
    exact ⟨(kept c).2.2.1, (kept c).2.2.2.1, Iff.rfl⟩
  · intro c
    simp only [setProc, setBuf]
    by_cases same : c = b
    · subst same
      rw [Function.update_self]
      apply (claims.locks c).give (Proc.holds_of_held isHeld)
      simp [Proc.holds]
    · rw [Function.update_of_ne same]
      apply (claims.locks c).keep
      simp [Proc.holds, idle, Function.update_of_ne same]
  · intro c member
    exact .inl ⟨member, by simp [Proc.waits, idle]⟩
  · exact claims.nodup
  · intro c isModified
    replace isModified : state.modified c = true := isModified
    apply modified_kept isModified _ (by simp)
    intro mine
    have notHere : c ≠ b := by
      rintro rfl
      rw [unmodified] at isModified
      cases isModified
    simpa [Function.update_of_ne notHere] using mine

/-- `brelse` gives up its reference. -/
theorem Claims.release (claims : state.Claims dev)
    (place : (state.proc pid).pc = .releasing b) :
    ((state.setBuf b { state.buf b with refcnt := (state.buf b).refcnt - 1 }).goto pid
      .idle).Claims dev := by
  have same : ∀ c, (Function.update state.buf b
        { state.buf b with refcnt := (state.buf b).refcnt - 1 } c).block = (state.buf c).block ∧
      (Function.update state.buf b
        { state.buf b with refcnt := (state.buf b).refcnt - 1 } c).valid = (state.buf c).valid ∧
      (Function.update state.buf b
        { state.buf b with refcnt := (state.buf b).refcnt - 1 } c).dirty = (state.buf c).dirty ∧
      (Function.update state.buf b
        { state.buf b with refcnt := (state.buf b).refcnt - 1 } c).lock = (state.buf c).lock := by
    intro c
    by_cases here : c = b
    · subst here
      rw [Function.update_self]
      exact ⟨rfl, rfl, rfl, rfl⟩
    · rw [Function.update_of_ne here]
      exact ⟨rfl, rfl, rfl, rfl⟩
  apply claims.move pid { state.proc pid with pc := .idle } rfl
  · apply Proc.Ok.resting (.inl rfl)
    intro c block' holds
    have facts := (claims.procs pid).held c block' holds
    exact ⟨(same c).1.trans facts.1, facts.2.1, (same c).2.1.trans facts.2.2⟩
  · intro c positive
    exact (same c).1
  · intro c other distinct isLocked
    exact ⟨(same c).2.1, (same c).2.2.1, Iff.rfl⟩
  · have lost : tally Proc.refs (Function.update state.proc pid
        { state.proc pid with pc := .idle }) =
        Function.update (tally Proc.refs state.proc) b (tally Proc.refs state.proc b - 1) := by
      apply tally_lose
      intro c
      simp [Proc.refs, Pc.refs, place]
    intro c
    simp only [goto, setProc, setBuf, lost]
    by_cases here : c = b
    · subst here
      rw [Function.update_self, Function.update_self, claims.refs]
    · rw [Function.update_of_ne here, Function.update_of_ne here, claims.refs]
  · intro c
    simp only [goto, setProc, setBuf, (same c).2.2.2]
    apply (claims.locks c).keep
    simp [Proc.holds, place]
  · intro c member
    exact .inl ⟨member, by simp [Proc.waits, place]⟩
  · exact claims.nodup
  · intro c isModified
    exact modified_kept isModified id (by simp)

omit [DecidableEq Pid] [Fintype Pid] in
theorem finish_of_ne (rest : List BufId) {c : BufId} (distinct : c ≠ b) :
    (state.finish b rest).buf c = state.buf c :=
  Function.update_of_ne distinct _ _

omit [DecidableEq Pid] [Fintype Pid] in
theorem finish_kept (state : State Pid Data) (b : BufId) (rest : List BufId) (c : BufId) :
    ((state.finish b rest).buf c).block = (state.buf c).block ∧
      ((state.finish b rest).buf c).refcnt = (state.buf c).refcnt ∧
        ((state.finish b rest).buf c).lock = (state.buf c).lock := by
  by_cases same : c = b
  · subst same
    simp [State.finish, setBuf, Buf.block]
  · rw [finish_of_ne rest same]
    exact ⟨rfl, rfl, rfl⟩

omit [DecidableEq Pid] in
/-- The disk finishes the first request. -/
theorem Claims.finish {rest : List BufId} (claims : state.Claims dev)
    (isQueue : state.idequeue = b :: rest) : (state.finish b rest).Claims dev := by
  have nodup := claims.nodup
  rw [isQueue, List.nodup_cons] at nodup
  obtain ⟨waiter, waits⟩ := claims.queued b (by simp [isQueue])
  have waiterLock := claims.lock_of_waits waits
  have same := finish_kept state b rest
  have stays : ∀ c, (state.buf c).valid = true →
      ((state.finish b rest).buf c).valid = true := by
    intro c valid
    by_cases here : c = b
    · subst here
      simp [State.finish, setBuf]
    · rw [finish_of_ne rest here]
      exact valid
  refine ⟨?_, ?_, ?_, ?_, nodup.2, claims.modified⟩
  · intro c
    exact (same c).2.1.trans (claims.refs c)
  · intro c
    rw [(same c).2.2]
    exact claims.locks c
  · intro pid
    by_cases isWaiter : pid = waiter
    · subst isWaiter
      refine ⟨?_, ?_, ?_, ?_⟩
      · intro block c place
        have facts := (claims.procs pid).acquiring block c place
        exact ⟨(same c).1.trans facts.1, facts.2⟩
      · intro block c place
        obtain ⟨isBlock, onDevice, notHeld, -⟩ := (claims.procs pid).reading block c place
        have here : c = b := Proc.waits_unique waits (.inl ⟨block, place⟩)
        subst here
        refine ⟨(same c).1.trans isBlock, onDevice, notHeld, ?_, ?_⟩
        · simp [State.finish, setBuf]
        · simpa [State.finish, setBuf] using nodup.1
      · intro c place
        have isHeld := ((claims.procs pid).writing c place).1
        have here : c = b := Proc.waits_unique waits (.inr place)
        subst here
        exact ⟨isHeld, by simpa [State.finish, setBuf] using nodup.1⟩
      · intro c block isHeld
        have facts := (claims.procs pid).held c block isHeld
        exact ⟨(same c).1.trans facts.1, facts.2.1, stays c facts.2.2⟩
    · apply (claims.procs pid).frame
      · intro c isRef
        exact (same c).1
      · intro c holds
        have notHere : c ≠ b := by
          rintro rfl
          have isLock := (claims.locks c pid).mpr holds
          rw [waiterLock] at isLock
          cases isLock
          exact isWaiter rfl
        rw [finish_of_ne rest notHere]
        simp [State.finish, setBuf, isQueue, notHere]
  · intro c member
    exact claims.queued c (by simp [isQueue, show c ∈ rest from member])

end State

end Coursework.BufferCache
