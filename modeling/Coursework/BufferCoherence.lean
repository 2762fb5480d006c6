import Coursework.BufferReferences

/-!
# Coherence of the buffer cache

A buffer keeps its block while a process refers to it or while it is dirty, and
`bget` reassigns a buffer only when no other one caches the block.  A block that
no dirty buffer caches is on the disk as it was last left, and a valid buffer
has these contents unless its holder has changed them.  Contents reach the disk
only through `bwrite`.
-/

namespace Coursework.BufferCache

theorem sector_injective {dev first second : Nat}
    (same : sector (dev, first) = sector (dev, second)) : first = second :=
  (Prod.mk.inj same).2

namespace State

variable {Pid Data : Type} {dev : Nat}

/-- Where the contents of a block are. -/
structure Stored (dev : Nat) (state : State Pid Data) : Prop where
  dirty : ∀ b, (state.buf b).dirty = true → (state.buf b).valid = true
  contents : ∀ b, (state.buf b).dev = dev → (state.buf b).valid = true →
    state.modified b = false → (state.buf b).data = state.left (state.buf b).block
  stable : ∀ blockno, (∀ b, (state.buf b).block = (dev, blockno) →
    (state.buf b).dirty = false) →
      state.disk (sector (dev, blockno)) = state.left (dev, blockno)

/-- The disk has the contents of the write that is in progress. -/
def Sent (state : State Pid Data) : Prop :=
  ∀ b, state.idequeue.head? = some b → (state.buf b).dirty = true →
    state.disk (sector (state.buf b).block) = (state.buf b).data

/-- The list through the head is a permutation of the buffers. -/
def Ring (state : State Pid Data) : Prop :=
  ∃ order, order.Perm (List.finRange NBUF) ∧ state.links.Visits order

/-- At most one buffer caches a block of the device. -/
def Unique (dev : Nat) (state : State Pid Data) : Prop :=
  ∀ b c, (state.buf b).dev = dev → (state.buf b).block = (state.buf c).block → b = c

structure Inv [Fintype Pid] (dev : Nat) (state : State Pid Data) : Prop where
  ring : state.Ring
  unique : state.Unique dev
  claims : state.panic = none → state.Claims dev
  stored : state.panic = none → state.Stored dev
  sent : state.panic = none → state.Sent

variable {state after : State Pid Data} {pid : Pid} {b : BufId} {block : Block} {pc : Pc}

/-! ## Contents -/

/-- A step that changes neither contents nor the flags and the block of a buffer. -/
theorem Stored.keep (stored : state.Stored dev)
    (same : ∀ c, (after.buf c).block = (state.buf c).block ∧
      (after.buf c).valid = (state.buf c).valid ∧ (after.buf c).dirty = (state.buf c).dirty ∧
        (after.buf c).data = (state.buf c).data)
    (disk : after.disk = state.disk) (left : after.left = state.left)
    (modified : after.modified = state.modified) : after.Stored dev := by
  have devices : ∀ c, (after.buf c).dev = (state.buf c).dev := by
    intro c
    exact (Prod.mk.inj (same c).1).1
  constructor
  · intro c isDirty
    rw [(same c).2.2.1] at isDirty
    rw [(same c).2.1]
    exact stored.dirty c isDirty
  · intro c onDevice valid unmodified
    rw [devices] at onDevice
    rw [(same c).2.1] at valid
    rw [modified] at unmodified
    rw [(same c).2.2.2, left, (same c).1]
    exact stored.contents c onDevice valid unmodified
  · intro blockno clean
    rw [disk, left]
    apply stored.stable
    intro c isBlock
    rw [← (same c).2.2.1]
    exact clean c ((same c).1.trans isBlock)

theorem Sent.keep (sent : state.Sent)
    (same : ∀ c, (after.buf c).block = (state.buf c).block ∧
      (after.buf c).valid = (state.buf c).valid ∧ (after.buf c).dirty = (state.buf c).dirty ∧
        (after.buf c).data = (state.buf c).data)
    (disk : after.disk = state.disk)
    (queue : after.idequeue.head? = state.idequeue.head?) : after.Sent := by
  intro c isHead isDirty
  rw [queue] at isHead
  rw [(same c).2.2.1] at isDirty
  rw [disk, (same c).1, (same c).2.2.2]
  exact sent c isHead isDirty

theorem Unique.keep (unique : state.Unique dev)
    (same : ∀ c, (after.buf c).block = (state.buf c).block) : after.Unique dev := by
  intro first second onDevice equal
  have device : (after.buf first).dev = (state.buf first).dev := (Prod.mk.inj (same first)).1
  rw [device] at onDevice
  rw [same, same] at equal
  exact unique first second onDevice equal

/-- A reassigned buffer was not dirty, so its block is on the disk. -/
theorem Stored.recycle {buf : Buf Pid Data} (stored : state.Stored dev)
    (wasClean : (state.buf b).dirty = false) (clean : buf.dirty = false)
    (invalid : buf.valid = false) : (state.setBuf b buf).Stored dev := by
  have others : ∀ c, c ≠ b → (state.setBuf b buf).buf c = state.buf c := by
    intro c distinct
    exact Function.update_of_ne distinct buf state.buf
  have here : (state.setBuf b buf).buf b = buf := by simp [setBuf]
  constructor
  · intro c isDirty
    by_cases same : c = b
    · subst same
      rw [here, clean] at isDirty
      cases isDirty
    · rw [others c same] at isDirty ⊢
      exact stored.dirty c isDirty
  · intro c onDevice valid unmodified
    by_cases same : c = b
    · subst same
      rw [here, invalid] at valid
      cases valid
    · rw [others c same] at onDevice valid ⊢
      exact stored.contents c onDevice valid unmodified
  · intro blockno isClean
    apply stored.stable
    intro c isBlock
    by_cases same : c = b
    · subst same
      exact wasClean
    · rw [← others c same] at isBlock ⊢
      exact isClean c isBlock

/-- The holder of a buffer changes its contents. -/
theorem Stored.modify {data : Data} (stored : state.Stored dev) :
    (state.modify b data).Stored dev := by
  have same : ∀ c, ((state.modify b data).buf c).block = (state.buf c).block ∧
      ((state.modify b data).buf c).valid = (state.buf c).valid ∧
        ((state.modify b data).buf c).dirty = (state.buf c).dirty := by
    intro c
    simp only [State.modify, setBuf]
    by_cases here : c = b
    · subst here
      rw [Function.update_self]
      exact ⟨rfl, rfl, rfl⟩
    · rw [Function.update_of_ne here]
      exact ⟨rfl, rfl, rfl⟩
  constructor
  · intro c isDirty
    rw [(same c).2.2] at isDirty
    rw [(same c).2.1]
    exact stored.dirty c isDirty
  · intro c onDevice valid unmodified
    have notHere : c ≠ b := by
      rintro rfl
      simp [State.modify] at unmodified
    simp only [State.modify, setBuf, Function.update_of_ne notHere] at *
    exact stored.contents c onDevice valid unmodified
  · intro blockno clean
    apply stored.stable
    intro c isBlock
    rw [← (same c).2.2]
    exact clean c ((same c).1.trans isBlock)

/-- What `log_write` and `bwrite` do to a buffer. -/
theorem Stored.leave (stored : state.Stored dev) (unique : state.Unique dev)
    (onDevice : (state.buf b).dev = dev) (valid : (state.buf b).valid = true) :
    (state.leave b).Stored dev := by
  have others : ∀ c, c ≠ b → (state.leave b).buf c = state.buf c := by
    intro c distinct
    simp only [State.leave, setBuf, Function.update_of_ne distinct]
  have here : (state.leave b).buf b = { state.buf b with dirty := true } := by
    simp only [State.leave, setBuf, Function.update_self]
  constructor
  · intro c isDirty
    by_cases same : c = b
    · subst same
      rw [here]
      exact valid
    · rw [others c same] at isDirty ⊢
      exact stored.dirty c isDirty
  · intro c isDevice isValid unmodified
    by_cases same : c = b
    · subst same
      rw [here]
      simp [State.leave, Buf.block]
    · rw [others c same] at isDevice isValid ⊢
      have distinct : (state.buf c).block ≠ (state.buf b).block := by
        intro equal
        exact same (unique c b isDevice equal)
      simp only [State.leave, Function.update_of_ne distinct]
      apply stored.contents c isDevice isValid
      simpa [State.leave, Function.update_of_ne same] using unmodified
  · intro blockno clean
    have distinct : (dev, blockno) ≠ (state.buf b).block := by
      intro equal
      have isClean := clean b (by rw [here]; exact equal.symm)
      rw [here] at isClean
      cases isClean
    simp only [State.leave, Function.update_of_ne distinct]
    apply stored.stable
    intro c isBlock
    have notHere : c ≠ b := by
      rintro rfl
      exact distinct isBlock.symm
    rw [← others c notHere] at isBlock ⊢
    exact clean c isBlock

/-! ## Requests to the disk -/

theorem idestart_of_quiet (quiet : (state.idestart b).panic = none) :
    state.idestart b =
      { state with
        disk :=
          if (state.buf b).dirty then
            Function.update state.disk (sector (state.buf b).block) (state.buf b).data
          else state.disk } := by
  unfold idestart at quiet ⊢
  split at quiet
  · cases quiet
  · next inRange =>
      rw [if_neg inRange]
      split <;> rfl

/-- A write that is started concerns a block that a dirty buffer caches. -/
theorem Stored.idestart (stored : state.Stored dev) (onDevice : (state.buf b).dev = dev)
    (quiet : (state.idestart b).panic = none) : (state.idestart b).Stored dev := by
  rw [idestart_of_quiet quiet]
  refine ⟨stored.dirty, stored.contents, ?_⟩
  intro blockno clean
  have before := stored.stable blockno clean
  cases isDirty : (state.buf b).dirty with
  | false => simpa using before
  | true =>
      have distinct : sector (dev, blockno) ≠ sector (state.buf b).block := by
        intro same
        rw [Buf.block, onDevice] at same
        have isBlock : (state.buf b).block = (dev, blockno) := by
          rw [Buf.block, onDevice, sector_injective same]
        have isClean := clean b isBlock
        rw [show ({ state with disk := _ } : State Pid Data).buf b = state.buf b from rfl,
          isDirty] at isClean
        cases isClean
      simpa [Function.update_of_ne distinct] using before

theorem Sent.idestart (isHead : state.idequeue.head? = some b)
    (quiet : (state.idestart b).panic = none) : (state.idestart b).Sent := by
  rw [idestart_of_quiet quiet]
  intro c isFirst isDirty
  have same : c = b := Option.some.inj (isFirst.symm.trans isHead)
  subst same
  simp [show (state.buf c).dirty = true from isDirty]

/-- A finished write is on the disk, and a finished read has what is there. -/
theorem Stored.finish {rest : List BufId} (stored : state.Stored dev) (sent : state.Sent)
    (unique : state.Unique dev) (isQueue : state.idequeue = b :: rest)
    (onDevice : (state.buf b).dev = dev) (unmodified : state.modified b = false) :
    (state.finish b rest).Stored dev := by
  have here : ((state.finish b rest).buf b).dirty = false := by
    simp [State.finish, setBuf]
  have isBlock : (state.buf b).block = (dev, (state.buf b).blockno) := by
    rw [Buf.block, onDevice]
  -- what the disk has for the block of the request
  have onDisk : state.disk (sector (state.buf b).block) = state.left (state.buf b).block := by
    cases isDirty : (state.buf b).dirty with
    | true =>
        rw [sent b (by simp [isQueue]) isDirty]
        exact stored.contents b onDevice (stored.dirty b isDirty) unmodified
    | false =>
        rw [isBlock]
        apply stored.stable
        intro c isSame
        have same := unique b c onDevice (isBlock.trans isSame.symm)
        subst same
        exact isDirty
  constructor
  · intro c isDirty
    by_cases same : c = b
    · subst same
      simp [State.finish, setBuf]
    · rw [finish_of_ne rest same] at isDirty ⊢
      exact stored.dirty c isDirty
  · intro c isDevice valid isUnmodified
    by_cases same : c = b
    · subst same
      rw [(finish_kept state c rest c).1]
      simp only [State.finish, setBuf, Function.update_self]
      cases isDirty : (state.buf c).dirty with
      | true =>
          simpa using stored.contents c onDevice (stored.dirty c isDirty) unmodified
      | false => simpa using onDisk
    · rw [finish_of_ne rest same] at isDevice valid ⊢
      exact stored.contents c isDevice valid isUnmodified
  · intro blockno clean
    by_cases same : (dev, blockno) = (state.buf b).block
    · rw [same]
      exact onDisk
    · apply stored.stable
      intro c isSame
      have notHere : c ≠ b := by
        rintro rfl
        exact same isSame.symm
      rw [← finish_of_ne rest notHere] at isSame ⊢
      exact clean c isSame

variable [DecidableEq Pid]

omit [DecidableEq Pid] in
theorem idestart_kept (state : State Pid Data) (b : BufId) :
    (state.idestart b).links = state.links ∧ (state.idestart b).buf = state.buf ∧
      (state.idestart b).proc = state.proc ∧ (state.idestart b).left = state.left ∧
        (state.idestart b).modified = state.modified := by
  unfold idestart
  split
  · exact ⟨rfl, rfl, rfl, rfl, rfl⟩
  · split
    · exact ⟨rfl, rfl, rfl, rfl, rfl⟩
    · exact ⟨rfl, rfl, rfl, rfl, rfl⟩

theorem iderw_of_quiet (quiet : (state.iderw pid b pc).panic = none) :
    state.iderw pid b pc =
      if (state.enqueue pid b pc).idequeue.head? = some b then
        (state.enqueue pid b pc).idestart b
      else state.enqueue pid b pc := by
  unfold iderw at quiet ⊢
  split at quiet
  · cases quiet
  · next isLocked =>
      rw [if_neg isLocked]
      split at quiet
      · cases quiet
      · next toDo =>
          rw [if_neg toDo]
          split at quiet
          · cases quiet
          · next present => rw [if_neg present]

theorem iderw_kept (state : State Pid Data) (pid : Pid) (b : BufId) (pc : Pc) :
    (state.iderw pid b pc).links = state.links ∧ (state.iderw pid b pc).buf = state.buf ∧
      (state.iderw pid b pc).left = state.left ∧
        (state.iderw pid b pc).modified = state.modified := by
  unfold iderw
  split
  · exact ⟨rfl, rfl, rfl, rfl⟩
  · split
    · exact ⟨rfl, rfl, rfl, rfl⟩
    · split
      · exact ⟨rfl, rfl, rfl, rfl⟩
      · dsimp only
        split
        · have kept := idestart_kept (state.enqueue pid b pc) b
          exact ⟨kept.1, kept.2.1, kept.2.2.2.1, kept.2.2.2.2⟩
        · exact ⟨rfl, rfl, rfl, rfl⟩

theorem Stored.iderw (stored : state.Stored dev) (onDevice : (state.buf b).dev = dev)
    (quiet : (state.iderw pid b pc).panic = none) : (state.iderw pid b pc).Stored dev := by
  have queued : (state.enqueue pid b pc).Stored dev :=
    stored.keep (fun c => ⟨rfl, rfl, rfl, rfl⟩) rfl rfl rfl
  have result := iderw_of_quiet quiet
  rw [result] at quiet ⊢
  split at quiet
  · next isHead =>
      rw [if_pos isHead]
      exact queued.idestart onDevice quiet
  · next notHead =>
      rw [if_neg notHead]
      exact queued

theorem Sent.iderw (sent : state.Sent) (quiet : (state.iderw pid b pc).panic = none) :
    (state.iderw pid b pc).Sent := by
  have result := iderw_of_quiet quiet
  rw [result] at quiet ⊢
  split at quiet
  · next isHead =>
      rw [if_pos isHead]
      exact Sent.idestart isHead quiet
  · next notHead =>
      rw [if_neg notHead]
      have sameHead : (state.enqueue pid b pc).idequeue.head? = state.idequeue.head? := by
        simp only [enqueue, goto, setProc] at notHead ⊢
        cases isQueue : state.idequeue with
        | nil => simp [isQueue] at notHead
        | cons first rest => simp
      exact sent.keep (fun c => ⟨rfl, rfl, rfl, rfl⟩) rfl sameHead

section Step

variable [Fintype Pid]

omit [DecidableEq Pid] in
theorem Claims.idestart (claims : state.Claims dev)
    (quiet : (state.idestart b).panic = none) : (state.idestart b).Claims dev := by
  rw [idestart_of_quiet quiet]
  exact ⟨claims.refs, claims.locks, claims.procs, claims.queued, claims.nodup, claims.modified⟩

theorem Claims.iderw (claims : (state.enqueue pid b pc).Claims dev)
    (quiet : (state.iderw pid b pc).panic = none) : (state.iderw pid b pc).Claims dev := by
  have result := iderw_of_quiet quiet
  rw [result] at quiet ⊢
  split at quiet
  · next isHead =>
      rw [if_pos isHead]
      exact claims.idestart quiet
  · next notHead =>
      rw [if_neg notHead]
      exact claims

/-! ## Steps -/

omit [DecidableEq Pid] in
/-- A step that moves a process and leaves contents alone. -/
theorem Inv.keep (inv : state.Inv dev) (quiet : state.panic = none) (ring : after.Ring)
    (claims : after.Claims dev)
    (same : ∀ c, (after.buf c).block = (state.buf c).block ∧
      (after.buf c).valid = (state.buf c).valid ∧ (after.buf c).dirty = (state.buf c).dirty ∧
        (after.buf c).data = (state.buf c).data)
    (rest : after.disk = state.disk ∧ after.left = state.left ∧
      after.modified = state.modified ∧ after.idequeue = state.idequeue) : after.Inv dev := by
  obtain ⟨disk, left, modified, queue⟩ := rest
  refine ⟨ring, inv.unique.keep fun c => (same c).1, fun _ => claims, fun _ => ?_, fun _ => ?_⟩
  · exact (inv.stored quiet).keep same disk left modified
  · exact (inv.sent quiet).keep same disk (by rw [queue])

omit [DecidableEq Pid] in
theorem Inv.panicked (ring : after.Ring) (unique : after.Unique dev)
    (isPanic : after.panic ≠ none) : after.Inv dev :=
  ⟨ring, unique, fun quiet => (isPanic quiet).elim, fun quiet => (isPanic quiet).elim,
    fun quiet => (isPanic quiet).elim⟩

omit [DecidableEq Pid] [Fintype Pid] in
/-- `bget` looks at every buffer for the block. -/
theorem not_cached {blockno : Nat} (ring : state.Ring)
    (missing : Links.scan state.links.next
      (fun b => decide ((state.buf b).dev = dev ∧ (state.buf b).blockno = blockno)) NBUF
      (state.links.next none) = none) (c : BufId) : (state.buf c).block ≠ (dev, blockno) := by
  obtain ⟨order, perm, visits⟩ := ring
  have length : order.length ≤ NBUF := by rw [perm.length_eq, List.length_finRange]
  rw [visits.scan_next length, List.find?_eq_none] at missing
  have notHere := missing c (perm.mem_iff.mpr (List.mem_finRange c))
  intro isBlock
  apply notHere
  have parts := Prod.mk.inj isBlock
  simp [parts.1, parts.2]

theorem Inv.bget {blockno : Nat} (inv : state.Inv dev) (quiet : state.panic = none)
    (idle : (state.proc pid).pc = .idle) : (state.bget pid dev blockno).Inv dev := by
  have claims := inv.claims quiet
  unfold State.bget
  split
  · next b found =>
      have passes := Links.scan_passes found
      simp only [decide_eq_true_eq] at passes
      have isBlock : (state.buf b).block = (dev, blockno) := by
        rw [Buf.block, passes.1, passes.2]
      apply inv.keep quiet
      · exact inv.ring
      · apply claims.join idle
        · exact isBlock
        · rfl
        · rfl
        · rfl
        · intro _
          exact ⟨rfl, rfl, rfl⟩
      · intro c
        simp only [goto, setProc, setBuf]
        by_cases same : c = b
        · subst same
          rw [Function.update_self]
          exact ⟨rfl, rfl, rfl, rfl⟩
        · rw [Function.update_of_ne same]
          exact ⟨rfl, rfl, rfl, rfl⟩
      · exact ⟨rfl, rfl, rfl, rfl⟩
  · next missing =>
      have uncached := not_cached inv.ring missing
      split
      · next b found =>
          have passes := Links.scan_passes found
          simp only [decide_eq_true_eq] at passes
          have free : (state.buf b).lock = none := by
            cases isLock : (state.buf b).lock with
            | none => rfl
            | some holder =>
                have positive := claims.refcnt_of_lock isLock
                omega
          refine ⟨inv.ring, ?_, fun _ => ?_, fun _ => ?_, fun _ => ?_⟩
          · intro first second onDevice equal
            simp only [goto, setProc, setBuf] at onDevice equal
            by_cases isFirst : first = b
            · by_cases isSecond : second = b
              · rw [isFirst, isSecond]
              · subst isFirst
                rw [Function.update_self, Function.update_of_ne isSecond] at equal
                exact (uncached second equal.symm).elim
            · by_cases isSecond : second = b
              · subst isSecond
                rw [Function.update_self, Function.update_of_ne isFirst] at equal
                exact (uncached first equal).elim
              · rw [Function.update_of_ne isFirst] at onDevice equal
                rw [Function.update_of_ne isSecond] at equal
                exact inv.unique first second onDevice equal
          · apply claims.join idle
            · rfl
            · rfl
            · rfl
            · rw [passes.1]
            · intro positive
              omega
          · have recycled : (state.setBuf b
                { state.buf b with
                  dev := dev
                  blockno := blockno
                  valid := false
                  dirty := false
                  refcnt := 1 }).Stored dev :=
              (inv.stored quiet).recycle passes.2 rfl rfl
            exact recycled.keep (fun c => ⟨rfl, rfl, rfl, rfl⟩) rfl rfl rfl
          · intro c isHead isDirty
            have notHere : c ≠ b := by
              rintro rfl
              exact claims.not_queued_of_free free (List.mem_of_mem_head? isHead)
            simp only [goto, setProc, setBuf, Function.update_of_ne notHere] at isDirty ⊢
            exact inv.sent quiet c isHead isDirty
      · exact Inv.panicked inv.ring inv.unique (by simp)

omit [DecidableEq Pid] [Fintype Pid] in
theorem same_lock (state : State Pid Data) (lock : Option Pid) (b c : BufId) :
    ((state.setBuf b { state.buf b with lock := lock }).buf c).block = (state.buf c).block ∧
      ((state.setBuf b { state.buf b with lock := lock }).buf c).valid = (state.buf c).valid ∧
      ((state.setBuf b { state.buf b with lock := lock }).buf c).dirty = (state.buf c).dirty ∧
      ((state.setBuf b { state.buf b with lock := lock }).buf c).data = (state.buf c).data := by
  obtain ⟨isBlock, -, rest⟩ := update_lock state lock b c
  exact ⟨isBlock, rest⟩

theorem Inv.acquire (inv : state.Inv dev) (quiet : state.panic = none)
    (place : (state.proc pid).pc = .acquiring block b) (free : (state.buf b).lock = none) :
    (state.acquire pid block b).Inv dev := by
  have claims := inv.claims quiet
  have stored := inv.stored quiet
  have locked := same_lock state (some pid) b
  unfold State.acquire
  dsimp only
  split
  · next valid =>
      apply inv.keep quiet
      · exact inv.ring
      · exact claims.take place free valid
      · exact locked
      · exact ⟨rfl, rfl, rfl, rfl⟩
  · next invalid =>
      have isInvalid : (state.buf b).valid = false := by simpa using invalid
      have clean : (state.buf b).dirty = false := by
        by_contra isDirty
        exact invalid (stored.dirty b (by simpa using isDirty))
      have kept := iderw_kept (state.setBuf b { state.buf b with lock := some pid }) pid b
        (.reading block b)
      have facts := (claims.procs pid).acquiring block b place
      refine ⟨?_, ?_, ?_, ?_, ?_⟩
      · rw [Ring, kept.1]
        exact inv.ring
      · apply inv.unique.keep
        intro c
        rw [kept.2.1]
        exact (locked c).1
      · intro isQuiet
        exact (claims.read place free isInvalid clean).iderw isQuiet
      · intro isQuiet
        apply (stored.keep locked rfl rfl rfl).iderw _ isQuiet
        have isBlock := (locked b).1.trans facts.1
        rw [← facts.2, ← isBlock]
        rfl
      · intro isQuiet
        exact ((inv.sent quiet).keep locked rfl rfl).iderw isQuiet

/-- `brelse` moves a buffer to the front of the list. -/
theorem Inv.release (inv : state.Inv dev) (quiet : state.panic = none)
    (place : (state.proc pid).pc = .releasing b) : (state.release pid b).Inv dev := by
  have claims := (inv.claims quiet).release place
  have same : ∀ c, (((state.setBuf b
        { state.buf b with refcnt := (state.buf b).refcnt - 1 }).goto pid .idle).buf c).block =
          (state.buf c).block ∧
      (((state.setBuf b
        { state.buf b with refcnt := (state.buf b).refcnt - 1 }).goto pid .idle).buf c).valid =
          (state.buf c).valid ∧
      (((state.setBuf b
        { state.buf b with refcnt := (state.buf b).refcnt - 1 }).goto pid .idle).buf c).dirty =
          (state.buf c).dirty ∧
      (((state.setBuf b
        { state.buf b with refcnt := (state.buf b).refcnt - 1 }).goto pid .idle).buf c).data =
          (state.buf c).data := by
    intro c
    simp only [goto, setProc, setBuf]
    by_cases here : c = b
    · subst here
      rw [Function.update_self]
      exact ⟨rfl, rfl, rfl, rfl⟩
    · rw [Function.update_of_ne here]
      exact ⟨rfl, rfl, rfl, rfl⟩
  unfold State.release
  dsimp only
  split
  · obtain ⟨order, perm, visits⟩ := inv.ring
    obtain ⟨moved, movedPerm, movedVisits⟩ :=
      visits.moveFront (perm.mem_iff.mpr (List.mem_finRange b))
    apply inv.keep quiet
    · exact ⟨moved, movedPerm.trans perm, movedVisits⟩
    · exact ⟨claims.refs, claims.locks, claims.procs, claims.queued, claims.nodup,
        claims.modified⟩
    · exact same
    · exact ⟨rfl, rfl, rfl, rfl⟩
  · apply inv.keep quiet
    · exact inv.ring
    · exact claims
    · exact same
    · exact ⟨rfl, rfl, rfl, rfl⟩

omit [DecidableEq Pid] in
/-- A buffer that a process holds is a valid one of the device. -/
theorem Claims.of_held (claims : state.Claims dev)
    (isHeld : ((state.proc pid).held b).isSome = true) :
    (state.buf b).dev = dev ∧ (state.buf b).valid = true := by
  obtain ⟨block, isBlock⟩ := Option.isSome_iff_exists.mp isHeld
  obtain ⟨same, onDevice, valid⟩ := (claims.procs pid).held b block isBlock
  refine ⟨?_, valid⟩
  rw [← onDevice, ← same]
  rfl

theorem Inv.modify {data : Data} (inv : state.Inv dev) (quiet : state.panic = none)
    (idle : (state.proc pid).pc = .idle) (isHeld : ((state.proc pid).held b).isSome = true) :
    (state.modify b data).Inv dev := by
  have claims := inv.claims quiet
  have notQueued := claims.not_queued_of_uses idle isHeld
  refine ⟨inv.ring, ?_, fun _ => ?_, fun _ => (inv.stored quiet).modify, fun _ => ?_⟩
  · apply inv.unique.keep
    intro c
    simp only [State.modify, setBuf]
    by_cases same : c = b
    · subst same
      rw [Function.update_self]
      rfl
    · rw [Function.update_of_ne same]
  · apply claims.touch idle isHeld
    · rfl
    · rfl
    · rfl
    · exact ⟨rfl, rfl, rfl, rfl⟩
    · intro c distinct
      simp [State.modify, Function.update_of_ne distinct]
  · intro c isHead isDirty
    have notHere : c ≠ b := by
      rintro rfl
      exact notQueued (List.mem_of_mem_head? isHead)
    simp only [State.modify, setBuf, Function.update_of_ne notHere] at isDirty ⊢
    exact inv.sent quiet c isHead isDirty

/-- The buffer that `log_write` or `bwrite` leaves is dirty. -/
theorem Inv.leave (inv : state.Inv dev) (quiet : state.panic = none)
    (idle : (state.proc pid).pc = .idle) (isHeld : ((state.proc pid).held b).isSome = true) :
    (state.leave b).Inv dev := by
  have claims := inv.claims quiet
  have notQueued := claims.not_queued_of_uses idle isHeld
  obtain ⟨onDevice, valid⟩ := claims.of_held isHeld
  refine ⟨inv.ring, ?_, fun _ => ?_, fun _ => ?_, fun _ => ?_⟩
  · apply inv.unique.keep
    intro c
    simp only [State.leave, setBuf]
    by_cases same : c = b
    · subst same
      rw [Function.update_self]
      rfl
    · rw [Function.update_of_ne same]
  · apply claims.touch idle isHeld
    · rfl
    · rfl
    · rfl
    · exact ⟨rfl, rfl, rfl, rfl⟩
    · intro c distinct
      simp [State.leave, Function.update_of_ne distinct]
  · exact (inv.stored quiet).leave inv.unique onDevice valid
  · intro c isHead isDirty
    have notHere : c ≠ b := by
      rintro rfl
      exact notQueued (List.mem_of_mem_head? isHead)
    simp only [State.leave, setBuf, Function.update_of_ne notHere] at isDirty ⊢
    exact inv.sent quiet c isHead isDirty

theorem Inv.bwrite (inv : state.Inv dev) (quiet : state.panic = none)
    (idle : (state.proc pid).pc = .idle) (isHeld : ((state.proc pid).held b).isSome = true) :
    (state.bwrite pid b).Inv dev := by
  have left := inv.leave quiet idle isHeld
  have kept := iderw_kept (state.leave b) pid b (.writing b)
  have claims := left.claims quiet
  unfold State.bwrite
  split
  · exact Inv.panicked inv.ring inv.unique (by simp)
  · refine ⟨?_, ?_, fun isQuiet => ?_, fun isQuiet => ?_, fun isQuiet => ?_⟩
    · rw [Ring, kept.1]
      exact left.ring
    · apply left.unique.keep
      intro c
      rw [kept.2.1]
    · refine Claims.iderw ?_ isQuiet
      apply claims.write idle isHeld
      · simp [State.leave, setBuf]
      · simp [State.leave]
    · exact (left.stored quiet).iderw (claims.of_held isHeld).1 isQuiet
    · exact (left.sent quiet).iderw isQuiet

theorem Inv.brelse (inv : state.Inv dev) (quiet : state.panic = none)
    (idle : (state.proc pid).pc = .idle) (isHeld : ((state.proc pid).held b).isSome = true)
    (unmodified : state.modified b = false) : (state.brelse pid b).Inv dev := by
  unfold State.brelse
  split
  · exact Inv.panicked inv.ring inv.unique (by simp)
  · apply inv.keep quiet
    · exact inv.ring
    · exact (inv.claims quiet).brelse idle isHeld unmodified
    · exact same_lock state none b
    · exact ⟨rfl, rfl, rfl, rfl⟩

omit [DecidableEq Pid] in
theorem Inv.finish {rest : List BufId} (inv : state.Inv dev) (quiet : state.panic = none)
    (isQueue : state.idequeue = b :: rest) :
    (state.finish b rest).Unique dev ∧ (state.finish b rest).Claims dev ∧
      (state.finish b rest).Stored dev := by
  have claims := inv.claims quiet
  have member : b ∈ state.idequeue := by simp [isQueue]
  refine ⟨?_, claims.finish isQueue, ?_⟩
  · apply inv.unique.keep
    intro c
    exact (finish_kept state b rest c).1
  · exact (inv.stored quiet).finish (inv.sent quiet) inv.unique isQueue
      (claims.dev_of_queued member) (claims.not_modified_of_queued member)

omit [DecidableEq Pid] in
theorem Inv.ideintr (inv : state.Inv dev) (quiet : state.panic = none) :
    state.ideintr.Inv dev := by
  unfold State.ideintr
  split
  · exact inv
  · next b isQueue =>
      obtain ⟨unique, claims, stored⟩ := inv.finish quiet isQueue
      refine ⟨inv.ring, unique, fun _ => claims, fun _ => stored, fun _ => ?_⟩
      intro c isHead
      cases isHead
  · next b next rest isQueue =>
      obtain ⟨unique, claims, stored⟩ := inv.finish quiet isQueue
      have kept := idestart_kept (state.finish b (next :: rest)) next
      refine ⟨?_, ?_, fun isQuiet => ?_, fun isQuiet => ?_, fun isQuiet => ?_⟩
      · rw [Ring, kept.1]
        exact inv.ring
      · apply unique.keep
        intro c
        rw [kept.2.1]
      · exact claims.idestart isQuiet
      · exact stored.idestart (claims.dev_of_queued (List.mem_cons_self)) isQuiet
      · exact Sent.idestart rfl isQuiet

theorem Inv.step {action : Action Pid Data} (inv : state.Inv dev)
    (follows : state.follows dev action = true) (taken : state.step action = some after) :
    after.Inv dev := by
  have quiet := quiet_of_step taken
  have claims := inv.claims quiet
  cases Moves.of_step taken with
  | @bread pid device blockno idle =>
      have onDevice : device = dev := by simpa [State.follows] using follows
      subst onDevice
      exact inv.bget quiet idle
  | modify idle isHeld => exact inv.modify quiet idle isHeld
  | logWrite idle isHeld => exact inv.leave quiet idle isHeld
  | bwrite idle isHeld => exact inv.bwrite quiet idle isHeld
  | brelse idle isHeld =>
      exact inv.brelse quiet idle isHeld (by simpa [State.follows] using follows)
  | acquire place free => exact inv.acquire quiet place free
  | returned place valid clean =>
      apply inv.keep quiet
      · exact inv.ring
      · exact claims.returned place valid
      · exact fun c => ⟨rfl, rfl, rfl, rfl⟩
      · exact ⟨rfl, rfl, rfl, rfl⟩
  | written place valid clean =>
      apply inv.keep quiet
      · exact inv.ring
      · exact claims.written place clean
      · exact fun c => ⟨rfl, rfl, rfl, rfl⟩
      · exact ⟨rfl, rfl, rfl, rfl⟩
  | release place => exact inv.release quiet place
  | ideintr => exact inv.ideintr quiet

/-! ## What a step can change -/

omit [DecidableEq Pid] [Fintype Pid] in
theorem update_block {bufs : BufId → Buf Pid Data} {buf : Buf Pid Data} (c : BufId)
    (same : buf.block = (bufs b).block) :
    (Function.update bufs b buf c).block = (bufs c).block := by
  by_cases here : c = b
  · subst here
    rw [Function.update_self]
    exact same
  · rw [Function.update_of_ne here]

omit [Fintype Pid] in
theorem bget_block {blockno : Nat} (c : BufId)
    (pinned : 0 < (state.buf c).refcnt ∨ (state.buf c).dirty = true) :
    ((state.bget pid dev blockno).buf c).block = (state.buf c).block := by
  unfold State.bget
  split
  · exact update_block c (by rfl)
  · split
    · next b found =>
        have passes := Links.scan_passes found
        simp only [decide_eq_true_eq] at passes
        have notHere : c ≠ b := by
          rintro rfl
          rcases pinned with positive | isDirty
          · omega
          · rw [passes.2] at isDirty
            cases isDirty
        simp only [goto, setProc, setBuf, Function.update_of_ne notHere]
    · rfl

omit [DecidableEq Pid] [Fintype Pid] in
theorem ideintr_block (c : BufId) : (state.ideintr.buf c).block = (state.buf c).block := by
  unfold State.ideintr
  split
  · rfl
  · next b isQueue => exact (finish_kept state b [] c).1
  · next b next rest isQueue =>
      rw [(idestart_kept _ next).2.1]
      exact (finish_kept state b (next :: rest) c).1

omit [Fintype Pid] in
/-- A buffer that is referred to or dirty keeps its block. -/
theorem block_kept {action : Action Pid Data} (taken : state.step action = some after)
    (c : BufId) (pinned : 0 < (state.buf c).refcnt ∨ (state.buf c).dirty = true) :
    (after.buf c).block = (state.buf c).block := by
  cases Moves.of_step taken with
  | bread idle => exact bget_block c pinned
  | modify idle isHeld => exact update_block c (by rfl)
  | logWrite idle isHeld => exact update_block c (by rfl)
  | bwrite idle isHeld =>
      unfold State.bwrite
      split
      · rfl
      · rw [(iderw_kept _ _ _ _).2.1]
        exact update_block c (by rfl)
  | brelse idle isHeld =>
      unfold State.brelse
      split
      · rfl
      · exact update_block c (by rfl)
  | acquire place free =>
      unfold State.acquire
      dsimp only
      split
      · exact update_block c (by rfl)
      · rw [(iderw_kept _ _ _ _).2.1]
        exact update_block c (by rfl)
  | returned place valid clean => rfl
  | written place valid clean => rfl
  | release place =>
      unfold State.release
      dsimp only
      split
      · exact update_block c (by rfl)
      · exact update_block c (by rfl)
  | ideintr => exact ideintr_block c

omit [Fintype Pid] in
theorem goto_held (state : State Pid Data) (pid : Pid) (pc : Pc) (other : Pid) :
    ((state.goto pid pc).proc other).held = (state.proc other).held := by
  simp only [goto, setProc]
  by_cases same : other = pid
  · subst same
    rw [Function.update_self]
  · rw [Function.update_of_ne same]

omit [Fintype Pid] in
theorem iderw_held (state : State Pid Data) (pid : Pid) (b : BufId) (pc : Pc) (other : Pid) :
    ((state.iderw pid b pc).proc other).held = (state.proc other).held := by
  unfold iderw
  split
  · rfl
  · split
    · rfl
    · split
      · rfl
      · dsimp only
        split
        · rw [(idestart_kept _ b).2.2.1]
          exact goto_held _ pid pc other
        · exact goto_held _ pid pc other

omit [Fintype Pid] in
theorem bget_held (state : State Pid Data) (pid : Pid) (dev blockno : Nat) (other : Pid) :
    ((state.bget pid dev blockno).proc other).held = (state.proc other).held := by
  unfold bget
  split
  · exact goto_held _ pid _ other
  · split
    · exact goto_held _ pid _ other
    · rfl

omit [DecidableEq Pid] [Fintype Pid] in
theorem ideintr_proc (state : State Pid Data) : state.ideintr.proc = state.proc := by
  unfold ideintr
  split
  · rfl
  · rfl
  · next b next rest isQueue => rw [(idestart_kept _ next).2.2.1]; rfl

omit [Fintype Pid] in
/-- Where a process gets a buffer. -/
theorem returned_held {other : Pid} {c : BufId} {asked : Block}
    (before : (state.proc pid).held b = none)
    (isHeld : ((state.returned other asked c).proc pid).held b = some block) :
    pid = other ∧ b = c := by
  simp only [State.returned, setProc] at isHeld
  by_cases isProcess : pid = other
  · subst isProcess
    rw [Function.update_self] at isHeld
    by_cases isBuffer : b = c
    · exact ⟨rfl, isBuffer⟩
    · simp [Function.update_of_ne isBuffer, before] at isHeld
  · rw [Function.update_of_ne isProcess, before] at isHeld
    cases isHeld

omit [Fintype Pid] in
/-- A buffer is returned to a process that takes its free sleeplock or has waited for
it to be read. -/
theorem step_returns {action : Action Pid Data} (taken : state.step action = some after)
    (before : (state.proc pid).held b = none)
    (isHeld : (after.proc pid).held b = some block) :
    after.panic = none ∧ after.modified = state.modified ∧
      ((state.buf b).lock = none ∨ (state.proc pid).waits b) := by
  have quiet := quiet_of_step taken
  have unheld : (state.proc pid).held b ≠ some block := by simp [before]
  cases Moves.of_step taken with
  | bread idle =>
      rw [bget_held] at isHeld
      exact (unheld isHeld).elim
  | modify idle holds => exact (unheld isHeld).elim
  | logWrite idle holds => exact (unheld isHeld).elim
  | bwrite idle holds =>
      unfold State.bwrite at isHeld
      split at isHeld
      · exact (unheld isHeld).elim
      · rw [iderw_held] at isHeld
        exact (unheld isHeld).elim
  | @brelse other c idle holds =>
      unfold State.brelse at isHeld
      split at isHeld
      · exact (unheld isHeld).elim
      · simp only [setProc, setBuf] at isHeld
        by_cases isProcess : pid = other
        · subst isProcess
          rw [Function.update_self] at isHeld
          by_cases isBuffer : b = c
          · subst isBuffer
            simp at isHeld
          · simp [Function.update_of_ne isBuffer, before] at isHeld
        · rw [Function.update_of_ne isProcess] at isHeld
          exact (unheld isHeld).elim
  | acquire place free =>
      unfold State.acquire at isHeld ⊢
      dsimp only at isHeld ⊢
      split at isHeld
      · next valid =>
          obtain ⟨rfl, rfl⟩ := returned_held (by exact before) isHeld
          rw [if_pos valid]
          exact ⟨quiet, rfl, .inl free⟩
      · rw [iderw_held] at isHeld
        exact (unheld isHeld).elim
  | returned place valid clean =>
      obtain ⟨rfl, rfl⟩ := returned_held before isHeld
      exact ⟨quiet, rfl, .inr (.inl ⟨_, place⟩)⟩
  | written place valid clean =>
      rw [goto_held] at isHeld
      exact (unheld isHeld).elim
  | @release other c place =>
      have kept : ((state.release other c).proc pid).held = (state.proc pid).held := by
        unfold State.release
        dsimp only
        split
        · exact goto_held _ other .idle pid
        · exact goto_held _ other .idle pid
      rw [kept] at isHeld
      exact (unheld isHeld).elim
  | ideintr =>
      rw [ideintr_proc] at isHeld
      exact (unheld isHeld).elim

theorem Inv.returns {action : Action Pid Data} (inv : state.Inv dev)
    (follows : state.follows dev action = true) (taken : state.step action = some after)
    (before : (state.proc pid).held b = none)
    (isHeld : (after.proc pid).held b = some block) :
    (after.buf b).block = block ∧ (after.buf b).lock = some pid ∧
      (after.buf b).data = after.left block := by
  have claims := inv.claims (quiet_of_step taken)
  obtain ⟨quiet, modified, place⟩ := step_returns taken before isHeld
  have next := inv.step follows taken
  have isSome : ((after.proc pid).held b).isSome = true := by rw [isHeld]; rfl
  have isLock := (next.claims quiet).lock_of_held isSome
  obtain ⟨onDevice, valid⟩ := (next.claims quiet).of_held isSome
  obtain ⟨isBlock, -⟩ := ((next.claims quiet).procs pid).held b block isHeld
  have unmodified : after.modified b = false := by
    rw [modified]
    by_contra isModified
    obtain ⟨holder, holds, -⟩ := claims.modified b (by simpa using isModified)
    have holderLock := claims.lock_of_held holds
    rcases place with free | waits
    · rw [free] at holderLock
      cases holderLock
    · rw [claims.lock_of_waits waits] at holderLock
      cases holderLock
      rw [before] at holds
      cases holds
  refine ⟨isBlock, isLock, ?_⟩
  rw [← isBlock]
  exact (next.stored quiet).contents b onDevice valid unmodified

/-! ## Home locations -/

omit [DecidableEq Pid] [Fintype Pid] in
theorem idestart_disk {place : Nat × Nat}
    (elsewhere : (state.buf b).dirty = true → place ≠ sector (state.buf b).block) :
    (state.idestart b).disk place = state.disk place := by
  unfold State.idestart
  split
  · rfl
  · split
    · next isDirty => exact Function.update_of_ne (elsewhere isDirty) _ _
    · rfl

omit [Fintype Pid] in
theorem iderw_disk {place : Nat × Nat}
    (elsewhere : (state.buf b).dirty = true → place ≠ sector (state.buf b).block) :
    (state.iderw pid b pc).disk place = state.disk place := by
  unfold State.iderw
  split
  · rfl
  · split
    · rfl
    · split
      · rfl
      · dsimp only
        split
        · rw [idestart_disk (by exact elsewhere)]
          rfl
        · rfl

/-- No process is in `bwrite` for a block. -/
def NotWriting (state : State Pid Data) (block : Block) : Prop :=
  ∀ pid b, (state.proc pid).pc = .writing b → (state.buf b).block ≠ block

omit [DecidableEq Pid] in
/-- What `ideintr` starts to write is in a call of `bwrite`. -/
theorem ideintr_disk {blockno : Nat} (inv : state.Inv dev) (quiet : state.panic = none)
    (notWriting : state.NotWriting (dev, blockno)) :
    state.ideintr.disk (sector (dev, blockno)) = state.disk (sector (dev, blockno)) := by
  have claims := inv.claims quiet
  unfold State.ideintr
  split
  · rfl
  · rfl
  · next b next rest isQueue =>
      have distinct : next ≠ b := by
        have nodup := claims.nodup
        rw [isQueue, List.nodup_cons] at nodup
        rintro rfl
        exact nodup.1 List.mem_cons_self
      have member : next ∈ state.idequeue := by simp [isQueue]
      rw [idestart_disk]
      · rfl
      · intro isDirty same
        rw [finish_of_ne _ distinct] at isDirty same
        obtain ⟨pid, ⟨block, isReading⟩ | isWriting⟩ := claims.queued next member
        · rw [((claims.procs pid).reading block next isReading).2.2.2.1] at isDirty
          cases isDirty
        · apply notWriting pid next isWriting
          rw [Buf.block, claims.dev_of_queued member] at same ⊢
          rw [sector_injective same]

theorem Inv.disk_kept {action : Action Pid Data} {blockno : Nat} (inv : state.Inv dev)
    (taken : state.step action = some after) (notWriting : state.NotWriting (dev, blockno))
    (noWrite : state.bwrites (dev, blockno) action = false) :
    after.disk (sector (dev, blockno)) = state.disk (sector (dev, blockno)) := by
  have quiet := quiet_of_step taken
  have claims := inv.claims quiet
  cases Moves.of_step taken with
  | bread idle =>
      unfold State.bget
      split
      · rfl
      · split <;> rfl
  | modify idle isHeld => rfl
  | logWrite idle isHeld => rfl
  | @bwrite pid b idle isHeld =>
      unfold State.bwrite
      split
      · rfl
      · rw [iderw_disk]
        · rfl
        · intro _ same
          have onDevice := (claims.of_held isHeld).1
          have isBlock : ((state.leave b).buf b).block = (state.buf b).block :=
            update_block b (by rfl)
          rw [isBlock, Buf.block, onDevice] at same
          simp only [bwrites, Buf.block, onDevice, ← sector_injective same] at noWrite
          simp at noWrite
  | brelse idle isHeld =>
      unfold State.brelse
      split <;> rfl
  | @acquire pid block b place free =>
      unfold State.acquire
      dsimp only
      split
      · rfl
      · next invalid =>
          rw [iderw_disk]
          · rfl
          · intro isDirty
            rw [(same_lock state (some pid) b b).2.2.1] at isDirty
            exact (invalid ((inv.stored quiet).dirty b isDirty)).elim
  | returned place valid clean => rfl
  | written place valid clean => rfl
  | release place =>
      unfold State.release
      dsimp only
      split <;> rfl
  | ideintr => exact ideintr_disk inv quiet notWriting

omit [Fintype Pid] in
theorem goto_writes {other : Pid} (isWriting : ((state.goto other pc).proc pid).pc = .writing b) :
    (pid = other ∧ pc = .writing b) ∨ (state.proc pid).pc = .writing b := by
  simp only [goto, setProc] at isWriting
  by_cases same : pid = other
  · subst same
    rw [Function.update_self] at isWriting
    exact .inl ⟨rfl, isWriting⟩
  · rw [Function.update_of_ne same] at isWriting
    exact .inr isWriting

omit [Fintype Pid] in
theorem iderw_writes {other : Pid} {c : BufId}
    (isWriting : ((state.iderw other c pc).proc pid).pc = .writing b) :
    (pid = other ∧ pc = .writing b) ∨ (state.proc pid).pc = .writing b := by
  unfold State.iderw at isWriting
  split at isWriting
  · exact .inr isWriting
  · split at isWriting
    · exact .inr isWriting
    · split at isWriting
      · exact .inr isWriting
      · dsimp only at isWriting
        split at isWriting
        · rw [(idestart_kept _ c).2.2.1] at isWriting
          exact goto_writes isWriting
        · exact goto_writes isWriting

omit [Fintype Pid] in
/-- A process that is in `bwrite` was in it before, or has called it. -/
theorem step_writes {action : Action Pid Data} (taken : state.step action = some after)
    (isWriting : (after.proc pid).pc = .writing b) :
    (state.proc pid).pc = .writing b ∨
      (action = .bwrite pid b ∧ ((state.proc pid).held b).isSome = true) := by
  cases Moves.of_step taken with
  | bread idle =>
      unfold State.bget at isWriting
      split at isWriting
      · rcases goto_writes isWriting with ⟨-, place⟩ | before
        · cases place
        · exact .inl before
      · split at isWriting
        · rcases goto_writes isWriting with ⟨-, place⟩ | before
          · cases place
          · exact .inl before
        · exact .inl isWriting
  | modify idle isHeld => exact .inl isWriting
  | logWrite idle isHeld => exact .inl isWriting
  | bwrite idle isHeld =>
      unfold State.bwrite at isWriting
      split at isWriting
      · exact .inl isWriting
      · rcases iderw_writes isWriting with ⟨rfl, place⟩ | before
        · cases place
          exact .inr ⟨rfl, isHeld⟩
        · exact .inl before
  | @brelse other c idle isHeld =>
      unfold State.brelse at isWriting
      split at isWriting
      · exact .inl isWriting
      · simp only [setProc, setBuf] at isWriting
        by_cases same : pid = other
        · subst same
          simp at isWriting
        · rw [Function.update_of_ne same] at isWriting
          exact .inl isWriting
  | @acquire other asked c place free =>
      unfold State.acquire at isWriting
      dsimp only at isWriting
      split at isWriting
      · simp only [State.returned, setProc, setBuf] at isWriting
        by_cases same : pid = other
        · subst same
          simp at isWriting
        · rw [Function.update_of_ne same] at isWriting
          exact .inl isWriting
      · rcases iderw_writes isWriting with ⟨-, place⟩ | before
        · cases place
        · exact .inl before
  | @returned other asked c place valid clean =>
      simp only [State.returned, setProc] at isWriting
      by_cases same : pid = other
      · subst same
        simp at isWriting
      · rw [Function.update_of_ne same] at isWriting
        exact .inl isWriting
  | written place valid clean =>
      rcases goto_writes isWriting with ⟨-, place⟩ | before
      · cases place
      · exact .inl before
  | @release other c place =>
      have moved : pid = other ∧ Pc.idle = .writing b ∨ (state.proc pid).pc = .writing b := by
        unfold State.release at isWriting
        dsimp only at isWriting
        split at isWriting
        · exact goto_writes isWriting
        · exact goto_writes isWriting
      rcases moved with ⟨-, place⟩ | before
      · cases place
      · exact .inl before
  | ideintr =>
      rw [ideintr_proc] at isWriting
      exact .inl isWriting

theorem Inv.notWriting {action : Action Pid Data} {blockno : Nat} (inv : state.Inv dev)
    (taken : state.step action = some after) (notWriting : state.NotWriting (dev, blockno))
    (noWrite : state.bwrites (dev, blockno) action = false) :
    after.NotWriting (dev, blockno) := by
  intro pid b isWriting
  have claims := inv.claims (quiet_of_step taken)
  have facts : ((state.proc pid).held b).isSome = true ∧
      (state.buf b).block ≠ (dev, blockno) := by
    rcases step_writes taken isWriting with before | ⟨rfl, isHeld⟩
    · exact ⟨((claims.procs pid).writing b before).1, notWriting pid b before⟩
    · exact ⟨isHeld, by simpa [bwrites] using noWrite⟩
  rw [block_kept taken b (.inl (claims.refcnt_of_lock (claims.lock_of_held facts.1)))]
  exact facts.2

omit [DecidableEq Pid] in
theorem Inv.of_booted (nonzero : dev ≠ 0) (booted : IsBooted state) : state.Inv dev := by
  have notHere : ∀ b, (state.buf b).dev ≠ dev := by
    intro b
    rw [(Prod.mk.inj (booted.block b)).1]
    exact Ne.symm nonzero
  refine ⟨?_, ?_, fun _ => ⟨?_, ?_, ?_, ?_, ?_, ?_⟩, fun _ => ⟨?_, ?_, ?_⟩, fun _ => ?_⟩
  · have visits : binit.Visits ((List.finRange NBUF).reverse ++ []) :=
      Links.visits_nil.foldl_insertFront (List.nodup_finRange NBUF) (List.disjoint_nil_right _)
    rw [List.append_nil] at visits
    exact ⟨_, List.reverse_perm _, by rw [booted.links]; exact visits⟩
  · intro b c onDevice
    exact (notHere b onDevice).elim
  · intro b
    have none : tally Proc.refs state.proc b = 0 := by
      apply Finset.sum_eq_zero
      intro pid _
      simp [Proc.refs, Pc.refs, booted.idle, booted.held]
    rw [(booted.free b).2, none]
  · intro b pid
    simp [(booted.free b).1, Proc.holds, booted.idle, booted.held]
  · intro pid
    apply Proc.Ok.resting (.inl (booted.idle pid))
    intro b block isHeld
    rw [booted.held] at isHeld
    cases isHeld
  · intro b member
    rw [booted.idequeue] at member
    cases member
  · rw [booted.idequeue]
    exact List.nodup_nil
  · intro b isModified
    rw [booted.modified] at isModified
    cases isModified
  · intro b isDirty
    rw [(booted.flags b).2] at isDirty
    cases isDirty
  · intro b onDevice
    exact (notHere b onDevice).elim
  · intro blockno clean
    exact (booted.left (dev, blockno)).symm
  · intro b isHead
    rw [booted.idequeue] at isHead
    cases isHead

end Step

/-- What the cache guarantees to its users on one device. -/
structure Coherent (dev : Nat) (state : State Pid Data) : Prop where
  /-- the list through the head is a permutation of the buffers -/
  ring : ∃ order, order.Perm (List.finRange NBUF) ∧ state.links.Visits order
  /-- at most one buffer caches a block -/
  unique : ∀ b c, (state.buf b).dev = dev → (state.buf b).block = (state.buf c).block → b = c
  /-- a buffer that is referred to or dirty is not reassigned -/
  pinned : ∀ action after, state.step action = some after →
    ∀ b, 0 < (state.buf b).refcnt ∨ (state.buf b).dirty = true →
      (after.buf b).block = (state.buf b).block
  /-- `bread` returns the contents that the block was last left with -/
  returned : ∀ action after, state.follows dev action = true → state.step action = some after →
    ∀ pid b block, (state.proc pid).held b = none → (after.proc pid).held b = some block →
      (after.buf b).block = block ∧ (after.buf b).lock = some pid ∧
        (after.buf b).data = after.left block
  /-- without `bwrite` the home location of a block keeps its contents -/
  home : ∀ blockno after, state.NotWriting (dev, blockno) →
    Run State.step
      (fun state action => state.follows dev action = true ∧
        state.bwrites (dev, blockno) action = false) (· = state) after →
      after.disk (sector (dev, blockno)) = state.disk (sector (dev, blockno))

end State

/-- The buffer cache in every run on a nonzero device. -/
theorem cache_coherent {Pid Data : Type} [DecidableEq Pid] [Fintype Pid] {dev : Nat}
    (nonzero : dev ≠ 0) {state : State Pid Data}
    (run : Run State.step (fun state action => state.follows dev action = true) IsBooted state) :
    state.Coherent dev := by
  have inv : state.Inv dev := run.invariant (fun _ booted => .of_booted nonzero booted)
    fun _ _ _ inv follows taken => inv.step follows taken
  refine ⟨inv.ring, inv.unique, ?_, ?_, ?_⟩
  · intro action after taken b pinned
    exact State.block_kept taken b pinned
  · intro action after follows taken pid b block before isHeld
    exact inv.returns follows taken before isHeld
  · intro blockno after notWriting continued
    have kept : after.Inv dev ∧ after.NotWriting (dev, blockno) ∧
        after.disk (sector (dev, blockno)) = state.disk (sector (dev, blockno)) := by
      induction continued with
      | start isState =>
          subst isState
          exact ⟨inv, notWriting, rfl⟩
      | next action _ allowed taken ih =>
          obtain ⟨before, notBefore, same⟩ := ih
          refine ⟨before.step allowed.1 taken, before.notWriting taken notBefore allowed.2, ?_⟩
          rw [before.disk_kept taken notBefore allowed.2]
          exact same
    exact kept.2.2

/-- Two processes and an empty disk. -/
def booted : State Bool Nat where
  links := binit
  buf := fun _ => ⟨false, false, 0, 0, none, 0, 0⟩
  idequeue := []
  havedisk1 := true
  disk := fun _ => 0
  proc := fun _ => ⟨.idle, fun _ => none⟩
  panic := none
  left := fun _ => 0
  modified := fun _ => false

theorem booted_isBooted : IsBooted booted :=
  ⟨rfl, fun _ => rfl, fun _ => ⟨rfl, rfl⟩, fun _ => ⟨rfl, rfl⟩, rfl, fun _ => rfl,
    fun _ _ => rfl, rfl, fun _ => rfl, fun _ => rfl⟩

/-- A process leaves 7 in block 5 through `log_write`, and another one waits for the
block. -/
def loggedBlock : List (Action Bool Nat) :=
  [.bread false 1 5, .run false, .ideintr, .run false, .bread true 1 5,
    .modify false ⟨0, by decide⟩ 7, .logWrite false ⟨0, by decide⟩,
    .brelse false ⟨0, by decide⟩, .run false]

theorem loggedBlock_enabled :
    (execute State.step (State.follows 1) booted loggedBlock).isSome = true := by
  decide +kernel

/-- The state before the second `bread` returns. -/
def logged : State Bool Nat :=
  lastState State.step (State.follows 1) booted loggedBlock loggedBlock_enabled

theorem logged_returns : (logged.step (.run true)).isSome = true := by decide +kernel

theorem cache_coherent_loggedBlock :
    logged.Coherent 1 ∧ logged.disk (sector (1, 5)) = 0 ∧
      (((logged.step (.run true)).get logged_returns).buf ⟨0, by decide⟩).data = 7 := by
  have run := run_lastState booted_isBooted loggedBlock loggedBlock_enabled
  have coherent := cache_coherent (by decide) run
  refine ⟨coherent, by decide +kernel, ?_⟩
  have returned := coherent.returned (.run true) _ rfl (Option.some_get logged_returns).symm true
    ⟨0, by decide⟩ (1, 5) (by decide +kernel) (by decide +kernel)
  have left : ((logged.step (.run true)).get logged_returns).left (1, 5) = 7 := by
    decide +kernel
  exact returned.2.2.trans left

end Coursework.BufferCache
