import Coursework.DiskRequests

/-!
# Every request is started once and in turn

The queue spells a list of buffers whose first element is the request that the disk
executes.  The buffers whose requests were completed, followed by that list, are the
buffers appended so far, so the requests are started in the order of their calls.  A
process in `iderw` has a number: below the number of completed requests its buffer is
synced and holds what the disk held, and from there on it is the place of its buffer in
the queue.
-/

namespace Coursework.Ide

variable {Buf Pid Data : Type}

def Device.request : Device Data → Option (Request Data)
  | .idle => none
  | .busy request | .ready request _ => some request

/-- A write to a sector was started after the request with a number. -/
def Overwritten (state : State Buf Pid Data) (number disk sector : Nat) : Prop :=
  ∃ later write, number < later ∧ state.history.started[later]? = some write ∧
    write.2.write = true ∧ write.2.disk = disk ∧ write.2.sector = sector

/-- The request with a number is completed. -/
structure Served (state : State Buf Pid Data) (b : Buf) (number : Nat)
    (request : Request Data) : Prop where
  started : state.history.started[number]? = some (b, request)
  disk : request.disk = (state.buffer b).request.disk
  sector : request.sector = (state.buffer b).request.sector
  valid : (state.buffer b).valid = true
  clean : (state.buffer b).dirty = false
  stored : state.history.completed[number]? = some (state.buffer b).data
  current : state.disk request.disk request.sector = (state.buffer b).data ∨
    Overwritten state number request.disk request.sector

/-- The requests of `past` are completed, those of `order` are in the queue, and the disk
executes that of `begun`. -/
structure Serves (state : State Buf Pid Data) (past order : List Buf) (begun : Option Buf) :
    Prop where
  holds : state.idequeue.Holds order
  begins : ∀ b, begun = some b → order.head? = some b
  request : state.device.request = begun.map fun b => (state.buffer b).request
  ready : ∀ request words, state.device = .ready request words →
    words = state.disk request.disk request.sector ∧
      (request.write = true → words = request.data)
  appended : state.history.appended = past ++ order
  completed : state.history.completed.length = past.length
  started : state.history.started.map Prod.fst = past ++ begun.toList
  current : ∀ b, begun = some b →
    state.history.started[past.length]? = some (b, (state.buffer b).request)
  queued : ∀ b ∈ order, ∃ pid, (state.place pid).buf = some b ∧
    past.length ≤ state.history.ticket pid
  owned : ∀ pid b, (state.place pid).buf = some b → state.owner b = some pid
  pending : ∀ pid b, (state.place pid).buf = some b → past.length ≤ state.history.ticket pid →
    order[state.history.ticket pid - past.length]? = some b ∧ (state.buffer b).synced = false
  served : ∀ pid b, (state.place pid).buf = some b → state.history.ticket pid < past.length →
    ∃ request, Served state b (state.history.ticket pid) request
  sleeps : ∀ pid b, state.place pid = .asleep b → past.length ≤ state.history.ticket pid

/-- The first buffer of the queue is the one whose request the disk executes. -/
def Inv (state : State Buf Pid Data) : Prop :=
  ∃ past order, Serves state past order order.head?

variable {state after : State Buf Pid Data} {past order : List Buf} {begun : Option Buf}

theorem Served.mono {b : Buf} {number : Nat} {request : Request Data}
    (served : Served state b number request)
    (started : state.history.started <+: after.history.started)
    (completed : state.history.completed <+: after.history.completed)
    (buffer : after.buffer b = state.buffer b)
    (disk : ∀ disk sector, after.disk disk sector = state.disk disk sector ∨
      Overwritten after number disk sector) : Served after b number request := by
  obtain ⟨later, isLater⟩ := started
  obtain ⟨next, isNext⟩ := completed
  have keeps : ∀ (place : Nat) entry, state.history.started[place]? = some entry →
      after.history.started[place]? = some entry := by
    intro place entry found
    obtain ⟨inside, -⟩ := List.getElem?_eq_some_iff.mp found
    rw [← isLater, List.getElem?_append_left inside]
    exact found
  refine ⟨keeps _ _ served.started, ?_, ?_, ?_, ?_, ?_, ?_⟩
  · rw [buffer]
    exact served.disk
  · rw [buffer]
    exact served.sector
  · rw [buffer]
    exact served.valid
  · rw [buffer]
    exact served.clean
  · obtain ⟨inside, -⟩ := List.getElem?_eq_some_iff.mp served.stored
    rw [buffer, ← isNext, List.getElem?_append_left inside]
    exact served.stored
  · rw [buffer]
    rcases served.current with same | ⟨place, write, less, isWrite, rest⟩
    · rcases disk request.disk request.sector with unchanged | overwritten
      · exact Or.inl (unchanged.trans same)
      · exact Or.inr overwritten
    · exact Or.inr ⟨place, write, less, keeps _ _ isWrite, rest⟩

namespace Serves

theorem length_started (serves : Serves state past order begun) :
    state.history.started.length = past.length + begun.toList.length := by
  rw [← List.length_map (f := Prod.fst), serves.started, List.length_append]

theorem unsynced (serves : Serves state past order begun) {b : Buf} (queued : b ∈ order) :
    (state.buffer b).synced = false := by
  obtain ⟨pid, isBuf, later⟩ := serves.queued b queued
  exact (serves.pending pid b isBuf later).2

/-- A process whose buffer is in the queue waits for it. -/
theorem waits (serves : Serves state past order begun) {pid : Pid} {b : Buf}
    (isBuf : (state.place pid).buf = some b) (queued : b ∈ order) :
    past.length ≤ state.history.ticket pid := by
  obtain ⟨other, otherBuf, later⟩ := serves.queued b queued
  have same := (serves.owned pid b isBuf).symm.trans (serves.owned other b otherBuf)
  cases same
  exact later

/-- The first buffer of the queue has the number of completed requests. -/
theorem number_of_first {b : Buf} {rest : List Buf}
    (serves : Serves state past (b :: rest) begun) {pid : Pid}
    (isBuf : (state.place pid).buf = some b) :
    state.history.ticket pid = past.length := by
  have later := serves.waits isBuf List.mem_cons_self
  obtain ⟨found, -⟩ := serves.pending pid b isBuf later
  have absent := (List.nodup_cons.mp serves.holds.nodup).1
  by_contra different
  obtain ⟨index, isIndex⟩ : ∃ index, state.history.ticket pid - past.length = index + 1 :=
    ⟨state.history.ticket pid - past.length - 1, by omega⟩
  rw [isIndex, List.getElem?_cons_succ] at found
  exact absent (List.mem_of_getElem? found)

/-- A step that changes neither the queue nor the disk. -/
theorem around (serves : Serves state past order begun)
    (queue : after.idequeue = state.idequeue) (device : after.device = state.device)
    (disk : after.disk = state.disk) (history : after.history = state.history)
    (buffer : ∀ pid b, (state.place pid).buf = some b → after.buffer b = state.buffer b)
    (place : ∀ pid b, (after.place pid).buf = some b → (state.place pid).buf = some b)
    (stays : ∀ pid b, (state.place pid).buf = some b →
      past.length ≤ state.history.ticket pid → (after.place pid).buf = some b)
    (owned : ∀ pid b, (after.place pid).buf = some b → after.owner b = some pid)
    (sleeps : ∀ pid b, after.place pid = .asleep b →
      past.length ≤ state.history.ticket pid) : Serves after past order begun := by
  have begunSame : ∀ b, begun = some b → after.buffer b = state.buffer b := by
    intro b isBegun
    obtain ⟨pid, isBuf, -⟩ :=
      serves.queued b (List.mem_of_mem_head? (serves.begins b isBegun))
    exact buffer pid b isBuf
  constructor
  case holds => exact queue ▸ serves.holds
  case begins => exact serves.begins
  case request =>
    rw [device, serves.request]
    cases begun with
    | none => rfl
    | some b => rw [Option.map_some, Option.map_some, begunSame b rfl]
  case ready =>
    intro request words isReady
    rw [disk]
    exact serves.ready request words (device ▸ isReady)
  case appended => exact history ▸ serves.appended
  case completed => exact history ▸ serves.completed
  case started => exact history ▸ serves.started
  case current =>
    intro b isBegun
    rw [history, begunSame b isBegun]
    exact serves.current b isBegun
  case queued =>
    intro b member
    obtain ⟨pid, isBuf, later⟩ := serves.queued b member
    exact ⟨pid, stays pid b isBuf later, history ▸ later⟩
  case owned => exact owned
  case pending =>
    intro pid b isBuf later
    rw [history] at later
    have before := place pid b isBuf
    rw [history, buffer pid b before]
    exact serves.pending pid b before later
  case served =>
    intro pid b isBuf less
    rw [history] at less ⊢
    have before := place pid b isBuf
    obtain ⟨request, served⟩ := serves.served pid b before less
    refine ⟨request, served.mono ?_ ?_ (buffer pid b before) ?_⟩
    · rw [history]
    · rw [history]
    · intro disk' sector
      rw [disk]
      exact Or.inl rfl
  case sleeps =>
    intro pid b isAsleep
    exact history ▸ sleeps pid b isAsleep

theorem idestart {b : Buf} {rest : List Buf} (serves : Serves state past (b :: rest) none)
    (taken : state.idestart b = some after) : Serves after past (b :: rest) (some b) := by
  simp only [State.idestart, Option.ite_none_left_eq_some, Option.some.injEq] at taken
  obtain ⟨-, rfl⟩ := taken
  have length : state.history.started.length = past.length := serves.length_started
  constructor
  case holds => exact serves.holds
  case begins =>
    rintro b ⟨⟩
    rfl
  case request => rfl
  case ready => rintro request words ⟨⟩
  case appended => exact serves.appended
  case completed => exact serves.completed
  case started =>
    have before := serves.started
    simp only [Option.toList_none, List.append_nil] at before
    simp [before]
  case current =>
    rintro b ⟨⟩
    simp [← length]
  case queued => exact serves.queued
  case owned => exact serves.owned
  case pending => exact serves.pending
  case served =>
    intro pid b isBuf less
    obtain ⟨request, served⟩ := serves.served pid b isBuf less
    exact ⟨request, served.mono (List.prefix_append ..) (List.prefix_refl _) rfl
      fun _ _ => Or.inl rfl⟩
  case sleeps => exact serves.sleeps

theorem transfer {request : Request Data} (serves : Serves state past order begun)
    (busy : state.device = .busy request) :
    Serves (state.transfer request) past order begun := by
  obtain ⟨b, rfl, isRequest⟩ : ∃ b, begun = some b ∧ (state.buffer b).request = request := by
    have isMap := serves.request
    rw [busy] at isMap
    exact Option.map_eq_some_iff.mp isMap.symm
  constructor
  case holds => exact serves.holds
  case begins => exact serves.begins
  case request => exact congrArg some isRequest.symm
  case ready =>
    rintro _ _ ⟨⟩
    refine ⟨rfl, fun isWrite => ?_⟩
    simp [isWrite]
  case appended => exact serves.appended
  case completed => exact serves.completed
  case started => exact serves.started
  case current => exact serves.current
  case queued => exact serves.queued
  case owned => exact serves.owned
  case pending => exact serves.pending
  case served =>
    intro pid other isBuf less
    obtain ⟨earlier, served⟩ := serves.served pid other isBuf less
    refine ⟨earlier, served.mono (List.prefix_refl _) (List.prefix_refl _) rfl ?_⟩
    intro disk sector
    by_cases written : request.write = true ∧ request.disk = disk ∧ request.sector = sector
    · refine Or.inr ⟨past.length, (b, request), less, ?_, written⟩
      rw [← isRequest]
      exact serves.current b rfl
    · refine Or.inl ?_
      simp only [State.transfer]
      split
      · next isWrite =>
          by_cases sameDisk : disk = request.disk
          · have other : sector ≠ request.sector := by
              rintro rfl
              exact written ⟨isWrite, sameDisk.symm, rfl⟩
            rw [sameDisk, Function.update_self, Function.update_of_ne other]
          · rw [Function.update_of_ne sameDisk]
      · rfl
  case sleeps => exact serves.sleeps

end Serves

theorem Place.buf_wakeup [DecidableEq Buf] (b : Buf) (place : Place Buf) :
    (place.wakeup b).buf = place.buf := by
  unfold Place.wakeup
  split
  · next isAsleep =>
      rw [isAsleep]
      rfl
  · rfl

theorem Place.wakeup_asleep [DecidableEq Buf] {b other : Buf} {place : Place Buf}
    (stays : place.wakeup b = .asleep other) : place = .asleep other ∧ other ≠ b := by
  unfold Place.wakeup at stays
  split at stays
  · cases stays
  · next notHere =>
      refine ⟨stays, ?_⟩
      rintro rfl
      exact notHere stays

namespace Serves

variable [DecidableEq Buf]

theorem finish {b : Buf} {rest : List Buf} {request : Request Data} {words : Data}
    (serves : Serves state past (b :: rest) (some b)) (ready : state.device = .ready request words) :
    Serves (state.finish request words b) (past ++ [b]) rest none := by
  obtain rfl : request = (state.buffer b).request := by
    have isSome := serves.request
    rw [ready] at isSome
    exact Option.some.inj isSome
  have absent := (List.nodup_cons.mp serves.holds.nodup).1
  have same : ∀ other, other ≠ b →
      (state.finish (state.buffer b).request words b).buffer other = state.buffer other :=
    fun other different => Function.update_of_ne different _ _
  have buf : ∀ pid, ((state.finish (state.buffer b).request words b).place pid).buf =
      (state.place pid).buf := fun pid => Place.buf_wakeup b (state.place pid)
  constructor
  case holds => exact serves.holds.pop
  case begins => rintro other ⟨⟩
  case request => rfl
  case ready => rintro _ _ ⟨⟩
  case appended =>
    rw [List.append_assoc]
    exact serves.appended
  case completed => simp [State.finish, serves.completed]
  case started =>
    have before := serves.started
    simpa [State.finish] using before
  case current => rintro other ⟨⟩
  case queued =>
    intro other member
    obtain ⟨pid, isBuf, later⟩ := serves.queued other (List.mem_cons_of_mem _ member)
    refine ⟨pid, (buf pid).trans isBuf, ?_⟩
    obtain ⟨found, -⟩ := serves.pending pid other isBuf later
    have notFirst : state.history.ticket pid ≠ past.length := by
      intro first
      rw [first, Nat.sub_self, List.getElem?_cons_zero] at found
      cases found
      exact absent member
    rw [List.length_append, List.length_singleton]
    show past.length + 1 ≤ state.history.ticket pid
    omega
  case owned =>
    intro pid other isBuf
    exact serves.owned pid other ((buf pid).symm.trans isBuf)
  case pending =>
    intro pid other isBuf later
    rw [List.length_append, List.length_singleton] at later ⊢
    change past.length + 1 ≤ state.history.ticket pid at later
    obtain ⟨found, unsynced⟩ :=
      serves.pending pid other ((buf pid).symm.trans isBuf) (by omega)
    have shifted : state.history.ticket pid - past.length =
        state.history.ticket pid - (past.length + 1) + 1 := by omega
    rw [shifted, List.getElem?_cons_succ] at found
    have different : other ≠ b := by
      rintro rfl
      exact absent (List.mem_of_getElem? found)
    rw [same other different]
    exact ⟨found, unsynced⟩
  case served =>
    intro pid other isBuf less
    rw [List.length_append, List.length_singleton] at less
    change state.history.ticket pid < past.length + 1 at less
    have before := (buf pid).symm.trans isBuf
    by_cases first : other = b
    · subst first
      have number := serves.number_of_first before
      obtain ⟨fromDisk, written⟩ := serves.ready _ _ ready
      have data : ((state.finish (state.buffer other).request words other).buffer other).data =
          words := by
        simp only [State.finish, Function.update_self]
        split
        · next dirty => exact (written dirty).symm
        · rfl
      refine ⟨(state.buffer other).request, ?_, ?_, ?_, ?_, ?_, ?_, ?_⟩
      · change state.history.started[state.history.ticket pid]? = _
        rw [number]
        exact serves.current other rfl
      · simp [State.finish, Buffer.request]
      · simp [State.finish, Buffer.request]
      · simp [State.finish]
      · simp [State.finish]
      · rw [data]
        change (state.history.completed ++ [_])[state.history.ticket pid]? = some words
        rw [number, ← serves.completed, fromDisk]
        simp
      · rw [data]
        exact Or.inl fromDisk.symm
    · have earlier : state.history.ticket pid < past.length := by
        by_contra later
        have isFirst : state.history.ticket pid = past.length := by omega
        obtain ⟨found, -⟩ := serves.pending pid other before (by omega)
        rw [isFirst, Nat.sub_self, List.getElem?_cons_zero] at found
        exact first (Option.some.inj found).symm
      obtain ⟨request, served⟩ := serves.served pid other before earlier
      exact ⟨request, served.mono (List.prefix_refl _) (List.prefix_append ..)
        (same other first) fun _ _ => Or.inl rfl⟩
  case sleeps =>
    intro pid other isAsleep
    obtain ⟨wasAsleep, different⟩ := Place.wakeup_asleep isAsleep
    have later := serves.sleeps pid other wasAsleep
    obtain ⟨found, -⟩ := serves.pending pid other (by rw [wasAsleep]; rfl) later
    have notFirst : state.history.ticket pid ≠ past.length := by
      intro first
      rw [first, Nat.sub_self, List.getElem?_cons_zero] at found
      exact different (Option.some.inj found).symm
    rw [List.length_append, List.length_singleton]
    show past.length + 1 ≤ state.history.ticket pid
    omega

variable [Fintype Buf] [DecidableEq Pid] {pid : Pid} {b : Buf}

/-- What appending a buffer changes. -/
structure Appended (state after : State Buf Pid Data) (pid : Pid) (b : Buf) : Prop where
  queue : state.idequeue.append (Fintype.card Buf + 1) b = some after.idequeue
  buffer : after.buffer = state.buffer
  owner : after.owner = state.owner
  disk : after.disk = state.disk
  device : after.device = state.device
  place : after.place = Function.update state.place pid (.testing b)
  appended : after.history.appended = state.history.appended ++ [b]
  started : after.history.started = state.history.started
  completed : after.history.completed = state.history.completed
  ticket : after.history.ticket =
    Function.update state.history.ticket pid state.history.appended.length

theorem appended_of_append (taken : state.append pid b = some after) :
    Appended state after pid b := by
  obtain ⟨idequeue, appended, rfl⟩ := Option.map_eq_some_iff.mp taken
  exact ⟨appended, rfl, rfl, rfl, rfl, rfl, rfl, rfl, rfl, rfl⟩

/-- A process that is not in `iderw` appends a buffer that it has locked. -/
theorem append (serves : Serves state past order begun) (away : state.place pid = .away)
    (locked : state.owner b = some pid) (unsynced : (state.buffer b).synced = false)
    (appends : Appended state after pid b) :
    b ∉ order ∧ Serves after past (order ++ [b]) begun := by
  have others : ∀ other buf, (state.place other).buf = some buf → other ≠ pid := by
    rintro other buf isBuf rfl
    rw [away] at isBuf
    cases isBuf
  have absent : b ∉ order := by
    intro member
    obtain ⟨other, isBuf, -⟩ := serves.queued b member
    have same := locked.symm.trans (serves.owned other b isBuf)
    exact others other b isBuf (Option.some.inj same).symm
  have length : state.history.appended.length = past.length + order.length := by
    rw [serves.appended, List.length_append]
  have here : after.place pid = .testing b ∧
      after.history.ticket pid = past.length + order.length := by
    rw [appends.place, appends.ticket, Function.update_self, Function.update_self, length]
    exact ⟨rfl, rfl⟩
  have there : ∀ other, other ≠ pid → after.place other = state.place other ∧
      after.history.ticket other = state.history.ticket other := by
    intro other distinct
    rw [appends.place, appends.ticket, Function.update_of_ne distinct,
      Function.update_of_ne distinct]
    exact ⟨rfl, rfl⟩
  refine ⟨absent, ?_⟩
  constructor
  case holds =>
    obtain ⟨queue, isQueue, holds⟩ := serves.holds.append absent serves.holds.length_lt
    cases appends.queue.symm.trans isQueue
    exact holds
  case begins =>
    intro first isBegun
    have isHead := serves.begins first isBegun
    cases order with
    | nil => cases isHead
    | cons other rest => exact isHead
  case request =>
    rw [appends.device, appends.buffer]
    exact serves.request
  case ready =>
    rw [appends.device, appends.disk]
    exact serves.ready
  case appended => rw [appends.appended, serves.appended, List.append_assoc]
  case completed => rw [appends.completed, serves.completed]
  case started => rw [appends.started, serves.started]
  case current =>
    rw [appends.started, appends.buffer]
    exact serves.current
  case queued =>
    intro other member
    rcases List.mem_append.mp member with inOrder | isNew
    · obtain ⟨caller, isBuf, later⟩ := serves.queued other inOrder
      obtain ⟨samePlace, sameTicket⟩ := there caller (others caller other isBuf)
      exact ⟨caller, by rw [samePlace, isBuf], by rw [sameTicket]; exact later⟩
    · obtain rfl := List.mem_singleton.mp isNew
      refine ⟨pid, ?_, ?_⟩
      · rw [here.1]
        rfl
      · rw [here.2]
        omega
  case owned =>
    intro caller other isBuf
    rw [appends.owner]
    by_cases isPid : caller = pid
    · subst isPid
      rw [here.1] at isBuf
      cases isBuf
      exact locked
    · rw [(there caller isPid).1] at isBuf
      exact serves.owned caller other isBuf
  case pending =>
    intro caller other isBuf later
    rw [appends.buffer]
    by_cases isPid : caller = pid
    · subst isPid
      rw [here.1] at isBuf
      cases isBuf
      refine ⟨?_, unsynced⟩
      rw [here.2, Nat.add_sub_cancel_left]
      simp
    · rw [(there caller isPid).1] at isBuf
      rw [(there caller isPid).2] at later ⊢
      obtain ⟨found, unsynced⟩ := serves.pending caller other isBuf later
      obtain ⟨inside, -⟩ := List.getElem?_eq_some_iff.mp found
      exact ⟨by rw [List.getElem?_append_left inside, found], unsynced⟩
  case served =>
    intro caller other isBuf less
    by_cases isPid : caller = pid
    · subst isPid
      rw [here.2] at less
      omega
    · rw [(there caller isPid).1] at isBuf
      rw [(there caller isPid).2] at less ⊢
      obtain ⟨request, served⟩ := serves.served caller other isBuf less
      refine ⟨request, served.mono ?_ ?_ (by rw [appends.buffer]) ?_⟩
      · rw [appends.started]
      · rw [appends.completed]
      · intro disk sector
        rw [appends.disk]
        exact Or.inl rfl
  case sleeps =>
    intro caller other isAsleep
    by_cases isPid : caller = pid
    · subst isPid
      rw [here.1] at isAsleep
      cases isAsleep
    · rw [(there caller isPid).1] at isAsleep
      rw [(there caller isPid).2]
      exact serves.sleeps caller other isAsleep

omit [DecidableEq Buf] [Fintype Buf] in
/-- A process tests the flags of its buffer and returns, or sleeps. -/
theorem test (serves : Serves state past order begun) (testing : state.place pid = .testing b) :
    Serves (state.test pid b) past order begun := by
  have isBuf : (state.place pid).buf = some b := by
    rw [testing]
    rfl
  have others : ∀ other, other ≠ pid → (state.test pid b).place other = state.place other :=
    fun other distinct => Function.update_of_ne distinct _ _
  have here : (state.test pid b).place pid =
      if (state.buffer b).synced then .away else .asleep b := Function.update_self ..
  have keeps : ∀ other buf, ((state.test pid b).place other).buf = some buf →
      (state.place other).buf = some buf := by
    intro other buf otherBuf
    by_cases isPid : other = pid
    · subst isPid
      rw [here] at otherBuf
      split at otherBuf
      · cases otherBuf
      · cases otherBuf
        exact isBuf
    · rw [others other isPid] at otherBuf
      exact otherBuf
  refine serves.around rfl rfl rfl rfl (fun _ _ _ => rfl) keeps ?_ ?_ ?_
  · intro other buf otherBuf later
    by_cases isPid : other = pid
    · subst isPid
      obtain ⟨-, unsynced⟩ := serves.pending other buf otherBuf later
      cases isBuf.symm.trans otherBuf
      rw [here, unsynced]
      rfl
    · rw [others other isPid]
      exact otherBuf
  · exact fun other buf otherBuf => serves.owned other buf (keeps other buf otherBuf)
  · intro other buf isAsleep
    by_cases isPid : other = pid
    · subst isPid
      rw [here] at isAsleep
      split at isAsleep
      · cases isAsleep
      · next unsynced =>
          by_contra earlier
          obtain ⟨request, served⟩ := serves.served other b isBuf (by omega)
          exact unsynced (by simp [Buffer.synced, served.valid, served.clean])
    · rw [others other isPid] at isAsleep
      exact serves.sleeps other buf isAsleep

end Serves

section Steps

variable [DecidableEq Buf]

omit [DecidableEq Buf] in
/-- Starting a request changes the device and the list of started requests. -/
theorem idestart_eq {b : Buf} (taken : state.idestart b = some after) :
    after = { state with
      device := .busy (state.buffer b).request
      history := { state.history with
        started := state.history.started ++ [(b, (state.buffer b).request)] } } := by
  simp only [State.idestart, Option.ite_none_left_eq_some, Option.some.injEq] at taken
  exact taken.2.symm

/-- The end of an interrupt: the first buffer is finished and the next one, if there is
one, is started. -/
theorem ideintr_cases {request : Request Data} {words : Data} {first : Buf} {rest : List Buf}
    (serves : Serves state past (first :: rest) (some first))
    (ready : state.device = .ready request words)
    (taken : state.ideintr request words = some after) :
    (rest = [] ∧ after = state.finish request words first) ∨
      ∃ next later, rest = next :: later ∧
        (state.finish request words first).idestart next = some after := by
  have isFirst : state.idequeue.first = some first := serves.holds.first
  have isNext := (serves.finish ready).holds.first
  simp only [State.ideintr, isFirst] at taken
  cases rest with
  | nil =>
      simp only [isNext, List.head?_nil, Option.some.injEq] at taken
      exact Or.inl ⟨rfl, taken.symm⟩
  | cons next later =>
      simp only [isNext, List.head?_cons] at taken
      exact Or.inr ⟨next, later, rfl, taken⟩

theorem Inv.ideintr {request : Request Data} {words : Data} (inv : Inv state)
    (ready : state.device = .ready request words)
    (taken : state.ideintr request words = some after) : Inv after := by
  obtain ⟨past, order, serves⟩ := inv
  cases order with
  | nil =>
      have nothing := serves.request
      rw [ready] at nothing
      cases nothing
  | cons first rest =>
      rcases ideintr_cases serves ready taken with ⟨rfl, rfl⟩ | ⟨next, later, rfl, starts⟩
      · exact ⟨_, _, serves.finish ready⟩
      · exact ⟨_, _, (serves.finish ready).idestart starts⟩

variable [Fintype Buf] [DecidableEq Pid] {havedisk1 : Bool} {pid : Pid} {b : Buf}

/-- A call of `iderw`: the buffer is appended, its request is started if the buffer is the
first one, and the caller tests the flags. -/
theorem iderw_cases (taken : state.iderw havedisk1 pid b = some after) :
    state.owner b = some pid ∧ (state.buffer b).synced = false ∧
      ∃ appended, Serves.Appended state appended pid b ∧
        (appended.idequeue.first = some b ∧
            (∃ started, appended.idestart b = some started ∧ after = started.test pid b) ∨
          appended.idequeue.first ≠ some b ∧ after = appended.test pid b) := by
  simp only [State.iderw, Option.ite_none_right_eq_some] at taken
  obtain ⟨⟨locked, unsynced, -⟩, taken⟩ := taken
  obtain ⟨appended, appends, taken⟩ := Option.bind_eq_some_iff.mp taken
  obtain ⟨started, starts, rfl⟩ := Option.map_eq_some_iff.mp taken
  refine ⟨locked, unsynced, appended, Serves.appended_of_append appends, ?_⟩
  split at starts
  · next isFirst => exact Or.inl ⟨isFirst, started, starts, rfl⟩
  · next notFirst =>
      cases starts
      exact Or.inr ⟨notFirst, rfl⟩

theorem Inv.iderw (inv : Inv state) (away : state.place pid = .away)
    (taken : state.iderw havedisk1 pid b = some after) : Inv after := by
  obtain ⟨past, order, serves⟩ := inv
  obtain ⟨locked, unsynced, appended, appends, ends⟩ := iderw_cases taken
  obtain ⟨absent, queued⟩ := serves.append away locked unsynced appends
  have testing : appended.place pid = .testing b := by
    rw [appends.place, Function.update_self]
  refine ⟨past, order ++ [b], ?_⟩
  rw [queued.holds.first] at ends
  rcases ends with ⟨isFirst, started, starts, rfl⟩ | ⟨notFirst, rfl⟩
  · cases order with
    | nil =>
        have begins : Serves started past [b] (some b) := queued.idestart starts
        refine begins.test ?_
        rw [idestart_eq starts]
        exact testing
    | cons first rest =>
        obtain rfl : first = b := Option.some.inj isFirst
        exact absurd List.mem_cons_self absent
  · cases order with
    | nil => exact absurd rfl notFirst
    | cons first rest => exact queued.test testing

theorem Inv.step {action : Action Buf Pid Data} (inv : Inv state)
    (taken : state.step havedisk1 action = some after) : Inv after := by
  cases action with
  | lock pid b =>
      obtain ⟨past, order, serves⟩ := inv
      simp only [State.step, Option.ite_none_right_eq_some, Option.some.injEq] at taken
      obtain ⟨⟨free, -⟩, rfl⟩ := taken
      refine ⟨past, order, serves.around rfl rfl rfl rfl (fun _ _ _ => rfl) (fun _ _ => id)
        (fun _ _ isBuf _ => isBuf) ?_ serves.sleeps⟩
      intro other buf isBuf
      have owned := serves.owned other buf isBuf
      have different : buf ≠ b := by
        rintro rfl
        rw [free] at owned
        cases owned
      exact (Function.update_of_ne different _ _).trans owned
  | unlock pid b =>
      obtain ⟨past, order, serves⟩ := inv
      simp only [State.step, Option.ite_none_right_eq_some, Option.some.injEq] at taken
      obtain ⟨⟨locked, away⟩, rfl⟩ := taken
      refine ⟨past, order, serves.around rfl rfl rfl rfl (fun _ _ _ => rfl) (fun _ _ => id)
        (fun _ _ isBuf _ => isBuf) ?_ serves.sleeps⟩
      intro other buf isBuf
      have owned := serves.owned other buf isBuf
      have different : buf ≠ b := by
        rintro rfl
        cases owned.symm.trans locked
        rw [away] at isBuf
        cases isBuf
      exact (Function.update_of_ne different _ _).trans owned
  | edit b buffer =>
      obtain ⟨past, order, serves⟩ := inv
      simp only [State.step, Option.ite_none_right_eq_some, Option.some.injEq] at taken
      obtain ⟨unused, rfl⟩ := taken
      refine ⟨past, order, serves.around rfl rfl rfl rfl ?_ (fun _ _ => id)
        (fun _ _ isBuf _ => isBuf) serves.owned serves.sleeps⟩
      intro other buf isBuf
      have different : buf ≠ b := by
        rintro rfl
        rw [serves.owned other buf isBuf] at unused
        simp [isBuf] at unused
      exact Function.update_of_ne different _ _
  | iderw pid b =>
      simp only [State.step, Option.ite_none_right_eq_some] at taken
      exact inv.iderw taken.1 taken.2
  | test pid =>
      obtain ⟨past, order, serves⟩ := inv
      simp only [State.step] at taken
      cases isPlace : state.place pid with
      | testing b =>
          simp only [isPlace, Option.some.injEq] at taken
          exact taken ▸ ⟨past, order, serves.test isPlace⟩
      | away => simp [isPlace] at taken
      | asleep b => simp [isPlace] at taken
  | rouse pid =>
      obtain ⟨past, order, serves⟩ := inv
      simp only [State.step] at taken
      cases isPlace : state.place pid with
      | asleep b =>
          simp only [isPlace, Option.some.injEq] at taken
          subst taken
          have same : ∀ other, (Function.update state.place pid (.testing b) other).buf =
              (state.place other).buf := by
            intro other
            by_cases isPid : other = pid
            · subst isPid
              rw [Function.update_self, isPlace]
              rfl
            · rw [Function.update_of_ne isPid]
          refine ⟨past, order, serves.around rfl rfl rfl rfl (fun _ _ _ => rfl) ?_ ?_ ?_ ?_⟩
          · exact fun other buf isBuf => (same other).symm.trans isBuf
          · exact fun other buf isBuf _ => (same other).trans isBuf
          · exact fun other buf isBuf =>
              serves.owned other buf ((same other).symm.trans isBuf)
          · intro other buf isAsleep
            by_cases isPid : other = pid
            · subst isPid
              change Function.update state.place other (.testing b) other = _ at isAsleep
              rw [Function.update_self] at isAsleep
              cases isAsleep
            · refine serves.sleeps other buf ?_
              exact (Function.update_of_ne isPid _ _).symm.trans isAsleep
      | away => simp [isPlace] at taken
      | testing b => simp [isPlace] at taken
  | transfer =>
      obtain ⟨past, order, serves⟩ := inv
      simp only [State.step] at taken
      cases isDevice : state.device with
      | busy request =>
          simp only [isDevice, Option.some.injEq] at taken
          exact taken ▸ ⟨past, order, serves.transfer isDevice⟩
      | idle => simp [isDevice] at taken
      | ready request words => simp [isDevice] at taken
  | interrupt =>
      simp only [State.step] at taken
      cases isDevice : state.device with
      | ready request words =>
          simp only [isDevice] at taken
          exact inv.ideintr isDevice taken
      | idle => simp [isDevice] at taken
      | busy request => simp [isDevice] at taken

theorem inv_of_run (run : Run (State.step havedisk1) anyStep IsInitial state) : Inv state := by
  induction run with
  | start isInitial =>
      obtain ⟨queue, owner, place, device, appended, started, completed⟩ := isInitial
      refine ⟨[], [], ⟨List.nodup_nil, queue⟩, ?_, ?_, ?_, appended, ?_, ?_, ?_, ?_, ?_, ?_,
        ?_, ?_⟩ <;> simp_all [Place.buf, Device.request]
  | next action before _ taken ih => exact ih.step taken

/-- A step starts at most one request: for the flags that its buffer has then, while the
disk executes none. -/
theorem Inv.starts {action : Action Buf Pid Data} (inv : Inv state)
    (taken : state.step havedisk1 action = some after) :
    after.history.started = state.history.started ∨
      ∃ b request, after.history.started = state.history.started ++ [(b, request)] ∧
        after.device = .busy request ∧ request.write = (state.buffer b).dirty ∧
        ∀ other, state.device ≠ .busy other := by
  obtain ⟨past, order, serves⟩ := inv
  cases action with
  | iderw pid b =>
      simp only [State.step, Option.ite_none_right_eq_some] at taken
      obtain ⟨away, taken⟩ := taken
      obtain ⟨locked, unsynced, appended, appends, ends⟩ := iderw_cases taken
      obtain ⟨absent, queued⟩ := serves.append away locked unsynced appends
      rcases ends with ⟨isFirst, started, starts, rfl⟩ | ⟨-, rfl⟩
      · rw [idestart_eq starts]
        refine Or.inr ⟨b, (appended.buffer b).request, ?_, rfl, ?_, ?_⟩
        · rw [← appends.started]
          rfl
        · rw [appends.buffer]
          rfl
        · intro other isBusy
          rw [queued.holds.first] at isFirst
          have isRequest := serves.request
          rw [isBusy] at isRequest
          cases order with
          | nil => cases isRequest
          | cons first rest =>
              obtain rfl : first = b := Option.some.inj isFirst
              exact absent List.mem_cons_self
      · exact Or.inl appends.started
  | interrupt =>
      simp only [State.step] at taken
      cases isDevice : state.device with
      | ready request words =>
          simp only [isDevice] at taken
          cases order with
          | nil =>
              have isRequest := serves.request
              rw [isDevice] at isRequest
              cases isRequest
          | cons first rest =>
              rcases ideintr_cases serves isDevice taken with ⟨-, rfl⟩ | ⟨next, later, rfl, starts⟩
              · exact Or.inl rfl
              · have different : next ≠ first := by
                  rintro rfl
                  exact (List.nodup_cons.mp serves.holds.nodup).1 List.mem_cons_self
                have same : (state.finish request words first).buffer next = state.buffer next :=
                  Function.update_of_ne different _ _
                rw [idestart_eq starts, same]
                exact Or.inr ⟨next, (state.buffer next).request, rfl, rfl, rfl, by simp⟩
      | idle => simp [isDevice] at taken
      | busy request => simp [isDevice] at taken
  | lock pid b =>
      simp only [State.step, Option.ite_none_right_eq_some, Option.some.injEq] at taken
      exact taken.2 ▸ Or.inl rfl
  | unlock pid b =>
      simp only [State.step, Option.ite_none_right_eq_some, Option.some.injEq] at taken
      exact taken.2 ▸ Or.inl rfl
  | edit b buffer =>
      simp only [State.step, Option.ite_none_right_eq_some, Option.some.injEq] at taken
      exact taken.2 ▸ Or.inl rfl
  | test pid =>
      simp only [State.step] at taken
      split at taken
      · cases taken
        exact Or.inl rfl
      · cases taken
  | rouse pid =>
      simp only [State.step] at taken
      split at taken
      · cases taken
        exact Or.inl rfl
      · cases taken
  | transfer =>
      simp only [State.step] at taken
      split at taken
      · cases taken
        exact Or.inl rfl
      · cases taken

/-- The caller of `iderw` gets the next number and sleeps. -/
theorem iderw_sleeps (taken : state.iderw havedisk1 pid b = some after) :
    after.place = Function.update state.place pid (.asleep b) ∧
      after.history.appended = state.history.appended ++ [b] ∧
      after.history.ticket pid = state.history.appended.length := by
  obtain ⟨-, unsynced, appended, appends, ends⟩ := iderw_cases taken
  have sleeps : (appended.test pid b).place = Function.update state.place pid (.asleep b) := by
    simp [State.test, appends.place, appends.buffer, unsynced]
  have number : appended.history.ticket pid = state.history.appended.length := by
    rw [appends.ticket, Function.update_self]
  rcases ends with ⟨-, started, starts, rfl⟩ | ⟨-, rfl⟩
  · rw [idestart_eq starts]
    exact ⟨sleeps, appends.appended, number⟩
  · exact ⟨sleeps, appends.appended, number⟩

/-- A process leaves `iderw` by a test that finds its buffer synced. -/
theorem returns_of_step {action : Action Buf Pid Data}
    (taken : state.step havedisk1 action = some after) (isBuf : (state.place pid).buf = some b)
    (away : after.place pid = .away) :
    state.place pid = .testing b ∧ (state.buffer b).synced = true ∧
      after = state.test pid b := by
  have notSame : after.place pid ≠ state.place pid := by
    intro same
    rw [← same, away] at isBuf
    cases isBuf
  cases action with
  | lock other buf =>
      simp only [State.step, Option.ite_none_right_eq_some, Option.some.injEq] at taken
      exact (notSame (taken.2 ▸ rfl)).elim
  | unlock other buf =>
      simp only [State.step, Option.ite_none_right_eq_some, Option.some.injEq] at taken
      exact (notSame (taken.2 ▸ rfl)).elim
  | edit buf buffer =>
      simp only [State.step, Option.ite_none_right_eq_some, Option.some.injEq] at taken
      exact (notSame (taken.2 ▸ rfl)).elim
  | iderw other buf =>
      simp only [State.step, Option.ite_none_right_eq_some] at taken
      obtain ⟨wasAway, taken⟩ := taken
      have different : pid ≠ other := by
        rintro rfl
        rw [wasAway] at isBuf
        cases isBuf
      refine (notSame ?_).elim
      rw [(iderw_sleeps taken).1, Function.update_of_ne different]
  | test other =>
      simp only [State.step] at taken
      cases isPlace : state.place other with
      | testing buf =>
          simp only [isPlace, Option.some.injEq] at taken
          subst taken
          by_cases isPid : pid = other
          · subst isPid
            rw [isPlace] at isBuf
            cases isBuf
            refine ⟨isPlace, ?_, rfl⟩
            simp only [State.test, Function.update_self] at away
            split at away
            · next synced => exact synced
            · cases away
          · exact (notSame (Function.update_of_ne isPid _ _)).elim
      | away => simp [isPlace] at taken
      | asleep buf => simp [isPlace] at taken
  | rouse other =>
      simp only [State.step] at taken
      cases isPlace : state.place other with
      | asleep buf =>
          simp only [isPlace, Option.some.injEq] at taken
          subst taken
          by_cases isPid : pid = other
          · subst isPid
            simp at away
          · exact (notSame (Function.update_of_ne isPid _ _)).elim
      | away => simp [isPlace] at taken
      | testing buf => simp [isPlace] at taken
  | transfer =>
      simp only [State.step] at taken
      split at taken
      · cases taken
        exact (notSame rfl).elim
      · cases taken
  | interrupt =>
      have wakes : ∃ buf, after.place pid = (state.place pid).wakeup buf ∨
          after.place pid = state.place pid := by
        simp only [State.step] at taken
        split at taken
        · next request words _ =>
            simp only [State.ideintr] at taken
            split at taken
            · cases taken
              exact ⟨b, Or.inr rfl⟩
            · next first _ =>
                refine ⟨first, Or.inl ?_⟩
                split at taken
                · cases taken
                  rfl
                · rw [idestart_eq taken]
                  rfl
        · cases taken
      obtain ⟨buf, wakes | same⟩ := wakes
      · have kept := Place.buf_wakeup buf (state.place pid)
        rw [← wakes, away, isBuf] at kept
        cases kept
      · exact (notSame same).elim

/-- The queue has no repetitions and begins with the request that the disk executes; the
buffers whose requests were started, followed by the rest of the queue, are the buffers in
the order of their calls; a request is started once, as a write exactly if its buffer is
dirty then; and a call of `iderw` sleeps and returns only after its own request was
completed, with a buffer that is valid, clean and equal to the sector at its completion,
which the disk still holds unless a later write was started for it. -/
theorem disk_requests_served (run : Run (State.step havedisk1) anyStep IsInitial state) :
    (∃ order, state.idequeue.Holds order ∧
      state.device.request = order.head?.map (fun b => (state.buffer b).request) ∧
      state.history.appended = state.history.started.map Prod.fst ++ order.tail) ∧
    (∀ action after, state.step havedisk1 action = some after →
      after.history.started = state.history.started ∨
        ∃ b request, after.history.started = state.history.started ++ [(b, request)] ∧
          after.device = .busy request ∧ request.write = (state.buffer b).dirty ∧
          ∀ other, state.device ≠ .busy other) ∧
    (∀ pid b after, state.step havedisk1 (.iderw pid b) = some after →
      after.place pid = .asleep b ∧ after.history.appended = state.history.appended ++ [b] ∧
        after.history.ticket pid = state.history.appended.length) ∧
    (∀ action after pid b, state.step havedisk1 action = some after →
      (state.place pid).buf = some b → after.place pid = .away →
      after.history.ticket pid < after.history.completed.length ∧
        ∃ request, Served after b (after.history.ticket pid) request) := by
  have inv := inv_of_run run
  refine ⟨?_, fun _ _ taken => inv.starts taken, ?_, ?_⟩
  · obtain ⟨past, order, serves⟩ := inv
    refine ⟨order, serves.holds, serves.request, ?_⟩
    rw [serves.started, serves.appended, List.append_assoc]
    cases order <;> rfl
  · intro pid b after taken
    simp only [State.step, Option.ite_none_right_eq_some] at taken
    obtain ⟨sleeps, appended, number⟩ := iderw_sleeps taken.2
    exact ⟨by rw [sleeps, Function.update_self], appended, number⟩
  · intro action after pid b taken isBuf away
    obtain ⟨past, order, serves⟩ := inv
    obtain ⟨-, synced, rfl⟩ := returns_of_step taken isBuf away
    have less : state.history.ticket pid < past.length := by
      by_contra later
      have unsynced := (serves.pending pid b isBuf (by omega)).2
      rw [synced] at unsynced
      cases unsynced
    obtain ⟨request, served⟩ := serves.served pid b isBuf less
    refine ⟨?_, request, ?_⟩
    · change state.history.ticket pid < state.history.completed.length
      rw [serves.completed]
      exact less
    · exact served.mono (List.prefix_refl _) (List.prefix_refl _) rfl fun _ _ => Or.inl rfl

end Steps

/-- A disk whose sectors hold their numbers, and two empty buffers for the sectors 3 and 5. -/
def emptyBuffers : State Bool Bool Nat :=
  { idequeue := { first := none, next := fun _ => none }
    buffer := fun b =>
      { valid := false, dirty := false, dev := 0, blockno := if b then 5 else 3, data := 0 }
    owner := fun _ => none
    place := fun _ => .away
    disk := fun _ sector => sector
    device := .idle
    history := { appended := [], started := [], completed := [], ticket := fun _ => 0 } }

/-- Two processes read a sector each, and the first request is completed. -/
def twoReads : List (Action Bool Bool Nat) :=
  [.lock false false, .lock true true, .iderw false false, .iderw true true, .transfer,
    .interrupt]

theorem twoReads_enabled :
    (execute (State.step false) (fun _ _ => true) emptyBuffers twoReads).isSome = true := by
  decide +kernel

theorem disk_requests_served_twoReads :
    ∃ state after : State Bool Bool Nat, state.step false (.test false) = some after ∧
      state.history.appended = [false, true] ∧ after.history.completed = [3] ∧
      after.history.ticket false < after.history.completed.length ∧
      ∃ request, Served after false (after.history.ticket false) request := by
  have isInitial : IsInitial emptyBuffers := ⟨rfl, fun _ => rfl, fun _ => rfl, rfl, rfl, rfl, rfl⟩
  have run := run_lastState isInitial twoReads twoReads_enabled
  obtain ⟨after, taken⟩ := Option.isSome_iff_exists.mp (show
    ((lastState (State.step false) _ _ _ twoReads_enabled).step false (.test false)).isSome =
      true by decide +kernel)
  have facts : ((lastState (State.step false) _ _ _ twoReads_enabled).step false
      (.test false)).map (fun after => (after.place false, after.history.completed)) =
      some (.away, [3]) := by
    decide +kernel
  rw [taken, Option.map_some, Option.some.injEq, Prod.mk.injEq] at facts
  have served := (disk_requests_served (run.mono fun _ _ _ => trivial)).2.2.2 (.test false) after
    false false taken (by decide +kernel) facts.1
  exact ⟨_, after, taken, by decide +kernel, facts.2, served⟩

end Coursework.Ide
