import Coursework.KernelParam
import Coursework.RingBuffer
import Coursework.TransitionRuns
import Mathlib.Data.UInt
import Mathlib.Tactic.Common

/-!
# The input side of the console

`consoleintr` and `consoleread` of `console.c`.  Both run under `cons.lock`: the
interrupt handler from its start to its end, a reader from where it gets the lock
to where it sleeps or returns.  A reader that sleeps may go on at any time and
then looks at the buffer again.

The stream is what the console is for, without the buffer: a line that is being
edited, the characters committed so far, and how many of them were consumed.  It
runs along with the buffer, and the buffer always holds what is committed and not
consumed, followed by the line.
-/

namespace Coursework.Console

abbrev Byte := UInt8

def INPUT_BUF : Nat := 128

/-- `C(x)`, a control character. -/
def C (x : Char) : Byte := UInt8.ofNat (x.toNat - '@'.toNat)

def newline : Byte := 10

def carriageReturn : Byte := 13

def delete : Byte := 0x7f

/-- The variable `input`. -/
structure Input where
  buf : Nat → Byte
  r : Nat
  w : Nat
  e : Nat

/-! ## The interrupt handler -/

/-- `input.e--`. -/
def Input.back (input : Input) : Input := { input with e := (input.e + UINT - 1) % UINT }

/-- The loop of the kill character, for a number of iterations. -/
def Input.killLoop : Nat → Input → Input
  | 0, input => input
  | fuel + 1, input =>
      if input.e ≠ input.w ∧ input.buf ((input.e + UINT - 1) % UINT % INPUT_BUF) ≠ newline then
        killLoop fuel input.back
      else input

/-- The kill character.  Each iteration lowers the distance of `e` from `w`. -/
def Input.kill (input : Input) : Input :=
  input.killLoop ((input.e + UINT - input.w) % UINT)

def Input.backspace (input : Input) : Input :=
  if input.e ≠ input.w then input.back else input

/-- A character that goes into the buffer. -/
def Input.insert (input : Input) (c : Byte) : Input :=
  if c ≠ 0 ∧ (input.e + UINT - input.r) % UINT < INPUT_BUF then
    let c := if c = carriageReturn then newline else c
    let input := { input with
      buf := Function.update input.buf (input.e % INPUT_BUF) c
      e := (input.e + 1) % UINT }
    if c = newline ∨ c = C 'D' ∨ input.e = (input.r + INPUT_BUF) % UINT then
      { input with w := input.e }
    else input
  else input

/-- The body of the loop of `consoleintr`. -/
def Input.char (input : Input) (c : Byte) : Input :=
  if c = C 'P' then input
  else if c = C 'U' then input.kill
  else if c = C 'H' ∨ c = delete then input.backspace
  else input.insert c

/-! ## Readers -/

/-- How a section of `consoleread` ends: the buffer is empty, the count is
reached, a line is read, or a ctrl-D is saved for the next read or consumed. -/
inductive ReadEnd
  | waits
  | full
  | line
  | saved
  | eof
  deriving DecidableEq

/-- The loop of `consoleread` for a count that is left, with the count left after
it and the bytes delivered. -/
def readLoop (target : Nat) : Nat → Input → List Byte → Input × Nat × List Byte × ReadEnd
  | 0, input, dst => (input, 0, dst, .full)
  | n + 1, input, dst =>
      if input.r = input.w then (input, n + 1, dst, .waits)
      else
        let c := input.buf (input.r % INPUT_BUF)
        let input := { input with r := (input.r + 1) % UINT }
        if c = C 'D' then
          if n + 1 < target then
            ({ input with r := (input.r + UINT - 1) % UINT }, n + 1, dst, .saved)
          else (input, n + 1, dst, .eof)
        else if c = newline then (input, n, dst ++ [c], .line)
        else readLoop target n input (dst ++ [c])

/-- The call that a process is in: `consoleread` with `n` of `target` bytes left
and the bytes delivered so far. -/
inductive Call
  | idle
  | consoleread (target n : Nat) (dst : List Byte)
  deriving DecidableEq

structure Proc where
  call : Call
  killed : Bool
  eax : Int

/-! ## The stream -/

/-- What the console is for. -/
structure Stream where
  line : List Byte
  committed : List Byte
  consumed : Nat

/-- The characters committed and not consumed. -/
def Stream.unread (stream : Stream) : List Byte := stream.committed.drop stream.consumed

/-- The characters that occupy the console. -/
def Stream.pending (stream : Stream) : Nat := stream.unread.length + stream.line.length

def Stream.insert (stream : Stream) (c : Byte) : Stream :=
  if c ≠ 0 ∧ stream.pending < INPUT_BUF then
    let c := if c = carriageReturn then newline else c
    if c = newline ∨ c = C 'D' ∨ stream.pending + 1 = INPUT_BUF then
      { stream with committed := stream.committed ++ (stream.line ++ [c]), line := [] }
    else { stream with line := stream.line ++ [c] }
  else stream

/-- What a character does to the stream. -/
def Stream.char (stream : Stream) (c : Byte) : Stream :=
  if c = C 'P' then stream
  else if c = C 'U' then { stream with line := [] }
  else if c = C 'H' ∨ c = delete then { stream with line := stream.line.dropLast }
  else stream.insert c

/-! ## Steps -/

/-- A finished `consoleread`: what it delivered, whether it consumed a ctrl-D, and
what it returned. -/
structure Finished where
  dst : List Byte
  eof : Bool
  result : Int

structure History (Pid : Type) where
  stream : Stream
  taken : List (Pid × Byte)
  finished : List (Pid × Finished)

structure State (Pid : Type) where
  input : Input
  proc : Pid → Proc
  history : History Pid

namespace State

variable {Pid : Type} [DecidableEq Pid]

/-- `consoleintr`, called with the characters that are there. -/
def consoleintr (state : State Pid) (chars : List Byte) : State Pid :=
  { state with
    input := chars.foldl Input.char state.input
    history := { state.history with
      stream := chars.foldl Stream.char state.history.stream } }

/-- A section of `consoleread`. -/
def consoleread (state : State Pid) (pid : Pid) (target n : Nat) (dst : List Byte) :
    State Pid :=
  let (input, n, bytes, ending) := readLoop target n state.input dst
  let new := bytes.drop dst.length
  let moved : State Pid :=
    { state with
      input := input
      history := { state.history with
        stream := { state.history.stream with
          consumed := state.history.stream.consumed + new.length +
            if ending = .eof then 1 else 0 }
        taken := state.history.taken ++ new.map fun byte => (pid, byte) } }
  let returns (value : Int) : State Pid :=
    { moved with
      proc := Function.update state.proc pid
        { state.proc pid with call := .idle, eax := value }
      history := { moved.history with
        finished := state.history.finished ++ [(pid, ⟨bytes, ending = .eof, value⟩)] } }
  if ending = .waits then
    if (state.proc pid).killed = true then returns (-1)
    else
      { moved with
        proc := Function.update state.proc pid
          { state.proc pid with call := .consoleread target n bytes } }
  else returns (target - n)

end State

inductive Action (Pid : Type)
  | intr (chars : List Byte)
  | read (pid : Pid) (n : Nat)
  | run (pid : Pid)
  | kill (pid : Pid)

variable {Pid : Type} [DecidableEq Pid]

def State.step (state : State Pid) : Action Pid → Option (State Pid)
  | .intr chars => some (state.consoleintr chars)
  | .read pid n =>
      if (state.proc pid).call = .idle then
        some { state with
          proc := Function.update state.proc pid
            { state.proc pid with call := .consoleread n n [] } }
      else none
  | .run pid =>
      match (state.proc pid).call with
      | .idle => none
      | .consoleread target n dst => some (state.consoleread pid target n dst)
  | .kill pid =>
      some { state with
        proc := Function.update state.proc pid { state.proc pid with killed := true } }

/-- The console before any input, with its zeroed buffer. -/
structure IsFresh (state : State Pid) : Prop where
  input : state.input = ⟨fun _ => 0, 0, 0, 0⟩
  stream : state.history.stream = ⟨[], [], 0⟩
  idle : ∀ pid, (state.proc pid).call = .idle
  taken : state.history.taken = []
  finished : state.history.finished = []

/-! ## The buffer -/

theorem input_buf_dvd : INPUT_BUF ∣ UINT := by decide

theorem input_buf_lt : INPUT_BUF < UINT := by decide

/-- The buffer holds the characters to be read and the line that is edited. -/
structure Holds (input : Input) (unread line : List Byte) : Prop where
  ring : Ring.Holds INPUT_BUF UINT input.buf input.r input.e (unread ++ line)
  committed : input.w = (input.r + unread.length) % UINT

namespace Holds

variable {input : Input} {unread line : List Byte}

theorem editing (holds : Holds input unread line) :
    Ring.Holds INPUT_BUF UINT input.buf input.w input.e line := by
  rw [holds.committed]
  exact holds.ring.append_right input_buf_dvd

theorem reading (holds : Holds input unread line) :
    Ring.Holds INPUT_BUF UINT input.buf input.r input.w unread := by
  rw [holds.committed]
  exact holds.ring.append_left

theorem edited_iff (holds : Holds input unread line) : input.e = input.w ↔ line = [] :=
  eq_comm.trans (holds.editing.empty_iff input_buf_lt)

theorem read_iff (holds : Holds input unread line) : input.r = input.w ↔ unread = [] :=
  holds.reading.empty_iff input_buf_lt

theorem back {c : Byte} (holds : Holds input unread (line ++ [c])) :
    input.buf ((input.e + UINT - 1) % UINT % INPUT_BUF) = c ∧
      Holds input.back unread line := by
  have ring := holds.ring
  rw [← List.append_assoc] at ring
  obtain ⟨here, rest⟩ := ring.unpush input_buf_dvd
  refine ⟨here, ?_⟩
  rw [Input.back]
  exact ⟨rest, holds.committed⟩

theorem backspace (holds : Holds input unread line) :
    Holds input.backspace unread line.dropLast := by
  unfold Input.backspace
  split
  · next edited =>
      have nonempty : line ≠ [] := fun empty => edited (holds.edited_iff.mpr empty)
      rw [← List.dropLast_append_getLast nonempty] at holds
      exact holds.back.2
  · next same =>
      obtain rfl := holds.edited_iff.mp (not_not.mp same)
      exact holds

/-- The kill character removes the line: no newline stands in it. -/
theorem killLoop (fuel : Nat) (holds : Holds input unread line) (enough : line.length ≤ fuel)
    (noNewline : newline ∉ line) : Holds (input.killLoop fuel) unread [] := by
  induction fuel generalizing input line with
  | zero =>
      obtain rfl := List.eq_nil_of_length_eq_zero (Nat.le_zero.mp enough)
      exact holds
  | succ fuel ih =>
      unfold Input.killLoop
      by_cases empty : line = []
      · subst empty
        rw [if_neg (fun edited => edited.1 (holds.edited_iff.mpr rfl))]
        exact holds
      · have edited : input.e ≠ input.w := fun same => empty (holds.edited_iff.mp same)
        have length : line.dropLast.length = line.length - 1 := List.length_dropLast
        have positive := List.length_pos_of_ne_nil empty
        rw [← List.dropLast_append_getLast empty] at holds
        obtain ⟨here, rest⟩ := holds.back
        have other : line.getLast empty ≠ newline := by
          intro isNewline
          exact noNewline (isNewline ▸ List.getLast_mem empty)
        rw [if_pos ⟨edited, by rw [here]; exact other⟩]
        apply ih rest
        · omega
        · intro member
          exact noNewline (List.mem_of_mem_dropLast member)

theorem kill (holds : Holds input unread line) (noNewline : newline ∉ line) :
    Holds input.kill unread [] := by
  apply holds.killLoop
  · rw [holds.editing.distance input_buf_lt]
  · exact noNewline

/-- A character goes into the buffer, and the line is committed where the stream
says so. -/
theorem insert {stream : Stream} (holds : Holds input stream.unread stream.line)
    (bounded : stream.consumed ≤ stream.committed.length) (c : Byte) :
    Holds (input.insert c) (stream.insert c).unread (stream.insert c).line := by
  have length := holds.ring.distance input_buf_lt
  rw [List.length_append] at length
  unfold Input.insert Stream.insert Stream.pending
  rw [length]
  split
  · next room =>
      simp only
      generalize (if c = carriageReturn then newline else c) = c
      have ring := holds.ring.push input_buf_dvd (by simpa using room.2) c
      have isFull := ring.full_iff input_buf_lt
      simp only [List.length_append, List.length_singleton] at isFull
      simp only [isFull]
      split
      · have unread : (stream.committed ++ (stream.line ++ [c])).drop stream.consumed =
            stream.unread ++ stream.line ++ [c] := by
          rw [List.drop_append_of_le_length bounded, List.append_assoc]
          rfl
        constructor
        · simpa only [Stream.unread, unread, List.append_nil] using ring
        · simpa only [Stream.unread, unread] using ring.last_eq
      · constructor
        · simpa only [Stream.unread, List.append_assoc] using ring
        · exact holds.committed
  · exact holds

theorem char {stream : Stream} (holds : Holds input stream.unread stream.line)
    (bounded : stream.consumed ≤ stream.committed.length) (noNewline : newline ∉ stream.line)
    (c : Byte) : Holds (input.char c) (stream.char c).unread (stream.char c).line := by
  unfold Input.char Stream.char
  split
  · exact holds
  · split
    · exact holds.kill noNewline
    · split
      · exact holds.backspace
      · exact holds.insert bounded c

end Holds

/-! ## The stream -/

/-- The line that is edited has no newline, and only what is committed was
consumed. -/
structure Stream.Sound (stream : Stream) : Prop where
  bounded : stream.consumed ≤ stream.committed.length
  noNewline : newline ∉ stream.line

theorem Stream.Sound.char {stream : Stream} (sound : stream.Sound) (c : Byte) :
    (stream.char c).Sound := by
  obtain ⟨bounded, noNewline⟩ := sound
  unfold Stream.char
  split
  · exact ⟨bounded, noNewline⟩
  · split
    · exact ⟨bounded, List.not_mem_nil⟩
    · split
      · exact ⟨bounded, fun member => noNewline (List.mem_of_mem_dropLast member)⟩
      · unfold Stream.insert
        split
        · simp only
          generalize (if c = carriageReturn then newline else c) = c
          split
          · refine ⟨bounded.trans ?_, List.not_mem_nil⟩
            rw [List.length_append]
            exact Nat.le_add_right _ _
          · next isOpen =>
              refine ⟨bounded, ?_⟩
              intro member
              rcases List.mem_append.mp member with old | new
              · exact noNewline old
              · exact isOpen (Or.inl (List.mem_singleton.mp new).symm)
        · exact ⟨bounded, noNewline⟩

/-- Editing never takes back what is committed. -/
theorem Stream.char_committed (stream : Stream) (c : Byte) :
    stream.committed <+: (stream.char c).committed ∧
      (stream.char c).consumed = stream.consumed := by
  unfold Stream.char
  split
  · exact ⟨List.prefix_rfl, rfl⟩
  · split
    · exact ⟨List.prefix_rfl, rfl⟩
    · split
      · exact ⟨List.prefix_rfl, rfl⟩
      · unfold Stream.insert
        split
        · simp only
          generalize (if c = carriageReturn then newline else c) = c
          by_cases commits : c = newline ∨ c = C 'D' ∨ stream.pending + 1 = INPUT_BUF
          · rw [if_pos commits]
            exact ⟨List.prefix_append _ _, rfl⟩
          · rw [if_neg commits]
            exact ⟨List.prefix_rfl, rfl⟩
        · exact ⟨List.prefix_rfl, rfl⟩

theorem holds_foldl (chars : List Byte) {input : Input} {stream : Stream}
    (holds : Holds input stream.unread stream.line) (sound : stream.Sound) :
    Holds (chars.foldl Input.char input) (chars.foldl Stream.char stream).unread
        (chars.foldl Stream.char stream).line ∧
      (chars.foldl Stream.char stream).Sound ∧
      stream.committed <+: (chars.foldl Stream.char stream).committed ∧
      (chars.foldl Stream.char stream).consumed = stream.consumed := by
  induction chars generalizing input stream with
  | nil => exact ⟨holds, sound, List.prefix_rfl, rfl⟩
  | cons c rest ih =>
      obtain ⟨later, sound', grown, same⟩ :=
        ih (holds.char sound.bounded sound.noNewline c) (sound.char c)
      obtain ⟨grows, consumed⟩ := stream.char_committed c
      exact ⟨later, sound', grows.trans grown, same.trans consumed⟩

/-! ## A section of a reader -/

/-- The loop of `consoleread` uses up a first part of the characters to be read,
delivers it without ctrl-D, and consumes a ctrl-D only when nothing was delivered
before. -/
theorem readLoop_spec (target n : Nat) {input : Input} {dst unread line : List Byte}
    (holds : Holds input unread line) (counts : dst.length + n = target) {after : Input}
    {left : Nat} {bytes : List Byte} {ending : ReadEnd}
    (ends : readLoop target n input dst = (after, left, bytes, ending)) :
    ∃ used rest, unread = used ++ rest ∧ Holds after rest line ∧
      bytes = dst ++ used.filter (· ≠ C 'D') ∧ bytes.length + left = target ∧
      used.count (C 'D') = (if ending = .eof then 1 else 0) ∧
      (ending = .eof → bytes = []) := by
  induction n generalizing input dst unread with
  | zero =>
      cases ends
      exact ⟨[], unread, rfl, holds, by simp, counts, rfl, by simp⟩
  | succ n ih =>
      unfold readLoop at ends
      split at ends
      · cases ends
        exact ⟨[], unread, rfl, holds, by simp, counts, rfl, by simp⟩
      · next nonempty =>
          cases unread with
          | nil => exact (nonempty (holds.read_iff.mpr rfl)).elim
          | cons c unread =>
              have popped := holds.ring.pop input_buf_dvd
              have here : input.buf (input.r % INPUT_BUF) = c := popped.1
              have rest : Holds { input with r := (input.r + 1) % UINT } unread line := by
                refine ⟨popped.2, ?_⟩
                rw [holds.committed, Nat.mod_add_mod, List.length_cons]
                congr 1
                omega
              simp only [here] at ends
              split at ends
              · next isEof =>
                  split at ends
                  · cases ends
                    refine ⟨[], c :: unread, rfl, ?_, by simp, counts, rfl, by simp⟩
                    have restored : ((input.r + 1) % UINT + UINT - 1) % UINT = input.r := by
                      have := holds.ring.first_lt
                      simp only [UINT] at this ⊢
                      omega
                    rw [restored]
                    exact holds
                  · next isFirst =>
                      cases ends
                      have empty : bytes = [] := List.eq_nil_of_length_eq_zero (by omega)
                      refine ⟨[c], unread, rfl, rest, ?_, counts, ?_, fun _ => empty⟩
                      · simp [isEof]
                      · simp [isEof]
              · next isByte =>
                  split at ends
                  · cases ends
                    refine ⟨[c], unread, rfl, rest, ?_, ?_, ?_, by simp⟩
                    · simp [isByte]
                    · rw [List.length_append, List.length_singleton]
                      omega
                    · simp [isByte]
                  · have counts' : (dst ++ [c]).length + n = target := by
                      rw [List.length_append, List.length_singleton]
                      omega
                    obtain ⟨used, left', split, holds', delivered, counted, eofs, empty⟩ :=
                      ih rest counts' ends
                    refine ⟨c :: used, left', by rw [split]; rfl, holds', ?_, counted, ?_, empty⟩
                    · rw [delivered]
                      simp [isByte]
                    · rw [← eofs]
                      simp [isByte]

/-! ## Runs -/

def Call.dst : Call → List Byte
  | .idle => []
  | .consoleread _ _ dst => dst

structure Inv (state : State Pid) : Prop where
  holds : Holds state.input state.history.stream.unread state.history.stream.line
  sound : state.history.stream.Sound
  taken : state.history.taken.map Prod.snd =
    (state.history.stream.committed.take state.history.stream.consumed).filter (· ≠ C 'D')
  eofs : (state.history.stream.committed.take state.history.stream.consumed).count (C 'D') =
    state.history.finished.countP (·.2.eof)
  readers : ∀ pid, Ring.itemsOf pid state.history.taken =
    (Ring.itemsOf pid state.history.finished).flatMap Finished.dst ++ (state.proc pid).call.dst
  results : ∀ entry ∈ state.history.finished,
    (entry.2.result = -1 ∨ entry.2.result = entry.2.dst.length) ∧
      (entry.2.eof = true → entry.2.dst = [] ∧ entry.2.result = 0)
  calls : ∀ pid target n dst, (state.proc pid).call = .consoleread target n dst →
    dst.length + n = target

namespace Inv

variable {state after : State Pid}

theorem of_fresh (fresh : IsFresh state) : Inv state := by
  refine ⟨?_, ?_, ?_, ?_, ?_, ?_, ?_⟩
  · rw [fresh.input, fresh.stream]
    exact ⟨Ring.holds_nil (by decide), rfl⟩
  · rw [fresh.stream]
    exact ⟨le_rfl, List.not_mem_nil⟩
  · rw [fresh.stream, fresh.taken]
    rfl
  · rw [fresh.stream, fresh.finished]
    rfl
  · intro pid
    rw [fresh.taken, fresh.finished, fresh.idle]
    rfl
  · simp [fresh.finished]
  · intro pid target n dst
    simp [fresh.idle]

/-- A step that only changes a process between its sections. -/
theorem setProc (inv : Inv state) {pid : Pid} {proc : Proc}
    (dst : proc.call.dst = (state.proc pid).call.dst)
    (calls : ∀ target n dst, proc.call = .consoleread target n dst → dst.length + n = target) :
    Inv { state with proc := Function.update state.proc pid proc } := by
  refine { inv with readers := ?_, calls := ?_ }
  · intro other
    rw [inv.readers other]
    by_cases here : other = pid
    · subst here
      simp [dst]
    · simp [here]
  · intro other
    by_cases here : other = pid
    · subst here
      simpa using calls
    · simpa [here] using inv.calls other

theorem consoleintr (inv : Inv state) (chars : List Byte) : Inv (state.consoleintr chars) := by
  obtain ⟨holds, sound, ⟨more, grown⟩, same⟩ := holds_foldl chars inv.holds inv.sound
  have part : (chars.foldl Stream.char state.history.stream).committed.take
      (chars.foldl Stream.char state.history.stream).consumed =
        state.history.stream.committed.take state.history.stream.consumed := by
    rw [← grown, same, List.take_append_of_le_length inv.sound.bounded]
  refine { inv with holds := holds, sound := sound, taken := ?_, eofs := ?_ }
  · simp only [State.consoleintr, part]
    exact inv.taken
  · simp only [State.consoleintr, part]
    exact inv.eofs

/-- A section in which a process uses up characters. -/
theorem consume (inv : Inv state) {pid : Pid} {used rest : List Byte}
    (unread : state.history.stream.unread = used ++ rest)
    (holds : Holds after.input rest state.history.stream.line)
    (stream : after.history.stream = { state.history.stream with
      consumed := state.history.stream.consumed + used.length })
    (taken : after.history.taken = state.history.taken ++
      (used.filter (· ≠ C 'D')).map fun byte => (pid, byte))
    (eofs : after.history.finished.countP (·.2.eof) =
      state.history.finished.countP (·.2.eof) + used.count (C 'D'))
    (mine : (Ring.itemsOf pid after.history.finished).flatMap Finished.dst ++
        (after.proc pid).call.dst =
      (Ring.itemsOf pid state.history.finished).flatMap Finished.dst ++
        (state.proc pid).call.dst ++ used.filter (· ≠ C 'D'))
    (others : ∀ other, other ≠ pid →
      Ring.itemsOf other after.history.finished = Ring.itemsOf other state.history.finished ∧
        after.proc other = state.proc other)
    (results : ∀ entry ∈ after.history.finished,
      (entry.2.result = -1 ∨ entry.2.result = entry.2.dst.length) ∧
        (entry.2.eof = true → entry.2.dst = [] ∧ entry.2.result = 0))
    (calls : ∀ target n dst, (after.proc pid).call = .consoleread target n dst →
      dst.length + n = target) : Inv after := by
  have isUnread : state.history.stream.committed.drop state.history.stream.consumed =
      used ++ rest := unread
  have part : state.history.stream.committed.take
      (state.history.stream.consumed + used.length) =
        state.history.stream.committed.take state.history.stream.consumed ++ used := by
    rw [List.take_add, isUnread, List.take_left]
  refine ⟨?_, ?_, ?_, ?_, ?_, results, ?_⟩
  · have later : after.history.stream.unread = rest := by
      rw [stream]
      simp only [Stream.unread]
      rw [← List.drop_drop, isUnread, List.drop_left]
    rw [later, stream]
    exact holds
  · rw [stream]
    refine ⟨?_, inv.sound.noNewline⟩
    have length := congrArg List.length isUnread
    have bounded := inv.sound.bounded
    rw [List.length_drop, List.length_append] at length
    simp only
    omega
  · rw [stream, taken]
    simp only [part]
    rw [List.map_append, inv.taken, List.filter_append]
    simp
  · rw [stream, eofs]
    simp only [part]
    rw [List.count_append, inv.eofs]
  · intro other
    rw [taken, Ring.itemsOf_append, inv.readers other]
    by_cases same : pid = other
    · subst same
      rw [if_pos rfl, mine]
    · obtain ⟨sameFinished, sameProc⟩ := others other (Ne.symm same)
      rw [if_neg same, sameFinished, sameProc, List.append_nil]
  · intro other
    by_cases same : other = pid
    · subst same
      exact calls
    · rw [(others other same).2]
      exact inv.calls other

theorem length_filter_add_count (used : List Byte) :
    (used.filter (· ≠ C 'D')).length + used.count (C 'D') = used.length := by
  induction used with
  | nil => rfl
  | cons c used ih =>
      by_cases isEof : c = C 'D'
      · subst isEof
        rw [List.filter_cons_of_neg (by simp), List.count_cons_self, List.length_cons]
        omega
      · rw [List.filter_cons_of_pos (by simpa using isEof), List.count_cons_of_ne isEof,
          List.length_cons, List.length_cons]
        omega

/-- A section at whose end the call returns. -/
theorem ret (inv : Inv state) {pid : Pid} {used rest dst : List Byte} {value : Int}
    {ending : ReadEnd} (before : (state.proc pid).call.dst = dst)
    (unread : state.history.stream.unread = used ++ rest)
    (holds : Holds after.input rest state.history.stream.line)
    (eofs : used.count (C 'D') = if ending = .eof then 1 else 0)
    (isResult : value = -1 ∨ value = (dst ++ used.filter (· ≠ C 'D')).length)
    (isEnd : ending = .eof → dst ++ used.filter (· ≠ C 'D') = [] ∧ value = 0)
    (isProc : after.proc = Function.update state.proc pid
      { state.proc pid with call := .idle, eax := value })
    (isStream : after.history.stream = { state.history.stream with
      consumed := state.history.stream.consumed + used.length })
    (isTaken : after.history.taken = state.history.taken ++
      (used.filter (· ≠ C 'D')).map fun byte => (pid, byte))
    (isFinished : after.history.finished = state.history.finished ++
      [(pid, Finished.mk (dst ++ used.filter (· ≠ C 'D')) (ending = .eof) value)]) :
    Inv after := by
  apply inv.consume unread holds isStream isTaken
  · rw [isFinished, List.countP_append, eofs, List.countP_singleton]
    simp
  · rw [isFinished, isProc, before]
    simp [Ring.itemsOf, Call.dst]
  · intro other distinct
    rw [isFinished, isProc]
    simp [Ring.itemsOf, distinct, Ne.symm distinct]
  · intro entry member
    rw [isFinished] at member
    rcases List.mem_append.mp member with old | new
    · exact inv.results entry old
    · rw [List.mem_singleton.mp new]
      exact ⟨isResult, fun isEof => isEnd (by simpa using isEof)⟩
  · rw [isProc]
    simp

theorem consoleread (inv : Inv state) {pid : Pid} {target n : Nat} {dst : List Byte}
    (here : (state.proc pid).call = .consoleread target n dst) :
    Inv (state.consoleread pid target n dst) := by
  cases loop : readLoop target n state.input dst with
  | mk input result =>
      obtain ⟨left, bytes, ending⟩ := result
      obtain ⟨used, rest, unread, holds, rfl, counted, eofs, empty⟩ :=
        readLoop_spec target n inv.holds (inv.calls pid target n dst here) loop
      have length : (used.filter (· ≠ C 'D')).length + (if ending = .eof then 1 else 0) =
          used.length := by
        rw [← eofs]
        exact length_filter_add_count used
      have before : (state.proc pid).call.dst = dst := by
        rw [here]
        rfl
      unfold State.consoleread
      simp only [loop]
      rw [Nat.add_assoc, List.drop_left, length]
      split
      · next isWaiting =>
          split
          · refine inv.ret before unread holds eofs (Or.inl rfl) ?_ (by rfl) (by rfl) (by rfl)
              (by rfl)
            simp [isWaiting]
          · apply inv.consume unread holds (by rfl) (by rfl)
            · simp [eofs, isWaiting]
            · rw [before]
              simp [Call.dst]
            · intro other distinct
              simp [distinct]
            · exact inv.results
            · intro target' n' dst' isCall
              simp only [Function.update_self, Call.consoleread.injEq] at isCall
              obtain ⟨rfl, rfl, rfl⟩ := isCall
              exact counted
      · have value : (target : Int) - left = (dst ++ used.filter (· ≠ C 'D')).length := by omega
        refine inv.ret before unread holds eofs (Or.inr value) ?_ (by rfl) (by rfl) (by rfl)
          (by rfl)
        intro isEof
        refine ⟨empty isEof, ?_⟩
        rw [value, empty isEof]
        rfl

theorem step {action : Action Pid} (inv : Inv state)
    (taken : state.step action = some after) : Inv after := by
  cases action with
  | intr chars =>
      cases taken
      exact inv.consoleintr chars
  | read pid n =>
      simp only [State.step, Option.ite_none_right_eq_some, Option.some.injEq] at taken
      obtain ⟨idle, rfl⟩ := taken
      apply inv.setProc
      · rw [idle]
        rfl
      · intro target n' dst isCall
        cases isCall
        simp
  | run pid =>
      simp only [State.step] at taken
      split at taken
      · cases taken
      · next target n dst here =>
          cases taken
          exact inv.consoleread here
  | kill pid =>
      cases taken
      exact inv.setProc rfl (inv.calls pid)

end Inv

/-! ## Editing -/

theorem back_fixed (input : Input) : input.back.buf = input.buf ∧ input.back.r = input.r ∧
    input.back.w = input.w := by
  rw [Input.back]
  exact ⟨rfl, rfl, rfl⟩

theorem killLoop_fixed (fuel : Nat) (input : Input) :
    (input.killLoop fuel).buf = input.buf ∧ (input.killLoop fuel).r = input.r ∧
      (input.killLoop fuel).w = input.w := by
  induction fuel generalizing input with
  | zero => exact ⟨rfl, rfl, rfl⟩
  | succ fuel ih =>
      unfold Input.killLoop
      split
      · obtain ⟨buf, r, w⟩ := back_fixed input
        rw [← buf, ← r, ← w]
        exact ih input.back
      · exact ⟨rfl, rfl, rfl⟩

/-- Backspace and the kill character leave the buffer and what is committed. -/
theorem char_edits {c : Byte} (edits : c = C 'U' ∨ c = C 'H' ∨ c = delete) (input : Input) :
    (input.char c).buf = input.buf ∧ (input.char c).r = input.r ∧
      (input.char c).w = input.w := by
  unfold Input.char
  split
  · exact ⟨rfl, rfl, rfl⟩
  · split
    · exact killLoop_fixed _ input
    · next notKill =>
        rw [if_pos (edits.resolve_left notKill)]
        unfold Input.backspace
        split
        · exact back_fixed input
        · exact ⟨rfl, rfl, rfl⟩

/-- In every run: the counters stay in order and within the buffer; backspace and
the kill character change neither the buffer nor what is committed; the bytes that
readers took are, in order and once each, the characters consumed from the
committed stream without ctrl-D, and each reader's are the ones that its calls
delivered; a call that was not killed returns the number of bytes it delivered;
and the ctrl-D characters consumed are as many as the reads that ended with one,
each of which delivered no bytes and returned 0. -/
theorem line_discipline {state : State Pid} (run : Run State.step anyStep IsFresh state) :
    ((state.input.w + UINT - state.input.r) % UINT ≤
        (state.input.e + UINT - state.input.r) % UINT ∧
      (state.input.e + UINT - state.input.r) % UINT ≤ INPUT_BUF) ∧
    (∀ c, c = C 'U' ∨ c = C 'H' ∨ c = delete →
      ((state.input.char c).buf = state.input.buf ∧
        (state.input.char c).r = state.input.r ∧ (state.input.char c).w = state.input.w) ∧
      (state.history.stream.char c).committed = state.history.stream.committed) ∧
    state.history.taken.map Prod.snd =
      (state.history.stream.committed.take state.history.stream.consumed).filter (· ≠ C 'D') ∧
    (∀ reader, Ring.itemsOf reader state.history.taken =
      (Ring.itemsOf reader state.history.finished).flatMap Finished.dst ++
        (state.proc reader).call.dst) ∧
    (∀ entry ∈ state.history.finished,
      entry.2.result = -1 ∨ entry.2.result = entry.2.dst.length) ∧
    ((state.history.stream.committed.take state.history.stream.consumed).count (C 'D') =
        state.history.finished.countP (·.2.eof) ∧
      ∀ entry ∈ state.history.finished, entry.2.eof = true →
        entry.2.dst = [] ∧ entry.2.result = 0) := by
  have inv : Inv state :=
    run.invariant (fun _ => Inv.of_fresh) fun _ _ _ inv _ taken => inv.step taken
  refine ⟨?_, ?_, inv.taken, inv.readers, ?_, inv.eofs, ?_⟩
  · have fits := inv.holds.ring.fits
    rw [inv.holds.reading.distance input_buf_lt, inv.holds.ring.distance input_buf_lt,
      List.length_append]
    rw [List.length_append] at fits
    exact ⟨Nat.le_add_right _ _, fits⟩
  · intro c edits
    refine ⟨char_edits edits state.input, ?_⟩
    unfold Stream.char
    split
    · rfl
    · split
      · rfl
      · next notKill =>
          rw [if_pos (edits.resolve_left notKill)]
  · intro entry member
    exact (inv.results entry member).1
  · intro entry member
    exact (inv.results entry member).2

/-- A console that two processes read. -/
def newConsole : State Bool where
  input := ⟨fun _ => 0, 0, 0, 0⟩
  proc := fun _ => { call := .idle, killed := false, eax := 0 }
  history := { stream := ⟨[], [], 0⟩, taken := [], finished := [] }

theorem newConsole_fresh : IsFresh newConsole := ⟨rfl, rfl, fun _ => rfl, rfl, rfl⟩

/-- A line with a backspace and a ctrl-D in it, read by two reads. -/
def savedEof : List (Action Bool) :=
  [.intr [97, 98, 8, 99, 4], .read true 5, .run true, .read true 5, .run true]

theorem savedEof_enabled :
    (execute State.step (fun _ _ => true) newConsole savedEof).isSome = true := by
  decide +kernel

theorem line_discipline_savedEof :
    ∃ state : State Bool, state.history.stream.committed = [97, 99, 4] ∧
      state.history.stream.consumed = 3 ∧ state.history.taken.map Prod.snd = [97, 99] ∧
      state.history.finished.countP (·.2.eof) = 1 := by
  have run := run_lastState newConsole_fresh savedEof savedEof_enabled
  obtain ⟨-, -, taken, -, -, eofs, -⟩ := line_discipline (run.mono fun _ _ _ => trivial)
  have committed : (lastState State.step _ newConsole _ savedEof_enabled).history.stream.committed =
      [97, 99, 4] := by decide +kernel
  have consumed : (lastState State.step _ newConsole _ savedEof_enabled).history.stream.consumed =
      3 := by decide +kernel
  rw [committed, consumed] at taken eofs
  exact ⟨_, committed, consumed, taken, eofs.symm⟩

end Coursework.Console
