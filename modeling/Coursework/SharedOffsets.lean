import Coursework.ConsecutivePieces
import Coursework.FileWrites

/-!
# Processes that share an open file

Processes that share a `struct file` read and write at its offset, which moves on with each
piece.  An iteration of the loop of `filewrite`, and the whole of `fileread`, happen under
the lock of the inode and are one step here; a panic has no next state.  So the pieces that
were read and written, in the order of the lock, follow each other without gaps or overlaps,
and nothing that was written is overwritten.
-/

namespace Coursework.SharedOffsets

open FileSystem

variable {sb : Superblock} {Pid : Type}

/-- The fields of a `struct file` of type `FD_INODE`. -/
structure File (sb : Superblock) extends OpenFile sb where
  readable : Bool

/-- What a process does with the file: nothing, or the rest of a call.  In `filewrite` it has
written `i` of `n` bytes. -/
inductive Place
  | away
  | reading (n : UInt32)
  | writing (i n : Nat) (addr : Nat → UInt8)

/-- A piece that was read or written: by which process, in which of its calls, and at which
place of its buffer. -/
structure Chunk (Pid : Type) extends Piece UInt8 where
  pid : Pid
  call : Nat
  index : Nat

/-- The open file with the processes that share it, the pieces that were read and written,
and the number of calls of each process. -/
structure State (sb : Superblock) (Pid : Type) where
  volume : Volume sb
  file : File sb
  place : Pid → Place
  chunks : List (Chunk Pid)
  calls : Pid → Nat

inductive Action (Pid : Type)
  | fileread (pid : Pid) (n : UInt32)
  | filewrite (pid : Pid) (addr : Nat → UInt8) (n : Nat)
  | advance (pid : Pid)

/-- The length of the next piece of a write. -/
def pieceLength (i n : Nat) : Nat := if n - i > maxWrite then maxWrite else n - i

/-- The iteration of the loop of `filewrite` between `ilock` and `iunlock`. -/
def writeChunk (volume : Volume sb) (f : OpenFile sb) (i n : Nat) (addr : Nat → UInt8) :
    Except Panic (Int × OpenFile sb × Volume sb) := do
  let (r, volume) ← volume.writei f.ip f.off (UInt32.ofNat (pieceLength i n)) fun j => addr (i + j)
  return (r, if 0 < r then { f with off := f.off + UInt32.ofNat r.toNat } else f, volume)

/-- The part of `fileread` between `ilock` and `iunlock`. -/
def readChunk (volume : Volume sb) (f : OpenFile sb) (n : UInt32) :
    Except Panic (Option (List UInt8) × OpenFile sb × Volume sb) := do
  let (bytes, volume) ← volume.readi f.ip f.off n
  let r := (bytes.map List.length).getD 0
  return (bytes, if 0 < r then { f with off := f.off + UInt32.ofNat r } else f, volume)

variable [DecidableEq Pid]

namespace State

/-- A process starts a call that the file allows; another one returns -1 at once. -/
def call (state : State sb Pid) (pid : Pid) (allowed : Bool) (place : Place) : State sb Pid :=
  { state with
    place := Function.update state.place pid (if allowed then place else .away)
    calls := Function.update state.calls pid (state.calls pid + 1) }

/-- A piece was read or written, or refused, and the process goes on at a place. -/
def move (state : State sb Pid) (pid : Pid) (index : Nat) (bytes : Option (List UInt8))
    (f : OpenFile sb) (volume : Volume sb) (place : Place) : State sb Pid :=
  { state with
    volume := volume
    file := { state.file with toOpenFile := f }
    place := Function.update state.place pid place
    chunks := state.chunks ++ bytes.toList.map fun bytes =>
      { start := state.file.off.toNat, elements := bytes, pid := pid, call := state.calls pid,
        index := index } }

def advance (state : State sb Pid) (pid : Pid) : Option (State sb Pid) :=
  match state.place pid with
  | .away => none
  | .reading n =>
      match readChunk state.volume state.file.toOpenFile n with
      | .error _ => none
      | .ok (bytes, f, volume) => some (state.move pid 0 bytes f volume .away)
  | .writing i n addr =>
      if i < n then
        match writeChunk state.volume state.file.toOpenFile i n addr with
        | .error _ => none
        | .ok (r, f, volume) =>
            if r < 0 then some (state.move pid i none f volume .away)
            -- "short filewrite"
            else if r ≠ pieceLength i n then none
            else some (state.move pid i (some (bytesFrom addr i (pieceLength i n))) f volume
              (.writing (i + pieceLength i n) n addr))
      else some { state with place := Function.update state.place pid .away }

def step (state : State sb Pid) : Action Pid → Option (State sb Pid)
  | .fileread pid n =>
      match state.place pid with
      | .away => some (state.call pid state.file.readable (.reading n))
      | _ => none
  | .filewrite pid addr n =>
      match state.place pid with
      | .away => some (state.call pid state.file.writable (.writing 0 n addr))
      | _ => none
  | .advance pid => state.advance pid

end State

/-- The file is a regular file on a sound volume, and no process has used it yet. -/
structure IsInitial (offset : Nat) (state : State sb Pid) : Prop where
  sound : state.volume.Sound
  isFile : state.volume.IsFile state.file.ip
  offset : state.file.off.toNat = offset
  place : ∀ pid, state.place pid = .away
  chunks : state.chunks = []

/-! ## One piece -/

variable {volume : Volume sb} {f : OpenFile sb}

/-- What reading or writing a piece leaves: the piece is found at the offset, which moves
behind it, and pieces before it are still found. -/
structure Moved (volume : Volume sb) (f : OpenFile sb) (bytes : List UInt8) (f' : OpenFile sb)
    (after : Volume sb) : Prop where
  sound : after.Sound
  isFile : after.IsFile f'.ip
  ip : f'.ip = f.ip
  off : f'.off.toNat = f.off.toNat + bytes.length
  found : Piece.FoundIn ⟨f.off.toNat, bytes⟩ (after.contents f'.ip)
  kept : ∀ piece : Piece UInt8, piece.stop ≤ f.off.toNat →
    piece.FoundIn (volume.contents f.ip) → piece.FoundIn (after.contents f'.ip)

theorem bytesFrom_length (addr : Nat → UInt8) (i count : Nat) :
    (bytesFrom addr i count).length = count := by
  simp [bytesFrom]

theorem pieceLength_bounds {i n : Nat} (more : i < n) :
    0 < pieceLength i n ∧ pieceLength i n ≤ 1536 ∧ i + pieceLength i n ≤ n := by
  simp only [pieceLength, maxWrite_eq]
  split <;> omega

theorem toNat_add_ofNat {off : UInt32} {count : Nat} (fits : off.toNat + count < 2 ^ 32) :
    (off + UInt32.ofNat count).toNat = off.toNat + count := by
  have small : (UInt32.ofNat count).toNat = count := by
    rw [UInt32.toNat_ofNat']
    exact Nat.mod_eq_of_lt (by omega)
  rw [toNat_add_of_lt (by omega), small]

theorem readChunk_moved {n : UInt32} {bytes : Option (List UInt8)} {f' : OpenFile sb}
    {after : Volume sb} (sound : volume.Sound) (isFile : volume.IsFile f.ip)
    (reads : readChunk volume f n = .ok (bytes, f', after)) :
    (bytes = none ∧ f' = f ∧ after = volume) ∨
      ∃ read, bytes = some read ∧ Moved volume f read f' after := by
  have size := Volume.length_contents volume f.ip
  have largest := sound.size_le isFile
  rw [largest_eq] at largest
  unfold readChunk at reads
  rw [Volume.readi_spec sound isFile, ok_bind] at reads
  unfold ByteFile.read at reads
  by_cases accepted : f.off.toNat ≤ (volume.contents f.ip).length ∧
      f.off.toNat + n.toNat < 2 ^ 32
  · rw [if_pos accepted] at reads
    cases reads
    refine Or.inr ⟨_, rfl, ?_⟩
    simp only [Option.map_some, Option.getD_some]
    have found := Piece.FoundIn.cut (volume.contents f.ip) f.off.toNat n.toNat
    have fits : (((volume.contents f.ip).drop f.off.toNat).take n.toNat).length ≤
        (volume.inode f.ip).size - f.off.toNat := by
      simp only [List.length_take, List.length_drop]
      omega
    split
    · next positive =>
        exact ⟨sound, isFile, rfl, toNat_add_ofNat (by omega), found, fun _ _ => id⟩
    · next nothing => exact ⟨sound, isFile, rfl, by omega, found, fun _ _ => id⟩
  · rw [if_neg accepted] at reads
    cases reads
    exact Or.inl ⟨rfl, rfl, rfl⟩

theorem writeChunk_moved {i n : Nat} {addr : Nat → UInt8} {r : Int} {f' : OpenFile sb}
    {after : Volume sb} (sound : volume.Sound) (isFile : volume.IsFile f.ip) (more : i < n)
    (writes : writeChunk volume f i n addr = .ok (r, f', after)) :
    (r < 0 ∧ f' = f ∧ after = volume) ∨
      r = pieceLength i n ∧ Moved volume f (bytesFrom addr i (pieceLength i n)) f' after := by
  have bounds := pieceLength_bounds more
  have toNat : (UInt32.ofNat (pieceLength i n)).toNat = pieceLength i n := by
    rw [UInt32.toNat_ofNat']
    exact Nat.mod_eq_of_lt (by omega)
  have spec := Volume.writei_spec sound isFile f.off (UInt32.ofNat (pieceLength i n))
    fun j => addr (i + j)
  unfold writeChunk at writes
  cases result : volume.writei f.ip f.off (UInt32.ofNat (pieceLength i n)) fun j => addr (i + j) with
  | error panic =>
      rw [result] at writes
      cases writes
  | ok written =>
      obtain ⟨r', middle⟩ := written
      rw [result] at spec writes
      obtain ⟨isWrite, middleSound, others, refused⟩ := spec
      simp only at isWrite middleSound others refused
      rw [ok_bind] at writes
      cases writes
      unfold ByteFile.write at isWrite
      rw [toNat] at isWrite
      split at isWrite
      · next accepted =>
          obtain ⟨rfl, contents⟩ := Prod.ext_iff.mp isWrite
          right
          have positive : (0 : Int) < (pieceLength i n : Int) := by omega
          simp only at contents
          refine ⟨rfl, ?_⟩
          rw [if_pos positive, Int.toNat_natCast]
          refine ⟨middleSound, (others.isFile f.ip).mpr isFile, rfl, ?_, ?_, ?_⟩
          · rw [bytesFrom_length]
            exact toNat_add_ofNat accepted.2.1
          · rw [contents]
            exact .spliced accepted.1
          · intro piece before found
            rw [contents]
            exact found.splice accepted.1 before
      · obtain ⟨rfl, -⟩ := Prod.ext_iff.mp isWrite
        exact Or.inl ⟨show (-1 : Int) < 0 by decide, by simp, refused rfl⟩

/-! ## Runs -/

/-- A piece of a call comes before what its process does at a place. -/
def Place.After : Place → Nat → Prop
  | .away, _ => True
  | .reading _, _ => False
  | .writing i _ _, index => index < i

/-- The order of the pieces of one process: by call, and by place of the buffer. -/
def Chunk.Before (first second : Chunk Pid) : Prop :=
  first.call < second.call ∨ first.call = second.call ∧ first.index < second.index

/-- The bytes of the present or last call of a process. -/
def State.callBytes (state : State sb Pid) (pid : Pid) : List UInt8 :=
  (state.chunks.filter fun chunk => chunk.pid = pid ∧ chunk.call = state.calls pid).flatMap
    fun chunk => chunk.elements

/-- The pieces lie between the first offset and the present one, each process has its own
pieces in order, and all of them are found in the file.  A process has written the bytes of
its buffer up to its place. -/
structure Inv (offset : Nat) (state : State sb Pid) : Prop where
  sound : state.volume.Sound
  isFile : state.volume.IsFile state.file.ip
  consecutive : Consecutive offset (state.chunks.map Chunk.toPiece) state.file.off.toNat
  found : ∀ chunk ∈ state.chunks,
    chunk.toPiece.FoundIn (state.volume.contents state.file.ip)
  past : ∀ chunk ∈ state.chunks, chunk.call ≤ state.calls chunk.pid ∧
    (chunk.call = state.calls chunk.pid → (state.place chunk.pid).After chunk.index)
  inOrder : ∀ pid, (state.chunks.filter fun chunk => chunk.pid = pid).Pairwise Chunk.Before
  written : ∀ pid i n addr, state.place pid = .writing i n addr →
    state.callBytes pid = bytesFrom addr 0 i

variable {offset : Nat} {state after : State sb Pid} {pid : Pid}

theorem Inv.call (inv : Inv offset state) (pid : Pid) (allowed : Bool) {place : Place}
    (starts : ∀ i n addr, place = .writing i n addr → i = 0) :
    Inv offset (state.call pid allowed place) := by
  refine ⟨inv.sound, inv.isFile, inv.consecutive, inv.found, ?_, inv.inOrder, ?_⟩
  · intro chunk member
    obtain ⟨earlier, sameCall⟩ := inv.past chunk member
    by_cases isPid : chunk.pid = pid
    · simp only [State.call, isPid, Function.update_self]
      rw [isPid] at earlier
      exact ⟨by omega, fun same => by omega⟩
    · simp only [State.call, Function.update_of_ne isPid]
      exact ⟨earlier, sameCall⟩
  · intro other i n addr isPlace
    by_cases isPid : other = pid
    · subst isPid
      have nothing : (state.call other allowed place).callBytes other = [] := by
        simp only [State.callBytes, State.call, Function.update_self, List.flatMap_eq_nil_iff,
          List.mem_filter, decide_eq_true_eq]
        rintro chunk ⟨member, rfl, isLater⟩
        have earlier := (inv.past chunk member).1
        omega
      simp only [State.call, Function.update_self] at isPlace
      split at isPlace
      · rw [nothing, starts i n addr isPlace]
        rfl
      · cases isPlace
    · simp only [State.call, Function.update_of_ne isPid] at isPlace
      have before := inv.written other i n addr isPlace
      simpa only [State.callBytes, State.call, Function.update_of_ne isPid] using before

/-- A process ends its call. -/
theorem Inv.leave (inv : Inv offset state) (pid : Pid) :
    Inv offset { state with place := Function.update state.place pid .away } := by
  refine ⟨inv.sound, inv.isFile, inv.consecutive, inv.found, ?_, inv.inOrder, ?_⟩
  · intro chunk member
    obtain ⟨earlier, sameCall⟩ := inv.past chunk member
    refine ⟨earlier, fun same => ?_⟩
    by_cases isPid : chunk.pid = pid
    · simp only [isPid, Function.update_self]
      trivial
    · simp only [Function.update_of_ne isPid]
      exact sameCall same
  · intro other i n addr isPlace
    by_cases isPid : other = pid
    · subst isPid
      simp at isPlace
    · simp only [Function.update_of_ne isPid] at isPlace
      exact inv.written other i n addr isPlace

/-- A process goes on after it has read or written a piece. -/
theorem Inv.move (inv : Inv offset state) {index : Nat} {bytes : List UInt8} {f : OpenFile sb}
    {volume : Volume sb} {place : Place}
    (moved : Moved state.volume state.file.toOpenFile bytes f volume)
    (before : ∀ earlier, (state.place pid).After earlier → earlier < index)
    (goesOn : ∀ earlier ≤ index, place.After earlier)
    (writes : ∀ i n addr, place = .writing i n addr →
      state.callBytes pid ++ bytes = bytesFrom addr 0 i) :
    Inv offset (state.move pid index (some bytes) f volume place) := by
  have stops : (⟨state.file.off.toNat, bytes⟩ : Piece UInt8).stop = f.off.toNat := moved.off.symm
  constructor
  case sound => exact moved.sound
  case isFile => exact moved.isFile
  case consecutive =>
    have longer := inv.consecutive.concat ⟨state.file.off.toNat, bytes⟩ rfl
    rw [stops] at longer
    simpa [State.move] using longer
  case found =>
    intro chunk member
    rcases List.mem_append.mp member with earlier | isNew
    · apply moved.kept _ _ (inv.found chunk earlier)
      exact (inv.consecutive.bounds (List.mem_map_of_mem earlier)).2
    · obtain rfl := List.mem_singleton.mp isNew
      exact moved.found
  case past =>
    intro chunk member
    rcases List.mem_append.mp member with earlier | isNew
    · obtain ⟨le, sameCall⟩ := inv.past chunk earlier
      refine ⟨le, fun same => ?_⟩
      by_cases isPid : chunk.pid = pid
      · simp only [State.move, isPid, Function.update_self]
        apply goesOn
        have isAfter := sameCall same
        rw [isPid] at isAfter
        exact Nat.le_of_lt (before _ isAfter)
      · simp only [State.move, Function.update_of_ne isPid]
        exact sameCall same
    · obtain rfl := List.mem_singleton.mp isNew
      refine ⟨Nat.le_refl _, fun _ => ?_⟩
      simp only [State.move, Function.update_self]
      exact goesOn _ (Nat.le_refl _)
  case inOrder =>
    intro other
    simp only [State.move, Option.toList_some, List.map_cons, List.map_nil, List.filter_append]
    refine List.pairwise_append.mpr ⟨inv.inOrder other, ?_, ?_⟩
    · exact List.Pairwise.filter _ (List.pairwise_singleton _ _)
    · intro chunk isEarlier last isLast
      obtain ⟨earlier, isOther⟩ := List.mem_filter.mp isEarlier
      obtain ⟨isNew, isPid⟩ := List.mem_filter.mp isLast
      obtain rfl := List.mem_singleton.mp isNew
      obtain rfl : pid = other := by simpa using isPid
      obtain rfl : chunk.pid = pid := by simpa using isOther
      obtain ⟨le, sameCall⟩ := inv.past chunk earlier
      rcases Nat.lt_or_eq_of_le le with less | same
      · exact Or.inl less
      · exact Or.inr ⟨same, before _ (sameCall same)⟩
  case written =>
    intro other i n addr isPlace
    by_cases isPid : other = pid
    · subst isPid
      simp only [State.move, Function.update_self] at isPlace
      rw [← writes i n addr isPlace]
      simp [State.callBytes, State.move]
    · simp only [State.move, Function.update_of_ne isPid] at isPlace
      rw [← inv.written other i n addr isPlace]
      simp [State.callBytes, State.move, Ne.symm isPid]

theorem Inv.step {action : Action Pid} (inv : Inv offset state)
    (taken : state.step action = some after) : Inv offset after := by
  cases action with
  | fileread pid n =>
      simp only [State.step] at taken
      cases isPlace : state.place pid with
      | away =>
          simp only [isPlace, Option.some.injEq] at taken
          subst taken
          refine inv.call pid _ ?_
          rintro i n addr ⟨⟩
      | reading n => simp [isPlace] at taken
      | writing i n addr => simp [isPlace] at taken
  | filewrite pid addr n =>
      simp only [State.step] at taken
      cases isPlace : state.place pid with
      | away =>
          simp only [isPlace, Option.some.injEq] at taken
          subst taken
          refine inv.call pid _ ?_
          rintro i n addr ⟨⟩
          rfl
      | reading n => simp [isPlace] at taken
      | writing i n addr => simp [isPlace] at taken
  | advance pid =>
      simp only [State.step, State.advance] at taken
      cases isPlace : state.place pid with
      | away => simp [isPlace] at taken
      | reading n =>
          simp only [isPlace] at taken
          cases reads : readChunk state.volume state.file.toOpenFile n with
          | error panic => simp [reads] at taken
          | ok result =>
              obtain ⟨bytes, f, volume⟩ := result
              simp only [reads, Option.some.injEq] at taken
              subst taken
              rcases readChunk_moved inv.sound inv.isFile reads with
                ⟨rfl, rfl, rfl⟩ | ⟨read, rfl, moved⟩
              · simpa [State.move] using inv.leave pid
              · refine inv.move moved ?_ (fun _ _ => trivial) ?_
                · rw [isPlace]
                  exact fun _ never => never.elim
                · rintro i n addr ⟨⟩
      | writing i n addr =>
          simp only [isPlace] at taken
          by_cases more : i < n
          · rw [if_pos more] at taken
            cases writes : writeChunk state.volume state.file.toOpenFile i n addr with
            | error panic => simp [writes] at taken
            | ok result =>
                obtain ⟨r, f, volume⟩ := result
                simp only [writes] at taken
                rcases writeChunk_moved inv.sound inv.isFile more writes with
                  ⟨negative, rfl, rfl⟩ | ⟨rfl, moved⟩
                · rw [if_pos negative] at taken
                  cases taken
                  simpa [State.move] using inv.leave pid
                · have bounds := pieceLength_bounds more
                  rw [if_neg (show ¬ (pieceLength i n : Int) < 0 by omega),
                    if_neg (not_not.mpr rfl)] at taken
                  cases taken
                  refine inv.move moved ?_ ?_ ?_
                  · rw [isPlace]
                    exact fun _ => id
                  · intro earlier le
                    change earlier < i + pieceLength i n
                    omega
                  · rintro _ _ _ ⟨⟩
                    rw [inv.written pid i n addr isPlace, bytesFrom_add, Nat.zero_add]
          · rw [if_neg more] at taken
            cases taken
            exact inv.leave pid

theorem inv_of_run (run : Run State.step anyStep (IsInitial offset) state) :
    Inv offset state := by
  induction run with
  | start isInitial =>
      obtain ⟨sound, isFile, isOffset, away, noChunks⟩ := isInitial
      refine ⟨sound, isFile, ?_, ?_, ?_, ?_, ?_⟩ <;> simp [noChunks, Consecutive, isOffset, away]
  | next action before _ taken ih => exact ih.step taken

/-- The pieces that the processes have read and written follow each other from the first
offset to the present one, which is the first one plus their lengths; they are disjoint, those
of each process are in the order of its calls and their buffers, and all of them are found in
the file.  What a process has written of its buffer is in them. -/
theorem shared_offset_loses_no_write (run : Run State.step anyStep (IsInitial offset) state) :
    Consecutive offset (state.chunks.map Chunk.toPiece) state.file.off.toNat ∧
    (state.chunks.map Chunk.toPiece).Pairwise (fun before after => before.stop ≤ after.start) ∧
    (∀ pid, (state.chunks.filter fun chunk => chunk.pid = pid).Pairwise Chunk.Before) ∧
    (∀ chunk ∈ state.chunks, chunk.toPiece.FoundIn (state.volume.contents state.file.ip)) ∧
    (∀ pid i n addr, state.place pid = .writing i n addr →
      state.callBytes pid = bytesFrom addr 0 i) ∧
    state.file.off.toNat =
      offset + ((state.chunks.map Chunk.toPiece).map fun piece => piece.elements.length).sum := by
  have inv := inv_of_run run
  exact ⟨inv.consecutive, inv.consecutive.disjoint, inv.inOrder, inv.found, inv.written,
    inv.consecutive.last_eq⟩

/-- Two processes share a file that is open for reading and writing. -/
def wideShared : State wideSuperblock Bool :=
  { volume := wideVolume
    file := { wideFile with readable := true }
    place := fun _ => .away
    chunks := []
    calls := fun _ => 0 }

theorem wideShared_isInitial : IsInitial 70144 wideShared :=
  ⟨wideVolume_sound, Or.inl rfl, by decide, fun _ => rfl, rfl⟩

/-- One of the two processes reads a hundred bytes. -/
theorem shared_offset_loses_no_write_wide :
    ∃ state : State wideSuperblock Bool, Run State.step anyStep (IsInitial 70144) state ∧
      state.chunks.length = 1 ∧
      Consecutive 70144 (state.chunks.map Chunk.toPiece) state.file.off.toNat := by
  have started : wideShared.step (.fileread false 100) =
      some (wideShared.call false true (.reading 100)) := rfl
  have isFile : wideVolume.IsFile wideInum := Or.inl rfl
  have reads := Volume.readi_spec wideVolume_sound isFile 70144 100
  have isRead : ∃ bytes, ByteFile.read (wideVolume.contents wideInum) 70144 100 = some bytes := by
    refine ⟨_, if_pos ⟨?_, by decide⟩⟩
    rw [Volume.length_contents]
    decide
  obtain ⟨bytes, isBytes⟩ := isRead
  rw [isBytes] at reads
  obtain ⟨f, isChunk⟩ : ∃ f, readChunk wideVolume wideFile 100 = .ok (some bytes, f, wideVolume) := by
    have same : wideVolume.readi wideFile.ip wideFile.off 100 = .ok (some bytes, wideVolume) := reads
    unfold readChunk
    rw [same]
    exact ⟨_, rfl⟩
  have advanced : (wideShared.call false true (.reading 100)).step (.advance false) =
      some ((wideShared.call false true (.reading 100)).move false 0 (some bytes) f wideVolume
        .away) := by
    have same : readChunk (wideShared.call false true (.reading 100)).volume
        (wideShared.call false true (.reading 100)).file.toOpenFile 100 =
          .ok (some bytes, f, wideVolume) := isChunk
    have isPlace : (wideShared.call false true (.reading 100)).place false = .reading 100 := rfl
    simp only [State.step, State.advance, isPlace, same]
  have run : Run State.step anyStep (IsInitial 70144) _ :=
    ((Run.start wideShared_isInitial).next _ trivial started).next _ trivial advanced
  exact ⟨_, run, rfl, (shared_offset_loses_no_write run).1⟩

end Coursework.SharedOffsets
