import Coursework.BlockOwnership
import Coursework.FileContents
import Coursework.Splices

/-!
# Files are byte lists

A file behaves as the list of its bytes: `writei` is a splice, `readi` returns a piece of the
list, and both do nothing where the offset is beyond the end or the sum of offset and length
wraps around.  No call on one file is seen in another one.
-/

namespace Coursework.FileSystem

variable {sb : Superblock}

/-! ## Byte lists -/

namespace ByteFile

/-- Writing to a byte list. -/
def write (content : List UInt8) (off n : UInt32) (src : Nat → UInt8) : Int × List UInt8 :=
  if off.toNat ≤ content.length ∧ off.toNat + n.toNat < 2 ^ 32 ∧
      off.toNat + n.toNat ≤ MAXFILE * BSIZE then
    (n.toNat, splice content off.toNat ((List.range n.toNat).map src))
  else (-1, content)

/-- Reading of a byte list. -/
def read (content : List UInt8) (off n : UInt32) : Option (List UInt8) :=
  if off.toNat ≤ content.length ∧ off.toNat + n.toNat < 2 ^ 32 then
    some ((content.drop off.toNat).take n.toNat)
  else none

end ByteFile

/-- The check at the start of `readi` and of `writei`. -/
theorem refuses_iff (off n : UInt32) (size : Nat) :
    (off.toNat > size ∨ off + n < off) ↔
      ¬ (off.toNat ≤ size ∧ off.toNat + n.toNat < 2 ^ 32) := by
  have offFits := off.toNat_lt
  have nFits := n.toNat_lt
  rw [UInt32.lt_iff_toNat_lt, UInt32.toNat_add]
  omega

theorem toNat_add_of_lt {off n : UInt32} (fits : off.toNat + n.toNat < 2 ^ 32) :
    (off + n).toNat = off.toNat + n.toNat := by
  rw [UInt32.toNat_add]
  exact Nat.mod_eq_of_lt fits

theorem piece_map_range {Element : Type*} (element : Nat → Element) (size off n : Nat) :
    (((List.range size).map element).drop off).take n =
      (List.range (min n (size - off))).map fun i => element (off + i) := by
  apply List.ext_getElem?
  intro i
  rw [List.getElem?_take, List.getElem?_drop, List.getElem?_map, List.getElem?_map]
  by_cases inside : i < n
  · rw [if_pos inside]
    by_cases within : off + i < size
    · rw [List.getElem?_range within, List.getElem?_range (by omega)]
      rfl
    · rw [List.getElem?_eq_none (by simp; omega), List.getElem?_eq_none (by simp; omega)]
      rfl
  · rw [if_neg inside, List.getElem?_eq_none (by simp; omega)]
    rfl

namespace Volume

variable {volume : Volume sb} {inum other : Fin sb.ninodes}

theorem length_contents (volume : Volume sb) (inum : Fin sb.ninodes) :
    (volume.contents inum).length = (volume.inode inum).size := by
  simp [contents]

theorem IsFile.allocated (isFile : volume.IsFile inum) : (volume.inode inum).type ≠ .free := by
  rcases isFile with isType | isType <;> rw [isType] <;> nofun

/-- The byte of a file is what its listed block holds. -/
theorem byte_eq {i : Nat} {position : Position} {blockno : Nat}
    (isPosition : filePosition (i / BSIZE) = some position)
    (isHeld : volume.held (inum, position) = some blockno) :
    volume.byte inum i = ByteBlock.byteAt (volume.disk.blocks blockno) (i % BSIZE) := by
  obtain ⟨-, -, isAddress⟩ := listed_eq_some.mp isHeld
  unfold byte
  rw [isPosition]
  simp only
  rw [isAddress]

theorem Sound.holds (sound : volume.Sound) (isFile : volume.IsFile inum) :
    Holds volume.disk.blocks volume.inode (fun _ => 0) inum (volume.inode inum).size
      (volume.byte inum) := by
  intro i below
  have start : i / BSIZE * BSIZE < (volume.inode inum).size :=
    lt_of_le_of_lt (Nat.div_mul_le_self i BSIZE) below
  obtain ⟨position, isPosition, full⟩ := sound.backed inum isFile (i / BSIZE) start
  obtain ⟨blockno, isHeld⟩ := Option.ne_none_iff_exists'.mp full
  exact ⟨position, blockno, isPosition, isHeld, (byte_eq isPosition isHeld).symm⟩

theorem contents_eq {byte : Nat → UInt8}
    (holds : Holds volume.disk.blocks volume.inode (fun _ => 0) inum (volume.inode inum).size byte) :
    volume.contents inum = (List.range (volume.inode inum).size).map byte := by
  apply List.map_congr_left
  intro i member
  obtain ⟨position, blockno, isPosition, isHeld, isByte⟩ := holds i (List.mem_range.mp member)
  rw [byte_eq isPosition isHeld, isByte]

theorem Sound.size_le (sound : volume.Sound) (isFile : volume.IsFile inum) :
    (volume.inode inum).size ≤ MAXFILE * BSIZE := by
  by_contra larger
  obtain ⟨position, isPosition, -⟩ := sound.backed inum isFile MAXFILE (by omega)
  cases isPosition

/-! ## One call -/

/-- What a call on one inode leaves of the others. -/
structure SameOthers (inum : Fin sb.ninodes) (before after : Volume sb) : Prop where
  type : (after.inode inum).type = (before.inode inum).type
  inode : ∀ other ≠ inum, after.inode other = before.inode other
  contents : ∀ other ≠ inum, before.IsFile other → after.contents other = before.contents other

theorem SameOthers.refl (inum : Fin sb.ninodes) (volume : Volume sb) :
    SameOthers inum volume volume :=
  ⟨rfl, fun _ _ => rfl, fun _ _ _ => rfl⟩

/-- `readi` of bytes that are in listed blocks, and changes nothing. -/
theorem readi_holds {len : Nat} {byte : Nat → UInt8}
    (holds : Holds volume.disk.blocks volume.inode (fun _ => 0) inum len byte) {off n : UInt32}
    (accepted : off.toNat ≤ (volume.inode inum).size ∧ off.toNat + n.toNat < 2 ^ 32)
    (inside : off.toNat + min n.toNat ((volume.inode inum).size - off.toNat) ≤ len) :
    volume.readi inum off n =
      .ok (some ((List.range (min n.toNat ((volume.inode inum).size - off.toNat))).map fun i =>
        byte (off.toNat + i)), volume) := by
  have refuses := refuses_iff off n (volume.inode inum).size
  unfold readi
  simp only
  rw [if_neg fun refused => refuses.mp refused accepted, toNat_add_of_lt accepted.2]
  have count : (if off.toNat + n.toNat > (volume.inode inum).size then
      (volume.inode inum).size - off.toNat else n.toNat) =
      min n.toNat ((volume.inode inum).size - off.toNat) := by
    split <;> omega
  rw [count, readLoop_spec holds rfl (by omega), ok_bind]
  have same : volume.setAddrs inum volume.disk (volume.inode inum).addrs = volume := by
    unfold setAddrs
    rw [update_addrs_self]
  simp only [same, Nat.sub_zero]
  rfl

/-- `readi` returns a piece of the list, and changes nothing. -/
theorem readi_spec (sound : volume.Sound) (isFile : volume.IsFile inum) (off n : UInt32) :
    volume.readi inum off n = .ok (ByteFile.read (volume.contents inum) off n, volume) := by
  unfold ByteFile.read
  rw [length_contents]
  by_cases accepted : off.toNat ≤ (volume.inode inum).size ∧ off.toNat + n.toNat < 2 ^ 32
  · rw [if_pos accepted, readi_holds (sound.holds isFile) accepted (by omega), contents,
      piece_map_range]
  · unfold readi
    simp only
    rw [if_pos ((refuses_iff off n _).mpr accepted), if_neg accepted]

/-- The volume after one file was written. -/
theorem Sound.wrote (sound : volume.Sound) (isFile : volume.IsFile inum) {len : Nat}
    {byte : Nat → UInt8} {disk : Disk sb} {addrs : Addrs} {after : Volume sb}
    (wrote : Wrote volume.disk volume.inode (fun _ => 0) inum len byte disk
      (Function.update volume.inode inum { volume.inode inum with addrs := addrs }))
    (blocks : after.disk.blocks = disk.blocks) (bitmap : after.disk.bitmap = disk.bitmap)
    (inode : after.inode = Function.update volume.inode inum
      { volume.inode inum with addrs := addrs, size := len }) :
    after.Sound ∧ after.contents inum = (List.range len).map byte ∧
      SameOthers inum volume after := by
  have here : after.inode inum = { volume.inode inum with addrs := addrs, size := len } := by
    rw [inode, Function.update_self]
  have elsewhere : ∀ other ≠ inum, after.inode other = volume.inode other := by
    intro other distinct
    rw [inode, Function.update_of_ne distinct]
  have resized := @holdings_update_same _ after.disk.blocks
    (Function.update volume.inode inum { volume.inode inum with addrs := addrs })
    (fun _ => 0) _ inum { volume.inode inum with addrs := addrs, size := len }
    (by rw [Function.update_self]) (by rw [Function.update_self])
  rw [Function.update_idem, ← inode, blocks] at resized
  have kept : ∀ other len byte, Holds disk.blocks (Function.update volume.inode inum
      { volume.inode inum with addrs := addrs }) (fun _ => 0) other len byte →
      Holds after.disk.blocks after.inode (fun _ => 0) other len byte := by
    intro other len byte held
    unfold Holds
    rw [blocks, resized]
    exact held
  have holds := kept inum len byte wrote.holds
  have others : ∀ other ≠ inum, volume.IsFile other → Holds after.disk.blocks after.inode
      (fun _ => 0) other (after.inode other).size (volume.byte other) := by
    intro other distinct isOther
    rw [elsewhere other distinct]
    exact kept _ _ _ (wrote.others other distinct _ _ (sound.holds isOther))
  have size : (after.inode inum).size = len := by rw [here]
  refine ⟨⟨⟨?_, ?_⟩, ?_⟩, ?_, ?_, elsewhere, ?_⟩
  · have owns := wrote.accounts.owns
    rw [← resized] at owns
    unfold Disk.isUsed at owns ⊢
    rw [bitmap, blocks]
    exact owns
  · intro blockno below isMeta
    have marked := wrote.accounts.marked blockno below isMeta
    unfold Disk.isUsed at marked ⊢
    rw [bitmap]
    exact marked
  · intro other isOther
    rcases eq_or_ne other inum with rfl | distinct
    · rw [size]
      exact holds.backed
    · have isFile' : volume.IsFile other := by
        unfold IsFile at isOther ⊢
        rwa [elsewhere other distinct] at isOther
      exact (others other distinct isFile').backed
  · rw [← size] at holds
    rw [contents_eq holds, size]
  · rw [here]
  · intro other distinct isOther
    rw [contents_eq (others other distinct isOther), elsewhere other distinct]
    rfl

theorem splice_map_range (byte : Nat → UInt8) {size off : Nat} (n : Nat) (src : Nat → UInt8)
    (inside : off ≤ size) :
    splice ((List.range size).map byte) off ((List.range n).map src) =
      (List.range (max size (off + n))).map (overwrite byte off n src) := by
  apply List.ext_getElem?
  intro i
  rw [getElem?_splice (by simpa using inside), List.length_map, List.length_range,
    List.getElem?_map, List.getElem?_map, List.getElem?_map]
  by_cases written : off ≤ i ∧ i < off + n
  · rw [if_pos written, List.getElem?_range (by omega), List.getElem?_range (by omega)]
    exact congrArg some (if_pos written).symm
  · rw [if_neg written]
    by_cases old : i < size
    · rw [List.getElem?_range old, List.getElem?_range (by omega)]
      exact congrArg some (if_neg written).symm
    · rw [List.getElem?_eq_none (by simpa using old), List.getElem?_eq_none (by simp; omega)]
      rfl

/-- `writei` is a splice of the list, or fails and changes nothing, unless the file grows and the
disk is full. -/
theorem writei_spec (sound : volume.Sound) (isFile : volume.IsFile inum) (off n : UInt32)
    (src : Nat → UInt8) :
    Outcome (fun panic => panic = .outOfBlocks ∧ off.toNat ≤ (volume.inode inum).size ∧
        (volume.inode inum).size < off.toNat + n.toNat ∧
        off.toNat + n.toNat ≤ MAXFILE * BSIZE)
      (fun result => (result.1, result.2.contents inum) =
          ByteFile.write (volume.contents inum) off n src ∧
        result.2.Sound ∧ SameOthers inum volume result.2 ∧ (result.1 = -1 → result.2 = volume))
      (volume.writei inum off n src) := by
  have refuses := refuses_iff off n (volume.inode inum).size
  have length := length_contents volume inum
  unfold writei
  simp only
  by_cases accepted : off.toNat ≤ (volume.inode inum).size ∧ off.toNat + n.toNat < 2 ^ 32
  · rw [if_neg fun refused => refuses.mp refused accepted, toNat_add_of_lt accepted.2]
    by_cases tooLong : off.toNat + n.toNat > MAXFILE * BSIZE
    · have isWrite : ByteFile.write (volume.contents inum) off n src =
          (-1, volume.contents inum) := if_neg fun all => absurd all.2.2 (Nat.not_le.mpr tooLong)
      rw [if_pos tooLong, isWrite]
      exact ⟨rfl, sound, .refl inum volume, fun _ => rfl⟩
    · have isWrite : ByteFile.write (volume.contents inum) off n src =
          ((n.toNat : Int),
            splice (volume.contents inum) off.toNat ((List.range n.toNat).map src)) :=
        if_pos ⟨length ▸ accepted.1, accepted.2, Nat.not_lt.mp tooLong⟩
      rw [if_neg tooLong, isWrite]
      apply Outcome.bind ((writeLoop_spec sound.accounts isFile.allocated rfl (sound.holds isFile)
        accepted.1 (Nat.not_lt.mp tooLong)).mono
        (fun _ failed => ⟨failed.1, accepted.1, failed.2, Nat.not_lt.mp tooLong⟩) fun _ same => same)
      rintro ⟨off', addrs, disk⟩ ⟨isEnd, wrote⟩
      simp only [Nat.sub_zero, Nat.zero_add] at isEnd wrote ⊢
      have finish : ∀ after : Volume sb, after.disk.blocks = disk.blocks →
          after.disk.bitmap = disk.bitmap → after.inode = Function.update volume.inode inum
            { volume.inode inum with
              addrs := addrs, size := max (volume.inode inum).size (off.toNat + n.toNat) } →
          ((n.toNat : Int), after.contents inum) = ((n.toNat : Int),
            splice (volume.contents inum) off.toNat ((List.range n.toNat).map src)) ∧
            after.Sound ∧ SameOthers inum volume after ∧ ((n.toNat : Int) = -1 → after = volume) := by
        intro after blocks bitmap inode
        obtain ⟨isSound, isContents, same⟩ := sound.wrote isFile wrote blocks bitmap inode
        refine ⟨?_, isSound, same, by omega⟩
        rw [isContents, contents, splice_map_range _ _ _ accepted.1]
      by_cases grows : 0 < n ∧ off' > (volume.inode inum).size
      · rw [if_pos grows]
        apply finish _ rfl rfl
        have isMax : max (volume.inode inum).size (off.toNat + n.toNat) = off' := by omega
        simp only [setSize, setAddrs, Function.update_self, Function.update_idem, isMax]
      · rw [if_neg grows]
        apply finish _ rfl rfl
        have isMax : max (volume.inode inum).size (off.toNat + n.toNat) =
            (volume.inode inum).size := by
          rw [not_and_or, UInt32.lt_iff_toNat_lt] at grows
          simp only [UInt32.toNat_zero] at grows
          omega
        rw [isMax]
        rfl
  · have isWrite : ByteFile.write (volume.contents inum) off n src =
        (-1, volume.contents inum) := if_neg fun all => accepted ⟨length ▸ all.1, all.2.1⟩
    rw [if_pos (refuses.mpr accepted), isWrite]
    exact ⟨rfl, sound, .refl inum volume, fun _ => rfl⟩

end Volume

/-! ## Sequences of calls -/

/-- A call on a file. -/
inductive FileCall (sb : Superblock) where
  | readi (inum : Fin sb.ninodes) (off n : UInt32)
  | writei (inum : Fin sb.ninodes) (off n : UInt32) (src : Nat → UInt8)

/-- What a call returns; a read that fails returns no bytes. -/
inductive Reply where
  | bytes (bytes : Option (List UInt8))
  | count (returned : Int)

def FileCall.inum : FileCall sb → Fin sb.ninodes
  | .readi inum _ _ => inum
  | .writei inum _ _ _ => inum

def Volume.call (volume : Volume sb) : FileCall sb → Except Panic (Reply × Volume sb)
  | .readi inum off n => do
      let (bytes, volume) ← volume.readi inum off n
      return (.bytes bytes, volume)
  | .writei inum off n src => do
      let (returned, volume) ← volume.writei inum off n src
      return (.count returned, volume)

def Volume.calls : Volume sb → List (FileCall sb) → Except Panic (List Reply × Volume sb)
  | volume, [] => .ok ([], volume)
  | volume, call :: rest => do
      let (reply, volume) ← volume.call call
      let (replies, volume) ← volume.calls rest
      return (reply :: replies, volume)

namespace ByteFile

/-- The same calls on byte lists. -/
def call (files : Fin sb.ninodes → List UInt8) :
    FileCall sb → Reply × (Fin sb.ninodes → List UInt8)
  | .readi inum off n => (.bytes (read (files inum) off n), files)
  | .writei inum off n src =>
      let (returned, content) := write (files inum) off n src
      (.count returned, Function.update files inum content)

def calls (files : Fin sb.ninodes → List UInt8) :
    List (FileCall sb) → List Reply × (Fin sb.ninodes → List UInt8)
  | [] => ([], files)
  | first :: rest =>
      let (reply, files) := call files first
      let (replies, files) := calls files rest
      (reply :: replies, files)

end ByteFile

namespace Volume

variable {volume : Volume sb} {inum other : Fin sb.ninodes}

/-- The files of a volume have the bytes of the given lists. -/
structure Represents (volume : Volume sb) (files : Fin sb.ninodes → List UInt8) : Prop where
  sound : volume.Sound
  contents : ∀ inum, volume.IsFile inum → volume.contents inum = files inum

theorem SameOthers.isFile {after : Volume sb} (same : SameOthers inum volume after)
    (other : Fin sb.ninodes) : after.IsFile other ↔ volume.IsFile other := by
  unfold IsFile
  rcases eq_or_ne other inum with rfl | distinct
  · rw [same.type]
  · rw [same.inode other distinct]

/-- One call returns what the call on the lists returns, unless the disk is full. -/
theorem Represents.call {files : Fin sb.ninodes → List UInt8} (represents : volume.Represents files)
    (call : FileCall sb) (isFile : volume.IsFile call.inum) :
    Outcome (fun panic => panic = .outOfBlocks)
      (fun result => result.1 = (ByteFile.call files call).1 ∧
        result.2.Represents (ByteFile.call files call).2 ∧
        ∀ inum, result.2.IsFile inum ↔ volume.IsFile inum)
      (volume.call call) := by
  cases call with
  | readi inum off n =>
      change volume.IsFile inum at isFile
      rw [Volume.call, readi_spec represents.sound isFile, ok_bind,
        represents.contents inum isFile]
      exact ⟨rfl, represents, fun _ => Iff.rfl⟩
  | writei inum off n src =>
      change volume.IsFile inum at isFile
      apply Outcome.bind ((writei_spec represents.sound isFile off n src).mono
        (fun _ failed => failed.1) fun _ same => same)
      rintro ⟨returned, after⟩ ⟨isWrite, sound, same, -⟩
      rw [represents.contents inum isFile] at isWrite
      refine ⟨congrArg Reply.count (congrArg Prod.fst isWrite), ⟨sound, ?_⟩, same.isFile⟩
      intro other isOther
      have isBefore := (same.isFile other).mp isOther
      rcases eq_or_ne other inum with rfl | distinct
      · change _ = Function.update files other _ other
        rw [Function.update_self]
        exact congrArg Prod.snd isWrite
      · rw [same.contents other distinct isBefore, represents.contents other isBefore]
        exact (Function.update_of_ne distinct _ _).symm

end Volume

/-! ## The calls of the machine -/

theorem advance_execute {state after : State sb} {inum : Fin sb.ninodes}
    (running : state.panic.isSome = false) (taken : state.advance inum = some after)
    (rest : List (Action sb)) :
    execute State.step (fun _ _ => true) state (.advance inum :: rest) =
      execute State.step (fun _ _ => true) after rest := by
  have isStep : state.step (.advance inum) = some after := by
    rw [State.step, if_neg (by simp [running])]
    exact taken
  rw [execute, if_pos rfl, isStep]
  rfl

/-- The loop of `writei` is what the steps of the machine do if no others come in between. -/
theorem writeLoop_steps {state : State sb} {inum : Fin sb.ninodes} {off tot n off' : Nat}
    {src : Nat → UInt8} {addrs' : Addrs} {disk' : Disk sb} {inode : Inode}
    (running : state.panic.isSome = false)
    (isInode : state.icache inum = { inode with activity := .writing off tot n src })
    (le : tot ≤ n)
    (loops : writeLoop state.disk inode.copy.addrs off tot n src = .ok (off', addrs', disk')) :
    ∃ count, ∀ rest, execute State.step (fun _ _ => true) state
        (List.replicate count (.advance inum) ++ rest) =
      execute State.step (fun _ _ => true) ({ state with disk := disk' }.setInode inum
        { inode with
          copy := { inode.copy with addrs := addrs' }
          activity := .writing off' n n src }) rest := by
  induction left : n - tot using Nat.strong_induction_on generalizing state off tot inode with
  | _ left ih =>
    subst left
    rw [writeLoop] at loops
    by_cases more : tot < n
    · rw [dif_pos more] at loops
      have positive := @State.chunk_pos off tot n more
      have fewer := State.chunk_le off tot n
      cases mapped : state.disk.bmap inode.copy.addrs (off / BSIZE) with
      | error panic =>
          rw [mapped] at loops
          cases loops
      | ok result =>
          obtain ⟨addr, addrs, disk⟩ := result
          rw [mapped, ok_bind] at loops
          simp only at loops
          have taken : state.advance inum = some
              (({ state with disk := disk.writeBlock addr (State.moveInto (disk.blocks addr) off tot
                (State.chunk off tot n) src) } : State sb).setInode inum
                { inode with
                  copy := { inode.copy with addrs := addrs }
                  activity := .writing (off + State.chunk off tot n) (tot + State.chunk off tot n)
                    n src }) := by
            simp only [State.advance, isInode, State.writeStep, if_pos more, mapped]
          obtain ⟨count, later⟩ := @ih (n - (tot + State.chunk off tot n)) (by omega)
            (({ state with disk := disk.writeBlock addr (State.moveInto (disk.blocks addr) off tot
                (State.chunk off tot n) src) } : State sb).setInode inum
                { inode with
                  copy := { inode.copy with addrs := addrs }
                  activity := .writing (off + State.chunk off tot n) (tot + State.chunk off tot n)
                    n src }) (off + State.chunk off tot n) (tot + State.chunk off tot n)
            { inode with copy := { inode.copy with addrs := addrs } } running
            (Function.update_self _ _ _) (by omega) loops rfl
          refine ⟨count + 1, fun rest => ?_⟩
          rw [List.replicate_succ, List.cons_append, advance_execute running taken, later]
          simp only [State.setInode, Function.update_idem]
    · rw [dif_neg more] at loops
      cases loops
      have isEnd : tot = n := by omega
      subst isEnd
      refine ⟨0, fun rest => ?_⟩
      have same : ({ state with disk := state.disk } : State sb).setInode inum
          { inode with activity := .writing off' tot tot src } = state := by
        rw [← isInode]
        unfold State.setInode
        rw [Function.update_eq_self]
      rw [same]
      rfl

/-- The end of `writei`. -/
theorem write_end {state : State sb} {inum : Fin sb.ninodes} {off n : Nat} {src : Nat → UInt8}
    {inode : Inode} (running : state.panic.isSome = false)
    (isInode : state.icache inum = { inode with activity := .writing off n n src }) :
    execute State.step (fun _ _ => true) state [.advance inum] =
      some (if 0 < n ∧ off > inode.copy.size then
          state.iupdate inum
            { inode with copy := { inode.copy with size := off }, activity := .locked }
        else state.setInode inum { inode with activity := .locked }) := by
  have taken : state.advance inum = some (state.writeStep inum off n n src) := by
    rw [State.advance, isInode]
  rw [advance_execute running taken, execute, State.writeStep, if_neg (Nat.lt_irrefl n), isInode]

/-- `writei` is what the steps of the machine do if no others come in between: the call, and as
many steps of its loop as it needs. -/
theorem writei_steps {state : State sb} {inum : Fin sb.ninodes} {off n : UInt32}
    {src : Nat → UInt8} {returned : Int} {inode : Fin sb.ninodes → Dinode} {after : Volume sb}
    (running : state.panic.isSome = false) (locked : (state.icache inum).activity = .locked)
    (notDev : (state.icache inum).copy.type ≠ .dev)
    (isCopy : inode inum = (state.icache inum).copy)
    (called : (⟨state.disk, inode⟩ : Volume sb).writei inum off n src = .ok (returned, after)) :
    ∃ count, execute State.step (fun _ _ => true) state
        (.writei inum off n src :: List.replicate count (.advance inum)) =
      some ({ state with disk := after.disk }.setInode inum
        { state.icache inum with copy := after.inode inum }) := by
  have isStep : ∀ rest, execute State.step (fun _ _ => true) state (.writei inum off n src :: rest) =
      execute State.step (fun _ _ => true) (state.writei inum off n src) rest := by
    intro rest
    have taken : state.step (.writei inum off n src) = some (state.writei inum off n src) := by
      rw [State.step, if_neg (by simp [running])]
      simp only [locked]
    rw [execute, if_pos rfl, taken]
    rfl
  have same : ({ state with disk := state.disk } : State sb).setInode inum
      { state.icache inum with copy := inode inum } = state := by
    unfold State.setInode
    rw [isCopy, Function.update_eq_self]
  unfold Volume.writei at called
  simp only [isCopy] at called
  by_cases refused : off.toNat > (state.icache inum).copy.size ∨ off + n < off
  · rw [if_pos refused] at called
    cases called
    refine ⟨0, ?_⟩
    rw [isStep, State.writei, if_neg notDev, if_pos refused]
    exact congrArg some same.symm
  · rw [if_neg refused] at called
    by_cases tooLong : (off + n).toNat > MAXFILE * BSIZE
    · rw [if_pos tooLong] at called
      cases called
      refine ⟨0, ?_⟩
      rw [isStep, State.writei, if_neg notDev, if_neg refused, if_pos tooLong]
      exact congrArg some same.symm
    · rw [if_neg tooLong] at called
      cases loops : writeLoop state.disk (state.icache inum).copy.addrs off.toNat 0 n.toNat src with
      | error panic =>
          rw [loops] at called
          cases called
      | ok result =>
          obtain ⟨off', addrs, disk⟩ := result
          rw [loops, ok_bind] at called
          cases called
          have isWriting : state.writei inum off n src = state.setInode inum
              { state.icache inum with activity := .writing off.toNat 0 n.toNat src } := by
            rw [State.writei, if_neg notDev, if_neg refused, if_neg tooLong]
          obtain ⟨count, steps⟩ := @writeLoop_steps sb (state.setInode inum
              { state.icache inum with activity := .writing off.toNat 0 n.toNat src }) inum off.toNat
            0 n.toNat off' src addrs disk (state.icache inum) running
            (Function.update_self _ _ _) (Nat.zero_le _) loops
          refine ⟨count + 1, ?_⟩
          have positive : 0 < n ↔ 0 < n.toNat := UInt32.lt_iff_toNat_lt
          rw [isStep, isWriting, List.replicate_succ', steps]
          refine Eq.trans (@write_end sb _ inum off' n.toNat src { state.icache inum with
            copy := { (state.icache inum).copy with addrs := addrs } } (by exact running)
            (by exact Function.update_self _ _ _)) ?_
          by_cases grows : 0 < n ∧ off' > (state.icache inum).copy.size
          · rw [if_pos grows, if_pos ⟨positive.mp grows.1, grows.2⟩]
            simp only [State.setInode, State.iupdate, Volume.setSize, Volume.setAddrs,
              Function.update_self, Function.update_idem, isCopy, locked]
          · rw [if_neg grows, if_neg fun both => grows ⟨positive.mpr both.1, both.2⟩]
            simp only [State.setInode, Volume.setAddrs, Function.update_self, Function.update_idem,
              isCopy, locked]

/-- In every run the files of a state keep the block invariants while no inode is freed. -/
theorem State.Consistent.volume {state : State sb} (consistent : state.Consistent)
    (whole : ∀ inum, (state.icache inum).activity.truncates = false) :
    (⟨state.disk, state.inodes⟩ : Volume sb).Sound := by
  have releases : state.released = fun _ => 0 := by
    funext inum
    exact State.released_of_not_truncating (whole inum)
  refine ⟨releases ▸ consistent.accounts, fun inum isFile => ?_⟩
  have backed := (consistent.entry inum).backed (whole inum)
  have sameHeld : ∀ position, state.held (inum, position) =
      (⟨state.disk, state.inodes⟩ : Volume sb).held (inum, position) := by
    intro position
    rw [State.held, releases]
    rfl
  simp only [sameHeld] at backed
  apply backed
  · exact isFile.allocated
  · change (state.inodes inum).type ≠ .dev
    rcases isFile with isType | isType <;> simp only at isType <;> rw [isType] <;> simp

/-- The file of one byte in the small disk. -/
@[irreducible]
def smallVolume : Volume smallSuperblock := ⟨markedFile.disk, markedFile.inodes⟩

theorem smallVolume_sound : smallVolume.Sound := by
  have sound : (emptyDisk 0x1f).Sound := emptyDisk_sound (by decide +kernel)
  have marked : (emptyDisk 0x1f).MetaMarked := by
    unfold Disk.MetaMarked
    decide +kernel
  have isBoot : (emptyDisk 0x1f).IsBoot (State.boot (emptyDisk 0x1f)) := rfl
  have run := run_lastState isBoot oneByteFile markedFile_enabled
  unfold smallVolume
  exact (consistent_of_run sound marked (run.mono fun _ _ _ => trivial)).volume (by decide +kernel)

end Coursework.FileSystem
