import Coursework.ArgumentPushes

/-!
# The stack of a new program

Below the strings `exec` puts a block of words: a return address, the number of arguments,
the address of the array, and the array with the addresses of the strings and a zero.  Read
from the stack pointer on this is the frame of a C function with two arguments.
-/

namespace Coursework.Exec

open Paging

variable {layout : Layout} {dir : Dir} {top sp esp : Nat} {ram ram' ram'' : ByteMemory}
  {argv : List CString} {pointers words : List Nat}

/-! ## Words -/

theorem length_wordBytes (words : List Nat) : (wordBytes words).length = 4 * words.length := by
  induction words with
  | nil => rfl
  | cons word rest ih =>
      rw [wordBytes] at ih
      rw [wordBytes, List.flatMap_cons, List.length_append, LittleEndian.length_toBytes, ih,
        List.length_cons]
      omega

theorem getD_wordBytes {k word : Nat} (isWord : words[k]? = some word) {i : Nat} (inside : i < 4) :
    (wordBytes words).getD (4 * k + i) 0 = (LittleEndian.toBytes 4 word).getD i 0 := by
  have length := LittleEndian.length_toBytes 4
  induction words generalizing k with
  | nil => cases isWord
  | cons first rest ih =>
      rw [wordBytes, List.flatMap_cons]
      cases k with
      | zero =>
          obtain rfl : first = word := Option.some.inj isWord
          rw [Nat.mul_zero, Nat.zero_add]
          exact List.getD_append _ _ _ _ (by rw [length]; exact inside)
      | succ k =>
          have isLater : 4 * (k + 1) + i - (LittleEndian.toBytes 4 first).length = 4 * k + i := by
            rw [length]
            omega
          rw [List.getD_append_right _ _ _ _ (by rw [length]; omega), isLater]
          exact ih isWord

/-- What a user reads at an address. -/
def userByte (dir : Dir) (ram : ByteMemory) (addr : Nat) : Option UInt8 :=
  (dir.physical addr).map ram

def userWord (dir : Dir) (ram : ByteMemory) (addr : Nat) : Option Nat := do
  let first ← userByte dir ram addr
  let second ← userByte dir ram (addr + 1)
  let third ← userByte dir ram (addr + 2)
  let fourth ← userByte dir ram (addr + 3)
  return LittleEndian.ofBytes [first, second, third, fourth]

theorem userWord_eq {addr word : Nat} (isWord : word < UINT) (bytes : ∀ i < 4,
    userByte dir ram (addr + i) = some ((LittleEndian.toBytes 4 word).getD i 0)) :
    userWord dir ram addr = some word := by
  have first : userByte dir ram addr = _ := bytes 0 (by decide)
  have whole : [(LittleEndian.toBytes 4 word).getD 0 0, (LittleEndian.toBytes 4 word).getD 1 0,
      (LittleEndian.toBytes 4 word).getD 2 0, (LittleEndian.toBytes 4 word).getD 3 0] =
        LittleEndian.toBytes 4 word := rfl
  rw [userWord, first, bytes 1 (by decide), bytes 2 (by decide), bytes 3 (by decide)]
  simp only [Option.bind_eq_bind, Option.bind_some, Option.pure_def]
  rw [whole, LittleEndian.ofBytes_toBytes]
  exact congrArg some (Nat.mod_eq_of_lt isWord)

/-! ## The frame -/

/-- What is on the stack: the strings, and below them the words. -/
def stackWrites (argv : List CString) (pointers : List Nat) (sp esp : Nat) :
    List (Nat × List UInt8) :=
  stringWrites argv pointers ++ [(esp, wordBytes (ustack sp pointers))]

/-- The ranges of the strings, and of the frame with the array. -/
def stackRanges (argv : List CString) (pointers : List Nat) (esp : Nat) : List (Nat × Nat) :=
  pointers.zip (argv.map fun arg => arg.bytes.length + 1) ++
    [(esp, 12 + 4 * (argv.length + 1))]

/-- From a stack pointer on a C function finds its arguments: the return address, `argc` and
`argv`, and there the addresses of the strings.  All this is in the stack page, and no two
ranges overlap. -/
structure MainFrame (dir : Dir) (ram : ByteMemory) (top esp : Nat) (argv : List CString)
    (pointers : List Nat) : Prop where
  count : pointers.length = argv.length
  returnAddress : userWord dir ram esp = some 0xffffffff
  argc : userWord dir ram (esp + 4) = some argv.length
  array : userWord dir ram (esp + 8) = some (esp + 12)
  pointer : ∀ i pointer : Nat, pointers[i]? = some pointer →
    userWord dir ram (esp + 12 + 4 * i) = some pointer
  last : userWord dir ram (esp + 12 + 4 * argv.length) = some 0
  string : ∀ (i pointer : Nat) (arg : CString), pointers[i]? = some pointer → argv[i]? = some arg →
    (∀ (j : Nat) (byte : UInt8), arg.bytes[j]? = some byte → userByte dir ram (pointer + j) = some byte) ∧
      userByte dir ram (pointer + arg.bytes.length) = some 0
  inside : ∀ range ∈ stackRanges argv pointers esp,
    top - PGSIZE ≤ range.1 ∧ range.1 + range.2 ≤ top
  disjoint : (stackRanges argv pointers esp).Pairwise fun first second =>
    second.1 + second.2 ≤ first.1

theorem length_ustack (sp : Nat) (pointers : List Nat) :
    (ustack sp pointers).length = pointers.length + 4 := by
  simp [ustack]

theorem ustack_words (sp : Nat) (pointers : List Nat) :
    (ustack sp pointers)[0]? = some 0xffffffff ∧
      (ustack sp pointers)[1]? = some pointers.length ∧
      (ustack sp pointers)[2]? = some ((sp + UINT - (pointers.length + 1) * 4) % UINT) ∧
      (∀ i pointer, pointers[i]? = some pointer → (ustack sp pointers)[3 + i]? = some pointer) ∧
      (ustack sp pointers)[3 + pointers.length]? = some 0 := by
  refine ⟨rfl, rfl, rfl, ?_, ?_⟩
  · intro i pointer isPointer
    have inside : i < pointers.length := (List.getElem?_eq_some_iff.mp isPointer).1
    rw [ustack, List.getElem?_append_right (Nat.le_add_right 3 i)]
    change (pointers ++ [0])[3 + i - 3]? = some pointer
    rw [Nat.add_sub_cancel_left, List.getElem?_append_left inside]
    exact isPointer
  · rw [ustack, List.getElem?_append_right (Nat.le_add_right 3 _)]
    change (pointers ++ [0])[3 + pointers.length - 3]? = some 0
    rw [Nat.add_sub_cancel_left, List.getElem?_concat_length]

theorem ranges_of_writes (argv : List CString) (pointers : List Nat) :
    (stringWrites argv pointers).map (fun write => (write.1, write.2.length)) =
      pointers.zip (argv.map fun arg => arg.bytes.length + 1) := by
  have lengths : (argv.map CString.terminated).map List.length =
      argv.map fun arg => arg.bytes.length + 1 := by
    rw [List.map_map]
    exact List.map_congr_left fun arg _ => arg.length_terminated
  rw [stringWrites, ← lengths]
  exact List.zip_map_right.symm

theorem mem_stringWrites {i pointer : Nat} {arg : CString} (isPointer : pointers[i]? = some pointer)
    (isArg : argv[i]? = some arg) : (pointer, arg.terminated) ∈ stringWrites argv pointers := by
  apply List.mem_of_getElem? (i := i)
  rw [stringWrites, List.getElem?_zip_eq_some]
  exact ⟨isPointer, by rw [List.getElem?_map, isArg]; rfl⟩

/-- The stack that `exec` has built, with the image below it. -/
structure Frame (layout : Layout) (dir : Dir) (ram : ByteMemory) (top sp esp : Nat)
    (argv : List CString) (pointers : List Nat) : Prop where
  stacked : Stacked layout dir top
  count : pointers.length = argv.length
  block : esp + 4 * (pointers.length + 4) = sp
  descends : Descends (top - PGSIZE) top (stackWrites argv pointers sp esp)
  bytes : ∀ write ∈ stackWrites argv pointers sp esp, ∀ i < write.2.length,
    dir.byte ram (write.1 + i) = some (write.2.getD i 0)

namespace Frame

theorem userByte_eq (stacked : Stacked layout dir top) {addr : Nat} (lower : top - PGSIZE ≤ addr)
    (upper : addr < top) : userByte dir ram addr = dir.byte ram addr := by
  obtain ⟨frame, isFrame⟩ := Option.isSome_iff_exists.mp stacked.stack
  rw [← stacked.page_of_stack lower upper] at isFrame
  obtain ⟨pte, isPte, rfl⟩ := entry_of_userFrame isFrame
  rw [userByte, Dir.physical, isFrame, Dir.byte, isPte]
  rfl

theorem user (frame : Frame layout dir ram top sp esp argv pointers)
    {write : Nat × List UInt8} (member : write ∈ stackWrites argv pointers sp esp) {i : Nat}
    (inside : i < write.2.length) :
    userByte dir ram (write.1 + i) = some (write.2.getD i 0) := by
  have bounds := frame.descends.mem write member
  rw [userByte_eq frame.stacked (by omega) (by omega)]
  exact frame.bytes write member i inside

theorem words_mem (argv : List CString) (pointers : List Nat) (sp esp : Nat) :
    (esp, wordBytes (ustack sp pointers)) ∈ stackWrites argv pointers sp esp :=
  List.mem_append_right _ (List.mem_singleton_self _)

theorem word (frame : Frame layout dir ram top sp esp argv pointers) {k word : Nat}
    (isWord : (ustack sp pointers)[k]? = some word) (small : word < UINT) :
    userWord dir ram (esp + 4 * k) = some word := by
  have inside : k < (ustack sp pointers).length := (List.getElem?_eq_some_iff.mp isWord).1
  apply userWord_eq small
  intro i within
  have isByte := frame.user (words_mem argv pointers sp esp) (i := 4 * k + i)
    (by rw [length_wordBytes]; omega)
  rw [getD_wordBytes isWord within] at isByte
  rw [Nat.add_assoc]
  exact isByte

theorem ranges_eq (frame : Frame layout dir ram top sp esp argv pointers) :
    (stackWrites argv pointers sp esp).map (fun write => (write.1, write.2.length)) =
      stackRanges argv pointers esp := by
  have length : (wordBytes (ustack sp pointers)).length = 12 + 4 * (argv.length + 1) := by
    rw [length_wordBytes, length_ustack, frame.count]
    omega
  rw [stackWrites, List.map_append, ranges_of_writes, List.map_singleton, length, stackRanges]

theorem mainFrame (frame : Frame layout dir ram top sp esp argv pointers)
    (few : argv.length < UINT) : MainFrame dir ram top esp argv pointers := by
  obtain ⟨isReturn, isArgc, isArray, isPointer, isLast⟩ := ustack_words sp pointers
  have userTop : top < UINT := frame.stacked.user.trans (by decide)
  have block := frame.block
  have mem := frame.descends.mem
  have wordsInside := (mem _ (words_mem argv pointers sp esp)).2
  rw [length_wordBytes, length_ustack] at wordsInside
  have atArray : (sp + UINT - (pointers.length + 1) * 4) % UINT = esp + 12 := by
    have whole : sp + UINT - (pointers.length + 1) * 4 = esp + 12 + UINT := by omega
    rw [whole, Nat.add_mod_right, Nat.mod_eq_of_lt (by omega)]
  rw [atArray] at isArray
  rw [frame.count] at isArgc isLast
  have isRange := frame.ranges_eq
  have first := frame.word isReturn (by decide)
  have second := frame.word isArgc few
  have third := frame.word isArray (by omega)
  refine ⟨frame.count, first, second, third, ?_, ?_, ?_, ?_, ?_⟩
  · intro i pointer isPlace
    have member : pointer < UINT := by
      have inside : i < pointers.length := (List.getElem?_eq_some_iff.mp isPlace).1
      have isArg := List.getElem?_eq_getElem (frame.count ▸ inside)
      have bounds := mem _ (List.mem_append_left _ (mem_stringWrites isPlace isArg))
      simp only at bounds
      omega
    have isWord := frame.word (isPointer i pointer isPlace) member
    have place : esp + 4 * (3 + i) = esp + 12 + 4 * i := by omega
    rwa [place] at isWord
  · have isWord := frame.word isLast (by decide)
    have place : esp + 4 * (3 + argv.length) = esp + 12 + 4 * argv.length := by omega
    rwa [place] at isWord
  · intro i pointer arg isPlace isArg
    have member := List.mem_append_left [(esp, wordBytes (ustack sp pointers))]
      (mem_stringWrites isPlace isArg)
    have isByte : ∀ j < arg.terminated.length,
        userByte dir ram (pointer + j) = some (arg.terminated.getD j 0) :=
      fun j inside => frame.user member inside
    have length := arg.length_terminated
    refine ⟨?_, ?_⟩
    · intro j byte isText
      have inside : j < arg.bytes.length := (List.getElem?_eq_some_iff.mp isText).1
      rw [isByte j (by omega), CString.terminated, List.getD_append _ _ _ _ inside,
        List.getD_eq_getElem?_getD, isText]
      rfl
    · rw [isByte _ (by omega), CString.terminated,
        List.getD_append_right _ _ _ _ (le_refl _), Nat.sub_self]
      rfl
  · rw [← isRange]
    intro range member
    obtain ⟨write, isWrite, rfl⟩ := List.mem_map.mp member
    exact mem write isWrite
  · rw [← isRange, List.pairwise_map]
    exact frame.descends.pairwise

end Frame

/-! ## Building it -/

theorem buildStack_none (isPushed : pushArgs dir argv top [] ram = .ok (none, ram')) :
    buildStack dir argv top ram = .ok (none, ram') := by
  rw [buildStack, isPushed]
  rfl

theorem buildStack_some {returned : Int}
    (isPushed : pushArgs dir argv top [] ram = .ok (some (sp, pointers), ram'))
    (isEsp : (sp + UINT - (3 + pointers.length + 1) * 4) % UINT = esp)
    (isCopied : copyout dir ram' esp (wordBytes (ustack sp pointers)) = .ok (returned, ram'')) :
    buildStack dir argv top ram =
      if returned < 0 then .ok (none, ram'') else .ok (some esp, ram'') := by
  rw [buildStack, isPushed]
  change (copyout dir ram' _ _ >>= _) = _
  rw [isEsp, isCopied]
  rfl

/-- The strings and the words below them fit into the stack page. -/
def ArgsFit (top : Nat) (argv : List CString) : Prop :=
  ∃ sp, belowStrings (top - PGSIZE) 0 argv top = some sp ∧
    top - PGSIZE + 4 * (argv.length + 4) ≤ sp

/-- `exec` builds the stack, or gives up, unless a string wraps around to where there is no
page table. -/
theorem buildStack_spec (stacked : Stacked layout dir top) (argv : List CString)
    (ram : ByteMemory) :
    (NullPush (top - PGSIZE) 0 argv top → buildStack dir argv top ram = .error .nullEntry) ∧
    (¬ NullPush (top - PGSIZE) 0 argv top → ∃ stack ram',
      buildStack dir argv top ram = .ok (stack, ram') ∧ SameOthers dir ram ram' ∧
        (stack.isSome = true ↔ ArgsFit top argv) ∧
        ∀ esp, stack = some esp → ∃ sp pointers, argv.length ≤ MAXARG ∧
          Frame layout dir ram' top sp esp argv pointers ∧ ∀ addr < KERNBASE,
            (∀ write ∈ stackWrites argv pointers sp esp,
              addr < write.1 ∨ write.1 + write.2.length ≤ addr) →
            dir.byte ram' addr = dir.byte ram addr) := by
  have room := stacked.room
  have user := stacked.user
  obtain ⟨null, fine⟩ := @pushArgs_spec _ _ top top ram [] stacked argv (Nat.sub_le top PGSIZE)
    (le_refl top) (Nat.zero_le _)
  refine ⟨?_, ?_⟩
  · intro isNull
    rw [buildStack, null isNull]
    rfl
  · intro noNull
    obtain ⟨pushes, ram1, isPushed, same, isBelow, done⟩ := fine noNull
    cases pushes with
    | none =>
        refine ⟨none, ram1, buildStack_none isPushed, same, iff_of_false nofun ?_, nofun⟩
        rintro ⟨sp, isSp, -⟩
        cases isBelow.trans isSp
    | some pushed =>
        obtain ⟨sp, pointers⟩ := pushed
        obtain ⟨added, isAdded, few, pushes⟩ := done sp pointers rfl
        obtain rfl : pointers = added := isAdded
        have count := pushes.count
        have lower := pushes.lower
        have upper := pushes.upper
        have length : (wordBytes (ustack sp pointers)).length = 4 * (pointers.length + 4) := by
          rw [length_wordBytes, length_ustack]
        have isFit : ArgsFit top argv ↔ top - PGSIZE + 4 * (argv.length + 4) ≤ sp := by
          unfold ArgsFit
          rw [← show some sp = belowStrings (top - PGSIZE) 0 argv top from isBelow]
          constructor
          · rintro ⟨_, ⟨⟩, fits⟩
            exact fits
          · exact fun fits => ⟨sp, rfl, fits⟩
        have nonempty : wordBytes (ustack sp pointers) ≠ [] := by
          apply List.ne_nil_of_length_pos
          omega
        have isEsp : (sp + UINT - (3 + pointers.length + 1) * 4) % UINT =
            sp - 4 * (pointers.length + 4) := by
          have whole : sp + UINT - (3 + pointers.length + 1) * 4 =
              sp - 4 * (pointers.length + 4) + UINT := by
            simp only [PGSIZE, MAXARG] at *
            omega
          rw [whole, Nat.add_mod_right, Nat.mod_eq_of_lt]
          simp only [UINT, KERNBASE] at *
          omega
        generalize isPlace : sp - 4 * (pointers.length + 4) = esp at isEsp
        have block : esp + 4 * (pointers.length + 4) = sp := by
          simp only [PGSIZE, MAXARG] at *
          omega
        rcases Nat.lt_or_ge esp (top - PGSIZE) with below | above
        · obtain ⟨ram2, isCopied, same2⟩ :=
            @Stacked.copyout_misses _ _ _ _ ram1 _ stacked nonempty below
              (by rw [length]; simp only [PGSIZE] at *; omega)
          refine ⟨none, ram2, buildStack_some isPushed isEsp isCopied, same.trans same2,
            iff_of_false nofun ?_, nofun⟩
          rw [isFit]
          omega
        · obtain ⟨ram2, isCopied, placed⟩ :=
            @Stacked.copyout_fits _ _ _ _ ram1 _ stacked nonempty above (by rw [length]; omega)
          refine ⟨some esp, ram2, buildStack_some isPushed isEsp isCopied,
            same.trans placed.pages, iff_of_true rfl (isFit.mpr (by omega)), ?_⟩
          rintro _ ⟨⟩
          have all : Placed dir ram ram2 (stackWrites argv pointers sp esp) := by
            apply pushes.placed.append placed
            · intro write member
              have := (pushes.descends.mem write member).2
              omega
            · intro write member other isOther
              have := (pushes.descends.mem write member).1
              rw [List.mem_singleton.mp isOther]
              simp only
              omega
          have descends : Descends (top - PGSIZE) top (stackWrites argv pointers sp esp) :=
            pushes.descends.append above (by simp only; omega) upper
          exact ⟨sp, pointers, count ▸ few, ⟨stacked, count, block, descends, all.bytes⟩, all.others⟩

end Coursework.Exec
