import Coursework.LoadedImage

/-!
# Pushing the arguments

The stack of a new program is one page, with a guard page below it that users may not use.
A copy that starts in the stack page and fits is made there.  One that starts lower reaches
the guard page and is refused.  A string that is longer than the stack pointer is high wraps
around to the kernel's part, where it is refused as well, or where there is no page table.
-/

namespace Coursework.Exec

open Paging

variable {layout : Layout} {dir : Dir} {top va sp : Nat} {ram ram' ram'' : ByteMemory}
  {bytes : List UInt8} {pointers : List Nat}

/-- The kernel's addresses without a page table. -/
def Gap (va : Nat) : Prop := KERNBASE + PHYSTOP ≤ va ∧ va < DEVSPACE

/-- An address space with a guard page and a stack page at its end. -/
structure Stacked (layout : Layout) (dir : Dir) (top : Nat) : Prop where
  built : Built layout dir
  aligned : top % PGSIZE = 0
  room : 2 * PGSIZE ≤ top
  user : top < KERNBASE
  present : ∀ page < top / PGSIZE, (dir.pte page).isSome = true
  guard : dir.userFrame (top / PGSIZE - 2) = none
  stack : (dir.userFrame (top / PGSIZE - 1)).isSome = true
  kernel : ∀ va, KERNBASE ≤ va → va < UINT → ((dir.table (va / PGSIZE)).isSome = true ↔ ¬ Gap va)

/-! ## What copies leave -/

/-- The bytes are at their addresses, one range after the other, and all else is as it
was. -/
structure Placed (dir : Dir) (ram ram' : ByteMemory) (writes : List (Nat × List UInt8)) :
    Prop where
  bytes : ∀ write ∈ writes, ∀ i < write.2.length,
    dir.byte ram' (write.1 + i) = some (write.2.getD i 0)
  others : ∀ addr < KERNBASE,
    (∀ write ∈ writes, addr < write.1 ∨ write.1 + write.2.length ≤ addr) →
      dir.byte ram' addr = dir.byte ram addr
  pages : SameOthers dir ram ram'

/-- The ranges lie one below the other. -/
def Descends (lower : Nat) : Nat → List (Nat × List UInt8) → Prop
  | _, [] => True
  | upper, write :: rest => lower ≤ write.1 ∧ write.1 + write.2.length ≤ upper ∧
      Descends lower write.1 rest

theorem Descends.mem {lower upper : Nat} {writes : List (Nat × List UInt8)}
    (descends : Descends lower upper writes) :
    ∀ write ∈ writes, lower ≤ write.1 ∧ write.1 + write.2.length ≤ upper := by
  induction writes generalizing upper with
  | nil => nofun
  | cons first rest ih =>
      obtain ⟨isLower, isUpper, later⟩ := descends
      intro write member
      rcases List.mem_cons.mp member with rfl | isLater
      · exact ⟨isLower, isUpper⟩
      · obtain ⟨lowerLater, upperLater⟩ := ih later write isLater
        exact ⟨lowerLater, by omega⟩

theorem Descends.pairwise {lower upper : Nat} {writes : List (Nat × List UInt8)}
    (descends : Descends lower upper writes) :
    writes.Pairwise fun first second => second.1 + second.2.length ≤ first.1 := by
  induction writes generalizing upper with
  | nil => exact List.Pairwise.nil
  | cons first rest ih =>
      obtain ⟨-, -, later⟩ := descends
      exact List.pairwise_cons.mpr ⟨fun write member => (later.mem write member).2, ih later⟩

theorem Descends.append {lower middle upper : Nat} {writes : List (Nat × List UInt8)}
    {last : Nat × List UInt8} (descends : Descends middle upper writes)
    (isLower : lower ≤ last.1) (isUpper : last.1 + last.2.length ≤ middle)
    (order : middle ≤ upper) : Descends lower upper (writes ++ [last]) := by
  induction writes generalizing upper with
  | nil => exact ⟨isLower, isUpper.trans order, trivial⟩
  | cons first rest ih =>
      obtain ⟨isMiddle, isFirst, later⟩ := descends
      exact ⟨by omega, isFirst, ih later isMiddle⟩

theorem Placed.nil (dir : Dir) (ram : ByteMemory) : Placed dir ram ram [] :=
  ⟨nofun, fun _ _ _ => rfl, SameOthers.refl dir ram⟩

/-- Copies below other copies leave them. -/
theorem Placed.append {writes more : List (Nat × List UInt8)}
    (first : Placed dir ram ram' writes) (second : Placed dir ram' ram'' more)
    (user : ∀ write ∈ writes, write.1 + write.2.length ≤ KERNBASE)
    (below : ∀ write ∈ writes, ∀ other ∈ more, other.1 + other.2.length ≤ write.1) :
    Placed dir ram ram'' (writes ++ more) := by
  refine ⟨?_, ?_, first.pages.trans second.pages⟩
  · intro write member i inside
    rcases List.mem_append.mp member with early | late
    · rw [← first.bytes write early i inside]
      apply second.others
      · have := user write early
        omega
      · intro other isLate
        have := below write early other isLate
        omega
    · exact second.bytes write late i inside
  · intro addr userAddr outside
    rw [second.others addr userAddr fun write member =>
        outside write (List.mem_append_right _ member),
      first.others addr userAddr fun write member =>
        outside write (List.mem_append_left _ member)]

/-! ## Copies to a stack -/

theorem entry_of_userFrame {page : Nat} {frame : Frame}
    (isFrame : dir.userFrame page = some frame) :
    ∃ pte, dir.pte page = some pte ∧ pte.frame = frame := by
  obtain ⟨pte, isPte, isUser⟩ := Option.bind_eq_some_iff.mp isFrame
  exact ⟨pte, isPte, Option.some.inj (Option.ite_none_right_eq_some.mp isUser).2⟩

/-- What was written through page tables of users is on user pages. -/
theorem sameOthers_of_wrote (wrote : Wrote dir ram ram' va bytes) : SameOthers dir ram ram' := by
  intro frame other offset inside
  apply wrote.others
  intro i within isPhysical
  obtain ⟨used, isFrame, isPlace⟩ := Option.map_eq_some_iff.mp isPhysical
  obtain ⟨pte, isPte, rfl⟩ := entry_of_userFrame isFrame
  have apart := Memory.pages_disjoint (other _ (page_lt (wrote.user i within)) pte isPte).symm
    inside
  have room := offset_lt (va + i)
  omega

namespace Stacked

theorem page_of_stack (stacked : Stacked layout dir top) (lower : top - PGSIZE ≤ va)
    (upper : va < top) : va / PGSIZE = top / PGSIZE - 1 := by
  have := stacked.aligned
  simp only [PGSIZE] at *
  omega

/-- A copy that fits into the stack page. -/
theorem copyout_fits (stacked : Stacked layout dir top) (nonempty : bytes ≠ [])
    (lower : top - PGSIZE ≤ va) (upper : va + bytes.length ≤ top) :
    ∃ ram', copyout dir ram va bytes = .ok (0, ram') ∧ Placed dir ram ram' [(va, bytes)] := by
  have positive := List.length_pos_of_ne_nil nonempty
  have user : va < KERNBASE := by
    have := stacked.user
    omega
  have isPage := stacked.page_of_stack lower (by omega)
  obtain ⟨frame, isFrame⟩ := Option.isSome_iff_exists.mp stacked.stack
  rw [← isPage] at isFrame
  obtain ⟨pte, isPte, rfl⟩ := entry_of_userFrame isFrame
  have table : (dir.table (va / PGSIZE)).isSome = true :=
    table_of_userFrame (by rw [isFrame]; rfl)
  have fits : va % PGSIZE + bytes.length ≤ PGSIZE := by
    have := stacked.aligned
    simp only [PGSIZE] at *
    omega
  have isPart : min (PGSIZE - va % PGSIZE) bytes.length = bytes.length := by omega
  refine ⟨ram.store (pageStart pte.frame + va % PGSIZE) bytes, ?_, ?_, ?_, ?_⟩
  · rw [copyout, if_neg nonempty, uva2ka_eq, if_pos table, isFrame]
    simp only
    rw [isPart, List.take_length, List.drop_length, copyout, if_pos rfl]
  · intro write member i inside
    obtain rfl := List.mem_singleton.mp member
    simp only at inside ⊢
    rw [byte_store stacked.built.distinct user isPte fits (by have := stacked.user; omega),
      if_pos (by omega), Nat.add_sub_cancel_left]
  · intro addr userAddr outside
    have apart := outside _ (List.mem_singleton_self _)
    simp only at apart
    rw [byte_store stacked.built.distinct user isPte fits userAddr, if_neg (by omega)]
  · exact sameOthers_store (page_lt user) isPte fits

/-- A copy that starts below the stack page and reaches the guard page is refused. -/
theorem copyout_misses (stacked : Stacked layout dir top) (nonempty : bytes ≠ [])
    (lower : va < top - PGSIZE) (upper : top - 2 * PGSIZE < va + bytes.length) :
    ∃ ram', copyout dir ram va bytes = .ok (-1, ram') ∧ SameOthers dir ram ram' := by
  have positive := List.length_pos_of_ne_nil nonempty
  have aligned := stacked.aligned
  have room := stacked.room
  have user := stacked.user
  have guarded : ∀ addr, top - 2 * PGSIZE ≤ addr → addr < top - PGSIZE →
      addr / PGSIZE = top / PGSIZE - 2 := by
    intro addr isLower isUpper
    simp only [PGSIZE] at *
    omega
  have tabled : Tabled dir va bytes.length := by
    intro _ page isLower isUpper earlier
    have below : page < top / PGSIZE := by
      by_contra above
      have usable := earlier (top / PGSIZE - 2)
        (by simp only [PGSIZE] at *; omega) (by simp only [PGSIZE] at *; omega)
      rw [stacked.guard] at usable
      cases usable
    obtain ⟨pte, isPte⟩ := Option.isSome_iff_exists.mp (stacked.present page below)
    obtain ⟨table, isTable, -⟩ := Option.bind_eq_some_iff.mp isPte
    rw [isTable]
    rfl
  obtain ⟨returned, ram', isCopied, ⟨rfl, wrote⟩ | ⟨rfl, k, -, wrote⟩⟩ :=
    @copyout_tabled _ _ ram _ _ stacked.built (by simp only [UINT, KERNBASE] at *; omega) tabled
  · exfalso
    obtain ⟨a, isPhysical, -⟩ := wrote.written (max va (top - 2 * PGSIZE) - va) (by omega)
    have place : va + (max va (top - 2 * PGSIZE) - va) = max va (top - 2 * PGSIZE) := by omega
    rw [place, Dir.physical, guarded _ (le_max_right _ _) (by simp only [PGSIZE] at *; omega),
      stacked.guard] at isPhysical
    cases isPhysical
  · exact ⟨ram', isCopied, sameOthers_of_wrote wrote⟩

/-- A copy to the kernel's part is refused where there is a page table. -/
theorem copyout_kernel (stacked : Stacked layout dir top) (nonempty : bytes ≠ [])
    (lower : KERNBASE ≤ va) (upper : va < UINT) (tabled : ¬ Gap va) :
    copyout dir ram va bytes = .ok (-1, ram) := by
  have notUser : dir.userFrame (va / PGSIZE) = none := by
    by_contra usable
    have isUser := stacked.built.user_of_userFrame
      (by simp only [ALLPAGES, UINT, PGSIZE] at *; omega) (Option.isSome_iff_ne_none.mpr usable)
    have isAddr := user_of_page isUser
    omega
  rw [copyout, if_neg nonempty, uva2ka_eq, if_pos ((stacked.kernel va lower upper).mpr tabled),
    notUser]

/-- A copy to where there is no page table reads an entry through a null pointer. -/
theorem copyout_gap (stacked : Stacked layout dir top) (nonempty : bytes ≠ []) (gap : Gap va) :
    copyout dir ram va bytes = .error .nullEntry := by
  have lower : KERNBASE ≤ va := (Nat.le_add_right _ _).trans gap.1
  have upper : va < UINT := gap.2.trans (by decide)
  have missing : ¬ (dir.table (va / PGSIZE)).isSome = true :=
    fun table => (stacked.kernel va lower upper).mp table gap
  rw [copyout, if_neg nonempty, uva2ka_eq, if_neg missing]

end Stacked

/-! ## The loop -/

/-- The bytes of a string with the zero that ends it. -/
def CString.terminated (arg : CString) : List UInt8 := arg.bytes ++ [0]

theorem CString.length_terminated (arg : CString) :
    arg.terminated.length = arg.bytes.length + 1 := by
  rw [CString.terminated, List.length_append]
  rfl

theorem CString.terminated_ne (arg : CString) : arg.terminated ≠ [] := by
  apply List.ne_nil_of_length_pos
  rw [arg.length_terminated]
  exact Nat.succ_pos _

/-- Where a string goes, on the stack or wrapped around to the kernel's part. -/
theorem pushed_cases {length : Nat} (short : length < KERNBASE) (user : sp < KERNBASE) :
    pushed sp length + (length + 1) ≤ sp ∧ sp < pushed sp length + (length + 1) + 4 ∨
      sp < length + 1 ∧ KERNBASE ≤ pushed sp length ∧ pushed sp length < UINT := by
  simp only [pushed, UINT, KERNBASE] at *
  omega

/-- A string that `exec` pushes wraps around to where there is no page table. -/
def NullPush (bottom : Nat) : Nat → List CString → Nat → Prop
  | _, [], _ => False
  | argc, arg :: rest, sp =>
      argc < MAXARG ∧ (Gap (pushed sp arg.bytes.length) ∨
        bottom ≤ pushed sp arg.bytes.length ∧ pushed sp arg.bytes.length < KERNBASE ∧
          NullPush bottom (argc + 1) rest (pushed sp arg.bytes.length))

/-- The stack pointer below the strings, if they fit into the stack page. -/
def belowStrings (bottom : Nat) : Nat → List CString → Nat → Option Nat
  | _, [], sp => some sp
  | argc, arg :: rest, sp =>
      let va := pushed sp arg.bytes.length
      if argc < MAXARG ∧ bottom ≤ va ∧ va < KERNBASE then belowStrings bottom (argc + 1) rest va
      else none

/-- The strings and their places. -/
def stringWrites (argv : List CString) (pointers : List Nat) : List (Nat × List UInt8) :=
  pointers.zip (argv.map CString.terminated)

/-- All strings are on the stack, one below the other. -/
structure Pushes (dir : Dir) (argv : List CString) (top sp : Nat) (ram : ByteMemory)
    (sp' : Nat) (pointers : List Nat) (ram' : ByteMemory) : Prop where
  count : pointers.length = argv.length
  lower : top - PGSIZE ≤ sp'
  upper : sp' ≤ sp
  descends : Descends sp' sp (stringWrites argv pointers)
  placed : Placed dir ram ram' (stringWrites argv pointers)

theorem pushArgs_cons {arg : CString} {rest : List CString} {returned : Int}
    (room : pointers.length < MAXARG)
    (isCopied : copyout dir ram (pushed sp arg.bytes.length) arg.terminated = .ok (returned, ram')) :
    pushArgs dir (arg :: rest) sp pointers ram =
      if returned < 0 then .ok (none, ram')
      else pushArgs dir rest (pushed sp arg.bytes.length)
        (pointers ++ [pushed sp arg.bytes.length]) ram' := by
  rw [CString.terminated] at isCopied
  rw [pushArgs, if_neg (by omega)]
  simp only [isCopied]
  rfl

/-- The loop over the arguments reads a null pointer exactly if a string wraps around to
where there is no page table; otherwise it gives up, or all strings are on the stack. -/
theorem pushArgs_spec (stacked : Stacked layout dir top) (argv : List CString)
    (lower : top - PGSIZE ≤ sp) (upper : sp ≤ top) (count : pointers.length ≤ MAXARG) :
    (NullPush (top - PGSIZE) pointers.length argv sp →
      pushArgs dir argv sp pointers ram = .error .nullEntry) ∧
    (¬ NullPush (top - PGSIZE) pointers.length argv sp → ∃ pushes ram',
      pushArgs dir argv sp pointers ram = .ok (pushes, ram') ∧ SameOthers dir ram ram' ∧
        pushes.map Prod.fst = belowStrings (top - PGSIZE) pointers.length argv sp ∧
        ∀ sp' pointers', pushes = some (sp', pointers') → ∃ added,
          pointers' = pointers ++ added ∧ pointers'.length ≤ MAXARG ∧
            Pushes dir argv top sp ram sp' added ram') := by
  induction argv generalizing sp pointers ram with
  | nil =>
      refine ⟨False.elim, fun _ => ⟨_, ram, rfl, SameOthers.refl dir ram, rfl, ?_⟩⟩
      rintro _ _ ⟨⟩
      exact ⟨[], (List.append_nil _).symm, count, rfl, lower, le_refl _, trivial,
        Placed.nil dir ram⟩
  | cons arg rest ih =>
      have user := stacked.user
      rcases Nat.lt_or_ge pointers.length MAXARG with room | full
      · have place := pushed_cases arg.short (show sp < KERNBASE by omega)
        generalize isPlace : pushed sp arg.bytes.length = va at place
        have length := arg.length_terminated
        have nonempty := arg.terminated_ne
        have refused : ∀ ram1, copyout dir ram va arg.terminated = .ok (-1, ram1) →
            pushArgs dir (arg :: rest) sp pointers ram = .ok (none, ram1) := by
          intro ram1 isCopied
          rw [← isPlace] at isCopied
          exact pushArgs_cons room isCopied
        rcases place with ⟨fits, next⟩ | ⟨-, kernel, inside⟩
        · have noGap : ¬ Gap va := fun gap => by
            have := gap.1
            omega
          rcases Nat.lt_or_ge va (top - PGSIZE) with below | above
          · have reaches : top - 2 * PGSIZE < va + arg.terminated.length := by
              have := stacked.room
              rw [length]
              simp only [PGSIZE] at *
              omega
            obtain ⟨ram1, isCopied, same⟩ :=
              @Stacked.copyout_misses _ _ _ _ ram _ stacked nonempty below reaches
            have noRoom : belowStrings (top - PGSIZE) pointers.length (arg :: rest) sp = none := by
              simp only [belowStrings, isPlace]
              exact if_neg fun fits => by omega
            refine ⟨?_, fun _ => ⟨none, ram1, refused ram1 isCopied, same, noRoom.symm, (by simp)⟩⟩
            rintro ⟨-, gap | ⟨isAbove, -⟩⟩
            · exact (noGap (isPlace ▸ gap)).elim
            · omega
          · obtain ⟨ram1, isCopied, placed⟩ :=
              @Stacked.copyout_fits _ _ _ _ ram _ stacked nonempty above (by omega)
            have isNext : pushArgs dir (arg :: rest) sp pointers ram =
                pushArgs dir rest va (pointers ++ [va]) ram1 := by
              rw [← isPlace] at isCopied ⊢
              exact pushArgs_cons room isCopied
            have isLength : (pointers ++ [va]).length = pointers.length + 1 :=
              List.length_append
            have later := @ih va ram1 (pointers ++ [va]) above (by omega) (by omega)
            rw [isLength] at later
            have isNull : NullPush (top - PGSIZE) pointers.length (arg :: rest) sp ↔
                NullPush (top - PGSIZE) (pointers.length + 1) rest va := by
              rw [NullPush, isPlace]
              constructor
              · rintro ⟨-, gap | ⟨-, -, null⟩⟩
                · exact (noGap gap).elim
                · exact null
              · exact fun null => ⟨room, Or.inr ⟨above, by omega, null⟩⟩
            have isBelow : belowStrings (top - PGSIZE) pointers.length (arg :: rest) sp =
                belowStrings (top - PGSIZE) (pointers.length + 1) rest va := by
              simp only [belowStrings, isPlace]
              exact if_pos ⟨room, above, by omega⟩
            rw [isNull, isNext, isBelow]
            refine ⟨later.1, ?_⟩
            intro noNull
            obtain ⟨pushes, ram2, isPushed, same, isFirst, done⟩ := later.2 noNull
            refine ⟨pushes, ram2, isPushed, placed.pages.trans same, isFirst, ?_⟩
            intro sp' pointers' isDone
            obtain ⟨added, isAdded, few, pushed_⟩ := done sp' pointers' isDone
            refine ⟨va :: added, ?_, few, ?_, pushed_.lower, ?_, ?_, ?_⟩
            · rw [isAdded, List.append_assoc]
              rfl
            · rw [List.length_cons, List.length_cons, pushed_.count]
            · have := pushed_.upper
              omega
            · exact ⟨pushed_.upper, by simp only; omega, pushed_.descends⟩
            · apply placed.append pushed_.placed
              · intro write member
                rw [List.mem_singleton.mp member]
                simp only
                omega
              · intro write member other isLater
                rw [List.mem_singleton.mp member]
                exact (pushed_.descends.mem other isLater).2
        · by_cases gap : Gap va
          · refine ⟨fun _ => ?_, fun noNull => ?_⟩
            · have isError := @Stacked.copyout_gap _ _ _ _ ram _ stacked nonempty gap
              rw [← isPlace, CString.terminated] at isError
              rw [pushArgs, if_neg (by omega)]
              simp only [isError]
              rfl
            · exact (noNull ⟨room, Or.inl (isPlace ▸ gap)⟩).elim
          · have isCopied := @Stacked.copyout_kernel _ _ _ _ ram _ stacked nonempty kernel inside gap
            have noRoom : belowStrings (top - PGSIZE) pointers.length (arg :: rest) sp = none := by
              simp only [belowStrings, isPlace]
              exact if_neg fun fits => by omega
            refine ⟨?_, fun _ =>
              ⟨none, ram, refused ram isCopied, SameOthers.refl dir ram, noRoom.symm, (by simp)⟩⟩
            rintro ⟨-, isGap | ⟨-, isUser, -⟩⟩
            · exact (gap (isPlace ▸ isGap)).elim
            · omega
      · have noRoom : belowStrings (top - PGSIZE) pointers.length (arg :: rest) sp = none :=
          if_neg fun fits => by omega
        refine ⟨fun null => by have := null.1; omega, fun _ =>
          ⟨none, ram, ?_, SameOthers.refl dir ram, noRoom.symm, (by simp)⟩⟩
        rw [pushArgs, if_pos full]

end Coursework.Exec
