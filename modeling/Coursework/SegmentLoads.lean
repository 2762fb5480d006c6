import Coursework.ExecCall

/-!
# Loading a segment

`loaduvm` copies the bytes of a segment to the pages of its addresses, page by page.  Where
all of these are mapped for the user, it does not panic and writes to their pages only; and
it succeeds exactly if all bytes of the segment are in the file.
-/

namespace Coursework.Exec

open Paging

/-! ## Reads -/

variable {content : List UInt8} {off n size : Nat}

/-- A read that is not cut off. -/
theorem readi_whole (fits : off + n ≤ content.length) (noWrap : off + n < UINT) :
    readi content off n = some ((content.drop off).take n) := by
  rw [readi, if_neg, if_neg (by omega)]
  rw [Nat.mod_eq_of_lt noWrap]
  omega

/-- A read that yields all the bytes that it asks for. -/
theorem fits_of_readi {bytes : List UInt8} (isRead : readi content off n = some bytes)
    (whole : bytes.length = n) (offInside : off < UINT) (nInside : n < UINT) :
    off + n ≤ content.length ∧ off + n < UINT := by
  unfold readi at isRead
  split at isRead
  · cases isRead
  · next valid =>
      have isBytes := Option.some.inj isRead
      have noWrap : off + n < UINT := by
        by_contra wraps
        have isWrapped : (off + n) % UINT = off + n - UINT := by
          rw [Nat.mod_eq_sub_mod (Nat.not_lt.mp wraps), Nat.mod_eq_of_lt (by omega)]
        omega
      refine ⟨?_, noWrap⟩
      have length := congrArg List.length isBytes
      rw [List.length_take, List.length_drop, whole] at length
      omega

theorem length_readi {bytes : List UInt8} (isRead : readi content off n = some bytes) :
    bytes.length ≤ n := by
  unfold readi at isRead
  split at isRead
  · cases isRead
  · rw [← Option.some.inj isRead, List.length_take]
    split <;> omega

theorem getD_part {i : Nat} (inside : i < n) :
    ((content.drop off).take n).getD i 0 = content.getD (off + i) 0 := by
  simp only [List.getD_eq_getElem?_getD, List.getElem?_take_of_lt inside, List.getElem?_drop]

theorem field_lt (bytes : List UInt8) (start size : Nat) : field bytes start size < 256 ^ size := by
  apply (LittleEndian.ofBytes_lt _).trans_le
  apply Nat.pow_le_pow_right (by decide)
  rw [List.length_take]
  exact Nat.min_le_left ..

theorem word_lt (bytes : List UInt8) (start : Nat) : field bytes start 4 < UINT :=
  field_lt bytes start 4

/-- The fields of a program header are words. -/
structure Proghdr.Words (ph : Proghdr) : Prop where
  off : ph.off < UINT
  vaddr : ph.vaddr < UINT
  filesz : ph.filesz < UINT
  memsz : ph.memsz < UINT

theorem readProghdr_words {ph : Proghdr} (isRead : readProghdr content off = some ph) :
    ph.Words := by
  obtain ⟨bytes, -, rfl⟩ := Option.map_eq_some_iff.mp isRead
  exact ⟨word_lt .., word_lt .., word_lt .., word_lt ..⟩

/-! ## Stores to user pages -/

/-- Different user pages are different pages of memory. -/
def Separate (dir : Dir) : Prop :=
  ∀ first < USERPAGES, ∀ second < USERPAGES, ∀ pte pte', first ≠ second →
    dir.pte first = some pte → dir.pte second = some pte' → pte.frame ≠ pte'.frame

theorem Separate.of_sole {layout : Layout} {freelist : Freelist} {dir : Dir}
    (sole : Sole layout freelist dir) : Separate dir :=
  fun _ firstUser _ secondUser _ _ distinct isFirst isSecond =>
    sole.frame_ne distinct firstUser secondUser isFirst isSecond

variable {dir : Dir} {ram : ByteMemory}

/-- What user addresses hold after a store to one page. -/
theorem byte_store (separate : Separate dir) {va : Nat} (user : va < KERNBASE) {pte : Pte}
    (isPte : dir.pte (va / PGSIZE) = some pte) {bytes : List UInt8}
    (fits : va % PGSIZE + bytes.length ≤ PGSIZE) {addr : Nat} (userAddr : addr < KERNBASE) :
    dir.byte (ram.store (pageStart pte.frame + va % PGSIZE) bytes) addr =
      if va ≤ addr ∧ addr < va + bytes.length then some (bytes.getD (addr - va) 0)
      else dir.byte ram addr := by
  have room := offset_lt addr
  have place := Nat.div_add_mod addr PGSIZE
  have start := Nat.div_add_mod va PGSIZE
  by_cases here : addr / PGSIZE = va / PGSIZE
  · rw [here] at place
    have range : (va ≤ addr ∧ addr < va + bytes.length) ↔
        va % PGSIZE ≤ addr % PGSIZE ∧ addr % PGSIZE < va % PGSIZE + bytes.length := by
      omega
    rw [Dir.byte, Dir.byte, here, isPte]
    simp only [range, Option.map_some]
    split
    · next inside =>
        rw [ByteMemory.store_inside (by omega) (by omega)]
        congr 2
        omega
    · next outside =>
        rw [ByteMemory.store_outside (by omega)]
  · rw [if_neg]
    · apply Dir.byte_eq rfl
      intro other isOther
      apply Memory.samePage_store ram
      · exact separate _ (page_lt userAddr) _ (page_lt user) other pte here isOther isPte
      · exact Nat.le_add_right _ _
      · omega
    · rintro ⟨lower, upper⟩
      apply here
      apply Nat.div_eq_of_lt_le
      · rw [Nat.mul_comm]
        omega
      · rw [Nat.succ_mul, Nat.mul_comm]
        omega

/-- Pages that are not user pages of a page directory have the same bytes. -/
def SameOthers (dir : Dir) (ram ram' : ByteMemory) : Prop :=
  ∀ frame, (∀ page < USERPAGES, ∀ pte, dir.pte page = some pte → pte.frame ≠ frame) →
    Memory.SamePage ram ram' frame

theorem SameOthers.refl (dir : Dir) (ram : ByteMemory) : SameOthers dir ram ram :=
  fun _ _ _ _ => rfl

theorem SameOthers.trans {ram' ram'' : ByteMemory} (first : SameOthers dir ram ram')
    (second : SameOthers dir ram' ram'') : SameOthers dir ram ram'' :=
  fun frame other => (first frame other).trans (second frame other)

/-- A store to a user page leaves all other pages. -/
theorem sameOthers_store {page : Nat} (user : page < USERPAGES) {pte : Pte}
    (isPte : dir.pte page = some pte) {offset : Nat} {bytes : List UInt8}
    (fits : offset + bytes.length ≤ PGSIZE) :
    SameOthers dir ram (ram.store (pageStart pte.frame + offset) bytes) :=
  fun _ other => Memory.samePage_store ram (other page user pte isPte).symm
    (Nat.le_add_right _ _) (by omega)

/-! ## The loop -/

/-- What `loaduvm` has done from an offset in the segment on. -/
structure Loads (content : List UInt8) (dir : Dir) (addr offset sz i : Nat) (ram : ByteMemory)
    (needed : Prop) (result : Bool × ByteMemory) : Prop where
  loaded : result.1 = true ↔ (needed → offset + sz ≤ content.length ∧ offset + sz < UINT)
  bytes : result.1 = true → ∀ a < KERNBASE, dir.byte result.2 a =
    if addr + i ≤ a ∧ a < addr + sz then some (content.getD (offset + (a - addr)) 0)
    else dir.byte ram a
  others : SameOthers dir ram result.2

theorem loadPages_spec {addr offset sz : Nat} (separate : Separate dir)
    (aligned : addr % PGSIZE = 0) (user : addr + sz < KERNBASE) (count : Nat) {i : Nat}
    (mapped : ∀ page, (addr + i) / PGSIZE ≤ page → page * PGSIZE < addr + sz →
      (dir.pte page).isSome = true)
    (pageStarts : i % PGSIZE = 0) (left : i / PGSIZE + count = pagesBelow sz)
    (reached : 0 < count → offset + i < UINT) :
    Outcome (fun _ => False) (Loads content dir addr offset sz i ram (0 < count))
      (loadPages content dir addr offset sz count i ram) := by
  induction count generalizing i ram with
  | zero =>
      refine ⟨iff_of_true rfl fun impossible => by omega, ?_, SameOthers.refl dir ram⟩
      intro _ a _
      rw [if_neg]
      simp only [pagesBelow, PGSIZE] at *
      omega
  | succ count ih =>
      have before : i < sz := by
        simp only [pagesBelow, PGSIZE] at *
        omega
      have isAddr : (addr + i) % UINT = addr + i := by
        apply Nat.mod_eq_of_lt
        simp only [UINT, KERNBASE] at *
        omega
      have isOffset := Nat.mod_eq_of_lt (reached (Nat.succ_pos count))
      have startsPage : (addr + i) % PGSIZE = 0 := by
        rw [Nat.add_mod, aligned, pageStarts]
        rfl
      have userPage : (addr + i) / PGSIZE < USERPAGES := page_lt (by omega)
      have present := mapped ((addr + i) / PGSIZE) (le_refl _)
        ((Nat.div_mul_le_self _ _).trans_lt (by omega))
      obtain ⟨pte, isPte⟩ := Option.isSome_iff_exists.mp present
      obtain ⟨table, isTable, isEntry⟩ := Option.bind_eq_some_iff.mp isPte
      unfold loadPages
      rw [isAddr, isOffset]
      simp only [isTable, isEntry, if_neg (Nat.not_le.mpr userPage)]
      generalize isCount : (if sz - i < PGSIZE then sz - i else PGSIZE) = n
      have isMin : n = min (sz - i) PGSIZE := by
        rw [← isCount]
        split <;> omega
      have bounds : 0 < n ∧ n ≤ PGSIZE ∧ i + n ≤ sz ∧ (n = PGSIZE ∨ i + n = sz ∧ count = 0) := by
        simp only [pagesBelow, PGSIZE] at left pageStarts isMin ⊢
        omega
      obtain ⟨positive, atMost, within, lastPage⟩ := bounds
      have nInside : n < UINT := atMost.trans_lt (by decide)
      have starts := reached (Nat.succ_pos count)
      have fails : (offset + sz ≤ content.length ∧ offset + sz < UINT) →
          readi content (offset + i) n = some ((content.drop (offset + i)).take n) ∧
            ((content.drop (offset + i)).take n).length = n := by
        rintro ⟨fits, noWrap⟩
        refine ⟨readi_whole (by omega) (by omega), ?_⟩
        rw [List.length_take, List.length_drop]
        omega
      cases isRead : readi content (offset + i) n with
      | none =>
          refine ⟨iff_of_false (by simp) ?_, (by simp), SameOthers.refl dir ram⟩
          intro inFile
          have isWhole := (fails (inFile (Nat.succ_pos count))).1
          rw [isRead] at isWhole
          cases isWhole
      | some bytes =>
          have short := (length_readi isRead).trans atMost
          have fitsPage : (addr + i) % PGSIZE + bytes.length ≤ PGSIZE := by
            rw [startsPage, Nat.zero_add]
            exact short
          have atStart : pageStart pte.frame = pageStart pte.frame + (addr + i) % PGSIZE := by
            rw [startsPage, Nat.add_zero]
          rw [atStart]
          have others : SameOthers dir ram
              (ram.store (pageStart pte.frame + (addr + i) % PGSIZE) bytes) :=
            sameOthers_store userPage isPte fitsPage
          simp only
          split
          · next partly =>
              refine ⟨iff_of_false (by simp) ?_, (by simp), ?_⟩
              · intro inFile
                obtain ⟨isWhole, length⟩ := fails (inFile (Nat.succ_pos count))
                rw [isRead] at isWhole
                rw [← Option.some.inj isWhole] at length
                exact partly length
              · exact others
          · next whole =>
              have whole := not_not.mp whole
              obtain ⟨fits, noWrap⟩ := fits_of_readi isRead whole starts nInside
              have isPart : bytes = (content.drop (offset + i)).take n := by
                rw [readi_whole fits noWrap] at isRead
                exact (Option.some.inj isRead).symm
              have nextPage : (addr + (i + PGSIZE)) / PGSIZE = (addr + i) / PGSIZE + 1 := by
                simp only [PGSIZE] at *
                omega
              apply (ih (i := i + PGSIZE) (fun page lower upper => mapped page (by omega) upper)
                (by simp only [PGSIZE] at *; omega) (by simp only [PGSIZE] at *; omega)
                (by omega)).mono (fun _ => id)
              rintro ⟨loaded, ram'⟩ later
              refine ⟨?_, ?_, ?_⟩
              · rw [later.loaded]
                constructor
                · intro inFile _
                  rcases Nat.eq_zero_or_pos count with rfl | more
                  · rcases lastPage with isFull | ⟨isLast, -⟩
                    · have isEnd : i + n = sz := by
                        simp only [pagesBelow, PGSIZE] at *
                        omega
                      omega
                    · omega
                  · exact inFile more
                · exact fun inFile _ => inFile (Nat.succ_pos count)
              · intro isLoaded a userAddr
                rw [later.bytes isLoaded a userAddr,
                  byte_store separate (by omega) isPte fitsPage userAddr, whole]
                by_cases above : addr + (i + PGSIZE) ≤ a ∧ a < addr + sz
                · rw [if_pos above, if_pos (by omega)]
                · rw [if_neg above]
                  by_cases here : addr + i ≤ a ∧ a < addr + i + n
                  · rw [if_pos here, if_pos (by omega), isPart, getD_part (by omega)]
                    congr 2
                    omega
                  · rw [if_neg here, if_neg (by omega)]
              · exact others.trans later.others

/-- `loaduvm` of a segment whose pages are mapped. -/
theorem loaduvm_spec {ph : Proghdr} (words : ph.Words) (separate : Separate dir)
    (aligned : ph.vaddr % PGSIZE = 0) (user : ph.vaddr + ph.filesz < KERNBASE)
    (mapped : ∀ page, ph.vaddr / PGSIZE ≤ page → page * PGSIZE < ph.vaddr + ph.filesz →
      (dir.pte page).isSome = true) :
    Outcome (fun _ => False)
      (fun result => (result.1 = true ↔ ph.InFile content) ∧
        (result.1 = true → ∀ a < KERNBASE, dir.byte result.2 a =
          if ph.vaddr ≤ a ∧ a < ph.vaddr + ph.filesz then
            some (content.getD (ph.off + (a - ph.vaddr)) 0)
          else dir.byte ram a) ∧
        SameOthers dir ram result.2)
      (loaduvm content dir ram ph.vaddr ph.off ph.filesz) := by
  rw [loaduvm, if_neg (not_not.mpr aligned)]
  apply (loadPages_spec separate aligned user (pagesBelow ph.filesz) mapped (Nat.zero_mod _)
    (by rw [Nat.zero_div, Nat.zero_add]) (fun _ => words.off)).mono (fun _ => id)
  intro result loads
  refine ⟨?_, loads.bytes, loads.others⟩
  have some_ : 0 < pagesBelow ph.filesz ↔ ph.filesz ≠ 0 := by
    simp only [pagesBelow, PGSIZE]
    omega
  rw [loads.loaded, some_, Proghdr.InFile, or_iff_not_imp_left]

end Coursework.Exec
