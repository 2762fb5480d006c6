import Coursework.PageContents
import Coursework.PageOwnership

/-!
# What user addresses hold

A user address holds a byte of the page that its entry names.  No two user pages of a
page directory are the same page of memory, and none of them is free; so a page keeps its
bytes while others are mapped, freed or written.  The pages that `allocuvm` maps are
clear.
-/

namespace Coursework.Paging

variable {layout : Layout} {memory after : Memory} {dir dir' : Dir} {page : Nat}

/-! ## Pages of a page directory -/

theorem pteUses_self (pte : Pte) : pteUses (some pte) pte.frame = 1 := single_self pte.frame

theorem capacity_le (layout : Layout) (frame : Frame) : capacity layout frame ≤ 1 := by
  unfold capacity
  split <;> omega

/-- A user page is not free. -/
theorem Sole.not_free (sole : Sole layout memory.freelist dir) (user : page < USERPAGES)
    {pte : Pte} (isPte : dir.pte page = some pte) : pte.frame ∉ memory.freelist := by
  have used : pteUses (dir.pte page) pte.frame ≤ _ := Dir.pteUses_le user pte.frame
  have bound := sole pte.frame
  have atMost := capacity_le layout pte.frame
  rw [isPte, pteUses_self] at used
  rw [← List.count_eq_zero]
  omega

/-- Different user pages are different pages of memory. -/
theorem Sole.frame_ne {freelist : Freelist} (sole : Sole layout freelist dir) {other : Nat}
    (distinct : page ≠ other) (user : page < USERPAGES) (otherUser : other < USERPAGES)
    {first second : Pte} (isFirst : dir.pte page = some first)
    (isSecond : dir.pte other = some second) : first.frame ≠ second.frame := by
  intro same
  have bound := sole first.frame
  have atMost := capacity_le layout first.frame
  have two := Dir.two_le_uses distinct user otherUser
    (isFirst ▸ pteUses_self first) (by rw [isSecond, same]; exact pteUses_self second)
  omega

/-- An operation that keeps an entry keeps the bytes of its page. -/
theorem Memory.Keeps.user_page (keeps : Memory.Keeps memory after)
    (sole : Sole layout memory.freelist dir) (sole' : Sole layout after.freelist dir')
    (user : page < USERPAGES) {pte : Pte} (isPte : dir.pte page = some pte)
    (isPte' : dir'.pte page = some pte) : Memory.SamePage memory.ram after.ram pte.frame :=
  keeps pte.frame (sole.not_free user isPte) (sole'.not_free user isPte')

/-- The byte at an address, if its page is present. -/
def Dir.byte (dir : Dir) (ram : ByteMemory) (addr : Nat) : Option UInt8 :=
  (dir.pte (addr / PGSIZE)).map fun pte => ram (pageStart pte.frame + addr % PGSIZE)

theorem offset_lt (addr : Nat) : addr % PGSIZE < PGSIZE := Nat.mod_lt _ (by decide)

theorem page_lt {addr : Nat} (user : addr < KERNBASE) : addr / PGSIZE < USERPAGES := by
  simp only [KERNBASE, USERPAGES, PGSIZE] at *
  omega

theorem Dir.byte_eq {ram ram' : ByteMemory} {addr : Nat}
    (samePte : dir'.pte (addr / PGSIZE) = dir.pte (addr / PGSIZE))
    (sameBytes : ∀ pte, dir.pte (addr / PGSIZE) = some pte → Memory.SamePage ram ram' pte.frame) :
    dir'.byte ram' addr = dir.byte ram addr := by
  unfold Dir.byte
  rw [samePte]
  cases isPte : dir.pte (addr / PGSIZE) with
  | none => rfl
  | some pte => exact congrArg some (sameBytes pte isPte _ (offset_lt addr))

/-- What an address holds stays when its entry stays. -/
theorem Memory.Keeps.byte_eq (keeps : Memory.Keeps memory after)
    (sole : Sole layout memory.freelist dir) (sole' : Sole layout after.freelist dir')
    {addr : Nat} (user : addr < KERNBASE)
    (samePte : dir'.pte (addr / PGSIZE) = dir.pte (addr / PGSIZE)) :
    dir'.byte after.ram addr = dir.byte memory.ram addr := by
  apply Dir.byte_eq samePte
  intro pte isPte
  exact keeps.user_page sole sole' (page_lt user) isPte (samePte.trans isPte)

/-! ## New pages -/

/-- The pages from `start` to `stop` are mapped for the user and clear. -/
def Fresh (memory : Memory) (dir : Dir) (start stop : Nat) : Prop :=
  ∀ page, start ≤ page → page < stop → ∃ mem, dir.pte page = some ⟨mem, true, true⟩ ∧
    ∀ offset < PGSIZE, memory.ram (pageStart mem + offset) = 0

namespace Memory

/-- One page taken, cleared and mapped. -/
theorem clear_mappage (sole : Sole layout memory.freelist dir) (user : page < USERPAGES)
    {mem : Frame} {rest : Memory} (allocated : memory.kalloc = some (mem, rest)) :
    Outcome (fun _ => True)
      (fun result => Takes memory result.2.1 ∧
        result.2.1.ram = memory.ram.fill (pageStart mem) PGSIZE 0 ∧
        (result.1 = true → (∀ other < ALLPAGES, result.2.2.pte other =
            if other = page then some ⟨mem, true, true⟩ else dir.pte other) ∧
          Sole layout result.2.1.freelist result.2.2))
      ((rest.clear mem).mappage dir page ⟨mem, true, true⟩) := by
  obtain ⟨isList, sameRam⟩ := takes_kalloc allocated
  have taken : ∀ frame, memory.freelist.count frame =
      rest.freelist.count frame + single mem frame := by
    intro frame
    rw [isList, count_cons_eq]
  have entry := mappage_forget (rest.clear mem) dir page ⟨mem, true, true⟩
  have spec := mappage_spec rest.freelist dir (user.trans user_lt_all) ⟨mem, true, true⟩
  have both := (mappage_takes (rest.clear mem) dir page ⟨mem, true, true⟩).and
    (Outcome.of_map (entry.symm ▸ spec))
  apply both.mono (fun _ _ => trivial)
  rintro ⟨mapped, memory1, dir1⟩ ⟨⟨takes, ram⟩, entries, account⟩
  refine ⟨(takes_clear allocated).trans takes, ?_, ?_⟩
  · rw [show memory1.ram = _ from ram, clear, sameRam]
  · intro isMapped
    simp only [forget, isMapped, true_and] at entries account
    refine ⟨entries, sole.of_le ?_⟩
    intro frame
    have moved := account frame
    have before := taken frame
    rw [if_pos user] at moved
    simp only
    omega

/-- The pages that `allocuvm` maps are clear, and the other entries stay. -/
theorem allocLoop_fresh {oldsz newsz : Nat} (positive : 0 < newsz) (user : newsz < KERNBASE)
    (count : Nat) {memory : Memory} {dir : Dir} {page : Nat}
    (sole : Sole layout memory.freelist dir) (reached : pagesBelow oldsz ≤ page)
    (left : page + count = pagesBelow newsz) :
    Outcome (fun _ => True)
      (fun result => Keeps memory result.2.1 ∧ (result.1 = newsz →
        (∀ other < ALLPAGES, other < page ∨ pagesBelow newsz ≤ other →
          result.2.2.pte other = dir.pte other) ∧
        Fresh result.2.1 result.2.2 page (pagesBelow newsz)))
      (allocLoop layout oldsz newsz count memory dir page) := by
  have limit : pagesBelow newsz ≤ USERPAGES := pagesBelow_le user.le
  induction count generalizing memory dir page with
  | zero =>
      refine ⟨Keeps.refl memory, fun _ => ⟨fun _ _ _ => rfl, ?_⟩⟩
      intro other lower upper
      omega
  | succ count ih =>
      unfold allocLoop
      split
      · apply Outcome.bind (deallocuvm_gives memory dir newsz oldsz)
        rintro ⟨size, memory1, dir1⟩ gives
        exact ⟨gives.2, fun isSize => by simp only at isSize; omega⟩
      · next mem rest allocated =>
          have inside : page < USERPAGES := by omega
          apply Outcome.bind (clear_mappage sole inside allocated)
          rintro ⟨mapped, memory1, dir1⟩ ⟨takes, ram, isMapped⟩
          simp only at takes ram isMapped
          cases mapped with
          | false =>
              apply Outcome.bind (deallocuvm_gives memory1 dir1 newsz oldsz)
              rintro ⟨size, memory2, dir2⟩ gives
              apply Outcome.bind (gives_kfree memory2 mem)
              intro memory3 givesLast
              exact ⟨takes.gives (gives.trans givesLast), fun isSize => by simp only at isSize; omega⟩
          | true =>
              obtain ⟨entries, sole1⟩ := isMapped rfl
              have account := Paging.allocLoop_spec user count sole1
                (reached.trans (Nat.le_succ page)) (by omega)
              rw [← allocLoop_forget layout oldsz newsz count memory1 dir1 (page + 1)] at account
              have later := (ih sole1 (by omega) (by omega)).and (Outcome.of_map account)
              apply later.mono (fun _ _ => trivial)
              rintro ⟨size, memory2, dir2⟩ ⟨⟨keeps, grown⟩, exactly, -⟩
              refine ⟨takes.2.taken takes.1 keeps, ?_⟩
              intro isSize
              obtain ⟨others, fresh⟩ := grown isSize
              have sole2 : Sole layout memory2.freelist dir2 :=
                sole1.of_le fun frame => (exactly frame).le
              have all := user_lt_all
              refine ⟨?_, ?_⟩
              · intro other otherInside outside
                rw [others other otherInside (by omega), entries other otherInside,
                  if_neg (by omega)]
              · intro other lower upper
                rcases Nat.eq_or_lt_of_le lower with rfl | later
                · have isEntry := entries page (by omega)
                  rw [if_pos rfl] at isEntry
                  have isLast := others page (by omega) (by omega)
                  rw [isEntry] at isLast
                  refine ⟨mem, isLast, ?_⟩
                  intro offset inPage
                  have same := keeps.user_page sole1 sole2 inside isEntry isLast offset inPage
                  rw [same, ram]
                  exact ByteMemory.fill_inside (Nat.le_add_right _ _) (Nat.add_lt_add_left inPage _)
                · exact fresh other later upper

/-- What `allocuvm` does with the contents of an address space. -/
theorem allocuvm_fresh {oldsz newsz : Nat} (sole : Sole layout memory.freelist dir) :
    Outcome (fun _ => True)
      (fun result => Keeps memory result.2.1 ∧ (0 < newsz → oldsz ≤ newsz → result.1 = newsz →
        (∀ other < ALLPAGES, other < pagesBelow oldsz ∨ pagesBelow newsz ≤ other →
          result.2.2.pte other = dir.pte other) ∧
        Fresh result.2.1 result.2.2 (pagesBelow oldsz) (pagesBelow newsz)))
      (allocuvm layout memory dir oldsz newsz) := by
  unfold allocuvm
  split
  · exact ⟨Keeps.refl memory, fun positive _ isSize => by simp only at isSize; omega⟩
  · next user =>
      split
      · exact ⟨Keeps.refl memory, fun _ larger => by omega⟩
      · next larger =>
          have order : pagesBelow oldsz ≤ pagesBelow newsz := by
            simp only [pagesBelow, PGSIZE]
            omega
          rcases Nat.eq_zero_or_pos newsz with rfl | positive
          · have none : pagesBelow 0 = 0 := by decide
            rw [none, Nat.zero_sub]
            exact ⟨Keeps.refl memory, fun impossible => by omega⟩
          · apply (allocLoop_fresh positive (by omega) _ sole (le_refl _) (by omega)).mono
              (fun _ _ => trivial)
            rintro ⟨size, memory1, dir1⟩ ⟨keeps, grown⟩
            exact ⟨keeps, fun _ _ => grown⟩

end Memory

end Coursework.Paging
