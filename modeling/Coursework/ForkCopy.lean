import Coursework.AddressSpace
import Coursework.ForkFailure
import Coursework.KernelMappings

/-!
# Copies of address spaces

`copyuvm` that succeeds.  Every page below the size is copied to a page from the free
list and mapped at its place with the flags of the original.  The original pages are not
free, so that taking and writing pages leaves them alone; a copy stays as it is since its
page is not free any more.
-/

namespace Coursework.Paging

variable {layout : Layout} {memory after : Memory} {source dir child : Dir} {page : Nat}

/-- The flags of an entry. -/
def Pte.flags (pte : Pte) : Bool × Bool := (pte.writable, pte.user)

/-- A page and its copy: the same flags, a page that was free, and the same bytes. -/
structure CopyOf (memory after : Memory) (original copy : Pte) : Prop where
  flags : copy.flags = original.flags
  fresh : copy.frame ∈ memory.freelist
  taken : copy.frame ∉ after.freelist
  bytes : ∀ offset < PGSIZE, after.ram (pageStart copy.frame + offset) =
    memory.ram (pageStart original.frame + offset)

namespace Memory

/-- The pages of a page directory are not on a free list that only shrinks. -/
theorem Takes.samePage (takes : Takes memory after) (sole : Sole layout memory.freelist source)
    (user : page < USERPAGES) {pte : Pte} (isPte : source.pte page = some pte) :
    SamePage memory.ram after.ram pte.frame := by
  have notFree := sole.not_free user isPte
  exact takes.2 pte.frame notFree fun member => notFree (takes.1 member)

/-- One page taken, written and mapped. -/
theorem copy_mappage (sole : Sole layout memory.freelist dir) (user : page < USERPAGES)
    {mem : Frame} {rest : Memory} (allocated : memory.kalloc = some (mem, rest)) (pte : Pte) :
    Outcome (fun _ => True)
      (fun result => Takes memory result.2.1 ∧
        result.2.1.ram = (rest.copyPage mem pte.frame).ram ∧
        (result.1 = true → (∀ other < ALLPAGES, result.2.2.pte other =
            if other = page then some { pte with frame := mem } else dir.pte other) ∧
          Sole layout result.2.1.freelist result.2.2))
      ((rest.copyPage mem pte.frame).mappage dir page { pte with frame := mem }) := by
  obtain ⟨isList, sameRam⟩ := takes_kalloc allocated
  have entry := mappage_forget (rest.copyPage mem pte.frame) dir page { pte with frame := mem }
  have spec := mappage_spec rest.freelist dir (user.trans user_lt_all) { pte with frame := mem }
  have both := (mappage_takes (rest.copyPage mem pte.frame) dir page
    { pte with frame := mem }).and (Outcome.of_map (entry.symm ▸ spec))
  apply both.mono (fun _ _ => trivial)
  rintro ⟨mapped, memory1, dir1⟩ ⟨⟨takes, ram⟩, entries, account⟩
  refine ⟨(takes_copyPage pte.frame allocated).trans takes, ram, ?_⟩
  intro isMapped
  simp only [forget, isMapped, true_and] at entries account
  refine ⟨entries, sole.of_le ?_⟩
  intro frame
  have moved := account frame
  rw [if_pos user] at moved
  rw [isList, count_cons_eq]
  simp only
  omega

end Memory

/-! ## The loop -/

/-- The loop of `copyuvm` ends only if it meets no page that is mapped already. -/
theorem copyLoop_absent (source : Dir) (count : Nat) (freelist : Freelist) (dir : Dir)
    {page other : Nat} (lower : page ≤ other) (upper : other < page + count)
    (inside : other < ALLPAGES) :
    Outcome (fun _ => True) (fun result => result.1 = true → dir.pte other = none)
      (copyLoop source count freelist dir page) := by
  induction count generalizing freelist dir page with
  | zero => omega
  | succ count ih =>
      unfold copyLoop
      split
      · trivial
      · split
        · trivial
        · next pte _ =>
            split
            · rintro ⟨⟩
            · next mem rest allocated =>
                have spec := mappage_spec rest dir (page.lt_of_le_of_lt lower inside)
                  { pte with frame := mem }
                have absent : Outcome (fun _ => True)
                    (fun result => result.1 = true → dir.pte page = none)
                    (mappage rest dir page { pte with frame := mem }) := by
                  unfold mappage
                  split
                  · rintro ⟨⟩
                  · next walked =>
                      split
                      · trivial
                      · next missing =>
                          intro _
                          rw [← (walkpgdir_some walked).2.1]
                          simpa using missing
                apply Outcome.bind ((spec.and absent).mono (fun _ _ => trivial) fun _ same => same)
                rintro ⟨mapped, freelist1, dir1⟩ ⟨⟨entries, -⟩, isAbsent⟩
                simp only at entries isAbsent
                cases mapped with
                | false => rintro ⟨⟩
                | true =>
                    rcases Nat.eq_or_lt_of_le lower with rfl | later
                    · exact (Outcome.any _).mono (fun _ => id) fun _ _ _ => isAbsent rfl
                    · apply (ih freelist1 dir1 later (by omega)).mono (fun _ => id)
                      intro result isNone isCopied
                      rw [← isNone isCopied, entries other inside, if_neg (by simp; omega)]

namespace Memory

/-- Every page of a range is copied. -/
theorem copyLoop_copies (count : Nat) {memory : Memory} {dir : Dir} {page : Nat}
    (sole : Sole layout memory.freelist dir) (source_sole : Sole layout memory.freelist source)
    (user : page + count ≤ USERPAGES)
    (clear : ∀ other, page ≤ other → other < page + count → dir.pte other = none) :
    Outcome (fun _ => True)
      (fun result => Takes memory result.2.1 ∧ (result.1 = true →
        (∀ other < ALLPAGES, other < page ∨ page + count ≤ other →
          result.2.2.pte other = dir.pte other) ∧
        ∀ other, page ≤ other → other < page + count → ∃ original copy,
          source.pte other = some original ∧ result.2.2.pte other = some copy ∧
          CopyOf memory result.2.1 original copy))
      (copyLoop source count memory dir page) := by
  have all := user_lt_all
  induction count generalizing memory dir page with
  | zero =>
      refine ⟨Takes.refl memory, fun _ => ⟨fun _ _ _ => rfl, ?_⟩⟩
      intro other lower upper
      omega
  | succ count ih =>
      unfold copyLoop
      split
      · trivial
      · next table here =>
          split
          · trivial
          · next pte present =>
              have isPte : source.pte page = some pte := by
                rw [Dir.pte, here]
                exact present
              split
              · exact ⟨Takes.refl memory, (by simp)⟩
              · next mem rest allocated =>
                  have inside : page < USERPAGES := by omega
                  apply Outcome.bind (copy_mappage sole inside allocated pte)
                  rintro ⟨mapped, memory1, dir1⟩ ⟨takes, ram, isMapped⟩
                  simp only at takes ram isMapped
                  cases mapped with
                  | false => exact ⟨takes, (by simp)⟩
                  | true =>
                      obtain ⟨entries, sole1⟩ := isMapped rfl
                      have source_sole1 : Sole layout memory1.freelist source := by
                        intro frame
                        by_cases member : frame ∈ memory1.freelist
                        · have isFree := List.count_pos_iff.mpr (takes.1 member)
                          have atMost := capacity_le layout frame
                          have before := source_sole frame
                          have now := sole1 frame
                          omega
                        · rw [List.count_eq_zero_of_not_mem member]
                          have before := source_sole frame
                          omega
                      have clear1 : ∀ other, page + 1 ≤ other → other < page + 1 + count →
                          dir1.pte other = none := by
                        intro other lower upper
                        rw [entries other (by omega), if_neg (by omega)]
                        exact clear other (by omega) (by omega)
                      apply (ih sole1 source_sole1 (by omega) clear1).mono (fun _ => id)
                      rintro ⟨copied, memory2, dir2⟩ ⟨takes2, copies⟩
                      simp only at takes2 copies
                      refine ⟨takes.trans takes2, ?_⟩
                      intro isCopied
                      obtain ⟨others, later⟩ := copies isCopied
                      refine ⟨?_, ?_⟩
                      · intro other otherInside outside
                        rw [others other otherInside (by omega), entries other otherInside,
                          if_neg (by omega)]
                      · intro other lower upper
                        rcases Nat.eq_or_lt_of_le lower with rfl | past
                        · have isEntry := entries page (by omega)
                          rw [if_pos rfl] at isEntry
                          have isLast := others page (by omega) (by omega)
                          rw [isEntry] at isLast
                          obtain ⟨isList, sameRam⟩ := takes_kalloc allocated
                          have notFree := sole1.not_free inside isEntry
                          refine ⟨pte, _, isPte, isLast, rfl, ?_, ?_, ?_⟩
                          · rw [isList]
                            exact List.mem_cons_self
                          · exact fun member => notFree (takes2.1 member)
                          · intro offset inPage
                            rw [takes2.samePage sole1 inside isEntry offset inPage, ram, copyPage,
                              sameRam]
                            change memory.ram.store (pageStart mem)
                              (memory.ram.load (pageStart pte.frame) PGSIZE)
                              (pageStart mem + offset) = _
                            rw [ByteMemory.store_load_inside (Nat.le_add_right _ _)
                              (Nat.add_lt_add_left inPage _), Nat.add_sub_cancel_left]
                        · obtain ⟨original, copy, isOriginal, isCopy, copyOf⟩ :=
                            later other past (by omega)
                          have same := takes.samePage source_sole (by omega) isOriginal
                          refine ⟨original, copy, isOriginal, isCopy, copyOf.flags,
                            takes.1 copyOf.fresh, copyOf.taken, ?_⟩
                          intro offset inPage
                          rw [copyOf.bytes offset inPage, same offset inPage]

end Memory

/-! ## The copy -/

/-- What `copyuvm` makes of an address space. -/
structure Duplicate (layout : Layout) (memory after : Memory) (source child : Dir) (count : Nat) :
    Prop where
  pages : ∀ page < count, ∃ original copy, source.pte page = some original ∧
    child.pte page = some copy ∧ CopyOf memory after original copy
  others : ∀ page, count ≤ page → page < USERPAGES → child.pte page = none
  distinct : ∀ first < count, ∀ second < count, ∀ pte pte', child.pte first = some pte →
    child.pte second = some pte' → first ≠ second → pte.frame ≠ pte'.frame
  unshared : ∀ page < count, ∀ pte, child.pte page = some pte → source.uses pte.frame = 0
  kernel : ∀ freelist base freelist', setupkvm layout freelist = .ok (some base, freelist') →
    ∀ page, USERPAGES ≤ page → page < ALLPAGES → child.pte page = base.pte page
  parent : ∀ page < USERPAGES, ∀ pte, source.pte page = some pte →
    Memory.SamePage memory.ram after.ram pte.frame

namespace Memory

/-- What `setupkvm` has taken. -/
theorem setupkvm_child (sole : Sole layout memory.freelist source) :
    Outcome (fun _ => True)
      (fun result => ∀ dir, result.1 = some dir → Takes memory result.2 ∧
        Sole layout result.2.freelist dir ∧ Sole layout result.2.freelist source ∧
        ∀ page < ALLPAGES, dir.pte page = kernelPte (kmap layout) page)
      (setupkvm layout memory) := by
  have bounded : ∀ frame, memory.freelist.count frame ≤ capacity layout frame := by
    intro frame
    have := sole frame
    omega
  have spec := (setupkvm_exact bounded).and (setupkvm_entries layout memory.freelist)
  rw [← setupkvm_forget layout memory] at spec
  apply ((setupkvm_keeps memory).and (Outcome.of_map spec)).mono (fun _ _ => trivial)
  rintro ⟨copy, memory1⟩ ⟨⟨-, takes⟩, isSetup, entries⟩ dir rfl
  obtain ⟨-, account⟩ := isSetup
  simp only [forgetDir] at account
  refine ⟨takes rfl, ?_, ?_, entries dir rfl⟩
  · exact fun frame => (account frame).le.trans (bounded frame)
  · intro frame
    have taken := account frame
    have before := sole frame
    change memory1.freelist.count frame + source.uses frame ≤ _
    omega

/-- A copy that is made has the pages of the original below the size, and is made only if
the size is that of a user. -/
theorem copyuvm_copies {sz : Nat} (sole : Sole layout memory.freelist source) :
    Outcome (fun _ => True)
      (fun result => ∀ child, result.1 = some child →
        pagesBelow sz ≤ USERPAGES ∧ Duplicate layout memory result.2 source child (pagesBelow sz))
      (copyuvm layout memory source sz) := by
  have all := user_lt_all
  unfold copyuvm
  apply Outcome.bind (setupkvm_child sole)
  rintro ⟨copy, memory1⟩ isSetup
  cases copy with
  | none => exact nofun
  | some dir =>
      obtain ⟨takes1, sole1, source_sole1, kernel⟩ := isSetup dir rfl
      simp only at takes1 sole1 source_sole1
      have fits : Outcome (fun _ => True)
          (fun result => result.1 = true → pagesBelow sz ≤ USERPAGES)
          (copyLoop source (pagesBelow sz) memory1 dir 0) := by
        by_cases inside : pagesBelow sz ≤ USERPAGES
        · exact (Outcome.any _).mono (fun _ => id) fun _ _ _ => inside
        · have absent := copyLoop_absent source (pagesBelow sz) memory1.freelist dir
            (Nat.zero_le USERPAGES) (by omega) all
          rw [← copyLoop_forget] at absent
          apply (Outcome.of_map absent).mono (fun _ => id)
          intro result isNone isCopied
          have present := kernelPte_first layout
          rw [← kernel USERPAGES all, isNone isCopied] at present
          cases present
      by_cases inside : pagesBelow sz ≤ USERPAGES
      · have clear : ∀ other, 0 ≤ other → other < 0 + pagesBelow sz → dir.pte other = none := by
          intro other _ upper
          rw [kernel other (by omega)]
          exact kernelPte_none layout (by omega)
        have account : Outcome _ _
            (Paging.copyLoop source (pagesBelow sz) memory1.freelist dir 0) :=
          Paging.copyLoop_spec source (pagesBelow sz) (by omega) clear
        rw [← copyLoop_forget] at account
        have both := (copyLoop_copies (pagesBelow sz) sole1 source_sole1 (by omega) clear).and
          (Outcome.of_map account)
        apply Outcome.bind (both.mono (fun _ _ => trivial) fun _ same => same)
        rintro ⟨copied, memory2, dir2⟩ ⟨⟨takes2, copies⟩, exactly, -⟩
        simp only [forget] at takes2 copies exactly
        cases copied with
        | false =>
            apply Outcome.bind (Outcome.any _)
            rintro memory3 -
            exact nofun
        | true =>
            obtain ⟨others, pages⟩ := copies rfl
            rintro child ⟨⟩
            have sole2 : Sole layout memory2.freelist dir2 := sole1.of_le exactly
            have isCopy : ∀ page < pagesBelow sz, ∃ original copy, source.pte page = some original ∧
                dir2.pte page = some copy ∧ CopyOf memory memory2 original copy := by
              intro page below
              obtain ⟨original, copy, isOriginal, isCopy, copyOf⟩ :=
                pages page (Nat.zero_le page) (by omega)
              refine ⟨original, copy, isOriginal, isCopy, copyOf.flags, takes1.1 copyOf.fresh,
                copyOf.taken, ?_⟩
              intro offset inPage
              have same := takes1.samePage sole (by omega) isOriginal offset inPage
              rw [copyOf.bytes offset inPage, same]
            refine ⟨inside, isCopy, ?_, ?_, ?_, ?_, ?_⟩
            · intro page above user
              rw [others page (by omega) (Or.inr (by omega)), kernel page (by omega)]
              exact kernelPte_none layout user
            · intro first firstBelow second secondBelow pte pte' isFirst isSecond distinct
              exact sole2.frame_ne distinct (by omega) (by omega) isFirst isSecond
            · intro page below pte isPte
              obtain ⟨original, copy, -, isSame, copyOf⟩ := isCopy page below
              obtain rfl : pte = copy := Option.some.inj (isPte.symm.trans isSame)
              have isFree := List.count_pos_iff.mpr copyOf.fresh
              have atMost := capacity_le layout pte.frame
              have bound := sole pte.frame
              omega
            · intro freelist base freelist' isBase page lower upper
              have entries := setupkvm_entries layout freelist
              rw [isBase] at entries
              rw [others page upper (Or.inr (by omega)), kernel page upper,
                entries base rfl page upper]
            · intro page user pte isPte
              exact (takes1.trans takes2).samePage sole user isPte
      · apply Outcome.bind fits
        rintro ⟨copied, memory2, dir2⟩ isFit
        cases copied with
        | false =>
            apply Outcome.bind (Outcome.any _)
            rintro memory3 -
            exact nofun
        | true => exact (inside (isFit rfl)).elim

end Memory

theorem Duplicate.same_pages {count : Nat} (duplicate : Duplicate layout memory after source child count)
    (above : ∀ page, count ≤ page → page < USERPAGES → source.pte page = none) :
    ∀ page < USERPAGES, (child.pte page).map Pte.flags = (source.pte page).map Pte.flags := by
  intro page user
  rcases Nat.lt_or_ge page count with below | past
  · obtain ⟨original, copy, isOriginal, isCopy, copyOf⟩ := duplicate.pages page below
    rw [isOriginal, isCopy, Option.map_some, Option.map_some, copyOf.flags]
  · rw [duplicate.others page past user, above page past user]

/-- A copy of an address space that `copyuvm` makes: page by page below the size with flags
and bytes, on pages that were free and are in no way the parent's, with the entries of the
kernel, and with the parent's memory as it was. -/
theorem copyuvm_duplicates {sz : Nat} (sole : Sole layout memory.freelist source)
    (copied : Memory.copyuvm layout memory source sz = .ok (some child, after)) :
    Duplicate layout memory after source child (pagesBelow sz) ∧
      ((∀ page, pagesBelow sz ≤ page → page < USERPAGES → source.pte page = none) →
        ∀ page < USERPAGES, (child.pte page).map Pte.flags = (source.pte page).map Pte.flags) := by
  have spec : Outcome _ _ (Memory.copyuvm layout memory source sz) := Memory.copyuvm_copies sole
  rw [copied] at spec
  have duplicate := (spec child rfl).2
  exact ⟨duplicate, duplicate.same_pages⟩

/-- With pages enough an address space is copied. -/
theorem Memory.copyuvm_succeeds {sz : Nat}
    (bounded : ∀ frame, memory.freelist.count frame ≤ capacity layout frame)
    (user : sz ≤ KERNBASE) (present : ∀ page < pagesBelow sz, (source.pte page).isSome = true)
    (enough : kernelPages + copyPages (pagesBelow sz) ≤ memory.freelist.length) :
    ∃ child after, copyuvm layout memory source sz = .ok (some child, after) := by
  have reaches : Reaches source 0 (pagesBelow sz) (pagesBelow sz) :=
    ⟨Nat.zero_le _, fun other _ below => present other below, Or.inl (Nat.zero_add _).symm⟩
  have spec := (copyuvm_exact bounded user reaches).and (copyuvm_spec bounded user)
  rw [← copyuvm_forget layout memory source sz] at spec
  have outcome := Outcome.of_map spec
  cases isCopied : copyuvm layout memory source sz with
  | error panic =>
      rw [isCopied] at outcome
      obtain ⟨-, -, other, below, missing⟩ := outcome
      have isPresent := present other below
      rw [missing] at isPresent
      cases isPresent
  | ok result =>
      obtain ⟨copy, after⟩ := result
      rw [isCopied] at outcome
      cases copy with
      | none =>
          obtain ⟨⟨tooFew, -⟩, -⟩ := outcome
          omega
      | some child => exact ⟨child, after, rfl⟩

/-- With 67 free pages the one page of the first process is copied. -/
theorem copyuvm_duplicates_tight : ∃ child after,
    Memory.copyuvm smallLayout ⟨Kernel.tightMachine.freelist, fun _ => 7⟩ smallDir PGSIZE =
      .ok (some child, after) ∧
    Duplicate smallLayout ⟨Kernel.tightMachine.freelist, fun _ => 7⟩ after smallDir child
      (pagesBelow PGSIZE) := by
  have owned := State.Owned.of_booted Kernel.tightMachine_booted
  have facts : (Kernel.tightMachine.proc initproc).status ≠ .unused ∧
      Kernel.tightMachine.freelist.length = 67 := by
    decide +kernel
  have isDir : (Kernel.tightMachine.proc initproc).pgdir = some smallDir := by
    change (smallMachine.proc initproc).pgdir = some smallDir
    rw [smallMachine_first]
  have sole : Sole smallLayout Kernel.tightMachine.freelist smallDir := owned.sole facts.1 isDir
  have size := facts.2
  have bounded : ∀ frame, Kernel.tightMachine.freelist.count frame ≤ capacity smallLayout frame :=
    owned.bounded
  generalize Kernel.tightMachine.freelist = freelist at *
  have present : ∀ page < pagesBelow PGSIZE, (smallDir.pte page).isSome = true := by decide
  have needed : kernelPages + copyPages (pagesBelow PGSIZE) = 67 := by decide
  have user : PGSIZE ≤ KERNBASE := by decide
  obtain ⟨child, after, copied⟩ := @Memory.copyuvm_succeeds smallLayout
    ⟨freelist, fun _ => 7⟩ smallDir PGSIZE bounded user present
    (needed.trans size.symm).le
  have duplicate := @copyuvm_duplicates smallLayout ⟨freelist, fun _ => 7⟩ after smallDir child
    PGSIZE sole copied
  exact ⟨child, after, copied, duplicate.1⟩

end Coursework.Paging
