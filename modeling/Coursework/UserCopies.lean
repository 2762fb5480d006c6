import Coursework.AddressSpace
import Coursework.KernelMappings

/-!
# Copies to user addresses

`copyout` goes from page to page, and `uva2ka` lets it write only to pages that users may
use.  It looks at the entry of a page without asking whether there is a page table: where
`walkpgdir` returns zero, it reads an entry through a null pointer, and what happens then is
not defined.

The pages before the first one that users may not use are written.  So `copyout` is as it
should be exactly if that page, where there is one, has a page table.
-/

namespace Coursework.Paging

/-- What ends a computation: a panic, a `*pte` for `pte == 0`, a store to a page that is not
mapped for the user, or a segment that does not start at a page. -/
inductive Fault where
  | panic (panic : Panic)
  | nullEntry
  | strayStore
  | addrUnaligned
  deriving DecidableEq

namespace Dir

/-- The page at an address, if users may use it. -/
def userFrame (dir : Dir) (page : Nat) : Option Frame :=
  (dir.pte page).bind fun pte => if pte.user then some pte.frame else none

/-- The address in memory of a user address, if users may use it. -/
def physical (dir : Dir) (addr : Nat) : Option Nat :=
  (dir.userFrame (addr / PGSIZE)).map fun frame => pageStart frame + addr % PGSIZE

end Dir

/-- `uva2ka`: the page at an address, or none for zero. -/
def uva2ka (dir : Dir) (page : Nat) : Except Fault (Option Frame) :=
  match dir.table page with
  | none => .error .nullEntry
  | some table =>
      match table.ptes (PTX page) with
      | none => .ok none
      | some pte => .ok (if pte.user then some pte.frame else none)

/-- `copyout`: what it returns, and the memory after it. -/
def copyout (dir : Dir) (ram : ByteMemory) (va : Nat) (bytes : List UInt8) :
    Except Fault (Int × ByteMemory) :=
  if bytes = [] then .ok (0, ram)
  else
    match uva2ka dir (va / PGSIZE) with
    | .error fault => .error fault
    | .ok none => .ok (-1, ram)
    | .ok (some frame) =>
        let n := min (PGSIZE - va % PGSIZE) bytes.length
        copyout dir (ram.store (pageStart frame + va % PGSIZE) (bytes.take n))
          ((va / PGSIZE * PGSIZE + PGSIZE) % UINT) (bytes.drop n)
termination_by bytes.length
decreasing_by
  have positive := List.length_pos_of_ne_nil ‹bytes ≠ []›
  have room := offset_lt va
  rw [List.length_drop]
  omega

variable {layout : Layout} {dir : Dir} {ram ram' : ByteMemory} {va : Nat} {bytes : List UInt8}

theorem uva2ka_eq (dir : Dir) (page : Nat) :
    uva2ka dir page = if (dir.table page).isSome = true then .ok (dir.userFrame page)
      else .error .nullEntry := by
  unfold uva2ka Dir.userFrame Dir.pte
  cases dir.table page with
  | none => rfl
  | some table =>
      simp only [Option.isSome_some, if_true, Option.bind_some]
      cases table.ptes (PTX page) with
      | none => rfl
      | some pte => rfl

theorem table_of_userFrame {page : Nat} (user : (dir.userFrame page).isSome = true) :
    (dir.table page).isSome = true := by
  unfold Dir.userFrame Dir.pte at user
  cases here : dir.table page with
  | none =>
      rw [here] at user
      cases user
  | some table => rfl

/-! ## Page directories -/

/-- A page directory with the entries of `setupkvm` and user pages that are all different. -/
structure Built (layout : Layout) (dir : Dir) : Prop where
  kernel : ∃ freelist base rest, setupkvm layout freelist = .ok (some base, rest) ∧
    ∀ index : Fin NPDENTRIES, USERPAGES ≤ index.val * NPDENTRIES →
      dir.pdes index = base.pdes index
  distinct : ∀ first < USERPAGES, ∀ second < USERPAGES, ∀ pte pte', first ≠ second →
    dir.pte first = some pte → dir.pte second = some pte' → pte.frame ≠ pte'.frame

theorem PDX_kernel {page : Nat} (kernel : USERPAGES ≤ page) (inside : page < ALLPAGES) :
    USERPAGES ≤ (PDX page).val * NPDENTRIES := by
  have isUser := PDX_user inside
  omega

namespace Built

theorem pte_kernel (built : Built layout dir) {page : Nat} (kernel : USERPAGES ≤ page)
    (inside : page < ALLPAGES) : dir.pte page = kernelPte (kmap layout) page := by
  obtain ⟨freelist, base, rest, isBase, same⟩ := built.kernel
  have entries := setupkvm_entries layout freelist
  rw [isBase] at entries
  have sameTable : dir.table page = base.table page := same _ (PDX_kernel kernel inside)
  rw [Dir.pte, sameTable]
  exact entries base rfl page inside

/-- Users may use user pages only. -/
theorem user_of_userFrame (built : Built layout dir) {page : Nat} (inside : page < ALLPAGES)
    (usable : (dir.userFrame page).isSome = true) : page < USERPAGES := by
  by_contra kernel
  have isKernel := built.pte_kernel (Nat.not_lt.mp kernel) inside
  unfold Dir.userFrame at usable
  cases isPte : dir.pte page with
  | none =>
      rw [isPte] at usable
      cases usable
  | some pte =>
      have notUser := kernelPte_user (kmap layout) (isKernel ▸ isPte)
      rw [isPte, Option.bind_some, notUser] at usable
      cases usable

/-- Different user pages that users may use. -/
theorem frame_ne (built : Built layout dir) {first second : Nat} (distinct : first ≠ second)
    (firstUser : first < USERPAGES) (secondUser : second < USERPAGES) {frame frame' : Frame}
    (isFirst : dir.userFrame first = some frame) (isSecond : dir.userFrame second = some frame') :
    frame ≠ frame' := by
  have entry : ∀ {page : Nat} {frame : Frame}, dir.userFrame page = some frame →
      ∃ pte, dir.pte page = some pte ∧ pte.frame = frame := by
    intro page frame isFrame
    obtain ⟨pte, isPte, isUser⟩ := Option.bind_eq_some_iff.mp isFrame
    exact ⟨pte, isPte, Option.some.inj (Option.ite_none_right_eq_some.mp isUser).2⟩
  obtain ⟨pte, isPte, rfl⟩ := entry isFirst
  obtain ⟨pte', isPte', rfl⟩ := entry isSecond
  exact built.distinct first firstUser second secondUser pte pte' distinct isPte isPte'

/-- Different user addresses are different places in memory. -/
theorem physical_ne (built : Built layout dir) {first second a : Nat}
    (distinct : first ≠ second) (firstUser : first < KERNBASE) (secondUser : second < KERNBASE)
    (isFirst : dir.physical first = some a) : dir.physical second ≠ some a := by
  intro isSecond
  obtain ⟨frame, isFrame, rfl⟩ := Option.map_eq_some_iff.mp isFirst
  obtain ⟨frame', isFrame', same⟩ := Option.map_eq_some_iff.mp isSecond
  have firstOffset := offset_lt first
  have secondOffset := offset_lt second
  by_cases samePage : first / PGSIZE = second / PGSIZE
  · rw [samePage] at isFrame
    obtain rfl : frame = frame' := Option.some.inj (isFrame.symm.trans isFrame')
    have sameOffset : first % PGSIZE = second % PGSIZE := (Nat.add_left_cancel same).symm
    exact distinct (by rw [← Nat.div_add_mod first PGSIZE, samePage, sameOffset, Nat.div_add_mod])
  · have frames := built.frame_ne samePage (page_lt firstUser) (page_lt secondUser) isFrame isFrame'
    have apart := Memory.pages_disjoint frames firstOffset
    omega

end Built

/-! ## What is written -/

/-- The bytes are at their user addresses, and nothing else has changed. -/
structure Wrote (dir : Dir) (ram ram' : ByteMemory) (va : Nat) (bytes : List UInt8) : Prop where
  user : ∀ i < bytes.length, va + i < KERNBASE
  written : ∀ i < bytes.length, ∃ a, dir.physical (va + i) = some a ∧ ram' a = bytes.getD i 0
  others : ∀ a, (∀ i < bytes.length, dir.physical (va + i) ≠ some a) → ram' a = ram a

/-- All is written and zero returned, or less is written and -1 returned. -/
def CopiesSafely (dir : Dir) (ram : ByteMemory) (va : Nat) (bytes : List UInt8) : Prop :=
  ∃ returned ram', copyout dir ram va bytes = .ok (returned, ram') ∧
    (returned = 0 ∧ Wrote dir ram ram' va bytes ∨
      returned = -1 ∧ ∃ k < bytes.length, Wrote dir ram ram' va (bytes.take k))

/-- The first page of a range that users may not use has a page table. -/
def Tabled (dir : Dir) (va len : Nat) : Prop :=
  0 < len → ∀ page, va / PGSIZE ≤ page → page * PGSIZE < va + len →
    (∀ earlier, va / PGSIZE ≤ earlier → earlier < page →
      (dir.userFrame earlier).isSome = true) →
    (dir.table page).isSome = true

theorem Wrote.nil (dir : Dir) (ram : ByteMemory) (va : Nat) : Wrote dir ram ram va [] :=
  ⟨nofun, nofun, fun _ _ => rfl⟩

/-- The part of the bytes that goes to one page. -/
theorem Wrote.page {frame : Frame} (user : va < KERNBASE)
    (isFrame : dir.userFrame (va / PGSIZE) = some frame)
    (fits : va % PGSIZE + bytes.length ≤ PGSIZE) :
    Wrote dir ram (ram.store (pageStart frame + va % PGSIZE) bytes) va bytes := by
  have place : ∀ i < bytes.length, (va + i) / PGSIZE = va / PGSIZE ∧
      (va + i) % PGSIZE = va % PGSIZE + i := by
    intro i inside
    simp only [PGSIZE] at *
    omega
  have isPhysical : ∀ i < bytes.length,
      dir.physical (va + i) = some (pageStart frame + va % PGSIZE + i) := by
    intro i inside
    rw [Dir.physical, (place i inside).1, (place i inside).2, isFrame, Option.map_some,
      Nat.add_assoc]
  refine ⟨?_, ?_, ?_⟩
  · intro i inside
    have := place i inside
    simp only [KERNBASE, PGSIZE] at *
    omega
  · intro i inside
    refine ⟨_, isPhysical i inside, ?_⟩
    rw [ByteMemory.store_inside (Nat.le_add_right _ _) (Nat.add_lt_add_left inside _),
      Nat.add_sub_cancel_left]
  · intro a elsewhere
    apply ByteMemory.store_outside
    by_contra within
    have lower : pageStart frame + va % PGSIZE ≤ a := by omega
    obtain ⟨i, rfl⟩ := Nat.exists_eq_add_of_le lower
    have inside : i < bytes.length := by omega
    exact elsewhere i inside (isPhysical i inside)

/-- Two writes one after the other. -/
theorem Wrote.append (built : Built layout dir) {between : ByteMemory} {more : List UInt8}
    (first : Wrote dir ram between va bytes)
    (second : Wrote dir between ram' (va + bytes.length) more) :
    Wrote dir ram ram' va (bytes ++ more) := by
  have split : ∀ i < (bytes ++ more).length, i < bytes.length ∨
      ∃ j < more.length, i = bytes.length + j := by
    intro i inside
    rw [List.length_append] at inside
    rcases Nat.lt_or_ge i bytes.length with before | past
    · exact Or.inl before
    · exact Or.inr ⟨i - bytes.length, by omega, by omega⟩
  refine ⟨?_, ?_, ?_⟩
  · intro i inside
    rcases split i inside with before | ⟨j, inMore, rfl⟩
    · exact first.user i before
    · rw [← Nat.add_assoc]
      exact second.user j inMore
  · intro i inside
    rcases split i inside with before | ⟨j, inMore, rfl⟩
    · obtain ⟨a, isPhysical, isByte⟩ := first.written i before
      refine ⟨a, isPhysical, ?_⟩
      rw [List.getD_append _ _ _ _ before, ← isByte]
      apply second.others
      intro j inMore
      exact built.physical_ne (by omega) (first.user i before) (second.user j inMore) isPhysical
    · obtain ⟨a, isPhysical, isByte⟩ := second.written j inMore
      refine ⟨a, by rw [← Nat.add_assoc]; exact isPhysical, ?_⟩
      rw [List.getD_append_right _ _ _ _ (by omega), Nat.add_sub_cancel_left]
      exact isByte
  · intro a elsewhere
    rw [second.others, first.others]
    · intro i before
      exact elsewhere i (by rw [List.length_append]; omega)
    · intro j inMore
      rw [Nat.add_assoc]
      exact elsewhere (bytes.length + j) (by rw [List.length_append]; omega)

/-! ## The loop -/

/-- The pages behind one that users may use. -/
theorem Tabled.next {len n : Nat} {frame : Frame}
    (isFrame : dir.userFrame (va / PGSIZE) = some frame) (isPart : n = PGSIZE - va % PGSIZE)
    (less : n < len) :
    Tabled dir va len ↔ Tabled dir (va / PGSIZE * PGSIZE + PGSIZE) (len - n) := by
  have room := offset_lt va
  have whole := Nat.div_add_mod va PGSIZE
  have nextPage : (va / PGSIZE * PGSIZE + PGSIZE) / PGSIZE = va / PGSIZE + 1 := by
    rw [← Nat.succ_mul]
    exact Nat.mul_div_cancel _ (by decide)
  have sameEnd : va / PGSIZE * PGSIZE + PGSIZE + (len - n) = va + len := by
    rw [Nat.mul_comm] at whole
    omega
  unfold Tabled
  rw [nextPage, sameEnd]
  constructor
  · intro tabled _ page lower upper earlier
    apply tabled (by omega) page (by omega) upper
    intro other otherLower otherUpper
    rcases Nat.eq_or_lt_of_le otherLower with rfl | later
    · rw [isFrame]
      rfl
    · exact earlier other later otherUpper
  · intro tabled _ page lower upper earlier
    rcases Nat.eq_or_lt_of_le lower with rfl | later
    · exact table_of_userFrame (by rw [isFrame]; rfl)
    · apply tabled (by omega) page later upper
      intro other otherLower otherUpper
      exact earlier other (by omega) otherUpper

theorem Tabled.last {len : Nat} {frame : Frame}
    (isFrame : dir.userFrame (va / PGSIZE) = some frame) (less : len ≤ PGSIZE - va % PGSIZE) :
    Tabled dir va len := by
  intro _ page lower upper _
  have room := offset_lt va
  have whole := Nat.div_add_mod va PGSIZE
  have isPage : page = va / PGSIZE := by
    have below : page < va / PGSIZE + 1 := by
      apply Nat.lt_of_mul_lt_mul_right (a := PGSIZE)
      rw [Nat.succ_mul]
      rw [Nat.mul_comm] at whole
      omega
    omega
  subst isPage
  exact table_of_userFrame (by rw [isFrame]; rfl)

/-- `copyout` that meets page tables only. -/
theorem copyout_tabled (built : Built layout dir) (inside : va < UINT)
    (tabled : Tabled dir va bytes.length) : CopiesSafely dir ram va bytes := by
  induction length : bytes.length using Nat.strongRecOn generalizing ram va bytes with
  | _ len ih =>
      unfold CopiesSafely
      rw [copyout]
      split
      · next empty =>
          subst empty
          exact ⟨0, ram, rfl, Or.inl ⟨rfl, Wrote.nil dir ram va⟩⟩
      · next nonempty =>
          have positive := List.length_pos_of_ne_nil nonempty
          have room := offset_lt va
          have whole := Nat.div_add_mod va PGSIZE
          have pageInside : va / PGSIZE < ALLPAGES := by
            simp only [ALLPAGES, UINT, PGSIZE] at *
            omega
          have table : (dir.table (va / PGSIZE)).isSome = true := by
            apply tabled positive (va / PGSIZE) (le_refl _)
            · rw [Nat.mul_comm] at whole
              omega
            · intro earlier lower upper
              omega
          rw [uva2ka_eq, if_pos table]
          cases isFrame : dir.userFrame (va / PGSIZE) with
          | none =>
              refine ⟨-1, ram, rfl, Or.inr ⟨rfl, 0, positive, ?_⟩⟩
              rw [List.take_zero]
              exact Wrote.nil dir ram va
          | some frame =>
              have user : va / PGSIZE < USERPAGES :=
                built.user_of_userFrame pageInside (by rw [isFrame]; rfl)
              have userAddr : va < KERNBASE := by
                simp only [USERPAGES, KERNBASE, PGSIZE] at *
                omega
              simp only
              rcases Nat.lt_or_ge (PGSIZE - va % PGSIZE) bytes.length with longer | shorter
              · have isPart : min (PGSIZE - va % PGSIZE) bytes.length = PGSIZE - va % PGSIZE := by
                  omega
                have noWrap : (va / PGSIZE * PGSIZE + PGSIZE) % UINT =
                    va / PGSIZE * PGSIZE + PGSIZE := by
                  simp only [UINT, KERNBASE, PGSIZE] at *
                  omega
                have nextAddr : va + (bytes.take (PGSIZE - va % PGSIZE)).length =
                    va / PGSIZE * PGSIZE + PGSIZE := by
                  rw [List.length_take]
                  rw [Nat.mul_comm] at whole
                  omega
                have nextInside : va / PGSIZE * PGSIZE + PGSIZE < UINT := by
                  simp only [UINT, KERNBASE, PGSIZE] at *
                  omega
                have first : Wrote dir ram (ram.store (pageStart frame + va % PGSIZE)
                    (bytes.take (PGSIZE - va % PGSIZE))) va (bytes.take (PGSIZE - va % PGSIZE)) := by
                  apply Wrote.page userAddr isFrame
                  rw [List.length_take]
                  omega
                rw [isPart, noWrap]
                have rest := (Tabled.next isFrame rfl longer).mp tabled
                rw [← List.length_drop] at rest
                have fewer : (bytes.drop (PGSIZE - va % PGSIZE)).length < len := by
                  rw [List.length_drop]
                  omega
                obtain ⟨returned, ram2, isCopied, outcome⟩ : CopiesSafely dir
                    (ram.store (pageStart frame + va % PGSIZE)
                      (bytes.take (PGSIZE - va % PGSIZE)))
                    (va / PGSIZE * PGSIZE + PGSIZE) (bytes.drop (PGSIZE - va % PGSIZE)) :=
                  ih _ fewer nextInside rest rfl
                refine ⟨returned, ram2, isCopied, ?_⟩
                rw [← nextAddr] at outcome
                rcases outcome with ⟨isZero, wrote⟩ | ⟨isFailure, k, below, wrote⟩
                · refine Or.inl ⟨isZero, ?_⟩
                  have all := first.append built wrote
                  rwa [List.take_append_drop] at all
                · refine Or.inr ⟨isFailure, PGSIZE - va % PGSIZE + k, ?_, ?_⟩
                  · rw [List.length_drop] at below
                    omega
                  · have all := first.append built wrote
                    rwa [← List.take_add] at all
              · have isPart : min (PGSIZE - va % PGSIZE) bytes.length = bytes.length := by omega
                rw [isPart, List.take_length, List.drop_length, copyout, if_pos rfl]
                exact ⟨0, _, rfl, Or.inl ⟨rfl, Wrote.page userAddr isFrame (by omega)⟩⟩

/-- `copyout` that meets a missing page table. -/
theorem copyout_untabled (built : Built layout dir) (inside : va < UINT)
    (untabled : ¬ Tabled dir va bytes.length) : copyout dir ram va bytes = .error .nullEntry := by
  induction length : bytes.length using Nat.strongRecOn generalizing ram va bytes with
  | _ len ih =>
      have positive : 0 < bytes.length := by
        by_contra none
        exact untabled fun some => absurd some none
      have nonempty : bytes ≠ [] := List.ne_nil_of_length_pos positive
      have room := offset_lt va
      have whole := Nat.div_add_mod va PGSIZE
      rw [copyout, if_neg nonempty, uva2ka_eq]
      split
      · next fault isFault =>
          split at isFault
          · cases isFault
          · cases isFault
            rfl
      · next notUser =>
          exfalso
          apply untabled
          intro _ page lower upper earlier
          split at notUser
          · next table =>
              rcases Nat.eq_or_lt_of_le lower with rfl | later
              · exact table
              · have user := earlier (va / PGSIZE) (le_refl _) later
                rw [Except.ok.inj notUser] at user
                cases user
          · cases notUser
      · next frame isOk =>
          have isFrame : dir.userFrame (va / PGSIZE) = some frame := by
            split at isOk
            · exact Except.ok.inj isOk
            · cases isOk
          have longer : PGSIZE - va % PGSIZE < bytes.length := by
            by_contra shorter
            exact untabled (Tabled.last isFrame (Nat.not_lt.mp shorter))
          have pageInside : va / PGSIZE < ALLPAGES := by
            simp only [ALLPAGES, UINT, PGSIZE] at *
            omega
          have user : va / PGSIZE < USERPAGES :=
            built.user_of_userFrame pageInside (by rw [isFrame]; rfl)
          have isPart : min (PGSIZE - va % PGSIZE) bytes.length = PGSIZE - va % PGSIZE := by
            omega
          have noWrap : va / PGSIZE * PGSIZE + PGSIZE < UINT := by
            simp only [USERPAGES, UINT, KERNBASE, PGSIZE] at *
            omega
          simp only [isPart, Nat.mod_eq_of_lt noWrap]
          rw [Tabled.next isFrame rfl longer, ← List.length_drop] at untabled
          exact ih _ (by rw [List.length_drop]; omega) noWrap untabled rfl

/-- `copyout` writes all of its bytes or a first part of them, to pages that users may use,
and to nothing else, exactly if the first page of its range that they may not use has a page
table; otherwise it reads an entry through a null pointer. -/
theorem copyout_safe_iff (built : Built layout dir) (inside : va < UINT) :
    CopiesSafely dir ram va bytes ↔ Tabled dir va bytes.length := by
  constructor
  · rintro ⟨returned, ram', isCopied, -⟩
    by_contra untabled
    rw [copyout_untabled built inside untabled] at isCopied
    cases isCopied
  · exact copyout_tabled built inside

/-! ## The stack of a new program -/

/-- Where `exec` pushes a string of a length. -/
def pushed (sp length : Nat) : Nat := (sp + UINT - (length + 1)) % UINT / 4 * 4

/-- `setupkvm` with pages enough. -/
theorem setupkvm_succeeds {freelist : Freelist}
    (bounded : ∀ frame, freelist.count frame ≤ capacity layout frame)
    (enough : kernelPages ≤ freelist.length) :
    ∃ base rest, setupkvm layout freelist = .ok (some base, rest) ∧
      (∀ page < USERPAGES, base.pte page = none) ∧ base.tables = kernelTables := by
  have spec := (setupkvm_exact bounded).and (setupkvm_takes layout freelist)
  cases isSetup : setupkvm layout freelist with
  | error panic =>
      rw [isSetup] at spec
      exact spec.1.elim
  | ok result =>
      obtain ⟨base, rest⟩ := result
      rw [isSetup] at spec
      cases base with
      | none =>
          have tooFew : freelist.length < kernelPages := spec.2
          omega
      | some base => exact ⟨base, rest, rfl, spec.1.1, spec.2.2⟩

/-- The page table of a program of no size: the guard page and the stack page. -/
def stackTable : Table :=
  ⟨600, fun entry =>
    if entry.val = 0 then some ⟨601, true, false⟩
    else if entry.val = 1 then some ⟨602, true, true⟩
    else none⟩

def stackDir (base : Dir) : Dir :=
  { base with pdes := Function.update base.pdes (PDX 0) (some stackTable) }

theorem stackDir_pte {base : Dir} (clear : ∀ page < USERPAGES, base.pte page = none) {page : Nat}
    (user : page < USERPAGES) : (stackDir base).pte page =
      if page = 0 then some ⟨601, true, false⟩
      else if page = 1 then some ⟨602, true, true⟩ else none := by
  by_cases first : PDX page = PDX 0
  · have isTable : (stackDir base).table page = some stackTable := by
      rw [Dir.table, first]
      exact Function.update_self (PDX 0) (some stackTable) base.pdes
    have entry : (PTX page).val = page := by
      have index : (PDX page).val = 0 := congrArg Fin.val first
      simp only [PDX, PTX, USERPAGES, KERNBASE, PGSIZE, NPDENTRIES] at *
      omega
    rw [Dir.pte, isTable, Option.bind_some, stackTable]
    simp only [entry]
  · have isTable : (stackDir base).table page = base.table page := Function.update_of_ne first ..
    have isClear := clear page user
    rw [Dir.pte] at isClear
    rw [Dir.pte, isTable, isClear]
    have notFirst : ∀ other < 2, page ≠ other := by
      rintro other small rfl
      apply first
      apply Fin.ext
      simp only [PDX, NPDENTRIES]
      omega
    rw [if_neg (notFirst 0 (by decide)), if_neg (notFirst 1 (by decide))]

theorem stackDir_built {base : Dir} {freelist rest : Freelist}
    (isBase : setupkvm layout freelist = .ok (some base, rest))
    (clear : ∀ page < USERPAGES, base.pte page = none) : Built layout (stackDir base) := by
  refine ⟨⟨freelist, base, rest, isBase, ?_⟩, ?_⟩
  · intro index kernel
    apply Function.update_of_ne
    intro same
    have isFirst : index.val = 0 := congrArg Fin.val same
    rw [isFirst, Nat.zero_mul] at kernel
    exact absurd kernel (by decide)
  · intro first firstUser second secondUser pte pte' distinct isFirst isSecond
    rw [stackDir_pte clear firstUser] at isFirst
    rw [stackDir_pte clear secondUser] at isSecond
    split at isFirst
    · cases isFirst
      split at isSecond
      · omega
      · split at isSecond
        · cases isSecond
          decide
        · cases isSecond
    · split at isFirst
      · cases isFirst
        split at isSecond
        · cases isSecond
          decide
        · split at isSecond
          · omega
          · cases isSecond
      · cases isFirst

/-- 65 pages. -/
def kernelFreelist : Freelist := List.range' 700 65

theorem kernelFreelist_bounded (frame : Frame) :
    kernelFreelist.count frame ≤ capacity smallLayout frame := by
  by_cases member : frame ∈ kernelFreelist
  · have once : kernelFreelist.count frame ≤ 1 :=
      List.nodup_iff_count_le_one.mp List.nodup_range' frame
    have bounds := List.mem_range'_1.mp member
    have inside : smallLayout.kend ≤ frame ∧ frame < PHYSTOP / PGSIZE := by
      have isEnd : smallLayout.kend = 400 := rfl
      have top : PHYSTOP / PGSIZE = 57344 := by decide
      rw [isEnd, top]
      exact ⟨le_trans (by decide) bounds.1, lt_trans bounds.2 (by decide)⟩
    rw [capacity, if_pos inside]
    exact once
  · rw [List.count_eq_zero_of_not_mem member]
    exact Nat.zero_le _

theorem kernelFreelist_setup : ∃ base rest,
    setupkvm smallLayout kernelFreelist = .ok (some base, rest) ∧
      (∀ page < USERPAGES, base.pte page = none) ∧ base.tables = kernelTables :=
  setupkvm_succeeds kernelFreelist_bounded (by decide)

/-- Three bytes on the stack page. -/
theorem copyout_safe_iff_stack : ∃ base rest,
    setupkvm smallLayout kernelFreelist = .ok (some base, rest) ∧
      CopiesSafely (stackDir base) (fun _ => 7) 0x1ff0 [1, 2, 3] := by
  obtain ⟨base, rest, isBase, clear, -⟩ := kernelFreelist_setup
  refine ⟨base, rest, isBase, (copyout_safe_iff (stackDir_built isBase clear) (by decide)).mpr ?_⟩
  apply @Tabled.last _ _ _ 602
  · have isPte := stackDir_pte clear (show 1 < USERPAGES by decide)
    change (stackDir base).userFrame 1 = _
    rw [Dir.userFrame, isPte]
    rfl
  · decide

/-- An argument of 64 MB. -/
def longArgument : List UInt8 := List.replicate 67117055 97

/-- The argument wraps around to where there is no page table. -/
theorem copyout_reads_null : ∃ base rest,
    setupkvm smallLayout kernelFreelist = .ok (some base, rest) ∧ Built smallLayout (stackDir base) ∧
      ¬ CopiesSafely (stackDir base) (fun _ => 7) (pushed 0x2000 longArgument.length)
        (longArgument ++ [0]) := by
  obtain ⟨base, rest, isBase, clear, isTables⟩ := kernelFreelist_setup
  have built := stackDir_built isBase clear
  refine ⟨base, rest, isBase, built, ?_⟩
  have size : longArgument.length = 67117055 := List.length_replicate
  have length : (longArgument ++ [0]).length = 67117056 := by
    rw [List.length_append, size]
    rfl
  have place : pushed 0x2000 67117055 = 0xFC000000 := by decide
  rw [size, place]
  generalize longArgument ++ [0] = bytes at length
  rintro ⟨returned, ram', isCopied, -⟩
  have faults : copyout (stackDir base) (fun _ => 7) 0xFC000000 bytes = .error .nullEntry := by
    have inside : 0xFC000000 < UINT := by
      simp only [UINT]
      omega
    apply copyout_untabled built inside
    intro tabled
    have table := tabled (by rw [length]; decide) (0xFC000000 / PGSIZE) (le_refl _)
      (by rw [length]; decide) (fun earlier lower upper => by omega)
    have isIndex : (PDX (0xFC000000 / PGSIZE)).val = 1008 := by decide
    have missing : PDX (0xFC000000 / PGSIZE) ∉ base.tables := by
      rw [isTables, mem_kernelTables, isIndex]
      decide
    have distinct : PDX (0xFC000000 / PGSIZE) ≠ PDX 0 := by
      intro same
      rw [same] at isIndex
      cases isIndex
    have elsewhere : (stackDir base).table (0xFC000000 / PGSIZE) =
        base.table (0xFC000000 / PGSIZE) := Function.update_of_ne distinct (some stackTable) base.pdes
    rw [elsewhere] at table
    exact missing (Dir.mem_tables.mpr table)
  generalize 0xFC000000 = va at isCopied faults
  rw [faults] at isCopied
  cases isCopied

end Coursework.Paging
