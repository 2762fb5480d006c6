import Coursework.PageAccounts
import Mathlib.Data.Finset.Card
import Mathlib.Data.Fintype.Card

/-!
# The demand for pages

How many pages the operations of `vm.c` take from the free list.  Mapping a page
takes a page for a page table if the table is missing, so that the number of free
pages and page tables together stays.  Mapping fails only with an empty free list
and a missing table; so it fails exactly when the free pages are fewer than the
tables that it needs.

`copyuvm` takes a page for every user page, and then one for the table of the first
page of every table.  When the latter is not there, the page that was taken for the
user is on no list.
-/

namespace Coursework.Paging

namespace Dir

/-- The entries of the page directory with a page table. -/
def tables (dir : Dir) : Finset (Fin NPDENTRIES) :=
  Finset.univ.filter fun index => (dir.pdes index).isSome = true

theorem mem_tables {dir : Dir} {index : Fin NPDENTRIES} :
    index ∈ dir.tables ↔ (dir.pdes index).isSome = true := by
  simp [tables]

theorem tables_setPde (dir : Dir) (index : Fin NPDENTRIES) (table : Table) :
    ({ dir with pdes := Function.update dir.pdes index (some table) } : Dir).tables =
      insert index dir.tables := by
  ext other
  rw [Finset.mem_insert, mem_tables, mem_tables]
  rcases eq_or_ne other index with rfl | distinct
  · simp
  · simp [distinct]

theorem tables_setPte (dir : Dir) (page : Nat) (entry : Option Pte) :
    (dir.setPte page entry).tables = dir.tables := by
  unfold setPte
  split
  · rfl
  · next table here =>
      rw [tables_setPde, Finset.insert_eq_self, mem_tables]
      exact Option.isSome_iff_exists.mpr ⟨table, here⟩

end Dir

/-! ## Page tables -/

variable {layout : Layout} {freelist freelist' : Freelist} {dir dir' : Dir} {page : Nat}

/-- A result of mapping pages whose tables are wanted. -/
structure Takes (freelist : Freelist) (dir : Dir) (wanted : Finset (Fin NPDENTRIES))
    (result : Bool × Freelist × Dir) : Prop where
  kept : result.2.1.length + result.2.2.tables.card = freelist.length + dir.tables.card
  mapped : result.1 = true → result.2.2.tables = dir.tables ∪ wanted
  failed : result.1 = false → result.2.1 = [] ∧ result.2.2.tables ⊂ dir.tables ∪ wanted

namespace Takes

variable {wanted more : Finset (Fin NPDENTRIES)} {result : Bool × Freelist × Dir}

theorem stop (takes : Takes freelist dir wanted (false, freelist', dir')) :
    Takes freelist dir (wanted ∪ more) (false, freelist', dir') := by
  obtain ⟨isEmpty, fewer⟩ := takes.failed rfl
  refine ⟨takes.kept, nofun, fun _ => ⟨isEmpty, ?_⟩⟩
  rw [← Finset.union_assoc]
  exact fewer.trans_subset Finset.subset_union_left

theorem trans (first : Takes freelist dir wanted (true, freelist', dir'))
    (second : Takes freelist' dir' more result) : Takes freelist dir (wanted ∪ more) result := by
  have isUnion : dir'.tables ∪ more = dir.tables ∪ (wanted ∪ more) := by
    rw [← Finset.union_assoc]
    exact congrArg (· ∪ more) (first.mapped rfl)
  refine ⟨second.kept.trans first.kept, ?_, ?_⟩
  · intro isMapped
    rw [second.mapped isMapped, isUnion]
  · intro isFailed
    rw [← isUnion]
    exact second.failed isFailed

/-- Mapping succeeds exactly when there are pages enough. -/
theorem mapped_iff (takes : Takes freelist dir wanted result) :
    result.1 = true ↔ (dir.tables ∪ wanted).card ≤ freelist.length + dir.tables.card := by
  have kept := takes.kept
  cases isResult : result.1 with
  | true =>
      rw [takes.mapped isResult] at kept
      simp only [true_iff]
      omega
  | false =>
      obtain ⟨isEmpty, fewer⟩ := takes.failed isResult
      have smaller := Finset.card_lt_card fewer
      rw [isEmpty, List.length_nil] at kept
      simp only [Bool.false_eq_true, false_iff]
      omega

/-- One page table is missing and there is no page for it. -/
theorem failed_singleton {index : Fin NPDENTRIES}
    (takes : Takes freelist dir {index} (false, freelist', dir')) :
    freelist.length = 0 ∧ index ∉ dir.tables := by
  obtain ⟨isEmpty, fewer⟩ := takes.failed rfl
  have kept := takes.kept
  have smaller := Finset.card_lt_card fewer
  simp only at isEmpty smaller kept
  rw [isEmpty, List.length_nil, Nat.zero_add] at kept
  rw [Finset.union_comm, ← Finset.insert_eq] at smaller
  by_cases member : index ∈ dir.tables
  · rw [Finset.insert_eq_self.mpr member] at smaller
    omega
  · rw [Finset.card_insert_of_notMem member] at smaller
    exact ⟨by omega, member⟩

end Takes

theorem walkpgdir_takes (walked : walkpgdir freelist dir page = some (freelist', dir')) :
    dir'.tables = insert (PDX page) dir.tables ∧
      freelist'.length + dir'.tables.card = freelist.length + dir.tables.card := by
  unfold walkpgdir at walked
  split at walked
  · next table here =>
      cases walked
      have member : PDX page ∈ dir.tables :=
        Dir.mem_tables.mpr (Option.isSome_iff_exists.mpr ⟨table, here⟩)
      exact ⟨(Finset.insert_eq_self.mpr member).symm, rfl⟩
  · next missing =>
      have absent : PDX page ∉ dir.tables := by
        intro member
        rw [Dir.mem_tables, show dir.pdes (PDX page) = none from missing] at member
        cases member
      split at walked
      · cases walked
      · next frame rest allocated =>
          cases walked
          rw [kalloc_some allocated, Dir.tables_setPde, Finset.card_insert_of_notMem absent,
            List.length_cons]
          exact ⟨rfl, by omega⟩

theorem walkpgdir_none (walked : walkpgdir freelist dir page = none) :
    freelist = [] ∧ PDX page ∉ dir.tables := by
  unfold walkpgdir at walked
  split at walked
  · cases walked
  · next missing =>
      split at walked
      · next exhausted =>
          refine ⟨kalloc_none exhausted, ?_⟩
          intro member
          rw [Dir.mem_tables, show dir.pdes (PDX page) = none from missing] at member
          cases member
      · cases walked

theorem mappage_takes (freelist : Freelist) (dir : Dir) (page : Nat) (pte : Pte) :
    Outcome (fun _ => True) (Takes freelist dir {PDX page}) (mappage freelist dir page pte) := by
  unfold mappage
  split
  · next walked =>
      obtain ⟨isEmpty, absent⟩ := walkpgdir_none walked
      refine ⟨rfl, nofun, fun _ => ⟨isEmpty, ?_⟩⟩
      rw [Finset.union_comm, ← Finset.insert_eq]
      exact Finset.ssubset_insert absent
  · next freelist' dir' walked =>
      obtain ⟨isTables, kept⟩ := walkpgdir_takes walked
      split
      · trivial
      · refine ⟨?_, fun _ => ?_, nofun⟩
        · simpa only [Dir.tables_setPte] using kept
        · rw [Dir.tables_setPte, isTables, Finset.union_comm, ← Finset.insert_eq]

/-- The page tables of a range of pages. -/
def covered (page count : Nat) : Finset (Fin NPDENTRIES) :=
  (Finset.range count).image fun i => PDX (page + i)

theorem mem_covered {count : Nat} {index : Fin NPDENTRIES} :
    index ∈ covered page count ↔ ∃ other, page ≤ other ∧ other < page + count ∧
      PDX other = index := by
  rw [covered, Finset.mem_image]
  constructor
  · rintro ⟨i, inside, isIndex⟩
    rw [Finset.mem_range] at inside
    exact ⟨page + i, by omega, by omega, isIndex⟩
  · rintro ⟨other, lower, upper, isIndex⟩
    refine ⟨other - page, Finset.mem_range.mpr (by omega), ?_⟩
    rw [Nat.add_sub_cancel' lower]
    exact isIndex

theorem covered_succ (page count : Nat) :
    covered page (count + 1) = {PDX page} ∪ covered (page + 1) count := by
  ext index
  rw [Finset.mem_union, Finset.mem_singleton, mem_covered, mem_covered]
  constructor
  · rintro ⟨other, lower, upper, isIndex⟩
    rcases Nat.eq_or_lt_of_le lower with rfl | later
    · exact Or.inl isIndex.symm
    · exact Or.inr ⟨other, later, by omega, isIndex⟩
  · rintro (rfl | ⟨other, lower, upper, isIndex⟩)
    · exact ⟨page, le_refl _, by omega, rfl⟩
    · exact ⟨other, by omega, by omega, isIndex⟩

theorem mappages_takes (count : Nat) (freelist : Freelist) (dir : Dir) (page : Nat) (pte : Pte) :
    Outcome (fun _ => True) (Takes freelist dir (covered page count))
      (mappages count freelist dir page pte) := by
  induction count generalizing freelist dir page pte with
  | zero =>
      refine ⟨rfl, fun _ => ?_, nofun⟩
      simp [covered]
  | succ count ih =>
      rw [covered_succ]
      apply Outcome.bind (mappage_takes freelist dir page pte)
      rintro ⟨mapped, freelist1, dir1⟩ takes
      cases mapped with
      | false => exact takes.stop
      | true => exact (ih freelist1 dir1 (page + 1) _).mono (fun _ => id) fun _ => takes.trans

/-! ## The kernel's part -/

def wantedTables : List Kmap → Finset (Fin NPDENTRIES)
  | [] => ∅
  | k :: rest => covered k.virt (k.physEnd - k.physStart) ∪ wantedTables rest

theorem mapKernel_takes (lines : List Kmap) (freelist : Freelist) (dir : Dir) :
    Outcome (fun _ => True) (Takes freelist dir (wantedTables lines))
      (mapKernel lines freelist dir) := by
  induction lines generalizing freelist dir with
  | nil =>
      refine ⟨rfl, fun _ => ?_, nofun⟩
      simp [wantedTables]
  | cons k rest ih =>
      apply Outcome.bind (mappages_takes _ freelist dir k.virt _)
      rintro ⟨mapped, freelist1, dir1⟩ takes
      cases mapped with
      | false => exact takes.stop
      | true => exact (ih freelist1 dir1).mono (fun _ => id) fun _ => takes.trans

/-- The page tables of the kernel: for the physical memory, and for the devices. -/
def kernelTables : Finset (Fin NPDENTRIES) :=
  Finset.univ.filter fun index => 512 ≤ index.val ∧ index.val < 568 ∨ 1016 ≤ index.val

theorem mem_kernelTables {index : Fin NPDENTRIES} :
    index ∈ kernelTables ↔ 512 ≤ index.val ∧ index.val < 568 ∨ 1016 ≤ index.val := by
  simp [kernelTables]

theorem card_kernelTables : kernelTables.card = 64 := by
  decide +kernel

theorem wantedTables_kmap (layout : Layout) : wantedTables (kmap layout) = kernelTables := by
  have := layout.aboveText
  have := layout.aboveData
  have := layout.belowTop
  ext index
  simp only [kmap, wantedTables, kernelTables, Finset.mem_union, mem_covered, Finset.mem_filter,
    Finset.mem_univ, true_and, Finset.notMem_empty, or_false, KERNBASE, EXTMEM, PHYSTOP,
    DEVSPACE, ALLPAGES, UINT, PGSIZE] at *
  constructor
  · rintro (⟨other, lower, upper, rfl⟩ | ⟨other, lower, upper, rfl⟩ |
      ⟨other, lower, upper, rfl⟩ | ⟨other, lower, upper, rfl⟩)
    · simp only [PDX, NPDENTRIES]
      omega
    · simp only [PDX, NPDENTRIES]
      omega
    · simp only [PDX, NPDENTRIES]
      omega
    · simp only [PDX, NPDENTRIES]
      omega
  · have below : index.val < 1024 := index.isLt
    have isIndex : PDX (index.val * 1024) = index := by
      apply Fin.ext
      simp only [PDX, NPDENTRIES]
      omega
    rintro (⟨lower, upper⟩ | devices)
    · by_cases low : index.val * 1024 < 524288 + 256
      · exact Or.inl ⟨_, by omega, by omega, isIndex⟩
      · by_cases text : index.val * 1024 < 524288 + layout.data
        · exact Or.inr (Or.inl ⟨_, by omega, by omega, isIndex⟩)
        · exact Or.inr (Or.inr (Or.inl ⟨_, by omega, by omega, isIndex⟩))
    · exact Or.inr (Or.inr (Or.inr ⟨_, by omega, by omega, isIndex⟩))

theorem tables_empty (frame : Frame) : (⟨frame, fun _ => none⟩ : Dir).tables = ∅ := by
  ext index
  simp [Dir.mem_tables]

/-- The pages that `setupkvm` takes. -/
def kernelPages : Nat := 65

/-- `setupkvm` fails exactly when there are too few pages. -/
theorem setupkvm_takes (layout : Layout) (freelist : Freelist) :
    Outcome (fun _ => True)
      (fun result => match result.1 with
        | none => freelist.length < kernelPages
        | some dir => result.2.length + kernelPages = freelist.length ∧ dir.tables = kernelTables)
      (setupkvm layout freelist) := by
  unfold setupkvm
  split
  · next exhausted =>
      rw [kalloc_none exhausted]
      exact (by decide : 0 < kernelPages)
  · next frame rest allocated =>
      rw [kalloc_some allocated, List.length_cons]
      apply Outcome.bind (mapKernel_takes (kmap layout) rest ⟨frame, fun _ => none⟩)
      rintro ⟨mapped, freelist1, dir1⟩ takes
      rw [wantedTables_kmap] at takes
      have enough := takes.mapped_iff
      have kept := takes.kept
      rw [tables_empty, Finset.empty_union, card_kernelTables, Finset.card_empty] at enough
      rw [tables_empty, Finset.card_empty] at kept
      cases mapped with
      | true =>
          have isTables := takes.mapped rfl
          rw [tables_empty, Finset.empty_union] at isTables
          simp only at isTables kept
          rw [isTables, card_kernelTables] at kept
          refine ⟨?_, isTables⟩
          change freelist1.length + kernelPages = rest.length + 1
          rw [kernelPages]
          omega
      | false =>
          simp only [Bool.false_eq_true, false_iff] at enough
          apply Outcome.bind (Outcome.any (freevm layout freelist1 dir1))
          intro freelist2 _
          change rest.length + 1 < kernelPages
          rw [kernelPages]
          omega

/-! ## User pages -/

/-- The pages that `allocuvm` takes for a number of user pages: they and the page tables that
are missing. -/
def growPages (dir : Dir) (page count : Nat) : Nat :=
  count + (covered page count \ dir.tables).card

/-- `allocuvm` maps its pages exactly when there are pages enough. -/
theorem allocLoop_takes {oldsz newsz : Nat} (positive : 0 < newsz) (count : Nat)
    {freelist : Freelist} {dir : Dir} {page : Nat} :
    Outcome (fun _ => True)
      (fun result => result.1 = newsz ↔ growPages dir page count ≤ freelist.length)
      (allocLoop layout oldsz newsz count freelist dir page) := by
  have nonzero : ¬ 0 = newsz := by omega
  induction count generalizing freelist dir page with
  | zero => exact ⟨fun _ => by simp [growPages, covered], fun _ => rfl⟩
  | succ count ih =>
      have needed := Finset.card_sdiff_add_card (covered page (count + 1)) dir.tables
      unfold allocLoop
      split
      · next exhausted =>
          apply Outcome.bind (Outcome.any _)
          rintro ⟨size, freelist1, dir1⟩ -
          rw [kalloc_none exhausted, List.length_nil, growPages]
          change 0 = newsz ↔ _
          omega
      · next mem rest allocated =>
          have size : freelist.length = rest.length + 1 := by
            rw [kalloc_some allocated, List.length_cons]
          apply Outcome.bind (mappage_takes rest dir page ⟨mem, true, true⟩)
          rintro ⟨mapped, freelist1, dir1⟩ takes
          cases mapped with
          | false =>
              obtain ⟨isEmpty, missing⟩ := takes.failed_singleton
              have member : PDX page ∈ covered page (count + 1) \ dir.tables := by
                rw [Finset.mem_sdiff, covered_succ]
                exact ⟨Finset.mem_union_left _ (Finset.mem_singleton_self _), missing⟩
              have atLeast := Finset.card_pos.mpr ⟨_, member⟩
              apply Outcome.bind (Outcome.any _)
              rintro ⟨size1, freelist2, dir2⟩ -
              apply Outcome.bind (Outcome.any _)
              rintro freelist3 -
              rw [growPages]
              change 0 = newsz ↔ _
              omega
          | true =>
              have kept := takes.kept
              have isTables : dir1.tables = dir.tables ∪ {PDX page} := takes.mapped rfl
              have later := Finset.card_sdiff_add_card (covered (page + 1) count) dir1.tables
              have same : covered (page + 1) count ∪ dir1.tables =
                  covered page (count + 1) ∪ dir.tables := by
                rw [covered_succ, isTables, Finset.union_comm dir.tables,
                  Finset.union_left_comm, Finset.union_assoc]
              rw [same] at later
              apply (ih).mono (fun _ => id)
              rintro ⟨last, freelist2, dir2⟩ isLast
              simp only at isLast kept ⊢
              rw [isLast, growPages, growPages]
              omega

/-- The pages that `copyuvm` takes for the user pages below a page: the copies and their
page tables. -/
def copyPages (page : Nat) : Nat := page + (page + NPDENTRIES - 1) / NPDENTRIES

theorem copyPages_succ (page : Nat) :
    copyPages (page + 1) = copyPages page + 1 + if page % NPDENTRIES = 0 then 1 else 0 := by
  by_cases isFirst : page % NPDENTRIES = 0
  · rw [if_pos isFirst]
    simp only [copyPages, NPDENTRIES] at *
    omega
  · rw [if_neg isFirst]
    simp only [copyPages, NPDENTRIES] at *
    omega

theorem copyPages_mono {first second : Nat} (order : first ≤ second) :
    copyPages first ≤ copyPages second := by
  simp only [copyPages, NPDENTRIES]
  omega

/-- The page tables of the user pages below a page. -/
def UserTables (dir : Dir) (page : Nat) : Prop :=
  ∀ other < USERPAGES, PDX other ∈ dir.tables ↔ other / NPDENTRIES * NPDENTRIES < page

theorem PDX_user_eq {first second : Nat} (firstUser : first < USERPAGES)
    (secondUser : second < USERPAGES) :
    PDX first = PDX second ↔ first / NPDENTRIES = second / NPDENTRIES := by
  rw [Fin.ext_iff]
  simp only [PDX, USERPAGES, KERNBASE, PGSIZE, NPDENTRIES] at *
  omega

theorem UserTables.mem_iff (tables : UserTables dir page) (user : page < USERPAGES) :
    PDX page ∈ dir.tables ↔ page % NPDENTRIES ≠ 0 := by
  rw [tables page user]
  simp only [NPDENTRIES]
  omega

theorem UserTables.succ (tables : UserTables dir page) (user : page < USERPAGES)
    (isTables : dir'.tables = dir.tables ∪ {PDX page}) : UserTables dir' (page + 1) := by
  intro other otherUser
  rw [isTables, Finset.mem_union, Finset.mem_singleton, tables other otherUser,
    PDX_user_eq otherUser user]
  simp only [NPDENTRIES]
  omega

/-- The pages that are left after one page was taken and mapped. -/
theorem UserTables.balance (tables : UserTables dir page) (user : page < USERPAGES)
    (takes : Takes freelist dir {PDX page} (true, freelist', dir')) :
    freelist'.length + copyPages (page + 1) = freelist.length + 1 + copyPages page := by
  have kept := takes.kept
  have isTables := takes.mapped rfl
  simp only at isTables kept
  rw [isTables] at kept
  rw [copyPages_succ]
  by_cases isFirst : page % NPDENTRIES = 0
  · have absent : PDX page ∉ dir.tables := by
      rw [tables.mem_iff user, not_not]
      exact isFirst
    rw [Finset.union_comm, ← Finset.insert_eq, Finset.card_insert_of_notMem absent] at kept
    rw [if_pos isFirst]
    omega
  · have member : PDX page ∈ dir.tables := (tables.mem_iff user).mpr isFirst
    rw [Finset.union_comm, ← Finset.insert_eq, Finset.insert_eq_self.mpr member] at kept
    rw [if_neg isFirst]
    omega

/-- The pages of the address space up to the first one that is missing. -/
structure Reaches (source : Dir) (page count stop : Nat) : Prop where
  lower : page ≤ stop
  present : ∀ other, page ≤ other → other < stop → (source.pte other).isSome = true
  ends : stop = page + count ∨ stop < page + count ∧ source.pte stop = none

namespace Reaches

variable {source : Dir} {count stop : Nat}

theorem eq_of_missing (reaches : Reaches source page (count + 1) stop)
    (missing : source.pte page = none) : stop = page := by
  by_contra distinct
  have present := reaches.present page (le_refl _) (by have := reaches.lower; omega)
  rw [missing] at present
  cases present

theorem lt_of_present (reaches : Reaches source page (count + 1) stop)
    (present : (source.pte page).isSome = true) : page < stop := by
  rcases Nat.eq_or_lt_of_le reaches.lower with rfl | later
  · rcases reaches.ends with isEnd | ⟨-, missing⟩
    · omega
    · rw [missing] at present
      cases present
  · exact later

theorem tail (reaches : Reaches source page (count + 1) stop) (later : page < stop) :
    Reaches source (page + 1) count stop := by
  refine ⟨later, fun other lower => reaches.present other (by omega), ?_⟩
  rcases reaches.ends with isEnd | ⟨before, missing⟩
  · exact Or.inl (by omega)
  · exact Or.inr ⟨by omega, missing⟩

end Reaches

/-- `copyuvm` has taken a page for the first page of a table, and there is none for the
table. -/
def RunsDry (page stop free : Nat) : Prop :=
  ∃ table, page ≤ table * NPDENTRIES ∧ table * NPDENTRIES < stop ∧
    free = copyPages (table * NPDENTRIES) + 1

/-- A failed copy: the pages that it has lost. -/
def LosesIf (condition : Prop) (freelist : Freelist) (dir : Dir) (result : Freelist × Dir) : Prop :=
  ∃ lost : List Frame, (lost ≠ [] ↔ condition) ∧ ∀ frame,
    result.1.count frame + result.2.uses frame + lost.count frame =
      freelist.count frame + dir.uses frame

theorem copyLoop_takes (source : Dir) (count : Nat) (freelist : Freelist) {dir : Dir}
    {page stop : Nat} (user : page + count ≤ USERPAGES)
    (clear : ∀ other, page ≤ other → other < page + count → dir.pte other = none)
    (tables : UserTables dir page) (reaches : Reaches source page count stop) :
    Outcome (fun _ => copyPages stop ≤ freelist.length + copyPages page)
      (fun result =>
        (result.1 = true → copyPages stop ≤ freelist.length + copyPages page) ∧
        (result.1 = false → freelist.length + copyPages page < copyPages stop ∧
          LosesIf (RunsDry page stop (freelist.length + copyPages page)) freelist dir result.2))
      (copyLoop source count freelist dir page) := by
  induction count generalizing freelist dir page with
  | zero =>
      have isStop : stop = page := by
        have := reaches.lower
        rcases reaches.ends with isEnd | ⟨before, -⟩
        · exact isEnd
        · omega
      refine ⟨fun _ => ?_, (by simp)⟩
      rw [isStop]
      exact Nat.le_add_left _ _
  | succ count ih =>
      have userPage : page < USERPAGES := by omega
      unfold copyLoop
      split
      · next missing =>
          have noPage : source.pte page = none := by
            rw [Dir.pte, missing]
            rfl
          rw [reaches.eq_of_missing noPage]
          exact Nat.le_add_left _ _
      · next table here =>
          have isEntry : source.pte page = table.ptes (PTX page) := by
            rw [Dir.pte, here]
            rfl
          split
          · next noEntry =>
              rw [reaches.eq_of_missing (isEntry.trans noEntry)]
              exact Nat.le_add_left _ _
          · next pte present =>
              have later : page < stop := by
                apply reaches.lt_of_present
                rw [isEntry, present]
                rfl
              have atLeast : copyPages (page + 1) ≤ copyPages stop := copyPages_mono later
              have next := copyPages_succ page
              split
              · next exhausted =>
                  have isEmpty := kalloc_none exhausted
                  refine ⟨(by simp), fun _ => ⟨?_, [], ?_, fun _ => Nat.add_zero _⟩⟩
                  · rw [isEmpty, List.length_nil]
                    omega
                  · simp only [ne_eq, not_true_eq_false, false_iff]
                    rintro ⟨table, lower, -, isFree⟩
                    have order := copyPages_mono lower
                    rw [isEmpty, List.length_nil] at isFree
                    omega
              · next mem rest allocated =>
                  have isList := kalloc_some allocated
                  have size : freelist.length = rest.length + 1 := by rw [isList, List.length_cons]
                  have taken : ∀ frame, freelist.count frame =
                      rest.count frame + single mem frame := by
                    intro frame
                    rw [isList, count_cons_eq]
                  have inside : page < ALLPAGES := userPage.trans user_lt_all
                  have spec := (mappage_spec rest dir inside { pte with frame := mem }).and
                    (mappage_takes rest dir page { pte with frame := mem })
                  apply Outcome.bind (spec.mono ?_ fun _ same => same)
                  · rintro ⟨mapped, freelist1, dir1⟩ both
                    have entries := both.1.1
                    have account := both.1.2
                    have takes := both.2
                    have kept := takes.kept
                    simp only at entries account kept
                    cases mapped with
                    | false =>
                        simp only [Bool.false_eq_true, false_and, if_false, Nat.add_zero] at account
                        obtain ⟨noRest, absent⟩ := takes.failed_singleton
                        rw [tables.mem_iff userPage, not_not] at absent
                        rw [if_pos absent] at next
                        have isTable : page / NPDENTRIES * NPDENTRIES = page :=
                          Nat.div_mul_cancel (Nat.dvd_of_mod_eq_zero absent)
                        refine ⟨(by simp), fun _ => ⟨by omega, [mem], ?_, ?_⟩⟩
                        · simp only [ne_eq, List.cons_ne_self, not_false_eq_true, true_iff]
                          refine ⟨page / NPDENTRIES, ?_⟩
                          rw [isTable]
                          exact ⟨le_refl _, later, by omega⟩
                        · intro frame
                          have := account frame
                          have := taken frame
                          change freelist1.count frame + dir1.uses frame + [mem].count frame = _
                          rw [count_cons_eq, List.count_nil]
                          omega
                    | true =>
                        simp only [true_and] at entries
                        simp only [userPage, and_self, if_true] at account
                        have isTables := takes.mapped rfl
                        simp only at isTables
                        have moved : ∀ frame, freelist1.count frame + dir1.uses frame =
                            freelist.count frame + dir.uses frame := by
                          intro frame
                          have := account frame
                          have := taken frame
                          omega
                        have balance : freelist1.length + copyPages (page + 1) =
                            freelist.length + copyPages page := by
                          rw [size]
                          exact tables.balance userPage takes
                        have clear1 : ∀ other, page + 1 ≤ other → other < page + 1 + count →
                            dir1.pte other = none := by
                          intro other lower upper
                          rw [entries other (by have := user_lt_all; omega), if_neg (by omega)]
                          exact clear other (by omega) (by omega)
                        have sameDry : RunsDry (page + 1) stop (freelist.length + copyPages page) ↔
                            RunsDry page stop (freelist.length + copyPages page) := by
                          constructor
                          · rintro ⟨table, lower, upper, isFree⟩
                            exact ⟨table, by omega, upper, isFree⟩
                          · rintro ⟨table, lower, upper, isFree⟩
                            refine ⟨table, ?_, upper, isFree⟩
                            rcases Nat.eq_or_lt_of_le lower with isFirst | past
                            · rw [← isFirst] at isFree
                              have divides : page % NPDENTRIES = 0 := by
                                rw [isFirst]
                                exact Nat.mul_mod_left _ _
                              rw [if_pos divides] at next
                              omega
                            · exact past
                        rw [← balance] at sameDry ⊢
                        apply (ih freelist1 (by omega) clear1 (tables.succ userPage isTables)
                          (reaches.tail later)).mono (fun _ => id)
                        rintro result ⟨copied, failed⟩
                        refine ⟨copied, ?_⟩
                        intro isFailed
                        obtain ⟨tooFew, lost, isLost, lostAccount⟩ := failed isFailed
                        exact ⟨tooFew, lost, isLost.trans sameDry,
                          fun frame => (lostAccount frame).trans (moved frame)⟩
                  · rintro error ⟨⟨-, remapped⟩, -⟩
                    rw [clear page (le_refl _) (by omega)] at remapped
                    cases remapped

theorem UserTables.of_kernel (isTables : dir.tables = kernelTables) : UserTables dir 0 := by
  intro other user
  rw [isTables, mem_kernelTables]
  simp only [Nat.not_lt_zero, iff_false]
  simp only [PDX, USERPAGES, KERNBASE, PGSIZE, NPDENTRIES] at *
  omega

/-- `copyuvm` fails exactly when there are too few pages for the address space, up to the
first page that is missing there.  It loses a page when there is none for a page table. -/
theorem copyuvm_exact {source : Dir} {sz stop : Nat}
    (bounded : ∀ frame, freelist.count frame ≤ capacity layout frame) (user : sz ≤ KERNBASE)
    (reaches : Reaches source 0 (pagesBelow sz) stop) :
    Outcome (fun _ => kernelPages + copyPages stop ≤ freelist.length)
      (fun result => match result.1 with
        | some _ => kernelPages + copyPages stop ≤ freelist.length
        | none => freelist.length < kernelPages + copyPages stop ∧ ∃ lost : List Frame,
            (lost ≠ [] ↔ ∃ table, table * NPDENTRIES < stop ∧
              freelist.length = kernelPages + copyPages (table * NPDENTRIES) + 1) ∧
            ∀ frame, result.2.count frame + lost.count frame = freelist.count frame)
      (copyuvm layout freelist source sz) := by
  have limit := pagesBelow_le user
  have setup := (setupkvm_exact bounded).and (setupkvm_takes layout freelist)
  apply Outcome.bind (setup.mono (fun _ impossible => impossible.1.elim) fun _ same => same)
  rintro ⟨copy, freelist1⟩ both
  cases copy with
  | none =>
      obtain ⟨account, tooFew⟩ := both
      simp only at account tooFew
      refine ⟨by omega, [], ?_, account⟩
      simp only [ne_eq, not_true_eq_false, false_iff]
      rintro ⟨table, -, isFree⟩
      omega
  | some dir =>
      obtain ⟨⟨clear, account⟩, size, isTables⟩ := both
      simp only at clear account size isTables
      have loop := copyLoop_takes source (pagesBelow sz) freelist1 (by omega)
        (fun other _ upper => clear other (by omega)) (UserTables.of_kernel isTables) reaches
      have none0 : copyPages 0 = 0 := by decide
      rw [none0, Nat.add_zero] at loop
      apply Outcome.bind (loop.mono ?_ fun _ same => same)
      · rintro ⟨copied, freelist2, dir2⟩ ⟨succeeded, failed⟩
        simp only at succeeded failed
        cases copied with
        | true =>
            have enough := succeeded rfl
            change kernelPages + copyPages stop ≤ freelist.length
            omega
        | false =>
            obtain ⟨tooFew, lost, isLost, lostAccount⟩ := failed rfl
            simp only at lostAccount
            have sole : Sole layout freelist2 dir2 := by
              intro frame
              have := lostAccount frame
              have := account frame
              have := bounded frame
              omega
            apply Outcome.bind ((freevm_exact sole).mono (fun _ => False.elim) fun _ same => same)
            intro freelist3 counted
            refine ⟨by omega, lost, ?_, ?_⟩
            · rw [isLost]
              constructor
              · rintro ⟨table, -, upper, isFree⟩
                exact ⟨table, upper, by omega⟩
              · rintro ⟨table, upper, isFree⟩
                exact ⟨table, Nat.zero_le _, upper, by omega⟩
            · intro frame
              have := counted frame
              have := lostAccount frame
              have := account frame
              change freelist3.count frame + lost.count frame = freelist.count frame
              omega
      · intro error enough
        omega

end Coursework.Paging
