import Coursework.EntryUpdates
import Coursework.OutcomeRules
import Coursework.PageTables
import Mathlib.Algebra.BigOperators.Fin

/-!
# Accounts of physical pages

For every page number, how often the page is on the free list and how often a
page directory refers to it: as itself, as a page table, or as a user page.  The
operations of `vm.c` move pages between the free list and a page directory and
never create one.  So a page that is accounted for at most once, and only if it
lies between `end` and `PHYSTOP`, stays so, and `kfree` never complains.

Together with the account, each operation says which entries of the page table
change.
-/

namespace Coursework.Paging

/-! ## Counting -/

/-- How often a page is a given one. -/
def single (frame other : Frame) : Nat := if frame = other then 1 else 0

/-- The number of times a page may be accounted for. -/
def capacity (layout : Layout) (frame : Frame) : Nat :=
  if layout.kend ≤ frame ∧ frame < PHYSTOP / PGSIZE then 1 else 0

def pteUses (pte : Option Pte) (frame : Frame) : Nat :=
  match pte with
  | none => 0
  | some pte => single pte.frame frame

/-- The uses by an entry of a page directory.  The pages that the kernel's part
maps are not its own. -/
def pdeUses (entry : Fin NPDENTRIES × Option Table) (frame : Frame) : Nat :=
  match entry with
  | (_, none) => 0
  | (index, some table) => single table.frame frame +
      if index.val * NPDENTRIES < USERPAGES then
        total (fun pte => pteUses pte frame) table.ptes
      else 0

def Dir.uses (dir : Dir) (frame : Frame) : Nat :=
  single dir.frame frame +
    total (fun entry => pdeUses entry frame) fun index => (index, dir.pdes index)

/-- The page directory and the free list share no page, and have pages of the
machine only. -/
def Sole (layout : Layout) (freelist : Freelist) (dir : Dir) : Prop :=
  ∀ frame, freelist.count frame + dir.uses frame ≤ capacity layout frame

theorem count_cons_eq (frame : Frame) (freelist : Freelist) (other : Frame) :
    (frame :: freelist).count other = freelist.count other + single frame other := by
  rw [List.count_cons, single]
  simp only [beq_iff_eq]

theorem single_self (frame : Frame) : single frame frame = 1 := if_pos rfl

theorem kalloc_some {freelist freelist' : Freelist} {frame : Frame}
    (allocated : kalloc freelist = some (frame, freelist')) : freelist = frame :: freelist' := by
  cases freelist with
  | nil => cases allocated
  | cons first rest =>
      cases allocated
      rfl

theorem kalloc_none {freelist : Freelist} (exhausted : kalloc freelist = none) :
    freelist = [] := by
  cases freelist with
  | nil => rfl
  | cons first rest => cases exhausted

theorem kfree_ok {layout : Layout} {freelist : Freelist} {frame : Frame}
    (room : freelist.count frame + 1 ≤ capacity layout frame) :
    kfree layout freelist frame = .ok (frame :: freelist) := by
  unfold capacity at room
  split at room
  · next inside =>
      have absent : frame ∉ freelist := by
        rw [← List.count_eq_zero]
        omega
      have isPage : ¬ (frame < layout.kend ∨ PHYSTOP / PGSIZE ≤ frame) := by
        rw [not_or, not_lt, not_le]
        exact inside
      rw [kfree, if_neg isPage, if_neg absent]
  · omega

/-! ## Entries -/

theorem page_eq {first second : Nat} (firstInside : first < ALLPAGES)
    (secondInside : second < ALLPAGES) (directory : PDX first = PDX second)
    (table : PTX first = PTX second) : first = second := by
  have directory := congrArg Fin.val directory
  have table := congrArg Fin.val table
  simp only [PDX, PTX, ALLPAGES, UINT, PGSIZE, NPDENTRIES] at *
  omega

theorem PDX_user {page : Nat} (inside : page < ALLPAGES) :
    (PDX page).val * NPDENTRIES < USERPAGES ↔ page < USERPAGES := by
  simp only [PDX, USERPAGES, KERNBASE, ALLPAGES, UINT, PGSIZE, NPDENTRIES] at *
  omega

namespace Dir

variable {dir : Dir} {page other : Nat} {table : Table} {entry : Option Pte}

theorem pte_setPte (here : dir.table page = some table) (inside : page < ALLPAGES)
    (otherInside : other < ALLPAGES) :
    (dir.setPte page entry).pte other = if other = page then entry else dir.pte other := by
  unfold setPte
  rw [here]
  unfold pte Dir.table at *
  by_cases sameTable : PDX other = PDX page
  · simp only [sameTable, Function.update_self, Option.bind_some, here]
    by_cases sameEntry : PTX other = PTX page
    · have same := page_eq otherInside inside sameTable sameEntry
      simp [same]
    · have distinct : other ≠ page := fun same => sameEntry (by rw [same])
      rw [Function.update_of_ne sameEntry, if_neg distinct]
  · have distinct : other ≠ page := fun same => sameTable (by rw [same])
    simp only [Function.update_of_ne sameTable, if_neg distinct]

theorem total_setPde (dir : Dir) (index : Fin NPDENTRIES) (entry : Option Table)
    (frame : Frame) :
    ({ dir with pdes := Function.update dir.pdes index entry } : Dir).uses frame +
        pdeUses (index, dir.pdes index) frame =
      dir.uses frame + pdeUses (index, entry) frame := by
  have family : (fun other => (other, Function.update dir.pdes index entry other)) =
      Function.update (fun other => (other, dir.pdes other)) index (index, entry) := by
    funext other
    rcases eq_or_ne other index with rfl | distinct
    · simp
    · simp [Function.update_of_ne distinct]
  have exchanged := total_update (fun entry => pdeUses entry frame)
    (fun other => (other, dir.pdes other)) index (index, entry)
  rw [← family] at exchanged
  simp only [uses]
  omega

/-- A changed entry exchanges its page, if it is a user's entry. -/
theorem uses_setPte (here : dir.table page = some table) (inside : page < ALLPAGES)
    (frame : Frame) :
    (dir.setPte page entry).uses frame +
        (if page < USERPAGES then pteUses (dir.pte page) frame else 0) =
      dir.uses frame + if page < USERPAGES then pteUses entry frame else 0 := by
  have old : dir.pte page = table.ptes (PTX page) := by
    rw [pte, here]
    rfl
  have isTable : dir.pdes (PDX page) = some table := here
  have exchanged := total_setPde dir (PDX page)
    (some { table with ptes := Function.update table.ptes (PTX page) entry }) frame
  have inner := total_update (fun pte => pteUses pte frame) table.ptes (PTX page) entry
  unfold setPte
  rw [here, old]
  simp only [isTable, pdeUses, PDX_user inside] at exchanged
  split at exchanged
  · next user =>
      simp only [if_pos user]
      omega
  · next kernel =>
      simp only [if_neg kernel]
      omega

theorem pteUses_le (inside : page < USERPAGES) (frame : Frame) :
    pteUses (dir.pte page) frame ≤ dir.uses frame := by
  have allInside : page < ALLPAGES := by
    simp only [USERPAGES, KERNBASE, ALLPAGES, UINT, PGSIZE] at *
    omega
  cases here : dir.table page with
  | none => simp [pte, here, pteUses]
  | some table =>
      have exchanged : (dir.setPte page none).uses frame + _ = _ :=
        uses_setPte here allInside frame
      simp only [if_pos inside] at exchanged
      simp only [pteUses] at exchanged ⊢
      omega

end Dir

/-! ## Mapping -/

variable {layout : Layout} {freelist freelist' : Freelist} {dir dir' : Dir} {page : Nat}

theorem user_lt_all : USERPAGES < ALLPAGES := by decide

theorem walkpgdir_some (walked : walkpgdir freelist dir page = some (freelist', dir')) :
    (∃ table, dir'.table page = some table) ∧ (∀ other, dir'.pte other = dir.pte other) ∧
      ∀ frame, freelist'.count frame + dir'.uses frame =
        freelist.count frame + dir.uses frame := by
  unfold walkpgdir at walked
  split at walked
  · next table here =>
      cases walked
      exact ⟨⟨table, here⟩, fun _ => rfl, fun _ => rfl⟩
  · next missing =>
      split at walked
      · cases walked
      · next frame rest allocated =>
          cases walked
          have isList := kalloc_some allocated
          refine ⟨⟨_, Function.update_self ..⟩, ?_, ?_⟩
          · intro other
            by_cases sameTable : PDX other = PDX page
            · have noTable : dir.table other = none := by
                rw [Dir.table, sameTable]
                exact missing
              rw [Dir.pte, Dir.pte, noTable, Dir.table]
              simp [sameTable]
            · rw [Dir.pte, Dir.pte, Dir.table, Dir.table]
              simp only [Function.update_of_ne sameTable]
          · intro other
            have exchanged := Dir.total_setPde dir (PDX page) (some ⟨frame, fun _ => none⟩) other
            have noTable : dir.pdes (PDX page) = none := missing
            have empty : total (fun pte => pteUses pte other)
                (fun _ : Fin NPDENTRIES => (none : Option Pte)) = 0 :=
              Finset.sum_eq_zero fun _ _ => rfl
            simp only [noTable, pdeUses, empty, ite_self] at exchanged
            rw [isList, count_cons_eq]
            omega

/-- What `mappage` does with one page. -/
theorem mappage_spec (freelist : Freelist) (dir : Dir) {page : Nat} (inside : page < ALLPAGES)
    (pte : Pte) :
    Outcome (fun error => error = .remap ∧ (dir.pte page).isSome = true)
      (fun result => (∀ other < ALLPAGES, result.2.2.pte other =
          if result.1 = true ∧ other = page then some pte else dir.pte other) ∧
        ∀ frame, result.2.1.count frame + result.2.2.uses frame =
          freelist.count frame + dir.uses frame +
            if result.1 = true ∧ page < USERPAGES then single pte.frame frame else 0)
      (mappage freelist dir page pte) := by
  unfold mappage
  split
  · exact ⟨fun _ _ => by simp, fun _ => by simp⟩
  · next freelist' dir' walked =>
      obtain ⟨⟨table, here⟩, same, account⟩ := walkpgdir_some walked
      split
      · next present =>
          rw [same] at present
          exact ⟨rfl, present⟩
      · next absent =>
          have missing : dir'.pte page = none := by simpa using absent
          refine ⟨?_, ?_⟩
          · intro other otherInside
            rw [Dir.pte_setPte here inside otherInside, same]
            simp
          · intro frame
            have exchanged : (dir'.setPte page (some pte)).uses frame + _ = _ :=
              Dir.uses_setPte here inside frame
            have before := account frame
            simp only [missing, pteUses, ite_self] at exchanged
            simp only [true_and]
            omega

/-- The kernel's pages are not accounted for. -/
theorem mappages_spec (count : Nat) (freelist : Freelist) (dir : Dir) {page : Nat} (pte : Pte)
    (kernel : USERPAGES ≤ page) (inside : page + count ≤ ALLPAGES) :
    Outcome (fun error => error = .remap ∧
        ∃ other, page ≤ other ∧ other < page + count ∧ (dir.pte other).isSome = true)
      (fun result => (∀ other < ALLPAGES, (result.2.2.pte other).isSome = true →
          (dir.pte other).isSome = true ∨ page ≤ other ∧ other < page + count) ∧
        ∀ frame, result.2.1.count frame + result.2.2.uses frame =
          freelist.count frame + dir.uses frame)
      (mappages count freelist dir page pte) := by
  induction count generalizing freelist dir page pte with
  | zero => exact ⟨fun _ _ present => Or.inl present, fun _ => rfl⟩
  | succ count ih =>
      apply Outcome.bind ((mappage_spec freelist dir (by omega) pte).mono ?_ fun _ same => same)
      · rintro ⟨mapped, freelist1, dir1⟩ ⟨entries, account⟩
        have notUser : ¬ page < USERPAGES := by omega
        simp only [notUser, and_false, if_false, Nat.add_zero] at account
        have earlier : ∀ other < ALLPAGES, (dir1.pte other).isSome = true →
            (dir.pte other).isSome = true ∨ other = page := by
          intro other otherInside present
          rw [entries other otherInside] at present
          split at present
          · next here => exact Or.inr here.2
          · exact Or.inl present
        cases mapped with
        | false =>
            refine ⟨?_, account⟩
            intro other otherInside present
            rcases earlier other otherInside present with before | same
            · exact Or.inl before
            · exact Or.inr (by omega)
        | true =>
            apply (ih freelist1 dir1 _ (by omega) (by omega)).mono
            · rintro error ⟨isRemap, other, lower, upper, present⟩
              refine ⟨isRemap, other, by omega, by omega, ?_⟩
              rcases earlier other (by omega) present with before | same
              · exact before
              · omega
            · rintro ⟨mapped, freelist2, dir2⟩ ⟨later, account'⟩
              refine ⟨?_, ?_⟩
              · intro other otherInside present
                rcases later other otherInside present with before | range
                · rcases earlier other otherInside before with before | same
                  · exact Or.inl before
                  · exact Or.inr (by omega)
                · exact Or.inr (by omega)
              · intro frame
                rw [account' frame, account frame]
      · rintro error ⟨isRemap, present⟩
        exact ⟨isRemap, page, by omega, by omega, present⟩

/-! ## Freeing -/

theorem Sole.of_le (sole : Sole layout freelist dir)
    (account : ∀ frame, freelist'.count frame + dir'.uses frame ≤
      freelist.count frame + dir.uses frame) : Sole layout freelist' dir' :=
  fun frame => (account frame).trans (sole frame)

/-- The pages that share an absent page table. -/
theorem pte_none_of_table {other : Nat} (missing : dir.table page = none) (lower : page ≤ other)
    (upper : other < (page / NPDENTRIES + 1) * NPDENTRIES) : dir.pte other = none := by
  have sameTable : PDX other = PDX page := by
    apply Fin.ext
    simp only [PDX, NPDENTRIES] at *
    omega
  have noTable : dir.table other = none := by
    rw [Dir.table, sameTable]
    exact missing
  rw [Dir.pte, noTable]
  rfl

/-- `deallocuvm` clears the entries of a range of user pages and cannot panic. -/
theorem deallocLoop_spec (rounds : Nat) {freelist : Freelist} {dir : Dir} {page stop : Nat}
    (sole : Sole layout freelist dir) (user : stop ≤ USERPAGES) (enough : stop ≤ page + rounds) :
    Outcome (fun _ => False)
      (fun result => (∀ other < ALLPAGES, result.2.pte other =
          if page ≤ other ∧ other < stop then none else dir.pte other) ∧
        ∀ frame, result.1.count frame + result.2.uses frame =
          freelist.count frame + dir.uses frame)
      (deallocLoop layout rounds freelist dir page stop) := by
  induction rounds generalizing freelist dir page with
  | zero =>
      refine ⟨?_, fun _ => rfl⟩
      intro other _
      rw [if_neg (by omega)]
  | succ rounds ih =>
      unfold deallocLoop
      split
      · next below =>
          have allInside : page < ALLPAGES := by
            have := user_lt_all
            omega
          split
          · next missing =>
              have next : page < (page / NPDENTRIES + 1) * NPDENTRIES := by
                simp only [NPDENTRIES]
                omega
              apply (ih sole (by omega)).mono (fun _ => id)
              rintro ⟨freelist1, dir1⟩ ⟨entries, account⟩
              refine ⟨?_, account⟩
              intro other otherInside
              rw [entries other otherInside]
              by_cases skipped : page ≤ other ∧ other < (page / NPDENTRIES + 1) * NPDENTRIES
              · rw [pte_none_of_table missing skipped.1 skipped.2, ite_self, ite_self]
              · have same : (page / NPDENTRIES + 1) * NPDENTRIES ≤ other ∧ other < stop ↔
                    page ≤ other ∧ other < stop := by omega
                simp only [same]
          · next table here =>
              have isEntry : dir.pte page = table.ptes (PTX page) := by
                rw [Dir.pte, here]
                rfl
              split
              · next noEntry =>
                  rw [noEntry] at isEntry
                  apply (ih sole (by omega)).mono (fun _ => id)
                  rintro ⟨freelist1, dir1⟩ ⟨entries, account⟩
                  refine ⟨?_, account⟩
                  intro other otherInside
                  rw [entries other otherInside]
                  rcases eq_or_ne other page with rfl | distinct
                  · rw [isEntry, ite_self, ite_self]
                  · have same : page + 1 ≤ other ∧ other < stop ↔
                        page ≤ other ∧ other < stop := by omega
                    simp only [same]
              · next pte present =>
                  rw [present] at isEntry
                  have owned : 1 ≤ dir.uses pte.frame := by
                    have : pteUses (dir.pte page) pte.frame ≤ dir.uses pte.frame :=
                      Dir.pteUses_le (by omega) pte.frame
                    rw [isEntry, pteUses, single_self] at this
                    exact this
                  have room := sole pte.frame
                  have nonzero : pte.frame ≠ 0 := by
                    intro zero
                    have noRoom : capacity layout pte.frame = 0 := by
                      rw [capacity, if_neg]
                      rintro ⟨above, -⟩
                      have := layout.aboveData
                      rw [zero] at above
                      omega
                    omega
                  rw [if_neg nonzero, kfree_ok (by omega)]
                  have exchanged : ∀ frame, (dir.setPte page none).uses frame + _ = _ :=
                    Dir.uses_setPte here allInside
                  have moved : ∀ frame, (pte.frame :: freelist).count frame +
                      (dir.setPte page none).uses frame =
                        freelist.count frame + dir.uses frame := by
                    intro frame
                    have exchanged := exchanged frame
                    rw [isEntry, if_pos (by omega), if_pos (by omega), pteUses, pteUses]
                      at exchanged
                    rw [count_cons_eq]
                    omega
                  apply (ih (sole.of_le fun frame => (moved frame).le) (by omega)).mono
                    (fun _ => id)
                  rintro ⟨freelist1, dir1⟩ ⟨entries, account⟩
                  refine ⟨?_, fun frame => (account frame).trans (moved frame)⟩
                  intro other otherInside
                  rw [entries other otherInside, Dir.pte_setPte here allInside otherInside]
                  rcases eq_or_ne other page with rfl | distinct
                  · rw [if_pos rfl, ite_self, if_pos (by omega)]
                  · have same : page + 1 ≤ other ∧ other < stop ↔
                        page ≤ other ∧ other < stop := by omega
                    simp only [same, if_neg distinct]
      · next past =>
          refine ⟨?_, fun _ => rfl⟩
          intro other _
          rw [if_neg (by omega)]

theorem pagesBelow_le {sz : Nat} (inside : sz ≤ KERNBASE) : pagesBelow sz ≤ USERPAGES := by
  simp only [pagesBelow, USERPAGES, KERNBASE, PGSIZE] at *
  omega

theorem pagesBelow_mono {first second : Nat} (order : first ≤ second) :
    pagesBelow first ≤ pagesBelow second := by
  simp only [pagesBelow, PGSIZE]
  omega

theorem deallocuvm_spec {oldsz newsz : Nat} (sole : Sole layout freelist dir)
    (user : oldsz ≤ KERNBASE) :
    Outcome (fun _ => False)
      (fun result => result.1 = (if oldsz ≤ newsz then oldsz else newsz) ∧
        (∀ other < ALLPAGES, result.2.2.pte other =
          if pagesBelow newsz ≤ other ∧ other < pagesBelow oldsz then none
          else dir.pte other) ∧
        ∀ frame, result.2.1.count frame + result.2.2.uses frame =
          freelist.count frame + dir.uses frame)
      (deallocuvm layout freelist dir oldsz newsz) := by
  unfold deallocuvm
  split
  · next larger =>
      refine ⟨rfl, ?_, fun _ => rfl⟩
      intro other _
      have : pagesBelow oldsz ≤ pagesBelow newsz := by
        simp only [pagesBelow, PGSIZE]
        omega
      rw [if_neg (by omega)]
  · apply Outcome.bind (deallocLoop_spec _ sole (pagesBelow_le user) (by omega))
    rintro ⟨freelist1, dir1⟩ ⟨entries, account⟩
    exact ⟨rfl, entries, account⟩

def tableUses (table : Option Table) (frame : Frame) : Nat :=
  match table with
  | none => 0
  | some table => single table.frame frame

@[simp]
theorem tableUses_none (frame : Frame) : tableUses none frame = 0 := rfl

@[simp]
theorem tableUses_some (table : Table) (frame : Frame) :
    tableUses (some table) frame = single table.frame frame := rfl

theorem freeTables_spec (indices : List (Fin NPDENTRIES)) {freelist : Freelist}
    (room : ∀ frame, freelist.count frame +
      (indices.map fun index => tableUses (dir.pdes index) frame).sum ≤ capacity layout frame) :
    Outcome (fun _ => False)
      (fun freelist' => ∀ frame, freelist'.count frame = freelist.count frame +
        (indices.map fun index => tableUses (dir.pdes index) frame).sum)
      (freeTables layout dir indices freelist) := by
  induction indices generalizing freelist with
  | nil => exact fun _ => rfl
  | cons index rest ih =>
      simp only [List.map_cons, List.sum_cons] at room ⊢
      unfold freeTables
      split
      · next missing =>
          simp only [missing, tableUses_none, Nat.zero_add] at room ⊢
          exact ih room
      · next table here =>
          simp only [here, tableUses_some] at room ⊢
          have mine := room table.frame
          rw [single_self] at mine
          rw [kfree_ok (by omega)]
          apply (ih ?_).mono (fun _ => id)
          · intro freelist' counted frame
            rw [counted frame, count_cons_eq]
            omega
          · intro frame
            have := room frame
            rw [count_cons_eq]
            omega

/-- A table's entries are those of the pages that it covers. -/
theorem pte_of_pde {index entry : Fin NPDENTRIES} {table : Table}
    (here : dir.pdes index = some table) :
    dir.pte (index.val * NPDENTRIES + entry.val) = table.ptes entry := by
  have isIndex : PDX (index.val * NPDENTRIES + entry.val) = index := by
    apply Fin.ext
    simp only [PDX, NPDENTRIES] at *
    omega
  have isEntry : PTX (index.val * NPDENTRIES + entry.val) = entry := by
    apply Fin.ext
    simp only [PTX, NPDENTRIES] at *
    omega
  rw [Dir.pte, Dir.table, isIndex, here, Option.bind_some, isEntry]

theorem user_page {index entry : Nat} (user : index * NPDENTRIES < USERPAGES)
    (inTable : entry < NPDENTRIES) : index * NPDENTRIES + entry < USERPAGES := by
  have whole : USERPAGES = 512 * NPDENTRIES := by decide
  rw [whole] at user ⊢
  have below : index + 1 ≤ 512 := Nat.lt_of_mul_lt_mul_right user
  calc
    index * NPDENTRIES + entry < index * NPDENTRIES + NPDENTRIES :=
      Nat.add_lt_add_left inTable _
    _ = (index + 1) * NPDENTRIES := (Nat.succ_mul _ _).symm
    _ ≤ 512 * NPDENTRIES := Nat.mul_le_mul_right _ below

theorem pagesBelow_KERNBASE : pagesBelow KERNBASE = USERPAGES := by decide

/-- Without user pages there are the page directory and its page tables. -/
theorem uses_of_clear (clear : ∀ page < USERPAGES, dir.pte page = none) (frame : Frame) :
    dir.uses frame = single dir.frame frame +
      ((List.finRange NPDENTRIES).map fun index => tableUses (dir.pdes index) frame).sum := by
  have same : ∀ index, pdeUses (index, dir.pdes index) frame =
      tableUses (dir.pdes index) frame := by
    intro index
    cases here : dir.pdes index with
    | none => rfl
    | some table =>
        simp only [pdeUses, tableUses_some, Nat.add_eq_left, ite_eq_right_iff]
        intro user
        apply Finset.sum_eq_zero
        intro entry _
        rw [← pte_of_pde here, clear _ (user_page user entry.isLt)]
        rfl
  rw [Dir.uses, total, Fin.sum_univ_def]
  simp only [same]

/-- `freevm` gives back every page of a page directory and cannot panic. -/
theorem freevm_exact (sole : Sole layout freelist dir) :
    Outcome (fun _ => False)
      (fun freelist' => ∀ frame, freelist'.count frame = freelist.count frame + dir.uses frame)
      (freevm layout freelist dir) := by
  apply Outcome.bind (deallocuvm_spec sole (le_refl KERNBASE))
  rintro ⟨_, freelist1, dir1⟩ freed
  have entries := freed.2.1
  have account := freed.2.2
  simp only at entries account
  have clear : ∀ page < USERPAGES, dir1.pte page = none := by
    intro page user
    have below : page < pagesBelow KERNBASE := pagesBelow_KERNBASE ▸ user
    have bounds : pagesBelow 0 ≤ page ∧ page < pagesBelow KERNBASE :=
      ⟨Nat.zero_le page, below⟩
    rw [entries page (user.trans user_lt_all), if_pos bounds]
  have pages := fun frame => uses_of_clear clear frame
  have room : ∀ frame, freelist1.count frame + ((List.finRange NPDENTRIES).map fun index =>
      tableUses (dir1.pdes index) frame).sum ≤ capacity layout frame := by
    intro frame
    have := sole frame
    have := account frame
    have := pages frame
    omega
  generalize List.finRange NPDENTRIES = indices at *
  apply Outcome.bind (freeTables_spec indices room)
  intro freelist2 counted
  have mine := sole dir1.frame
  have mine1 := account dir1.frame
  have mine2 := counted dir1.frame
  have pages1 := pages dir1.frame
  rw [single_self] at pages1
  rw [kfree_ok (by omega)]
  intro frame
  have := account frame
  have := counted frame
  have := pages frame
  rw [count_cons_eq]
  omega

theorem freevm_spec (sole : Sole layout freelist dir) :
    Outcome (fun _ => False)
      (fun freelist' => ∀ frame, freelist'.count frame ≤ freelist.count frame + dir.uses frame)
      (freevm layout freelist dir) :=
  (freevm_exact sole).mono (fun _ => id) fun _ counted frame => (counted frame).le

/-! ## The kernel's part -/

/-- The lines of `kmap` are in order and overlap neither each other nor what lies
below `start`. -/
def Ordered : Nat → List Kmap → Prop
  | _, [] => True
  | start, k :: rest => start ≤ k.virt ∧ k.virt + (k.physEnd - k.physStart) ≤ ALLPAGES ∧
      Ordered (k.virt + (k.physEnd - k.physStart)) rest

theorem kmap_ordered (layout : Layout) : Ordered USERPAGES (kmap layout) := by
  have := layout.aboveText
  have := layout.aboveData
  have := layout.belowTop
  simp only [kmap, Ordered, USERPAGES, KERNBASE, EXTMEM, PHYSTOP, DEVSPACE, ALLPAGES, UINT,
    PGSIZE, and_true] at *
  omega

theorem mapKernel_spec (lines : List Kmap) {start : Nat} {freelist : Freelist} {dir : Dir}
    (ordered : Ordered start lines) (kernel : USERPAGES ≤ start)
    (clear : ∀ other < ALLPAGES, start ≤ other → dir.pte other = none) :
    Outcome (fun _ => False)
      (fun result => (∀ other < USERPAGES, (result.2.2.pte other).isSome = true →
          (dir.pte other).isSome = true) ∧
        ∀ frame, result.2.1.count frame + result.2.2.uses frame =
          freelist.count frame + dir.uses frame)
      (mapKernel lines freelist dir) := by
  induction lines generalizing start freelist dir with
  | nil => exact ⟨fun _ _ present => present, fun _ => rfl⟩
  | cons k rest ih =>
      obtain ⟨above, inside, later⟩ := ordered
      apply Outcome.bind ((mappages_spec _ freelist dir _ (by omega) inside).mono ?_
        fun _ same => same)
      · rintro ⟨mapped, freelist1, dir1⟩ ⟨entries, account⟩
        simp only at entries account
        have userEntries : ∀ other < USERPAGES, (dir1.pte other).isSome = true →
            (dir.pte other).isSome = true := by
          intro other user present
          rcases entries other (by have := user_lt_all; omega) present with before | range
          · exact before
          · omega
        cases mapped with
        | false => exact ⟨userEntries, account⟩
        | true =>
            apply (ih later (by omega) ?_).mono (fun _ => id)
            · rintro ⟨mapped, freelist2, dir2⟩ ⟨entries', account'⟩
              refine ⟨?_, ?_⟩
              · intro other user present
                exact userEntries other user (entries' other user present)
              · intro frame
                rw [account' frame, account frame]
            · intro other otherInside past
              by_contra present
              have present : (dir1.pte other).isSome = true :=
                Option.isSome_iff_ne_none.mpr present
              rcases entries other otherInside present with before | range
              · rw [clear other otherInside (by omega)] at before
                cases before
              · omega
      · rintro error ⟨-, other, lower, upper, present⟩
        rw [clear other (by omega) (by omega)] at present
        cases present

theorem uses_empty (frame other : Frame) :
    (⟨frame, fun _ => none⟩ : Dir).uses other = single frame other := by
  have empty : total (fun entry => pdeUses entry other)
      (fun index : Fin NPDENTRIES => (index, (none : Option Table))) = 0 :=
    Finset.sum_eq_zero fun _ _ => rfl
  simp only [Dir.uses, empty, Nat.add_zero]

/-- A page directory without user pages, or none; no page is lost. -/
theorem setupkvm_exact (bounded : ∀ frame, freelist.count frame ≤ capacity layout frame) :
    Outcome (fun _ => False)
      (fun result => match result.1 with
        | none => ∀ frame, result.2.count frame = freelist.count frame
        | some dir => (∀ other < USERPAGES, dir.pte other = none) ∧
            ∀ frame, result.2.count frame + dir.uses frame = freelist.count frame)
      (setupkvm layout freelist) := by
  unfold setupkvm
  split
  · exact fun _ => rfl
  · next frame rest allocated =>
      have isList := kalloc_some allocated
      apply Outcome.bind (mapKernel_spec (kmap layout) (kmap_ordered layout) (le_refl _)
        fun _ _ _ => rfl)
      rintro ⟨mapped, freelist1, dir1⟩ ⟨entries, account⟩
      simp only at entries account
      have account : ∀ other, freelist1.count other + dir1.uses other =
          freelist.count other := by
        intro other
        rw [account other, uses_empty, isList, count_cons_eq]
      cases mapped with
      | true =>
          refine ⟨?_, account⟩
          intro other user
          by_contra present
          have present := entries other user (Option.isSome_iff_ne_none.mpr present)
          cases present
      | false =>
          have sole : Sole layout freelist1 dir1 := fun other =>
            (account other).le.trans (bounded other)
          apply Outcome.bind (freevm_exact sole)
          intro freelist2 counted other
          exact (counted other).trans (account other)

theorem setupkvm_spec (bounded : ∀ frame, freelist.count frame ≤ capacity layout frame) :
    Outcome (fun _ => False)
      (fun result => match result.1 with
        | none => ∀ frame, result.2.count frame ≤ freelist.count frame
        | some dir => (∀ other < USERPAGES, dir.pte other = none) ∧
            ∀ frame, result.2.count frame + dir.uses frame ≤ freelist.count frame)
      (setupkvm layout freelist) := by
  apply (setupkvm_exact bounded).mono (fun _ => id)
  rintro ⟨copy, freelist1⟩ isSetup
  cases copy with
  | none => exact fun frame => (isSetup frame).le
  | some dir => exact ⟨isSetup.1, fun frame => (isSetup.2 frame).le⟩

/-! ## Growing and copying -/

/-- The entries after `allocuvm` has mapped the user pages from `page` to `stop`. -/
def Grows (before after : Dir) (page stop : Nat) : Prop :=
  ∀ other < ALLPAGES, (after.pte other).isSome = true ↔
    (before.pte other).isSome = true ∨ page ≤ other ∧ other < stop

/-- The entries after `allocuvm` has given up. -/
def Clears (before after : Dir) (page stop : Nat) : Prop :=
  ∀ other < ALLPAGES, after.pte other =
    if page ≤ other ∧ other < stop then none else before.pte other

theorem allocLoop_spec {oldsz newsz : Nat} (user : newsz < KERNBASE) (count : Nat)
    {freelist : Freelist} {dir : Dir} {page : Nat} (sole : Sole layout freelist dir)
    (reached : pagesBelow oldsz ≤ page) (left : page + count = pagesBelow newsz) :
    Outcome (fun error => error = .remap ∧ ∃ other, page ≤ other ∧ other < pagesBelow newsz ∧
        (dir.pte other).isSome = true)
      (fun result => (∀ frame, result.2.1.count frame + result.2.2.uses frame =
          freelist.count frame + dir.uses frame) ∧
        (result.1 = newsz ∧ Grows dir result.2.2 page (pagesBelow newsz) ∨
          result.1 = 0 ∧
            Clears dir result.2.2 (pagesBelow oldsz) (pagesBelow newsz)))
      (allocLoop layout oldsz newsz count freelist dir page) := by
  have limit : pagesBelow newsz ≤ USERPAGES := pagesBelow_le user.le
  induction count generalizing freelist dir page with
  | zero =>
      refine ⟨fun _ => rfl, Or.inl ⟨rfl, ?_⟩⟩
      intro other _
      simp only [iff_self_or]
      omega
  | succ count ih =>
      unfold allocLoop
      split
      · apply Outcome.bind ((deallocuvm_spec sole user.le).mono (fun _ => False.elim)
          fun _ same => same)
        rintro ⟨size, freelist1, dir1⟩ ⟨-, entries, account⟩
        exact ⟨account, Or.inr ⟨rfl, entries⟩⟩
      · next mem rest allocated =>
          have isList := kalloc_some allocated
          have taken : ∀ frame, freelist.count frame = rest.count frame + single mem frame := by
            intro frame
            rw [isList, count_cons_eq]
          have inside : page < USERPAGES := by omega
          apply Outcome.bind ((mappage_spec rest dir (by have := user_lt_all; omega)
            ⟨mem, true, true⟩).mono ?_ fun _ same => same)
          · rintro ⟨mapped, freelist1, dir1⟩ ⟨entries, account⟩
            simp only at entries account
            cases mapped with
            | true =>
                simp only [true_and] at entries
                simp only [inside, and_self, if_true] at account
                have moved : ∀ frame, freelist1.count frame + dir1.uses frame =
                    freelist.count frame + dir.uses frame := by
                  intro frame
                  have := account frame
                  have := taken frame
                  omega
                apply (ih (sole.of_le fun frame => (moved frame).le) (by omega)
                  (by omega)).mono
                · rintro error ⟨isRemap, other, lower, upper, present⟩
                  rw [entries other (by have := user_lt_all; omega), if_neg (by omega)] at present
                  exact ⟨isRemap, other, by omega, upper, present⟩
                · rintro ⟨size, freelist2, dir2⟩ ⟨account', grown⟩
                  refine ⟨fun frame => (account' frame).trans (moved frame), ?_⟩
                  rcases grown with ⟨isSize, grows⟩ | ⟨isSize, clears⟩
                  · refine Or.inl ⟨isSize, ?_⟩
                    intro other otherInside
                    rw [grows other otherInside, entries other otherInside]
                    rcases eq_or_ne other page with rfl | distinct
                    · simp only [if_true, Option.isSome_some, true_or, true_iff]
                      omega
                    · rw [if_neg distinct]
                      constructor
                      · rintro (before | range)
                        · exact Or.inl before
                        · exact Or.inr (by omega)
                      · rintro (before | range)
                        · exact Or.inl before
                        · exact Or.inr (by omega)
                  · refine Or.inr ⟨isSize, ?_⟩
                    intro other otherInside
                    rw [clears other otherInside, entries other otherInside]
                    rcases eq_or_ne other page with rfl | distinct
                    · rw [if_pos (by omega), if_pos (by omega)]
                    · rw [if_neg distinct]
            | false =>
                simp only [Bool.false_eq_true, false_and, if_false, Nat.add_zero]
                  at entries account
                have sole1 : Sole layout freelist1 dir1 := by
                  apply sole.of_le
                  intro frame
                  have := account frame
                  have := taken frame
                  omega
                apply Outcome.bind ((deallocuvm_spec sole1 user.le).mono (fun _ => False.elim)
                  fun _ same => same)
                rintro ⟨size, freelist2, dir2⟩ ⟨-, entries', account'⟩
                simp only at entries' account'
                have mine := sole mem
                have mineTaken := taken mem
                have mine1 := account mem
                have mine2 := account' mem
                rw [single_self] at mineTaken
                simp only
                rw [kfree_ok (by omega)]
                refine ⟨?_, Or.inr ⟨rfl, ?_⟩⟩
                · intro frame
                  have := taken frame
                  have := account frame
                  have := account' frame
                  change (mem :: freelist2).count frame + dir2.uses frame = _
                  rw [count_cons_eq]
                  omega
                · intro other otherInside
                  exact (entries' other otherInside).trans (by rw [entries other otherInside])
          · rintro error ⟨isRemap, present⟩
            exact ⟨isRemap, page, le_refl _, by omega, present⟩

/-- `allocuvm` grows the address space to the new size, or leaves the entries as
they are and returns zero, or finds the size large enough. -/
theorem allocuvm_spec {oldsz newsz : Nat} (sole : Sole layout freelist dir) :
    Outcome (fun error => error = .remap ∧ newsz < KERNBASE ∧ ∃ other, pagesBelow oldsz ≤ other ∧
        other < pagesBelow newsz ∧ (dir.pte other).isSome = true)
      (fun result => (∀ frame, result.2.1.count frame + result.2.2.uses frame =
          freelist.count frame + dir.uses frame) ∧
        (result.1 = newsz ∧ newsz < KERNBASE ∧ oldsz ≤ newsz ∧
            Grows dir result.2.2 (pagesBelow oldsz) (pagesBelow newsz) ∨
          result.1 = 0 ∧ Clears dir result.2.2 (pagesBelow oldsz) (pagesBelow newsz) ∨
          result.1 = oldsz ∧ newsz < oldsz ∧ result.2.2 = dir ∨
          result.1 = 0 ∧ result.2.2 = dir))
      (allocuvm layout freelist dir oldsz newsz) := by
  unfold allocuvm
  split
  · exact ⟨fun _ => rfl, Or.inr (Or.inr (Or.inr ⟨rfl, rfl⟩))⟩
  · next user =>
      split
      · next smaller => exact ⟨fun _ => rfl, Or.inr (Or.inr (Or.inl ⟨rfl, smaller, rfl⟩))⟩
      · next larger =>
          have order : pagesBelow oldsz ≤ pagesBelow newsz := by
            simp only [pagesBelow, PGSIZE]
            omega
          apply (allocLoop_spec (by omega) _ sole (le_refl _) (by omega)).mono
          · rintro error ⟨isRemap, present⟩
            exact ⟨isRemap, by omega, present⟩
          · rintro ⟨size, freelist1, dir1⟩ ⟨account, ⟨isSize, grows⟩ | ⟨isSize, clears⟩⟩
            · exact ⟨account, Or.inl ⟨isSize, by omega, by omega, grows⟩⟩
            · exact ⟨account, Or.inr (Or.inl ⟨isSize, clears⟩)⟩

theorem copyLoop_spec (source : Dir) (count : Nat) {freelist : Freelist} {dir : Dir} {page : Nat}
    (user : page + count ≤ USERPAGES)
    (clear : ∀ other, page ≤ other → other < page + count → dir.pte other = none) :
    Outcome (fun error => (error = .pteShouldExist ∨ error = .pageNotPresent) ∧
        ∃ other, page ≤ other ∧ other < page + count ∧ source.pte other = none)
      (fun result => (∀ frame, result.2.1.count frame + result.2.2.uses frame ≤
          freelist.count frame + dir.uses frame) ∧
        (result.1 = true → Grows dir result.2.2 page (page + count)))
      (copyLoop source count freelist dir page) := by
  induction count generalizing freelist dir page with
  | zero =>
      refine ⟨fun _ => le_refl _, fun _ other _ => ?_⟩
      simp only [iff_self_or]
      omega
  | succ count ih =>
      unfold copyLoop
      split
      · next missing =>
          refine ⟨Or.inl rfl, page, le_refl _, by omega, ?_⟩
          rw [Dir.pte, missing]
          rfl
      · next table here =>
          have isEntry : source.pte page = table.ptes (PTX page) := by
            rw [Dir.pte, here]
            rfl
          split
          · next noEntry => exact ⟨Or.inr rfl, page, le_refl _, by omega, isEntry.trans noEntry⟩
          · next pte present =>
              split
              · exact ⟨fun _ => le_refl _, fun impossible => by cases impossible⟩
              · next mem rest allocated =>
                  have isList := kalloc_some allocated
                  have taken : ∀ frame, freelist.count frame =
                      rest.count frame + single mem frame := by
                    intro frame
                    rw [isList, count_cons_eq]
                  have inside : page < USERPAGES := by omega
                  apply Outcome.bind ((mappage_spec rest dir (by have := user_lt_all; omega)
                    { pte with frame := mem }).mono ?_ fun _ same => same)
                  · rintro ⟨mapped, freelist1, dir1⟩ ⟨entries, account⟩
                    simp only at entries account
                    cases mapped with
                    | false =>
                        refine ⟨?_, fun impossible => by cases impossible⟩
                        intro frame
                        have := account frame
                        have := taken frame
                        simp only [Bool.false_eq_true, false_and, if_false] at *
                        omega
                    | true =>
                        simp only [true_and] at entries
                        simp only [inside, and_self, if_true] at account
                        have moved : ∀ frame, freelist1.count frame + dir1.uses frame =
                            freelist.count frame + dir.uses frame := by
                          intro frame
                          have := account frame
                          have := taken frame
                          omega
                        apply (ih (by omega) ?_).mono
                        · rintro error ⟨kinds, other, lower, upper, missing⟩
                          exact ⟨kinds, other, by omega, by omega, missing⟩
                        · rintro ⟨copied, freelist2, dir2⟩ ⟨account', grown⟩
                          refine ⟨fun frame => (account' frame).trans (moved frame).le, ?_⟩
                          intro isCopied other otherInside
                          rw [grown isCopied other otherInside, entries other otherInside]
                          rcases eq_or_ne other page with rfl | distinct
                          · simp only [if_true, Option.isSome_some, true_or, true_iff]
                            omega
                          · rw [if_neg distinct]
                            have same : page + 1 ≤ other ∧ other < page + 1 + count ↔
                                page ≤ other ∧ other < page + (count + 1) := by omega
                            rw [same]
                        · intro other lower upper
                          rw [entries other (by have := user_lt_all; omega),
                            if_neg (by omega)]
                          exact clear other (by omega) (by omega)
                  · rintro error ⟨-, remapped⟩
                    rw [clear page (le_refl _) (by omega)] at remapped
                    cases remapped

/-- The user pages that are present are those below a page. -/
def Maps (dir : Dir) (count : Nat) : Prop :=
  ∀ other < USERPAGES, (dir.pte other).isSome = true ↔ other < count

/-- `copyuvm` copies an address space unless a page below its size is missing.  It
may lose a page when it gives up. -/
theorem copyuvm_spec {source : Dir} {sz : Nat}
    (bounded : ∀ frame, freelist.count frame ≤ capacity layout frame) (user : sz ≤ KERNBASE) :
    Outcome (fun error => (error = .pteShouldExist ∨ error = .pageNotPresent) ∧
        ∃ other < pagesBelow sz, source.pte other = none)
      (fun result => match result.1 with
        | none => ∀ frame, result.2.count frame ≤ freelist.count frame
        | some dir => Maps dir (pagesBelow sz) ∧
            ∀ frame, result.2.count frame + dir.uses frame ≤ freelist.count frame)
      (copyuvm layout freelist source sz) := by
  have limit := pagesBelow_le user
  apply Outcome.bind ((setupkvm_spec bounded).mono (fun _ => False.elim) fun _ same => same)
  rintro ⟨copy, freelist1⟩ isSetup
  cases copy with
  | none => exact isSetup
  | some dir =>
      obtain ⟨clear, account⟩ := isSetup
      simp only at clear account
      apply Outcome.bind ((copyLoop_spec source (pagesBelow sz) (by omega)
        fun other _ upper => clear other (by omega)).mono ?_ fun _ same => same)
      · rintro ⟨copied, freelist2, dir2⟩ ⟨account', grown⟩
        simp only at grown account'
        have account2 : ∀ frame, freelist2.count frame + dir2.uses frame ≤
            freelist.count frame := fun frame => (account' frame).trans (account frame)
        cases copied with
        | true =>
            refine ⟨?_, account2⟩
            intro other inside
            rw [grown rfl other (by have := user_lt_all; omega), clear other inside]
            simp
        | false =>
            have sole : Sole layout freelist2 dir2 := fun frame =>
              (account2 frame).trans (bounded frame)
            apply Outcome.bind ((freevm_spec sole).mono (fun _ => False.elim) fun _ same => same)
            intro freelist3 counted frame
            exact (counted frame).trans (account2 frame)
      · rintro error ⟨kinds, other, -, upper, missing⟩
        exact ⟨kinds, other, by omega, missing⟩

theorem clearpteu_spec (inside : page < ALLPAGES) :
    Outcome (fun error => error = .clearpteu ∧ dir.pte page = none)
      (fun result => (∀ other < ALLPAGES, (result.pte other).isSome = (dir.pte other).isSome) ∧
        ∀ frame, result.uses frame = dir.uses frame)
      (clearpteu dir page) := by
  unfold clearpteu
  split
  · next missing =>
      refine ⟨rfl, ?_⟩
      rw [Dir.pte, missing]
      rfl
  · next table here =>
      have isEntry : dir.pte page = table.ptes (PTX page) := by
        rw [Dir.pte, here]
        rfl
      refine ⟨?_, ?_⟩
      · intro other otherInside
        rw [Dir.pte_setPte here inside otherInside]
        split
        · next same => rw [same, isEntry, Option.isSome_map]
        · rfl
      · intro frame
        have exchanged : (dir.setPte page ((table.ptes (PTX page)).map fun pte =>
            { pte with user := false })).uses frame + _ = _ :=
          Dir.uses_setPte here inside frame
        have samePage : pteUses ((table.ptes (PTX page)).map fun pte =>
            { pte with user := false }) frame = pteUses (dir.pte page) frame := by
          rw [isEntry]
          cases table.ptes (PTX page) <;> rfl
        rw [samePage] at exchanged
        omega

theorem loadLoop_spec (reads : Nat → Bool) (count : Nat) {page : Nat} :
    Outcome (fun error => error = .loaduvm ∧
        ∃ other, page ≤ other ∧ other < page + count ∧ dir.pte other = none)
      (fun _ => True) (loadLoop dir reads count page) := by
  induction count generalizing page with
  | zero => trivial
  | succ count ih =>
      unfold loadLoop
      split
      · next missing =>
          refine ⟨rfl, page, le_refl _, by omega, ?_⟩
          rw [Dir.pte, missing]
          rfl
      · split
        · apply ih.mono
          · rintro error ⟨kind, other, lower, upper, missing⟩
            exact ⟨kind, other, by omega, by omega, missing⟩
          · exact fun _ _ => trivial
        · trivial

end Coursework.Paging
