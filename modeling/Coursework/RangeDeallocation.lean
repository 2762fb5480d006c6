import Coursework.LoopRuns
import Coursework.PageTables
import Mathlib.Logic.Function.Basic

/-!
# Freeing a range of pages

`deallocuvm` by addresses, in a memory of words: a page directory and its page tables are pages
of this memory, `walkpgdir` reads them, and `kfree` overwrites the page that it frees.  The
counter of the loop jumps to the last page in front of the next page table when a table is
missing, so that the increment takes it to the table.

The loop frees the frames of the range page by page.  This is what it should do as long as the
words that it reads are not the ones it writes: the frames are no pages of the directory itself,
and no table belongs to two entries of the directory.  `kfree` panics at a frame that is not in
the memory it manages.  In each round the pages before the counter are done; a round moves the
counter over pages that have no entry, or over one page that has.
-/

namespace Coursework.PageMemory

open Paging (PGSIZE KERNBASE PHYSTOP PGROUNDUP pagesBelow)

/-- The words of each page of physical memory. -/
abbrev Words := Nat → Nat → UInt32

/-- Why `deallocuvm` does not return. -/
inductive Stop where
  | kfree
  | outOfFuel
  deriving DecidableEq

/-! ## Addresses -/

def PDX (va : Nat) : Nat := va / 2 ^ 22 % 1024

def PTX (va : Nat) : Nat := va / 2 ^ 12 % 1024

def PGADDR (d t o : Nat) : Nat := (d * 2 ^ 22 + t * 2 ^ 12 + o) % UINT

def P2V (pa : Nat) : Nat := (pa + KERNBASE) % UINT

def V2P (v : Nat) : Nat := (v + UINT - KERNBASE) % UINT

/-- The flag `PTE_P`. -/
def isPresent (entry : UInt32) : Bool := entry.toNat % 2 = 1

/-- `PTE_ADDR` in pages. -/
def frameOf (entry : UInt32) : Nat := entry.toNat / PGSIZE

/-! ## The code -/

/-- The state of the loop; `freed` lists the pages that `kfree` was called for. -/
structure State where
  mem : Words
  freelist : Nat
  freed : List Nat
  a : Nat

def setWord (mem : Words) (page i : Nat) (word : UInt32) : Words :=
  Function.update mem page (Function.update (mem page) i word)

/-- `kfree` panics at `v`; `kernelEnd` is the address `end`. -/
def refuses (kernelEnd v : Nat) : Bool :=
  v % PGSIZE ≠ 0 ∨ v < kernelEnd ∨ PHYSTOP ≤ V2P v

/-- `kfree`: the page is filled with junk and linked into the free list. -/
def kfree (kernelEnd : Nat) (state : State) (v : Nat) : Except Stop State :=
  if refuses kernelEnd v then .error .kfree
  else
    let page := V2P v / PGSIZE
    .ok { state with
      mem := setWord (Function.update state.mem page fun _ => 0x01010101) page 0
        (UInt32.ofNat state.freelist)
      freelist := v
      freed := state.freed ++ [page] }

/-- `walkpgdir` that does not allocate: the page table and the index in it. -/
def walkpgdir (mem : Words) (pgdir va : Nat) : Option (Nat × Nat) :=
  if isPresent (mem pgdir (PDX va)) then some (frameOf (mem pgdir (PDX va)), PTX va) else none

/-- The body of the loop and its increment. -/
def deallocPage (kernelEnd pgdir : Nat) (state : State) : Except Stop State :=
  match walkpgdir state.mem pgdir state.a with
  | none =>
      let a := (PGADDR (PDX state.a + 1) 0 0 + UINT - PGSIZE) % UINT
      .ok { state with a := (a + PGSIZE) % UINT }
  | some (table, i) =>
      let pte := state.mem table i
      if isPresent pte then
        if frameOf pte = 0 then .error .kfree
        else do
          let after ← kfree kernelEnd state (P2V (frameOf pte * PGSIZE))
          .ok { after with mem := setWord after.mem table i 0, a := (state.a + PGSIZE) % UINT }
      else .ok { state with a := (state.a + PGSIZE) % UINT }

/-- `deallocuvm`. -/
def deallocuvm (fuel kernelEnd pgdir : Nat) (state : State) (oldsz newsz : Nat) :
    Except Stop (Nat × State) :=
  if oldsz ≤ newsz then .ok (oldsz, state)
  else
    match loop (fun state : State => !decide (state.a < oldsz)) (deallocPage kernelEnd pgdir)
        .outOfFuel fuel { state with a := PGROUNDUP newsz } with
    | .ok after => .ok (newsz, after)
    | .error stop => .error stop

/-! ## The range -/

/-- The frame of a page that is present. -/
def frame? (mem : Words) (pgdir page : Nat) : Option Nat :=
  match walkpgdir mem pgdir (page * PGSIZE) with
  | none => none
  | some (table, i) => if isPresent (mem table i) then some (frameOf (mem table i)) else none

/-- The frames of the present pages of a range. -/
def rangeFrames (mem : Words) (pgdir lo hi : Nat) : List Nat :=
  (List.range' lo (hi - lo)).filterMap (frame? mem pgdir)

/-- The word is the entry of a present page of the range. -/
def IsEntry (mem : Words) (pgdir lo hi table i : Nat) : Prop :=
  ∃ page, lo ≤ page ∧ page < hi ∧ (frame? mem pgdir page).isSome ∧
    walkpgdir mem pgdir (page * PGSIZE) = some (table, i)

/-- The frames of a range can be freed, and no word has two uses. -/
structure Separate (kernelEnd : Nat) (mem : Words) (pgdir lo hi : Nat) : Prop where
  accepted : ∀ frame ∈ rangeFrames mem pgdir lo hi,
    frame ≠ 0 ∧ refuses kernelEnd (P2V (frame * PGSIZE)) = false
  distinct : (rangeFrames mem pgdir lo hi).Nodup
  noDirectory : pgdir ∉ rangeFrames mem pgdir lo hi
  noTable : ∀ d < 1024, isPresent (mem pgdir d) = true →
    frameOf (mem pgdir d) ∉ rangeFrames mem pgdir lo hi ∧ frameOf (mem pgdir d) ≠ pgdir
  oneEntry : ∀ d < 1024, ∀ d' < 1024, isPresent (mem pgdir d) = true →
    isPresent (mem pgdir d') = true → frameOf (mem pgdir d) = frameOf (mem pgdir d') → d = d'

/-- What the memory becomes: the entries of the range are cleared, the frames of the range are
lost, and the rest of the memory stays. -/
def Cleared (before after : Words) (pgdir lo hi : Nat) : Prop :=
  ∀ page i, page ∉ rangeFrames before pgdir lo hi →
    (IsEntry before pgdir lo hi page i → after page i = 0) ∧
      (¬ IsEntry before pgdir lo hi page i → after page i = before page i)

/-- `deallocuvm` as it should be: the frames of the range are freed, each once, and no entry but
those of their pages is changed. -/
structure FreesRange (before after : State) (pgdir lo hi : Nat) : Prop where
  freed : after.freed = before.freed ++ rangeFrames before.mem pgdir lo hi
  once : (rangeFrames before.mem pgdir lo hi).Nodup
  directory : ∀ d < 1024, after.mem pgdir d = before.mem pgdir d
  entries : ∀ page < 2 ^ 20, ∀ table i,
    walkpgdir before.mem pgdir (page * PGSIZE) = some (table, i) →
      after.mem table i =
        if lo ≤ page ∧ page < hi ∧ (frame? before.mem pgdir page).isSome then 0
        else before.mem table i

variable {mem : Words} {kernelEnd pgdir lo hi page table i va : Nat} {state after : State}

theorem PDX_page (small : page < 2 ^ 20) : PDX (page * PGSIZE) = page / 1024 := by
  unfold PDX PGSIZE
  omega

theorem PTX_page (page : Nat) : PTX (page * PGSIZE) = page % 1024 := by
  unfold PTX PGSIZE
  omega

theorem walkpgdir_eq_some (isEntry : walkpgdir mem pgdir va = some (table, i)) :
    isPresent (mem pgdir (PDX va)) = true ∧ frameOf (mem pgdir (PDX va)) = table ∧
      PTX va = i := by
  unfold walkpgdir at isEntry
  split_ifs at isEntry with isTable
  cases isEntry
  exact ⟨isTable, rfl, rfl⟩

theorem PDX_lt (va : Nat) : PDX va < 1024 := Nat.mod_lt _ (by decide)

/-- A word is the entry of one page at most. -/
theorem Separate.page_unique (separate : Separate kernelEnd mem pgdir lo hi) {other : Nat}
    (small : page < 2 ^ 20) (otherSmall : other < 2 ^ 20)
    (isEntry : walkpgdir mem pgdir (page * PGSIZE) = some (table, i))
    (isOther : walkpgdir mem pgdir (other * PGSIZE) = some (table, i)) : page = other := by
  obtain ⟨isTable, sameTable, samePtx⟩ := walkpgdir_eq_some isEntry
  obtain ⟨isOtherTable, sameOther, sameOtherPtx⟩ := walkpgdir_eq_some isOther
  have samePdx := separate.oneEntry _ (PDX_lt _) _ (PDX_lt _) isTable isOtherTable
    (sameTable.trans sameOther.symm)
  rw [PDX_page small, PDX_page otherSmall] at samePdx
  rw [PTX_page] at samePtx sameOtherPtx
  omega

theorem Separate.table_ne (separate : Separate kernelEnd mem pgdir lo hi)
    (isEntry : walkpgdir mem pgdir va = some (table, i)) :
    table ∉ rangeFrames mem pgdir lo hi ∧ table ≠ pgdir := by
  obtain ⟨isTable, rfl, -⟩ := walkpgdir_eq_some isEntry
  exact separate.noTable _ (PDX_lt _) isTable

/-! ## The range, page by page -/

theorem rangeFrames_succ (le : lo ≤ page) : rangeFrames mem pgdir lo (page + 1) =
    rangeFrames mem pgdir lo page ++ (frame? mem pgdir page).toList := by
  have size : page + 1 - lo = page - lo + 1 := by omega
  have last : lo + (page - lo) = page := by omega
  rw [rangeFrames, size, List.range'_1_concat, last, List.filterMap_append]
  rfl

theorem rangeFrames_skip {upto : Nat} (le : lo ≤ page) (pageLe : page ≤ upto)
    (none : ∀ other, page ≤ other → other < upto → frame? mem pgdir other = none) :
    rangeFrames mem pgdir lo upto = rangeFrames mem pgdir lo page := by
  induction pageLe with
  | refl => rfl
  | @step upto pageLe ih =>
      have pageLe' : page ≤ upto := pageLe
      rw [rangeFrames_succ (by omega), none upto pageLe (Nat.lt_succ_self upto),
        ih fun other lower upper => none other lower (Nat.lt_succ_of_lt upper)]
      exact List.append_nil _

theorem rangeFrames_subset {upto : Nat} (le : lo ≤ page) (pageLe : page ≤ upto) :
    rangeFrames mem pgdir lo page ⊆ rangeFrames mem pgdir lo upto := by
  induction pageLe with
  | refl => exact List.Subset.refl _
  | @step upto pageLe ih =>
      have pageLe' : page ≤ upto := pageLe
      rw [rangeFrames_succ (by omega)]
      exact List.subset_append_of_subset_left _ ih

theorem isEntry_succ (le : lo ≤ page) {table i : Nat} :
    IsEntry mem pgdir lo (page + 1) table i ↔ IsEntry mem pgdir lo page table i ∨
      ((frame? mem pgdir page).isSome ∧ walkpgdir mem pgdir (page * PGSIZE) = some (table, i)) := by
  constructor
  · rintro ⟨other, lower, upper, isSome, isEntry⟩
    rcases Nat.lt_succ_iff_lt_or_eq.mp upper with before | rfl
    · exact Or.inl ⟨other, lower, before, isSome, isEntry⟩
    · exact Or.inr ⟨isSome, isEntry⟩
  · rintro (⟨other, lower, upper, isSome, isEntry⟩ | ⟨isSome, isEntry⟩)
    · exact ⟨other, lower, Nat.lt_succ_of_lt upper, isSome, isEntry⟩
    · exact ⟨page, le, Nat.lt_succ_self page, isSome, isEntry⟩

theorem isEntry_skip {upto : Nat} (pageLe : page ≤ upto)
    (none : ∀ other, page ≤ other → other < upto → frame? mem pgdir other = none)
    {table i : Nat} :
    IsEntry mem pgdir lo upto table i ↔ IsEntry mem pgdir lo page table i := by
  constructor
  · rintro ⟨other, lower, upper, isSome, isEntry⟩
    by_cases before : other < page
    · exact ⟨other, lower, before, isSome, isEntry⟩
    · rw [none other (Nat.le_of_not_lt before) upper] at isSome
      cases isSome
  · rintro ⟨other, lower, upper, isSome, isEntry⟩
    exact ⟨other, lower, by omega, isSome, isEntry⟩

/-! ## One round -/

theorem frameOf_lt (entry : UInt32) : frameOf entry < 2 ^ 20 := by
  have bound := entry.toNat_lt
  unfold frameOf PGSIZE
  omega

theorem V2P_P2V {frame : Nat} (small : frame < 2 ^ 20) :
    V2P (P2V (frame * PGSIZE)) / PGSIZE = frame := by
  unfold V2P P2V UINT KERNBASE PGSIZE
  omega

theorem setWord_of_ne {other : Nat} (mem : Words) (i : Nat) (word : UInt32) (ne : other ≠ page) :
    setWord mem page i word other = mem other :=
  Function.update_of_ne ne _ _

theorem setWord_self (mem : Words) (page i : Nat) (word : UInt32) :
    setWord mem page i word page i = word := by
  simp [setWord]

theorem setWord_of_ne_index {j : Nat} (mem : Words) (page : Nat) (word : UInt32) (ne : j ≠ i) :
    setWord mem page i word page j = mem page j := by
  simp [setWord, ne]

/-- `kfree` changes the page that it frees and no other. -/
theorem kfree_accepted {frame : Nat} (small : frame < 2 ^ 20)
    (accepted : refuses kernelEnd (P2V (frame * PGSIZE)) = false) :
    ∃ after, kfree kernelEnd state (P2V (frame * PGSIZE)) = .ok after ∧
      after.freed = state.freed ++ [frame] ∧
      ∀ page, page ≠ frame → after.mem page = state.mem page := by
  rw [kfree, if_neg (by simp [accepted]), V2P_P2V small]
  refine ⟨_, rfl, rfl, fun page ne => ?_⟩
  exact (setWord_of_ne _ _ _ ne).trans (Function.update_of_ne ne _ _)

/-- The pages of the range below `done` are done. -/
structure Progress (mem : Words) (pgdir lo done : Nat) (before : List Nat) (state : State) :
    Prop where
  freed : state.freed = before ++ rangeFrames mem pgdir lo done
  cleared : Cleared mem state.mem pgdir lo done

section Round

variable {done : Nat} {before : List Nat}

theorem mem_rangeFrames {frame : Nat} (le : lo ≤ page) (lt : page < hi)
    (isFrame : frame? mem pgdir page = some frame) : frame ∈ rangeFrames mem pgdir lo hi := by
  refine List.mem_filterMap.mpr ⟨page, ?_, isFrame⟩
  rw [List.mem_range'_1]
  omega

/-- The directory is read as it was. -/
theorem Progress.directory (progress : Progress mem pgdir lo done before state)
    (separate : Separate kernelEnd mem pgdir lo hi) (le : lo ≤ done) (doneLe : done ≤ hi)
    (d : Nat) : state.mem pgdir d = mem pgdir d := by
  have notFreed : pgdir ∉ rangeFrames mem pgdir lo done :=
    fun member => separate.noDirectory (rangeFrames_subset le doneLe member)
  apply (progress.cleared pgdir d notFreed).2
  rintro ⟨page, -, -, -, isEntry⟩
  exact (separate.table_ne isEntry).2 rfl

theorem Progress.walk (progress : Progress mem pgdir lo done before state)
    (separate : Separate kernelEnd mem pgdir lo hi) (le : lo ≤ done) (doneLe : done ≤ hi)
    (va : Nat) : walkpgdir state.mem pgdir va = walkpgdir mem pgdir va := by
  rw [walkpgdir, walkpgdir, progress.directory separate le doneLe]

/-- The entries of the pages that are not done are read as they were. -/
theorem Progress.entry (progress : Progress mem pgdir lo done before state)
    (separate : Separate kernelEnd mem pgdir lo hi) (le : lo ≤ done) (doneLe : done ≤ hi)
    (small : hi ≤ 2 ^ 20) (later : done ≤ page) (pageSmall : page < 2 ^ 20)
    (isEntry : walkpgdir mem pgdir (page * PGSIZE) = some (table, i)) :
    state.mem table i = mem table i := by
  have notFreed : table ∉ rangeFrames mem pgdir lo done :=
    fun member => (separate.table_ne isEntry).1 (rangeFrames_subset le doneLe member)
  apply (progress.cleared table i notFreed).2
  rintro ⟨other, -, upper, -, isOther⟩
  have samePage := separate.page_unique pageSmall (by omega) isEntry isOther
  omega

/-- Pages without frames take the progress along. -/
theorem Progress.skip (progress : Progress mem pgdir lo done before state) {upto a : Nat}
    (le : lo ≤ done) (doneLe : done ≤ upto)
    (none : ∀ other, done ≤ other → other < upto → frame? mem pgdir other = none) :
    Progress mem pgdir lo upto before { state with a := a } := by
  constructor
  · rw [rangeFrames_skip le doneLe none]
    exact progress.freed
  · intro page i notFreed
    rw [rangeFrames_skip le doneLe none] at notFreed
    rw [isEntry_skip doneLe none]
    exact progress.cleared page i notFreed

/-- A page is freed and its entry is cleared. -/
theorem Progress.free (progress : Progress mem pgdir lo done before state) (le : lo ≤ done)
    (isEntry : walkpgdir mem pgdir (done * PGSIZE) = some (table, i))
    (present : isPresent (mem table i) = true) {freedState : State} {a : Nat}
    (freed : freedState.freed = state.freed ++ [frameOf (mem table i)])
    (others : ∀ page, page ≠ frameOf (mem table i) → freedState.mem page = state.mem page) :
    Progress mem pgdir lo (done + 1) before
      { freedState with mem := setWord freedState.mem table i 0, a := a } := by
  have isFrame : frame? mem pgdir done = some (frameOf (mem table i)) := by
    simp only [frame?, isEntry, present, if_true]
  constructor
  · rw [rangeFrames_succ le, isFrame]
    simp only [freed, progress.freed]
    simp
  · intro page j notFreed
    rw [rangeFrames_succ le, isFrame, List.mem_append, not_or] at notFreed
    have notFrame : page ≠ frameOf (mem table i) := by
      simpa using notFreed.2
    rw [isEntry_succ le, isFrame, isEntry]
    simp only [Option.isSome_some, true_and, Option.some.injEq, Prod.mk.injEq]
    have was := progress.cleared page j notFreed.1
    by_cases isHere : table = page ∧ i = j
    · obtain ⟨rfl, rfl⟩ := isHere
      refine ⟨fun _ => setWord_self _ _ _ _, fun notEntry => ?_⟩
      exact absurd (Or.inr ⟨rfl, rfl⟩) notEntry
    · have same : setWord freedState.mem table i 0 page j = state.mem page j := by
        by_cases samePage : page = table
        · subst samePage
          rw [setWord_of_ne_index _ _ _ (fun same => isHere ⟨rfl, same.symm⟩), others _ notFrame]
        · rw [setWord_of_ne _ _ _ samePage, others _ notFrame]
      rw [same]
      constructor
      · rintro (isCleared | isEntryHere)
        · exact was.1 isCleared
        · exact absurd isEntryHere isHere
      · exact fun notEntry => was.2 fun isCleared => notEntry (Or.inl isCleared)

/-- A jump lands on the first page of the next page table. -/
theorem jump_eq (small : page < 2 ^ 19) :
    ((PGADDR (PDX (page * PGSIZE) + 1) 0 0 + UINT - PGSIZE) % UINT + PGSIZE) % UINT =
      (page / 1024 + 1) * 1024 * PGSIZE := by
  rw [PDX_page (by omega)]
  unfold PGADDR UINT PGSIZE
  omega

theorem increment_eq (small : page < 2 ^ 19) :
    (page * PGSIZE + PGSIZE) % UINT = (page + 1) * PGSIZE := by
  unfold UINT PGSIZE
  omega

/-- Where the counter is when the pages below `done` are done. -/
def AtPage (hi done a : Nat) : Prop := a = done * PGSIZE ∨ (done = hi ∧ hi * PGSIZE ≤ a)

/-- A round takes the counter and the progress along. -/
theorem deallocPage_round (progress : Progress mem pgdir lo done before state)
    (separate : Separate kernelEnd mem pgdir lo hi) (le : lo ≤ done) (lt : done < hi)
    (small : hi ≤ 2 ^ 19) (isPage : state.a = done * PGSIZE) :
    ∃ after, deallocPage kernelEnd pgdir state = .ok after ∧ state.a < after.a ∧
      ∃ later, done < later ∧ later ≤ hi ∧ Progress mem pgdir lo later before after ∧
        AtPage hi later after.a := by
  have doneLe : done ≤ hi := Nat.le_of_lt lt
  have longer : done * PGSIZE < (done + 1) * PGSIZE := by
    unfold PGSIZE
    omega
  unfold deallocPage
  rw [progress.walk separate le doneLe, isPage]
  cases isEntry : walkpgdir mem pgdir (done * PGSIZE) with
  | none =>
      have noFrame : ∀ other, done ≤ other → other < min ((done / 1024 + 1) * 1024) hi →
          frame? mem pgdir other = none := by
        intro other lower upper
        have sameTable : PDX (other * PGSIZE) = PDX (done * PGSIZE) := by
          rw [PDX_page (by omega), PDX_page (by omega)]
          omega
        have missing : walkpgdir mem pgdir (other * PGSIZE) = none := by
          unfold walkpgdir at isEntry ⊢
          rw [sameTable]
          split_ifs at isEntry ⊢
          rfl
        rw [frame?, missing]
      refine ⟨_, rfl, ?_, min ((done / 1024 + 1) * 1024) hi, by omega, by omega,
        progress.skip le (by omega) noFrame, ?_⟩
      · dsimp only
        rw [jump_eq (by omega)]
        unfold PGSIZE
        omega
      · dsimp only
        rw [jump_eq (by omega), AtPage]
        unfold PGSIZE
        omega
  | some entry =>
      obtain ⟨table, i⟩ := entry
      have sameWord : state.mem table i = mem table i :=
        progress.entry separate le doneLe (by omega) le_rfl (by omega) isEntry
      dsimp only
      rw [sameWord, increment_eq (by omega)]
      split_ifs with present isZero
      · have isFrame : frame? mem pgdir done = some 0 := by
          simp only [frame?, isEntry, present, if_true, isZero]
        exact absurd rfl (separate.accepted 0 (mem_rangeFrames le lt isFrame)).1
      · have isFrame : frame? mem pgdir done = some (frameOf (mem table i)) := by
          simp only [frame?, isEntry, present, if_true]
        have accepted := (separate.accepted _ (mem_rangeFrames le lt isFrame)).2
        obtain ⟨freedState, isFreed, freed, others⟩ :=
          @kfree_accepted kernelEnd state _ (frameOf_lt (mem table i)) accepted
        rw [isFreed]
        exact ⟨_, rfl, longer, done + 1, Nat.lt_succ_self done, lt,
          progress.free le isEntry present freed others, Or.inl rfl⟩
      · have noFrame : ∀ other, done ≤ other → other < done + 1 →
            frame? mem pgdir other = none := by
          intro other lower upper
          obtain rfl : other = done := by omega
          simp only [frame?, isEntry]
          exact if_neg present
        exact ⟨_, rfl, longer, done + 1, Nat.lt_succ_self done, lt,
          progress.skip le (Nat.le_succ done) noFrame, Or.inl rfl⟩

end Round

/-! ## The whole range -/

/-- The pages from the one at `PGROUNDUP newsz` on. -/
def firstPage (newsz : Nat) : Nat := PGROUNDUP newsz / PGSIZE

/-- `deallocuvm` returns the new size and frees the range. -/
def Frees (kernelEnd pgdir : Nat) (state : State) (oldsz newsz : Nat) : Prop :=
  ∃ fuel after, deallocuvm fuel kernelEnd pgdir state oldsz newsz = .ok (newsz, after) ∧
    FreesRange state after pgdir (firstPage newsz) (pagesBelow oldsz)

theorem freesRange_of_progress {before : State}
    (separate : Separate kernelEnd before.mem pgdir lo hi) (le : lo ≤ hi) (small : hi ≤ 2 ^ 19)
    (progress : Progress before.mem pgdir lo hi before.freed after) :
    FreesRange before after pgdir lo hi := by
  refine ⟨progress.freed, separate.distinct,
    fun d _ => progress.directory separate le le_rfl d, ?_⟩
  intro page pageSmall table i isEntry
  have was := progress.cleared table i (separate.table_ne isEntry).1
  split_ifs with isDone
  · exact was.1 ⟨page, isDone.1, isDone.2.1, isDone.2.2, isEntry⟩
  · apply was.2
    rintro ⟨other, lower, upper, isSome, isOther⟩
    obtain rfl := separate.page_unique pageSmall (by omega) isEntry isOther
    exact isDone ⟨lower, upper, isSome⟩

/-- The counter goes up in every round. -/
theorem deallocPage_increases (small : state.a < KERNBASE)
    (isStep : deallocPage kernelEnd pgdir state = .ok after) : state.a < after.a := by
  have increment : state.a < (state.a + PGSIZE) % UINT := by
    unfold KERNBASE at small
    unfold PGSIZE UINT
    omega
  unfold deallocPage at isStep
  split at isStep
  · cases isStep
    dsimp only
    unfold KERNBASE at small
    unfold PGADDR PDX UINT PGSIZE
    omega
  · dsimp only at isStep
    split_ifs at isStep
    · unfold kfree at isStep
      split_ifs at isStep
      · cases isStep
      · cases isStep
        exact increment
    · cases isStep
      exact increment

theorem deallocPage_ne_outOfFuel : deallocPage kernelEnd pgdir state ≠ .error .outOfFuel := by
  unfold deallocPage
  split
  · simp
  · dsimp only
    split_ifs
    · simp
    · unfold kfree
      split_ifs <;> simp [bind, Except.bind]
    · simp

/-- `deallocuvm` ends in any directory, if only by a panic. -/
theorem deallocuvm_halts (kernelEnd pgdir : Nat) (state : State) {oldsz : Nat} (newsz : Nat)
    (user : oldsz ≤ KERNBASE) :
    ∃ fuel, deallocuvm fuel kernelEnd pgdir state oldsz newsz ≠ .error .outOfFuel := by
  have increases : ∀ state after : State, (!decide (state.a < oldsz)) = false →
      deallocPage kernelEnd pgdir state = .ok after → oldsz - after.a < oldsz - state.a := by
    intro state after unfinished isStep
    have inside : state.a < oldsz := by simpa using unfinished
    have := deallocPage_increases (Nat.lt_of_lt_of_le inside user) isStep
    omega
  obtain ⟨fuel, halts⟩ := loop_halts increases (fun _ => deallocPage_ne_outOfFuel)
    { state with a := PGROUNDUP newsz }
  refine ⟨fuel, ?_⟩
  unfold deallocuvm
  split_ifs
  · simp
  · split
    · simp
    · next stop fails =>
        intro isFuel
        cases isFuel
        exact halts fails

theorem le_pagesBelow (size : Nat) : size ≤ pagesBelow size * PGSIZE := by
  unfold pagesBelow PGSIZE
  omega

theorem pagesBelow_le {size : Nat} (user : size ≤ KERNBASE) : pagesBelow size ≤ 2 ^ 19 := by
  unfold KERNBASE at user
  unfold pagesBelow PGSIZE
  omega

theorem firstPage_le {oldsz newsz : Nat} (smaller : newsz < oldsz) :
    firstPage newsz ≤ pagesBelow oldsz := by
  unfold firstPage PGROUNDUP pagesBelow PGSIZE
  omega

theorem firstPage_mul (newsz : Nat) : PGROUNDUP newsz = firstPage newsz * PGSIZE := by
  unfold firstPage PGROUNDUP PGSIZE
  omega

/-- A counter below the size is at a page of the range. -/
theorem AtPage.inside {done a oldsz : Nat} (atPage : AtPage (pagesBelow oldsz) done a)
    (below : a < oldsz) : done < pagesBelow oldsz ∧ a = done * PGSIZE := by
  have reaches := le_pagesBelow oldsz
  rcases atPage with rfl | ⟨-, behind⟩
  · exact ⟨Nat.lt_of_mul_lt_mul_right (Nat.lt_of_lt_of_le below reaches), rfl⟩
  · omega

/-- A counter that is not below the size is behind the range. -/
theorem AtPage.outside {done a oldsz : Nat} (atPage : AtPage (pagesBelow oldsz) done a)
    (notBelow : oldsz ≤ a) : pagesBelow oldsz ≤ done := by
  rcases atPage with rfl | ⟨rfl, -⟩
  · unfold pagesBelow PGSIZE at *
    omega
  · exact le_rfl

/-- The pages below the counter are done. -/
def Invariant (before : State) (pgdir lo hi : Nat) (state : State) : Prop :=
  ∃ done, lo ≤ done ∧ done ≤ hi ∧ Progress before.mem pgdir lo done before.freed state ∧
    AtPage hi done state.a

/-- The bytes below the size that the counter has not passed. -/
def bytesLeft (oldsz : Nat) (state : State) : Nat := oldsz - state.a

/-- The loop runs through the range, and then all of its pages are done. -/
theorem deallocuvm_frees {before : State} {oldsz newsz : Nat} (user : oldsz ≤ KERNBASE)
    (smaller : newsz < oldsz)
    (separate : Separate kernelEnd before.mem pgdir (firstPage newsz) (pagesBelow oldsz)) :
    ∃ fuel after, deallocuvm fuel kernelEnd pgdir before oldsz newsz = .ok (newsz, after) ∧
      Progress before.mem pgdir (firstPage newsz) (pagesBelow oldsz) before.freed after := by
  have small := pagesBelow_le user
  have round : ∀ state, Invariant before pgdir (firstPage newsz) (pagesBelow oldsz) state →
      state.a < oldsz → ∃ after, deallocPage kernelEnd pgdir state = .ok after ∧
        state.a < after.a ∧
        Invariant before pgdir (firstPage newsz) (pagesBelow oldsz) after := by
    rintro state ⟨done, le, -, progress, atPage⟩ below
    obtain ⟨lt, isPage⟩ := atPage.inside below
    obtain ⟨after, isStep, further, later, laterThan, laterLe, laterProgress, laterPage⟩ :=
      deallocPage_round progress separate le lt small isPage
    exact ⟨after, isStep, further, later, by omega, laterLe, laterProgress, laterPage⟩
  have initially : Invariant before pgdir (firstPage newsz) (pagesBelow oldsz)
      { before with a := PGROUNDUP newsz } := by
    refine ⟨firstPage newsz, le_rfl, firstPage_le smaller, ⟨?_, ?_⟩, Or.inl (firstPage_mul newsz)⟩
    · simp [rangeFrames]
    · intro page i _
      refine ⟨?_, fun _ => rfl⟩
      rintro ⟨other, lower, upper, -, -⟩
      omega
  have always : ∀ state, Visits (fun state : State => !decide (state.a < oldsz))
      (deallocPage kernelEnd pgdir) { before with a := PGROUNDUP newsz } state →
      Invariant before pgdir (firstPage newsz) (pagesBelow oldsz) state := by
    intro state visits
    induction visits with
    | start => exact initially
    | @next state _ _ unfinished isStep ih =>
        obtain ⟨after, isAfter, -, invariant⟩ := round state ih (by simpa using unfinished)
        rw [isStep] at isAfter
        cases isAfter
        exact invariant
  have ahead : ∀ state, Visits (fun state : State => !decide (state.a < oldsz))
      (deallocPage kernelEnd pgdir) { before with a := PGROUNDUP newsz } state →
      (!decide (state.a < oldsz)) = false →
      ∃ after, deallocPage kernelEnd pgdir state = .ok after ∧
        bytesLeft oldsz after < bytesLeft oldsz state := by
    intro state visits unfinished
    have below : state.a < oldsz := by simpa using unfinished
    obtain ⟨after, isStep, further, -⟩ := round state (always state visits) below
    exact ⟨after, isStep, Nat.sub_lt_sub_left below further⟩
  obtain ⟨last, visits, isLast, ends⟩ := loop_ends Stop.outOfFuel ahead
  obtain ⟨done, -, doneLe, progress, atPage⟩ := always last visits
  have isDone := atPage.outside (Nat.le_of_not_lt (by simpa using isLast))
  obtain rfl : done = pagesBelow oldsz := Nat.le_antisymm doneLe isDone
  refine ⟨oldsz + 1, last, ?_, progress⟩
  rw [deallocuvm, if_neg (Nat.not_le.mpr smaller)]
  simp only [ends (oldsz + 1) (Nat.lt_succ_of_le (Nat.sub_le _ _))]

/-- `deallocuvm` ends in any directory, and frees the range of a directory in which its frames
can be freed and no word has two uses; the memory outside of the frames and entries stays. -/
theorem deallocuvm_range (kernelEnd pgdir : Nat) (before : State) (oldsz newsz : Nat)
    (user : oldsz ≤ KERNBASE) (smaller : newsz < oldsz) :
    (∃ fuel, deallocuvm fuel kernelEnd pgdir before oldsz newsz ≠ .error .outOfFuel) ∧
      (Separate kernelEnd before.mem pgdir (firstPage newsz) (pagesBelow oldsz) →
        ∃ fuel after, deallocuvm fuel kernelEnd pgdir before oldsz newsz = .ok (newsz, after) ∧
          FreesRange before after pgdir (firstPage newsz) (pagesBelow oldsz) ∧
          Cleared before.mem after.mem pgdir (firstPage newsz) (pagesBelow oldsz)) := by
  refine ⟨deallocuvm_halts kernelEnd pgdir before newsz user, fun separate => ?_⟩
  obtain ⟨fuel, after, isOk, progress⟩ := deallocuvm_frees user smaller separate
  exact ⟨fuel, after, isOk, freesRange_of_progress separate (firstPage_le smaller)
    (pagesBelow_le user) progress, progress.cleared⟩

/-- A directory in page 1, with a page table in page 2. -/
def directory (first second shared : UInt32) : State where
  mem := fun page i =>
    if page = 1 then if i = 0 then 0x2001 else if i = 1 then shared else 0
    else if page = 2 then if i = 0 then first else if i = 1 then second else 0
    else 0
  freelist := 0
  freed := []
  a := 0

theorem separate_directory :
    Separate KERNBASE (directory 0x5001 0 0).mem 1 (firstPage 0) (pagesBelow 4096) := by
  have isRange : rangeFrames (directory 0x5001 0 0).mem 1 (firstPage 0) (pagesBelow 4096) = [5] := by
    decide
  have onlyFirst : ∀ d, isPresent ((directory 0x5001 0 0).mem 1 d) = true → d = 0 := by
    intro d present
    by_contra other
    by_cases isOne : d = 1 <;> simp [directory, other, isOne, isPresent] at present
  refine ⟨?_, ?_, ?_, ?_, ?_⟩
  · rw [isRange]
    decide
  · rw [isRange]
    decide
  · rw [isRange]
    decide
  · intro d _ present
    obtain rfl := onlyFirst d present
    rw [isRange]
    decide
  · intro d _ d' _ present present' _
    rw [onlyFirst d present, onlyFirst d' present']

theorem deallocuvm_range_onePage :
    ∃ fuel after, deallocuvm fuel KERNBASE 1 (directory 0x5001 0 0) 4096 0 = .ok (0, after) ∧
      FreesRange (directory 0x5001 0 0) after 1 (firstPage 0) (pagesBelow 4096) ∧
      Cleared (directory 0x5001 0 0).mem after.mem 1 (firstPage 0) (pagesBelow 4096) :=
  (deallocuvm_range KERNBASE 1 (directory 0x5001 0 0) 4096 0 (by decide) (by decide)).2
    separate_directory

/-- A present page without a frame: `deallocuvm` panics. -/
theorem not_frees_frameZero : ¬ Frees KERNBASE 1 (directory 1 0 0) 4096 0 := by
  rintro ⟨fuel, after, isOk, -⟩
  have panics : deallocPage KERNBASE 1 { directory 1 0 0 with a := PGROUNDUP 0 } =
      .error .kfree := rfl
  rw [deallocuvm, if_neg (by decide)] at isOk
  cases fuel with
  | zero => cases isOk
  | succ fuel =>
      rw [loop, if_neg (by decide), panics] at isOk
      cases isOk

/-- A page table that is the frame of a page: its other entries are overwritten. -/
theorem not_frees_ownTable : ¬ Frees KERNBASE 1 (directory 0x2001 0 0) 4096 0 := by
  rintro ⟨fuel, after, isOk, frees⟩
  obtain ⟨last, isStep, isJunk, isLast⟩ : ∃ last,
      deallocPage KERNBASE 1 { directory 0x2001 0 0 with a := PGROUNDUP 0 } = .ok last ∧
        last.mem 2 1 = 0x01010101 ∧ (!decide (last.a < 4096)) = true := by
    have isTable : walkpgdir (directory 0x2001 0 0).mem 1 (PGROUNDUP 0) = some (2, 0) := rfl
    have present : isPresent ((directory 0x2001 0 0).mem 2 0) = true := by decide
    have isFrame : frameOf ((directory 0x2001 0 0).mem 2 0) = 2 := by decide
    have accepted : refuses KERNBASE (P2V (2 * PGSIZE)) = false := by decide
    simp only [deallocPage, isTable, present, isFrame, kfree, accepted]
    exact ⟨_, rfl, by decide +kernel, by decide +kernel⟩
  have isEntry := frees.entries 1 (by decide) 2 1 rfl
  rw [deallocuvm, if_neg (by decide)] at isOk
  cases fuel with
  | zero => cases isOk
  | succ fuel =>
      rw [loop, if_neg (by decide), isStep] at isOk
      cases fuel with
      | zero => cases isOk
      | succ fuel =>
          have ends : loop (fun state : State => !decide (state.a < 4096))
              (deallocPage KERNBASE 1) .outOfFuel (fuel + 1) last = .ok last :=
            loop_finished isLast
          simp only [ends] at isOk
          cases isOk
          rw [isJunk] at isEntry
          exact absurd isEntry (by decide)

/-- Two pages with one frame: it is freed twice. -/
theorem not_frees_twice : ¬ Frees KERNBASE 1 (directory 0x5001 0x5001 0) 8192 0 := by
  rintro ⟨fuel, after, -, frees⟩
  exact absurd frees.once (by decide)

/-- Two entries of the directory with one table: a page behind the range loses its entry. -/
theorem not_frees_sharedTable : ¬ Frees KERNBASE 1 (directory 0x5001 0 0x2001) 4096 0 := by
  rintro ⟨fuel, after, -, frees⟩
  have first := frees.entries 0 (by decide) 2 0 rfl
  have second := frees.entries 1024 (by decide) 2 0 rfl
  rw [first] at second
  exact absurd second (by decide)

theorem not_frees_every_directory :
    ¬ Frees KERNBASE 1 (directory 1 0 0) 4096 0 ∧
      ¬ Frees KERNBASE 1 (directory 0x2001 0 0) 4096 0 ∧
      ¬ Frees KERNBASE 1 (directory 0x5001 0x5001 0) 8192 0 ∧
      ¬ Frees KERNBASE 1 (directory 0x5001 0 0x2001) 4096 0 :=
  ⟨not_frees_frameZero, not_frees_ownTable, not_frees_twice, not_frees_sharedTable⟩

end Coursework.PageMemory
