import Coursework.PageDemand

/-!
# The kernel's part of a page directory

`setupkvm` makes the same entries whatever pages it gets: those of `kmap`, without
`PTE_U`.  Between the end of physical memory and the devices there is no page table.
-/

namespace Coursework.Paging

variable {layout : Layout} {freelist freelist' : Freelist} {dir dir' : Dir} {page : Nat}

/-- The pages of a line of `kmap`. -/
def Kmap.covers (k : Kmap) (page : Nat) : Prop :=
  k.virt ≤ page ∧ page < k.virt + (k.physEnd - k.physStart)

instance (k : Kmap) (page : Nat) : Decidable (k.covers page) :=
  inferInstanceAs (Decidable (_ ∧ _))

/-- The entry that the lines of `kmap` give a page. -/
def kernelPte : List Kmap → Nat → Option Pte
  | [], _ => none
  | k :: rest, page => (kernelPte rest page).or
      (if k.covers page then some ⟨k.physStart + (page - k.virt), k.writable, false⟩ else none)

theorem mappages_entries (count : Nat) (freelist : Freelist) (dir : Dir) {page : Nat} (pte : Pte)
    (inside : page + count ≤ ALLPAGES) :
    Outcome (fun _ => True)
      (fun result => result.1 = true → ∀ other < ALLPAGES, result.2.2.pte other =
        if page ≤ other ∧ other < page + count then
          some { pte with frame := pte.frame + (other - page) }
        else dir.pte other)
      (mappages count freelist dir page pte) := by
  induction count generalizing freelist dir page pte with
  | zero =>
      intro _ other _
      rw [if_neg (by omega)]
  | succ count ih =>
      apply Outcome.bind ((mappage_spec freelist dir (by omega) pte).mono (fun _ _ => trivial)
        fun _ same => same)
      rintro ⟨mapped, freelist1, dir1⟩ ⟨entries, -⟩
      simp only at entries
      cases mapped with
      | false => exact nofun
      | true =>
          apply (ih freelist1 dir1 _ (by omega)).mono (fun _ => id)
          intro result later isMapped other otherInside
          rw [later isMapped other otherInside, entries other otherInside]
          rcases eq_or_ne other page with rfl | distinct
          · rw [if_neg (by omega), if_pos ⟨rfl, rfl⟩, if_pos (by omega), Nat.sub_self]
            rfl
          · by_cases range : page + 1 ≤ other ∧ other < page + 1 + count
            · have here : page ≤ other ∧ other < page + (count + 1) := by omega
              rw [if_pos range, if_pos here]
              have shift : 1 + (other - (page + 1)) = other - page := by omega
              simp only [Nat.add_assoc, shift]
            · rw [if_neg range, if_neg (by simp [distinct]), if_neg (by omega)]

theorem mapKernel_entries (lines : List Kmap) {start : Nat} {freelist : Freelist} {dir : Dir}
    (ordered : Ordered start lines) :
    Outcome (fun _ => True)
      (fun result => result.1 = true → ∀ other < ALLPAGES,
        result.2.2.pte other = (kernelPte lines other).or (dir.pte other))
      (mapKernel lines freelist dir) := by
  induction lines generalizing start freelist dir with
  | nil => exact fun _ _ _ => rfl
  | cons k rest ih =>
      obtain ⟨-, inside, later⟩ := ordered
      apply Outcome.bind (mappages_entries _ freelist dir _ inside)
      rintro ⟨mapped, freelist1, dir1⟩ entries
      cases mapped with
      | false => exact nofun
      | true =>
          apply (ih later).mono (fun _ => id)
          intro result lines isMapped other otherInside
          rw [lines isMapped other otherInside, entries rfl other otherInside, kernelPte,
            Option.or_assoc]
          congr 1
          by_cases range : k.covers other
          · rw [if_pos range]
            exact if_pos range
          · rw [if_neg range, Option.none_or]
            exact if_neg range

/-- The entries of a page directory that `setupkvm` makes. -/
theorem setupkvm_entries (layout : Layout) (freelist : Freelist) :
    Outcome (fun _ => True)
      (fun result => ∀ dir, result.1 = some dir → ∀ page < ALLPAGES,
        dir.pte page = kernelPte (kmap layout) page)
      (setupkvm layout freelist) := by
  unfold setupkvm
  split
  · exact nofun
  · next frame rest allocated =>
      apply Outcome.bind (mapKernel_entries (kmap layout) (kmap_ordered layout))
      rintro ⟨mapped, freelist1, dir1⟩ entries
      cases mapped with
      | true =>
          rintro _ ⟨⟩ page inside
          have isEntry := entries rfl page inside
          exact isEntry.trans (Option.or_none ..)
      | false =>
          apply Outcome.bind (Outcome.any _)
          rintro freelist2 -
          exact nofun

/-- No page of the kernel's part can be used by users. -/
theorem kernelPte_user (lines : List Kmap) {page : Nat} {pte : Pte}
    (isPte : kernelPte lines page = some pte) : pte.user = false := by
  induction lines with
  | nil => cases isPte
  | cons k rest ih =>
      rw [kernelPte, Option.or_eq_some_iff] at isPte
      rcases isPte with later | ⟨-, here⟩
      · exact ih later
      · split at here
        · cases here
          rfl
        · cases here

theorem kernelPte_none (layout : Layout) {page : Nat} (user : page < USERPAGES) :
    kernelPte (kmap layout) page = none := by
  have := layout.aboveText
  have := layout.aboveData
  have := layout.belowTop
  have outside : ∀ k ∈ kmap layout, ¬ k.covers page := by
    intro k member
    simp only [kmap, List.mem_cons, List.not_mem_nil, or_false] at member
    simp only [Kmap.covers, USERPAGES, KERNBASE, EXTMEM, PHYSTOP, DEVSPACE, ALLPAGES, UINT,
      PGSIZE] at *
    rcases member with rfl | rfl | rfl | rfl <;> simp only <;> omega
  generalize kmap layout = lines at outside
  induction lines with
  | nil => rfl
  | cons k rest ih =>
      rw [kernelPte, if_neg (outside k List.mem_cons_self),
        ih fun other member => outside other (List.mem_cons_of_mem _ member)]
      rfl

/-- The first page of the kernel is mapped. -/
theorem kernelPte_first (layout : Layout) : (kernelPte (kmap layout) USERPAGES).isSome = true := by
  have first : (⟨KERNBASE / PGSIZE, 0, EXTMEM / PGSIZE, true⟩ : Kmap).covers USERPAGES := by
    decide
  rw [kmap, kernelPte, if_pos first, Option.isSome_or]
  exact Bool.or_true _

end Coursework.Paging
