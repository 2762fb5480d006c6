import Coursework.PageAccounts
import Coursework.ProcessMemory
import Coursework.UserHeapRuns

/-!
# Requests of any size

`malloc` in the arithmetic of the machine: the number of headers and the number of bytes for
`sbrk` wrap around at 32 bits, and `sbrk` takes an integer with a sign.  From `2 ^ 31 - 15`
bytes on the number for `sbrk` is zero or negative.  The process does not grow then, it may
even lose its pages, but `morecore` writes its header behind the end of the process.  The
last seven requests wrap around before the division, and are served with a single header.

What a request finds is decided by the free blocks and by what `sbrk` answers.  The search
goes round the circle as in `UserHeapSearch`, so that it ends with a block that is large
enough, with a new region, or with a failure that leaves the heap as it was.
-/

namespace Coursework.UserHeap

open Paging (KERNBASE)

/-- Why a call does not return: it writes behind the end of the process, where no page has to
be. -/
inductive Stop where
  | outside
  | outOfFuel
  deriving DecidableEq

/-- A process; its heap ends at its size `sz`, and its pages end at `mapped`. -/
structure Process where
  heap : State
  mapped : Nat

/-- A word as an `int`. -/
def toInt (word : Nat) : Int := if word < 2 ^ 31 then word else word - UINT

/-- What `allocuvm` returns; `enough` tells whether there are pages enough for a size. -/
def allocuvm (enough : Nat → Bool) (oldsz newsz : Nat) : Nat :=
  if KERNBASE ≤ newsz then 0
  else if newsz < oldsz then oldsz
  else if enough newsz then newsz
  else 0

/-- What `deallocuvm` returns. -/
def deallocuvm (oldsz newsz : Nat) : Nat :=
  if oldsz ≤ newsz then oldsz else newsz

namespace Process

def resize (process : Process) (sz : Nat) : Process where
  heap := { process.heap with brk := sz }
  mapped := sz

/-- `growproc`, and whether it succeeds.  If the new size is zero the pages are freed although
the call fails. -/
def growproc (enough : Nat → Bool) (process : Process) (n : Int) : Process × Bool :=
  let newsz := ((process.heap.brk + n) % UINT).toNat
  if 0 < n then
    let sz := allocuvm enough process.heap.brk newsz
    if sz = 0 then (process, false) else (process.resize sz, true)
  else if n < 0 then
    let sz := deallocuvm process.heap.brk newsz
    if sz = 0 then ({ process with mapped := sz }, false) else (process.resize sz, true)
  else (process, true)

def sbrk (enough : Nat → Bool) (process : Process) (n : Int) : Process × Option Nat :=
  let addr := process.heap.brk
  let (process, grown) := process.growproc enough n
  (process, if grown then some addr else none)

/-- `morecore`, with the block to go on from. -/
def morecore (enough : Nat → Bool) (process : Process) (fuel nu : Nat) :
    Except Stop (Process × Option Nat) :=
  let nu := if nu < 4096 then 4096 else nu
  match process.sbrk enough (toInt (nu * HEADER % UINT)) with
  | (process, none) => .ok (process, none)
  | (process, some p) =>
      if process.mapped < p + HEADER then .error .outside
      else
        let heap :=
          { process.heap.setHeader p { process.heap.header p with size := nu } with
            regions := ⟨p, process.heap.brk⟩ :: process.heap.regions }
        match heap.free fuel (p + HEADER) with
        | none => .error .outOfFuel
        | some heap => .ok ({ process with heap }, some heap.freep)

/-- The loop of `malloc`. -/
def search (enough : Nat → Bool) (freeFuel nunits : Nat) :
    Nat → Process → Nat → Nat → Except Stop (Process × Nat)
  | 0, _, _, _ => .error .outOfFuel
  | fuel + 1, process, prevp, p =>
      if (process.heap.header p).size ≥ nunits then
        let (heap, ap) := process.heap.take prevp p nunits
        .ok ({ process with heap }, ap)
      else if p = process.heap.freep then
        match process.morecore enough freeFuel nunits with
        | .error stop => .error stop
        | .ok (process, none) => .ok (process, 0)
        | .ok (process, some p) =>
            search enough freeFuel nunits fuel process p (process.heap.next p)
      else search enough freeFuel nunits fuel process p (process.heap.next p)

/-- The list with the header `base` alone, before the first call. -/
def start (process : Process) (base : Nat) : Process :=
  { process with heap := process.heap.start base }

def malloc (enough : Nat → Bool) (process : Process) (base fuel nbytes : Nat) :
    Except Stop (Process × Nat) :=
  let process := process.start base
  search enough fuel (units nbytes) fuel process process.heap.freep
    (process.heap.next process.heap.freep)

end Process

/-- The pages of a process end with its heap, in front of the kernel. -/
structure Sound (base : Nat) (process : Process) (free : List Span) : Prop where
  heap : Heap base process.heap free
  mapped : process.mapped = process.heap.brk
  user : process.heap.brk < KERNBASE

/-- The block at `returned` is an allocation with room for the bytes, in the memory that
`sbrk` gave. -/
structure Granted (base : Nat) (process after : Process) (nbytes returned : Nat)
    (free : List Span) : Prop where
  sound : Sound base
    { after with heap := { after.heap with live := ⟨returned, nbytes⟩ :: after.heap.live } } free
  live : after.heap.live = process.heap.live
  obtained : ∀ addr, returned ≤ addr → addr < returned + nbytes → after.heap.heap addr = true

/-- A call fails and changes nothing but that the first call sets up the list, or it returns an
allocation. -/
inductive Answered (base : Nat) (process after : Process) (nbytes returned : Nat) : Prop
  | refused : returned = 0 → after = process.start base →
      Answered base process after nbytes returned
  | granted (free : List Span) : returned ≠ 0 → Granted base process after nbytes returned free →
      Answered base process after nbytes returned

/-- The call returns as it should, given turns enough. -/
def Served (enough : Nat → Bool) (base : Nat) (process : Process) (nbytes : Nat) : Prop :=
  ∃ after returned bound,
    (∀ fuel, bound < fuel → process.malloc enough base fuel nbytes = .ok (after, returned)) ∧
    Answered base process after nbytes returned

variable {enough : Nat → Bool} {base nbytes nunits : Nat} {process : Process} {free : List Span}

/-! ## The pages behind `sbrk` -/

section Pages

variable {layout : Paging.Layout} {freelist freelist' : Paging.Freelist} {dir dir' : Paging.Dir}
  {sz oldsz newsz : Nat}

theorem allocuvm_pages (sole : Paging.Sole layout freelist dir)
    (allocated : Paging.allocuvm layout freelist dir oldsz newsz = .ok (sz, freelist', dir')) :
    ∃ isEnough, allocuvm (fun _ => isEnough) oldsz newsz = sz := by
  unfold Paging.allocuvm at allocated
  simp only [allocuvm]
  split at allocated
  · next outside =>
      simp only [if_pos outside]
      exact ⟨true, congrArg Prod.fst (Except.ok.inj allocated)⟩
  · next inside =>
      simp only [if_neg inside]
      split at allocated
      · next smaller =>
          simp only [if_pos smaller]
          exact ⟨true, congrArg Prod.fst (Except.ok.inj allocated)⟩
      · next larger =>
          simp only [if_neg larger]
          have spec := Paging.allocLoop_spec (Nat.not_le.mp inside)
            (Paging.pagesBelow newsz - Paging.pagesBelow oldsz) sole (Nat.le_refl _)
            (Nat.add_sub_of_le (Paging.pagesBelow_mono (Nat.not_lt.mp larger)))
          rw [allocated] at spec
          rcases spec.2 with ⟨isNew, -⟩ | ⟨isZero, -⟩
          · exact ⟨true, isNew.symm⟩
          · exact ⟨false, isZero.symm⟩

theorem deallocuvm_pages (sole : Paging.Sole layout freelist dir) (user : oldsz ≤ KERNBASE)
    (freed : Paging.deallocuvm layout freelist dir oldsz newsz = .ok (sz, freelist', dir')) :
    deallocuvm oldsz newsz = sz := by
  have spec : Outcome _ _ (Paging.deallocuvm layout freelist dir oldsz newsz) :=
    Paging.deallocuvm_spec sole user
  rw [freed] at spec
  exact spec.1.symm

/-- The size that `growproc` leaves on page tables is the one it leaves here, if `enough` tells
whether `allocuvm` succeeds. -/
theorem growproc_pages {n : Int} (sole : Paging.Sole layout freelist dir)
    (user : process.heap.brk ≤ KERNBASE)
    (grown : Paging.growproc layout freelist dir process.heap.brk n = .ok (sz, freelist', dir')) :
    ∃ enough, (process.growproc enough n).1.heap.brk = sz := by
  simp only [Paging.growproc] at grown
  simp only [Process.growproc]
  generalize ((process.heap.brk + n) % UINT).toNat = newsz at grown ⊢
  by_cases positive : 0 < n
  · simp only [if_pos positive] at grown ⊢
    cases allocated : Paging.allocuvm layout freelist dir process.heap.brk newsz with
    | error error =>
        rw [allocated] at grown
        cases grown
    | ok result =>
        rw [allocated] at grown
        obtain ⟨isEnough, same⟩ := allocuvm_pages sole allocated
        refine ⟨fun _ => isEnough, ?_⟩
        have isSize : (if result.1 = 0 then process.heap.brk else result.1) = sz :=
          congrArg Prod.fst (Except.ok.inj grown)
        rw [same, ← isSize]
        split <;> rfl
  · simp only [if_neg positive] at grown ⊢
    refine ⟨fun _ => true, ?_⟩
    by_cases negative : n < 0
    · simp only [if_pos negative] at grown ⊢
      cases freed : Paging.deallocuvm layout freelist dir process.heap.brk newsz with
      | error error =>
          rw [freed] at grown
          cases grown
      | ok result =>
          rw [freed] at grown
          have isSize : (if result.1 = 0 then process.heap.brk else result.1) = sz :=
            congrArg Prod.fst (Except.ok.inj grown)
          rw [deallocuvm_pages sole user freed, ← isSize]
          split <;> rfl
    · simp only [if_neg negative] at grown ⊢
      exact congrArg Prod.fst (Except.ok.inj grown)

end Pages

/-! ## The search -/

/-- A search that need not ask for memory. -/
theorem search_unasked {freeFuel fuel prevp p returned : Nat} {after : State}
    (found : State.search freeFuel none nunits fuel process.heap prevp p = some (after, returned))
    (something : returned ≠ 0) :
    process.search enough freeFuel nunits fuel prevp p =
      .ok ({ process with heap := after }, returned) := by
  induction fuel generalizing prevp p with
  | zero => cases found
  | succ fuel ih =>
      rw [State.search] at found
      rw [Process.search]
      by_cases fits : (process.heap.header p).size ≥ nunits
      · rw [if_pos fits] at found ⊢
        rw [Option.some.inj found]
      · rw [if_neg fits] at found ⊢
        by_cases back : p = process.heap.freep
        · rw [if_pos back] at found
          have nothing : (process.heap, 0) = (after, returned) := Option.some.inj found
          exact absurd (Prod.mk.inj nothing).2.symm something
        · rw [if_neg back] at found ⊢
          exact ih found

/-- A search that passes small blocks only asks for memory. -/
theorem search_asks {freeFuel fuel k prevp : Nat}
    (small : ∀ j ≤ k, (process.heap.header (process.heap.next^[j + 1] prevp)).size < nunits)
    (back : process.heap.next^[k + 1] prevp = process.heap.freep)
    (notYet : ∀ j < k, process.heap.next^[j + 1] prevp ≠ process.heap.freep) :
    process.search enough freeFuel nunits (fuel + (k + 1)) prevp (process.heap.next prevp) =
      match process.morecore enough freeFuel nunits with
      | .error stop => .error stop
      | .ok (process, none) => .ok (process, 0)
      | .ok (process, some p) =>
          process.search enough freeFuel nunits fuel p (process.heap.next p) := by
  induction k generalizing prevp with
  | zero =>
      have tooSmall : (process.heap.header (process.heap.next prevp)).size < nunits :=
        small 0 (Nat.le_refl 0)
      have isFreep : process.heap.next prevp = process.heap.freep := back
      rw [Nat.zero_add, Process.search, if_neg (Nat.not_le.mpr tooSmall), if_pos isFreep]
  | succ k ih =>
      have tooSmall : (process.heap.header (process.heap.next prevp)).size < nunits :=
        small 0 (Nat.zero_le _)
      have notFreep : process.heap.next prevp ≠ process.heap.freep := notYet 0 (Nat.succ_pos k)
      rw [← Nat.add_assoc, Process.search, if_neg (Nat.not_le.mpr tooSmall), if_neg notFreep]
      exact ih (fun j le => small (j + 1) (Nat.succ_le_succ le)) back
        fun j less => notYet (j + 1) (Nat.succ_lt_succ less)

namespace Circle

/-- A circle with a block that is large enough. -/
theorem finds (circle : Circle base process.heap free) (positive : 0 < nunits)
    {span : Span} (member : span ∈ free) (fits : span.start + nunits * HEADER ≤ span.stop) :
    ∃ after returned bound taken free',
      (∀ fuel, bound < fuel → ∀ freeFuel,
        process.search enough freeFuel nunits fuel process.heap.freep
          (process.heap.next process.heap.freep) =
            .ok ({ process with heap := after }, returned)) ∧
      Taken base process.heap after free nunits taken free' ∧
      returned = taken.start + HEADER := by
  have inCircle := List.mem_cons_of_mem (baseSpan base) member
  have size := circle.path.size_eq inCircle
  have large : nunits ≤ (process.heap.header span.start).size := by
    simp only [HEADER] at fits size
    omega
  obtain ⟨after, returned, bound, taken, free', ends, isTaken, isReturned⟩ :=
    circle.search_finds positive (List.mem_map_of_mem inCircle) large
  refine ⟨after, returned, bound, taken, free', ?_, isTaken, isReturned⟩
  intro fuel isEnough freeFuel
  exact search_unasked (ends fuel isEnough freeFuel none) (isReturned ▸ Nat.succ_ne_zero _)

/-- A circle of small blocks. -/
theorem asks (circle : Circle base process.heap free) (positive : 0 < nunits)
    (small : ∀ span ∈ free, span.stop < span.start + nunits * HEADER) :
    ∃ k, ∀ fuel freeFuel, process.search enough freeFuel nunits (fuel + (k + 1))
        process.heap.freep (process.heap.next process.heap.freep) =
      match process.morecore enough freeFuel nunits with
      | .error stop => .error stop
      | .ok (process, none) => .ok (process, 0)
      | .ok (process, some p) =>
          process.search enough freeFuel nunits fuel p (process.heap.next p) := by
  have smaller : ∀ p ∈ (baseSpan base :: free).map Span.start,
      (process.heap.header p).size < nunits := by
    intro p member
    obtain ⟨span, isSpan, rfl⟩ := List.mem_map.mp member
    have size := circle.path.size_eq isSpan
    simp only [HEADER] at size small
    rcases List.mem_cons.mp isSpan with rfl | inFree
    · simp only [baseSpan] at size ⊢
      omega
    · have := small span inFree
      omega
  have passed : ∀ j, (process.heap.header
      (process.heap.next^[j] process.heap.freep)).size < nunits := fun j =>
    smaller _ (circle.cyclic.iterate_mem circle.freep j)
  obtain ⟨k, ends, notYet⟩ := circle.scan nunits circle.freep
  refine ⟨k, fun fuel freeFuel => ?_⟩
  exact search_asks (fun j _ => passed (j + 1))
    (ends.resolve_left (Nat.not_le.mpr (passed (k + 1)))) fun j less => (notYet j less).2

end Circle

/-! ## More memory -/

/-- `sbrk` can answer a request for memory. -/
def Grows (enough : Nat → Bool) (process : Process) (bytes : Nat) : Prop :=
  process.heap.brk + bytes < KERNBASE ∧ enough (process.heap.brk + bytes) = true

section Sbrk

variable {bytes : Nat}

/-- What `sbrk` does with a number that is an `int`. -/
theorem growproc_of_pos (user : process.heap.brk < KERNBASE) (positive : 0 < bytes)
    (fits : bytes < 2 ^ 31) :
    (Grows enough process bytes → process.growproc enough (toInt (bytes % UINT)) =
      (process.resize (process.heap.brk + bytes), true)) ∧
    (¬ Grows enough process bytes →
      process.growproc enough (toInt (bytes % UINT)) = (process, false)) := by
  have isInt : toInt (bytes % UINT) = bytes := by
    rw [Nat.mod_eq_of_lt (fits.trans (by decide)), toInt, if_pos fits]
  have newsz : ((process.heap.brk + (bytes : Int)) % UINT).toNat = process.heap.brk + bytes := by
    simp only [KERNBASE, UINT] at user ⊢
    omega
  have isPositive : (0 : Int) < bytes := Int.natCast_pos.mpr positive
  simp only [isInt, Process.growproc, newsz, if_pos isPositive]
  constructor
  · intro grows
    have isSize : allocuvm enough process.heap.brk (process.heap.brk + bytes) =
        process.heap.brk + bytes := by
      rw [allocuvm, if_neg (Nat.not_le.mpr grows.1),
        if_neg (Nat.not_lt.mpr (Nat.le_add_right ..)), if_pos grows.2]
    rw [isSize, if_neg (by omega)]
  · intro full
    have isZero : allocuvm enough process.heap.brk (process.heap.brk + bytes) = 0 := by
      unfold allocuvm
      split
      · rfl
      · next below =>
          rw [if_neg (Nat.not_lt.mpr (Nat.le_add_right ..)), if_neg]
          exact fun isEnough => full ⟨Nat.not_le.mp below, isEnough⟩
    rw [if_pos isZero]

/-- What `sbrk` does with a number that is no `int`: it fails and all pages are freed, or the
process does not grow. -/
theorem growproc_of_large (mapped : process.mapped = process.heap.brk) (large : 2 ^ 31 ≤ bytes)
    (fits : bytes ≤ UINT) :
    process.growproc enough (toInt (bytes % UINT)) = ({ process with mapped := 0 }, false) ∨
      ∃ after, process.growproc enough (toInt (bytes % UINT)) = (after, true) ∧
        after.mapped ≤ process.heap.brk := by
  have notPositive : ¬ 0 < toInt (bytes % UINT) := by
    rcases Nat.lt_or_eq_of_le fits with word | rfl
    · rw [Nat.mod_eq_of_lt word, toInt, if_neg (Nat.not_lt.mpr large)]
      omega
    · decide
  simp only [Process.growproc, if_neg notPositive]
  generalize ((process.heap.brk + toInt (bytes % UINT)) % UINT).toNat = newsz
  split
  · split
    · next isZero => exact .inl (by rw [isZero])
    · refine .inr ⟨_, rfl, ?_⟩
      simp only [Process.resize, deallocuvm]
      split <;> omega
  · exact .inr ⟨_, rfl, mapped.le⟩

end Sbrk

/-- The number of headers that `morecore` asks for. -/
def requested (nunits : Nat) : Nat := if nunits < 4096 then 4096 else nunits

theorem le_requested (nunits : Nat) : nunits ≤ requested nunits ∧ 0 < requested nunits := by
  unfold requested
  split <;> omega

theorem requested_small (fits : nunits * HEADER < 2 ^ 31) :
    requested nunits * HEADER < 2 ^ 31 := by
  unfold requested
  split
  · decide
  · exact fits

theorem requested_large (large : 2 ^ 31 ≤ nunits * HEADER) : requested nunits = nunits := by
  simp only [HEADER] at large
  exact if_neg (by omega)

theorem morecore_fails {fuel : Nat} {after : Process}
    (fails : process.growproc enough (toInt (requested nunits * HEADER % UINT)) = (after, false)) :
    process.morecore enough fuel nunits = .ok (after, none) := by
  change (match process.sbrk enough (toInt (requested nunits * HEADER % UINT)) with
    | (process, none) => _
    | (process, some p) => _) = _
  rw [Process.sbrk, fails]
  rfl

/-- The header of a region that the process does not have. -/
theorem morecore_outside {fuel : Nat} {after : Process}
    (grown : process.growproc enough (toInt (requested nunits * HEADER % UINT)) = (after, true))
    (behind : after.mapped ≤ process.heap.brk) :
    process.morecore enough fuel nunits = .error .outside := by
  have isOutside : after.mapped < process.heap.brk + HEADER :=
    Nat.lt_of_le_of_lt behind (Nat.lt_add_of_pos_right (by decide))
  change (match process.sbrk enough (toInt (requested nunits * HEADER % UINT)) with
    | (process, none) => _
    | (process, some p) => _) = _
  rw [Process.sbrk, grown]
  exact if_pos isOutside

/-- `morecore` puts a new region into the circle. -/
theorem Circle.extends (circle : Circle base process.heap free)
    (above : base < process.heap.brk) (below : ∀ span ∈ free, span.stop ≤ process.heap.brk)
    (grown : process.growproc enough (toInt (requested nunits * HEADER % UINT)) =
      (process.resize (process.heap.brk + requested nunits * HEADER), true)) :
    ∃ after free' bound,
      (∀ fuel, bound < fuel → process.morecore enough fuel nunits =
        .ok (⟨after, process.heap.brk + requested nunits * HEADER⟩, some after.freep)) ∧
      Freed base (process.heap.grown process.heap.brk (requested nunits)) after free
        ⟨process.heap.brk, process.heap.brk + requested nunits * HEADER⟩ free' := by
  have positive := (le_requested nunits).2
  have fresh : ∀ span ∈ baseSpan base :: free, span.start < process.heap.brk := by
    intro span member
    rcases List.mem_cons.mp member with rfl | inFree
    · exact above
    · exact (circle.nonempty span inFree).trans_le (below span inFree)
  have nonempty : process.heap.brk < process.heap.brk + requested nunits * HEADER :=
    Nat.lt_add_of_pos_right (Nat.mul_pos positive (by decide))
  obtain ⟨after, free', bound, ends, freed⟩ :=
    (circle.grown fresh (requested nunits)).free (process.heap.brk + HEADER)
      (b := ⟨process.heap.brk, process.heap.brk + requested nunits * HEADER⟩)
      (Nat.add_sub_cancel ..).symm (by simp only [State.grown, setHeader_self]) nonempty
      (fresh _ List.mem_cons_self) fun span member => .inl (below span member)
  refine ⟨after, free', bound, fun fuel isEnough => ?_, freed⟩
  have inside : ¬ process.heap.brk + requested nunits * HEADER < process.heap.brk + HEADER := by
    simp only [HEADER]
    omega
  have frees := ends fuel isEnough
  change (match process.sbrk enough (toInt (requested nunits * HEADER % UINT)) with
    | (process, none) => _
    | (process, some p) => _) = _
  rw [Process.sbrk, grown]
  refine (if_neg inside).trans ?_
  change (match (process.heap.grown process.heap.brk (requested nunits)).free fuel
    (process.heap.brk + HEADER) with
    | none => _
    | some heap => _) = _
  rw [frees]
  rfl

/-! ## Calls -/

theorem start_rest (state : State) (base : Nat) : (state.start base).live = state.live ∧
    (state.start base).regions = state.regions ∧ (state.start base).brk = state.brk := by
  unfold State.start
  split <;> exact ⟨rfl, rfl, rfl⟩

/-- The bytes of an allocation are in the memory that `sbrk` gave. -/
theorem Heap.obtained {state : State} (heap : Heap base state free) {allocation : Allocation}
    (isLive : allocation ∈ state.live) {addr : Nat} (lower : allocation.ap ≤ addr)
    (upper : addr < allocation.ap + allocation.nbytes) : state.heap addr = true := by
  obtain ⟨above, fits⟩ := heap.live allocation isLive
  have inSpan : (state.span allocation).start ≤ addr ∧ addr < (state.span allocation).stop := by
    simp only [State.span]
    omega
  have covered := Span.cover_pos (List.mem_map_of_mem (f := state.span) isLive) inSpan
  have parts := heap.parts_heap addr
  by_contra outside
  rw [if_neg outside] at parts
  omega

namespace Sound

/-- An allocation ends in front of the kernel. -/
theorem below (sound : Sound base process free) {allocation : Allocation}
    (isLive : allocation ∈ process.heap.live) : allocation.nbytes ≤ 2 ^ 31 - 16 := by
  have fits := (sound.heap.live allocation isLive).2
  have inside : ∀ addr, allocation.ap - HEADER ≤ addr →
      addr < allocation.ap - HEADER + (process.heap.header (allocation.ap - HEADER)).size * HEADER →
      base + HEADER ≤ addr ∧ addr < process.heap.brk := fun addr lower upper =>
    sound.heap.inside (Nat.add_pos_right _ (Span.cover_pos
      (List.mem_map_of_mem (f := process.heap.span) isLive) ⟨lower, upper⟩))
  have first := inside (allocation.ap - HEADER) (Nat.le_refl _) (by
    simp only [HEADER] at fits ⊢
    omega)
  have last := inside (allocation.ap - HEADER + (allocation.nbytes + 7)) (Nat.le_add_right ..) (by
    simp only [HEADER] at fits ⊢
    omega)
  have user := sound.user
  simp only [HEADER, KERNBASE] at first last user
  omega

theorem started (sound : Sound base process free) :
    Circle base (process.start base).heap free ∧ Sound base (process.start base) free := by
  obtain ⟨circle, heap⟩ := sound.heap.start
  have same := (start_rest process.heap base).2.2
  exact ⟨circle, heap, sound.mapped.trans same.symm, same ▸ sound.user⟩

/-- Taking a block grants it. -/
theorem granted {middle : Process} {after : State} {block : Span} {free' : List Span}
    (sound : Sound base middle free) (live : middle.heap.live = process.heap.live)
    (taken : Taken base middle.heap after free nunits block free')
    (fits : nbytes + HEADER ≤ nunits * HEADER) :
    Granted base process { middle with heap := after } nbytes (block.start + HEADER) free' := by
  have heap := sound.heap.taken taken fits
  have brk : after.brk = middle.heap.brk := taken.rest.2.2
  refine ⟨⟨heap, sound.mapped.trans brk.symm, brk ▸ sound.user⟩, taken.rest.1.trans live, ?_⟩
  intro addr lower upper
  exact heap.obtained List.mem_cons_self lower upper

variable (enough)

/-- A call that finds no block and gets no memory changes nothing. -/
theorem refuses (sound : Sound base process free)
    (small : ∀ span ∈ free, span.stop < span.start + units nbytes * HEADER)
    (fits : units nbytes * HEADER < 2 ^ 31)
    (full : ¬ Grows enough process (requested (units nbytes) * HEADER)) :
    ∃ bound, ∀ fuel, bound < fuel → process.malloc enough base fuel nbytes =
      .ok (process.start base, 0) := by
  obtain ⟨circle, started⟩ := sound.started
  have same := (start_rest process.heap base).2.2
  obtain ⟨k, asks⟩ := @Circle.asks enough base (units nbytes) (process.start base) free
    circle (Nat.succ_pos _) small
  have fails := (@growproc_of_pos enough (process.start base) _ started.user
    (Nat.mul_pos (le_requested (units nbytes)).2 (by decide)) (requested_small fits)).2
      (by rwa [Grows, Process.start, same])
  refine ⟨k, fun fuel isEnough => ?_⟩
  obtain ⟨left, rfl⟩ := Nat.exists_eq_add_of_lt isEnough
  rw [Process.malloc, show k + left + 1 = left + (k + 1) by omega, asks, morecore_fails fails]

/-- A request that is no `int` fails with the loss of all pages, or the process writes behind
its end. -/
theorem oversteps (sound : Sound base process free)
    (large : 2 ^ 31 ≤ units nbytes * HEADER) :
    ∃ bound, ∀ fuel, bound < fuel →
      process.malloc enough base fuel nbytes = .error .outside ∨
        process.malloc enough base fuel nbytes =
          .ok ({ process.start base with mapped := 0 }, 0) := by
  obtain ⟨circle, started⟩ := sound.started
  have small : ∀ span ∈ free, span.stop < span.start + units nbytes * HEADER := by
    intro span isFree
    have below := started.heap.below span isFree
    have user := started.user
    simp only [KERNBASE] at user
    omega
  have fits : requested (units nbytes) * HEADER ≤ UINT := by
    rw [requested_large large]
    simp only [units, HEADER, UINT]
    omega
  obtain ⟨k, asks⟩ := @Circle.asks enough base (units nbytes) (process.start base) free
    circle (Nat.succ_pos _) small
  refine ⟨k, fun fuel isEnough => ?_⟩
  obtain ⟨left, rfl⟩ := Nat.exists_eq_add_of_lt isEnough
  rw [Process.malloc, show k + left + 1 = left + (k + 1) by omega, asks]
  rcases @growproc_of_large enough (process.start base) _ started.mapped
    ((requested_large large).symm ▸ large) fits with fails | ⟨after, grown, behind⟩
  · rw [morecore_fails fails]
    exact .inr rfl
  · rw [morecore_outside grown behind]
    exact .inl rfl

/-- A call that finds a block or gets memory returns a block. -/
theorem grants (sound : Sound base process free) (fits : units nbytes * HEADER < 2 ^ 31)
    (possible : (∃ span ∈ free, span.start + units nbytes * HEADER ≤ span.stop) ∨
      Grows enough process (requested (units nbytes) * HEADER)) :
    ∃ after returned bound free', (∀ fuel, bound < fuel →
        process.malloc enough base fuel nbytes = .ok (after, returned)) ∧ returned ≠ 0 ∧
      (nbytes + HEADER ≤ units nbytes * HEADER →
        Granted base process after nbytes returned free') := by
  obtain ⟨circle, started⟩ := sound.started
  obtain ⟨live, -, brk⟩ := start_rest process.heap base
  have positive : 0 < units nbytes := Nat.succ_pos _
  by_cases large : ∃ span ∈ free, span.start + units nbytes * HEADER ≤ span.stop
  · obtain ⟨span, member, large⟩ := large
    obtain ⟨after, returned, bound, block, free', ends, taken, rfl⟩ :=
      @Circle.finds enough base (units nbytes) (process.start base) free circle positive
        span member large
    exact ⟨_, _, bound, free', fun fuel isEnough => ends fuel isEnough fuel, Nat.succ_ne_zero _,
      started.granted live taken⟩
  · have small : ∀ span ∈ free, span.stop < span.start + units nbytes * HEADER :=
      fun span member => Nat.not_le.mp fun fits => large ⟨span, member, fits⟩
    have grows := possible.resolve_left large
    obtain ⟨k, asks⟩ := @Circle.asks enough base (units nbytes) (process.start base) free
      circle positive small
    have grown := (@growproc_of_pos enough (process.start base) _ started.user
      (Nat.mul_pos (le_requested (units nbytes)).2 (by decide)) (requested_small fits)).1
        (by rwa [Grows, Process.start, brk])
    have room := started.heap.room
    obtain ⟨after, added, bound, ends, freed⟩ := circle.extends (by
      simp only [HEADER] at room
      omega) started.heap.below grown
    have middle : Sound base
        ⟨after, process.heap.brk + requested (units nbytes) * HEADER⟩ added := by
      have isEnd : after.brk = process.heap.brk + requested (units nbytes) * HEADER :=
        freed.rest.2.2.trans (congrArg (· + _) brk)
      exact ⟨started.heap.grown circle (Nat.le_refl _) freed, isEnd.symm, isEnd ▸ grows.1⟩
    obtain ⟨span, member, lower, upper⟩ := freed.within
    have amount := (le_requested (units nbytes)).1
    obtain ⟨last, returned, bound', block, free', found, taken, rfl⟩ :=
      @Circle.finds enough base (units nbytes)
        ⟨after, process.heap.brk + requested (units nbytes) * HEADER⟩ added freed.circle positive
        span member (by
          simp only [HEADER] at lower upper ⊢
          omega)
    refine ⟨_, _, bound + bound' + (k + 1), free', fun fuel isEnough => ?_, Nat.succ_ne_zero _,
      middle.granted (freed.rest.1.trans live) taken⟩
    obtain ⟨left, rfl⟩ := Nat.exists_eq_add_of_lt isEnough
    rw [Process.malloc, show bound + bound' + (k + 1) + left + 1 =
      (bound + bound' + left + 1) + (k + 1) by omega, asks, ends _ (by omega)]
    rw [Process.start, brk]
    exact found _ (by omega) _

end Sound

/-- What a call returns does not depend on the turns. -/
theorem Served.result (served : Served enough base process nbytes) {after : Process}
    {returned bound : Nat} (ends : ∀ fuel, bound < fuel →
      process.malloc enough base fuel nbytes = .ok (after, returned)) :
    Answered base process after nbytes returned := by
  obtain ⟨after', returned', bound', ends', answered⟩ := served
  have same := (ends (bound + bound' + 1) (by omega)).symm.trans (ends' _ (by omega))
  obtain ⟨rfl, rfl⟩ := Prod.mk.inj (Except.ok.inj same)
  exact answered

/-- An answer other than zero is no answer to a request for more than an `int`. -/
theorem Answered.small {after : Process} {returned : Nat}
    (answered : Answered base process after nbytes returned) (something : returned ≠ 0) :
    nbytes ≤ 2 ^ 31 - 16 := by
  cases answered with
  | refused nothing => exact absurd nothing something
  | granted free _ granted => exact granted.sound.below List.mem_cons_self

/-- The requests whose number of headers is right, and those that wrap around. -/
theorem units_cases (word : nbytes < UINT) (large : ¬ nbytes ≤ 2 ^ 31 - 16) :
    2 ^ 31 ≤ units nbytes * HEADER ∧ nbytes < UINT - 7 ∨ units nbytes = 1 ∧ UINT - 7 ≤ nbytes := by
  simp only [units, HEADER, UINT] at word ⊢
  omega

theorem units_small (small : nbytes ≤ 2 ^ 31 - 16) :
    units nbytes * HEADER < 2 ^ 31 ∧ nbytes + HEADER ≤ units nbytes * HEADER := by
  simp only [units, HEADER, UINT]
  omega

namespace Sound

variable (sound : Sound base process free)
include sound

theorem served_of_small (small : nbytes ≤ 2 ^ 31 - 16) : Served enough base process nbytes := by
  obtain ⟨fits, room⟩ := units_small small
  by_cases possible : (∃ span ∈ free, span.start + units nbytes * HEADER ≤ span.stop) ∨
      Grows enough process (requested (units nbytes) * HEADER)
  · obtain ⟨after, returned, bound, free', ends, something, granted⟩ := sound.grants enough fits possible
    exact ⟨after, returned, bound, ends, .granted free' something (granted room)⟩
  · rw [not_or] at possible
    obtain ⟨bound, ends⟩ := sound.refuses enough
      (fun span member => Nat.not_le.mp fun fits => possible.1 ⟨span, member, fits⟩) fits possible.2
    exact ⟨_, 0, bound, ends, .refused rfl rfl⟩

/-- A request that oversteps is not served. -/
theorem not_served (large : 2 ^ 31 ≤ units nbytes * HEADER) :
    ¬ Served enough base process nbytes := by
  rintro ⟨after, returned, bound, ends, answered⟩
  obtain ⟨bound', oversteps⟩ := sound.oversteps enough large
  have isEnd := ends (bound + bound' + 1) (by omega)
  rcases oversteps (bound + bound' + 1) (by omega) with outside | lost
  · rw [outside] at isEnd
    cases isEnd
  · rw [lost] at isEnd
    obtain ⟨rfl, rfl⟩ := Prod.mk.inj (Except.ok.inj isEnd)
    cases answered with
    | refused _ same =>
        have lost : 0 = process.mapped := congrArg Process.mapped same
        have room := sound.heap.room
        have mapped := sound.mapped
        simp only [HEADER] at room
        omega
    | granted free' something => exact something rfl

/-- A request that wraps around is served only if it is refused. -/
theorem served_wrapped_iff (wrapped : units nbytes = 1) (large : ¬ nbytes ≤ 2 ^ 31 - 16) :
    Served enough base process nbytes ↔ free = [] ∧ ¬ Grows enough process 32768 := by
  have fits : units nbytes * HEADER < 2 ^ 31 := by
    rw [wrapped]
    decide
  have bytes : requested (units nbytes) * HEADER = 32768 := by
    rw [wrapped]
    decide
  have ample : ∀ span ∈ free, span.start + units nbytes * HEADER ≤ span.stop := by
    intro span member
    obtain ⟨circle, -⟩ := sound.started
    have size := circle.path.size_eq (List.mem_cons_of_mem _ member)
    have nonempty := circle.nonempty span member
    simp only [wrapped, HEADER] at size ⊢
    omega
  constructor
  · intro served
    by_contra possible
    obtain ⟨after, returned, bound, free', ends, something, -⟩ :=
      sound.grants enough fits (by
        rw [bytes]
        cases isFree : free with
        | nil => exact .inr (not_not.mp fun full => possible ⟨isFree, full⟩)
        | cons span rest =>
            have member : span ∈ free := isFree ▸ List.mem_cons_self
            exact .inl ⟨span, List.mem_cons_self, ample span member⟩)
    exact large ((served.result ends).small something)
  · rintro ⟨rfl, full⟩
    obtain ⟨bound, ends⟩ := sound.refuses enough (by simp) fits (bytes ▸ full)
    exact ⟨_, 0, bound, ends, .refused rfl rfl⟩

end Sound

/-- `malloc` serves a request as it should if its bytes are an `int`.  From there on it writes
behind the end of the process or frees its pages, but for the seven largest requests, which it
answers with too few bytes unless it has to refuse. -/
theorem served_iff (sound : Sound base process free) (word : nbytes < UINT) :
    Served enough base process nbytes ↔
      nbytes ≤ 2 ^ 31 - 16 ∨
        UINT - 7 ≤ nbytes ∧ free = [] ∧ ¬ Grows enough process 32768 := by
  by_cases small : nbytes ≤ 2 ^ 31 - 16
  · exact iff_of_true (sound.served_of_small small) (.inl small)
  · rcases units_cases word small with ⟨large, below⟩ | ⟨wrapped, last⟩
    · refine iff_of_false (sound.not_served large) ?_
      rintro (fits | ⟨last, -⟩)
      · exact small fits
      · exact absurd last (Nat.not_le.mpr below)
    · rw [sound.served_wrapped_iff wrapped small]
      exact ⟨fun refused => .inr ⟨last, refused⟩, fun cases =>
        (cases.resolve_left small).2⟩

/-- A process with two headers of memory and nothing allocated. -/
def freshProcess : Process where
  heap := firstState
  mapped := 16

theorem freshProcess_sound : Sound 8 freshProcess [] :=
  ⟨.initial ⟨by decide, rfl, rfl, rfl⟩, rfl, by decide⟩

theorem served_iff_fresh : Served (fun _ => true) 8 freshProcess (2 ^ 31 - 16) ∧
    ¬ Served (fun _ => true) 8 freshProcess (2 ^ 31 - 15) ∧
    Served (fun _ => false) 8 freshProcess (UINT - 1) := by
  refine ⟨(served_iff freshProcess_sound (by decide)).mpr (.inl (Nat.le_refl _)), ?_,
    (served_iff freshProcess_sound (by decide)).mpr
      (.inr ⟨by decide, rfl, fun grows => Bool.false_ne_true grows.2⟩)⟩
  rw [served_iff freshProcess_sound (by decide)]
  rintro (fits | ⟨last, -⟩)
  · exact absurd fits (by decide)
  · exact absurd last (by decide)

/-- The largest request gets a single header, behind which no byte is the caller's. -/
theorem largest_request_answered : Sound 8 freshProcess [] ∧ UINT - 1 < UINT ∧
    ¬ Served (fun _ => true) 8 freshProcess (UINT - 1) := by
  refine ⟨freshProcess_sound, by decide, ?_⟩
  rw [freshProcess_sound.served_wrapped_iff (by decide) (by decide)]
  rintro ⟨-, full⟩
  exact full ⟨by decide, rfl⟩

end Coursework.UserHeap
