import Coursework.UserHeapSearch

/-!
# Runs of the allocator of user programs

Every address that `sbrk` returned is in exactly one block, a free one or that of an
allocation.  The calls keep this, because freeing and taking move the addresses of a block
between the circle and the allocations and change no other header of an allocation, and
because the client writes behind the headers of its blocks only.  So allocations never
overlap, and when all of them are freed the blocks of the circle fill the regions.
-/

namespace Coursework.UserHeap

variable {base : Nat} {state after : State} {free free' : List Span}

/-- The free blocks and the blocks of the allocations share the regions. -/
structure Heap (base : Nat) (state : State) (free : List Span) : Prop where
  linked : state.freep = 0 ∧ free = [] ∧ state.live = [] ∨ Circle base state free
  room : 0 < base ∧ base + HEADER ≤ state.brk
  regions : ∀ region ∈ state.regions, base + HEADER ≤ region.start ∧ region.stop ≤ state.brk
  live : ∀ allocation ∈ state.live, HEADER ≤ allocation.ap ∧
    allocation.nbytes + HEADER ≤ (state.header (allocation.ap - HEADER)).size * HEADER
  single : ∀ addr, Span.cover state.regions addr ≤ 1
  parts : ∀ addr, Span.cover free addr + Span.cover (state.live.map state.span) addr =
    Span.cover state.regions addr

theorem spans_congr {live : List Allocation}
    (same : ∀ allocation ∈ live,
      after.header (allocation.ap - HEADER) = state.header (allocation.ap - HEADER)) :
    live.map after.span = live.map state.span := by
  apply List.map_congr_left
  intro allocation isLive
  rw [State.span, State.span, same allocation isLive]

namespace Heap

variable {allocation other : Allocation} {addr : Nat}

theorem inside (heap : Heap base state free)
    (covered : 0 < Span.cover free addr + Span.cover (state.live.map state.span) addr) :
    base + HEADER ≤ addr ∧ addr < state.brk := by
  rw [heap.parts] at covered
  obtain ⟨region, isRegion, lower, upper⟩ := Span.exists_of_cover_pos covered
  obtain ⟨above, below⟩ := heap.regions region isRegion
  exact ⟨above.trans lower, upper.trans_le below⟩

theorem start_mem (heap : Heap base state free) (isLive : allocation ∈ state.live) :
    (state.span allocation).start ≤ allocation.ap - HEADER ∧
      allocation.ap - HEADER < (state.span allocation).stop := by
  have size := (heap.live allocation isLive).2
  simp only [State.span, HEADER] at size ⊢
  omega

theorem covered (heap : Heap base state free) (isLive : allocation ∈ state.live)
    (inside : (state.span allocation).start ≤ addr ∧ addr < (state.span allocation).stop) :
    Span.cover free addr = 0 ∧ base < addr ∧ addr < state.brk := by
  have isCovered := Span.cover_pos (List.mem_map_of_mem (f := state.span) isLive) inside
  have parts := heap.parts addr
  have single := heap.single addr
  obtain ⟨above, below⟩ := heap.inside (Nat.add_pos_right _ isCovered)
  simp only [HEADER] at above
  exact ⟨by omega, by omega, below⟩

/-- Two allocations do not overlap. -/
theorem apart (heap : Heap base state free) (isLive : allocation ∈ state.live)
    (isOther : other ∈ state.live.erase allocation)
    (inside : (state.span allocation).start ≤ addr ∧ addr < (state.span allocation).stop) :
    ¬ ((state.span other).start ≤ addr ∧ addr < (state.span other).stop) := by
  intro inOther
  have isTwo : Span.cover (state.live.map state.span) addr =
      Span.cover ((state.live.erase allocation).map state.span) addr + 1 := by
    rw [Span.cover, ((List.perm_cons_erase isLive).map state.span).countP_eq]
    exact List.countP_cons_of_pos (Span.contains_iff.mpr inside)
  have isCovered := Span.cover_pos (List.mem_map_of_mem (f := state.span) isOther) inOther
  have parts := heap.parts addr
  have single := heap.single addr
  omega

/-! ## The parts of a call -/

theorem start (heap : Heap base state free) :
    Circle base (state.start base) free ∧ Heap base (state.start base) free := by
  unfold State.start
  rcases heap.linked with ⟨nothing, rfl, -⟩ | circle
  · rw [if_pos nothing]
    have circle : Circle base
        { state.setHeader base { ptr := base, size := 0 } with freep := base } [] := by
      refine ⟨⟨?_, ?_, trivial⟩, List.mem_singleton.mpr rfl, ⟨List.pairwise_singleton .., ?_⟩,
        by simp⟩
      · exact congrArg Header.ptr (setHeader_self ..)
      · simp [baseSpan]
      · simp [baseSpan]
    have same : ∀ allocation ∈ state.live,
        (state.setHeader base { ptr := base, size := 0 }).header (allocation.ap - HEADER) =
          state.header (allocation.ap - HEADER) := fun allocation isLive =>
      setHeader_of_ne _ _ (heap.covered isLive (heap.start_mem isLive)).2.1.ne'
    refine ⟨circle, .inr circle, heap.room, heap.regions, ?_, heap.single, ?_⟩
    · intro allocation isLive
      have live := heap.live allocation isLive
      rw [← same allocation isLive] at live
      exact live
    · intro addr
      have parts := heap.parts addr
      rw [← spans_congr same] at parts
      exact parts
  · have notZero : state.freep ≠ 0 := by
      obtain ⟨span, member, isFreep⟩ := List.mem_map.mp circle.freep
      have positive := heap.room.1
      rcases List.mem_cons.mp member with rfl | inFree
      · simp only [baseSpan] at isFreep
        omega
      · have := circle.base_lt inFree
        omega
    rw [if_neg notZero]
    exact ⟨circle, heap⟩

theorem grown {p nu : Nat} (heap : Heap base state free) (circle : Circle base state free)
    (behind : state.brk ≤ p)
    (freed : Freed base (state.grown p nu) after free ⟨p, p + nu * HEADER⟩ free') :
    Heap base after free' := by
  obtain ⟨isLive, isRegions, isBrk⟩ := freed.rest
  have same : ∀ allocation ∈ state.live,
      after.header (allocation.ap - HEADER) = state.header (allocation.ap - HEADER) := by
    intro allocation isLive
    obtain ⟨notFree, above, below⟩ := heap.covered isLive (heap.start_mem isLive)
    rw [freed.header _ (below.trans_le behind).ne above.ne']
    · exact setHeader_of_ne _ _ (below.trans_le behind).ne
    · rintro span member isStart
      have := Span.cover_pos member ⟨isStart.le, isStart ▸ circle.nonempty span member⟩
      omega
  have regions : after.regions = ⟨p, p + nu * HEADER⟩ :: state.regions := isRegions
  have brk : after.brk = p + nu * HEADER := isBrk
  have live : after.live = state.live := isLive
  have room := heap.room.2
  refine ⟨.inr freed.circle, ⟨heap.room.1, by omega⟩, ?_, ?_, ?_, ?_⟩
  · rw [regions, brk]
    intro region member
    rcases List.mem_cons.mp member with rfl | old
    · exact ⟨room.trans behind, Nat.le_refl _⟩
    · have := heap.regions region old
      omega
  · rw [live]
    intro allocation isLive
    rw [same allocation isLive]
    exact heap.live allocation isLive
  · intro addr
    rw [regions, Span.cover_cons]
    by_cases inside : p ≤ addr
    · have nothing : Span.cover state.regions addr = 0 := by
        by_contra covered
        obtain ⟨region, isRegion, lower, upper⟩ :=
          Span.exists_of_cover_pos (Nat.pos_of_ne_zero covered)
        have := heap.regions region isRegion
        omega
      rw [nothing]
      split <;> omega
    · rw [if_neg (by simp [inside])]
      exact heap.single addr
  · intro addr
    have parts := heap.parts addr
    rw [freed.cover, Span.cover_cons, regions, Span.cover_cons, live, spans_congr same]
    omega

/-- Taking a block makes it the block of an allocation. -/
theorem taken {nunits nbytes : Nat} {block : Span} (heap : Heap base state free)
    (isTaken : Taken base state after free nunits block free')
    (fits : nbytes + HEADER ≤ nunits * HEADER) :
    Heap base { after with live := ⟨block.start + HEADER, nbytes⟩ :: after.live } free' := by
  obtain ⟨isLive, isRegions, isBrk⟩ := isTaken.rest
  have same : ∀ allocation ∈ state.live,
      after.header (allocation.ap - HEADER) = state.header (allocation.ap - HEADER) := by
    intro allocation isLive
    obtain ⟨notFree, above, -⟩ := heap.covered isLive (heap.start_mem isLive)
    exact isTaken.header _ above.ne' notFree
  have isBlock : after.span ⟨block.start + HEADER, nbytes⟩ = block := by
    have stop := isTaken.stop
    rw [State.span, Nat.add_sub_cancel, isTaken.size, ← stop]
  refine ⟨.inr ⟨isTaken.circle.path, isTaken.circle.freep, isTaken.circle.separated,
    isTaken.circle.nonempty⟩, isBrk ▸ heap.room, ?_, ?_, ?_, ?_⟩
  · simp only [isRegions, isBrk]
    exact heap.regions
  · simp only [isLive]
    intro allocation member
    rcases List.mem_cons.mp member with rfl | old
    · refine ⟨Nat.le_add_left .., ?_⟩
      simp only [Nat.add_sub_cancel]
      rw [isTaken.size]
      exact fits
    · rw [same allocation old]
      exact heap.live allocation old
  · simp only [isRegions]
    exact heap.single
  · intro addr
    have parts := heap.parts addr
    have spans : (⟨block.start + HEADER, nbytes⟩ :: state.live).map after.span =
        block :: state.live.map state.span := by
      rw [List.map_cons, isBlock, spans_congr same]
    rw [isTaken.cover, Span.cover_cons] at parts
    simp only [isRegions, isLive]
    refine Eq.trans (congrArg (_ + Span.cover · addr) spans) ?_
    rw [Span.cover_cons]
    omega

/-- Freeing a block ends its allocation. -/
theorem freed (heap : Heap base state free) (circle : Circle base state free)
    (isLive : allocation ∈ state.live)
    (freed : Freed base state after free (state.span allocation) free') :
    Heap base { after with live := after.live.erase allocation } free' := by
  obtain ⟨sameLive, isRegions, isBrk⟩ := freed.rest
  have same : ∀ other ∈ state.live.erase allocation,
      after.header (other.ap - HEADER) = state.header (other.ap - HEADER) := by
    intro other isOther
    have otherLive := List.mem_of_mem_erase isOther
    have otherStart := heap.start_mem otherLive
    obtain ⟨notFree, above, -⟩ := heap.covered otherLive otherStart
    refine freed.header _ ?_ above.ne' ?_
    · intro isStart
      refine heap.apart isLive isOther (heap.start_mem isLive) ?_
      rw [isStart] at otherStart
      exact otherStart
    · rintro span member isStart
      have := Span.cover_pos member ⟨isStart.le, isStart ▸ circle.nonempty span member⟩
      omega
  refine ⟨.inr ⟨freed.circle.path, freed.circle.freep, freed.circle.separated,
    freed.circle.nonempty⟩, isBrk ▸ heap.room, ?_, ?_, ?_, ?_⟩
  · simp only [isRegions, isBrk]
    exact heap.regions
  · simp only [sameLive]
    intro other isOther
    rw [same other isOther]
    exact heap.live other (List.mem_of_mem_erase isOther)
  · simp only [isRegions]
    exact heap.single
  · intro addr
    have parts := heap.parts addr
    rw [Span.cover.eq_def (state.live.map state.span),
      ((List.perm_cons_erase isLive).map state.span).countP_eq] at parts
    simp only [isRegions, sameLive]
    refine Eq.trans (congrArg (_ + Span.cover · addr) (spans_congr same)) ?_
    rw [freed.cover, Span.cover_cons, ← parts, List.map_cons, List.countP_cons]
    simp only [Span.cover]
    omega

/-- The client writes behind the header of a block. -/
theorem write (heap : Heap base state free) (isLive : allocation ∈ state.live)
    (behind : (state.span allocation).start < addr ∧ addr < (state.span allocation).stop)
    (header : Header) : Heap base (state.setHeader addr header) free := by
  have inside : (state.span allocation).start ≤ addr ∧ addr < (state.span allocation).stop :=
    ⟨behind.1.le, behind.2⟩
  obtain ⟨notFree, above, -⟩ := heap.covered isLive inside
  have same : ∀ other ∈ state.live,
      (state.setHeader addr header).header (other.ap - HEADER) =
        state.header (other.ap - HEADER) := by
    intro other otherLive
    refine setHeader_of_ne _ _ ?_
    rintro rfl
    by_cases isSame : other = allocation
    · rw [isSame] at behind
      exact behind.1.ne rfl
    · exact heap.apart isLive ((List.mem_erase_of_ne isSame).mpr otherLive) inside
        (heap.start_mem otherLive)
  refine ⟨?_, heap.room, heap.regions, ?_, heap.single, ?_⟩
  · refine heap.linked.imp_right fun circle =>
      ⟨circle.path.congr ?_, circle.freep, circle.separated, circle.nonempty⟩
    intro span member
    refine setHeader_of_ne _ _ ?_
    rcases List.mem_cons.mp member with rfl | inFree
    · exact above.ne
    · rintro rfl
      have := Span.cover_pos inFree ⟨Nat.le_refl _, circle.nonempty span inFree⟩
      omega
  · intro other otherLive
    rw [same other otherLive]
    exact heap.live other otherLive
  · intro addr
    have parts := heap.parts addr
    rw [← spans_congr same] at parts
    exact parts

/-! ## The calls -/

theorem below (heap : Heap base state free) : ∀ span ∈ free, span.stop ≤ state.brk := by
  intro span member
  rcases heap.linked with ⟨-, rfl, -⟩ | circle
  · cases member
  · have nonempty := circle.nonempty span member
    have covered : 0 < Span.cover free (span.stop - 1) :=
      Span.cover_pos member ⟨by omega, by omega⟩
    have inside := heap.inside (Nat.add_pos_left covered _)
    omega

/-- The block of an allocation lies between free blocks. -/
theorem between (heap : Heap base state free) (circle : Circle base state free)
    (isLive : allocation ∈ state.live) {span : Span} (isFree : span ∈ free) :
    span.stop ≤ (state.span allocation).start ∨ (state.span allocation).stop ≤ span.start := by
  by_contra overlaps
  rw [not_or, Nat.not_le, Nat.not_le] at overlaps
  obtain ⟨lower, upper⟩ := heap.start_mem isLive
  have nonempty := circle.nonempty span isFree
  rcases Nat.le_total span.start (state.span allocation).start with before | after
  · have isCovered := Span.cover_pos isFree ⟨before, overlaps.1⟩
    exact isCovered.ne' (heap.covered isLive ⟨Nat.le_refl _, lower.trans_lt upper⟩).1
  · have isCovered := Span.cover_pos isFree ⟨Nat.le_refl _, nonempty⟩
    exact isCovered.ne' (heap.covered isLive ⟨after, overlaps.2⟩).1

end Heap

theorem units_fits {nbytes : Nat} (small : nbytes < 2 ^ 30) :
    nbytes + HEADER ≤ units nbytes * HEADER := by
  simp only [units, HEADER, UINT]
  omega

/-- A call of `malloc` ends, and returns nothing or the bytes of a new allocation. -/
theorem Heap.malloc (heap : Heap base state free) {nbytes : Nat} (small : nbytes < 2 ^ 30)
    (gap : Option Nat) :
    ∃ after returned bound free', (∀ fuel, bound < fuel →
        state.malloc base fuel gap nbytes = some (after, returned)) ∧
      Circle base after free' ∧ after.live = state.live ∧
      (returned = 0 ∧ Heap base after free' ∨
        returned ≠ 0 ∧
          Heap base { after with live := ⟨returned, nbytes⟩ :: after.live } free') := by
  obtain ⟨circle, started⟩ := heap.start
  have positive : 0 < units nbytes := Nat.succ_pos _
  have room := started.room
  obtain ⟨after, returned, bound, ends, searched⟩ := circle.search gap positive (by
    simp only [HEADER] at room
    omega) started.below
  have sameLive : (state.start base).live = state.live := by
    unfold State.start
    split <;> rfl
  cases searched with
  | full unchanged nothing =>
      subst unchanged
      exact ⟨_, returned, bound, free, ends, circle, sameLive, .inl ⟨nothing, started⟩⟩
  | found block free' taken isReturned =>
      subst isReturned
      exact ⟨after, _, bound, free', ends, taken.circle, taken.rest.1.trans sameLive,
        .inr ⟨Nat.succ_ne_zero _, started.taken taken (units_fits small)⟩⟩
  | more p nu grown added block free' behind freed taken isReturned =>
      subst isReturned
      have heap' := started.grown circle behind freed
      exact ⟨after, _, bound, free', ends, taken.circle,
        taken.rest.1.trans (freed.rest.1.trans sameLive),
        .inr ⟨Nat.succ_ne_zero _, heap'.taken taken (units_fits small)⟩⟩

/-- A call of `free` ends. -/
theorem Heap.free_ends (heap : Heap base state free) {allocation : Allocation}
    (isLive : allocation ∈ state.live) :
    ∃ after bound free', (∀ fuel, bound < fuel → state.free fuel allocation.ap = some after) ∧
      Heap base { after with live := after.live.erase allocation } free' := by
  obtain ⟨lower, upper⟩ := heap.start_mem isLive
  obtain ⟨-, above, -⟩ := heap.covered isLive ⟨lower, upper⟩
  have circle : Circle base state free := by
    refine heap.linked.resolve_left ?_
    rintro ⟨-, -, none⟩
    rw [none] at isLive
    cases isLive
  obtain ⟨after, free', bound, ends, freed⟩ := circle.free allocation.ap
    (b := state.span allocation) rfl rfl (lower.trans_lt upper) above
    fun span isFree => heap.between circle isLive isFree
  exact ⟨after, bound, free', ends, heap.freed circle isLive freed⟩

/-! ## More turns -/

section Fuel

variable {fuel more : Nat}

theorem free_mono {ap : Nat} (frees : state.free fuel ap = some after) (enough : fuel ≤ more) :
    state.free more ap = some after := by
  obtain ⟨p, isPosition, result⟩ := Option.map_eq_some_iff.mp frees
  have later : state.position (ap - HEADER) more = some p := walkUntil_mono isPosition enough
  rw [State.free, later, ← result]
  rfl

theorem morecore_mono {gap : Option Nat} {nu : Nat} {grown : State × Option Nat}
    (grows : state.morecore fuel gap nu = some grown) (enough : fuel ≤ more) :
    state.morecore more gap nu = some grown := by
  simp only [State.morecore] at grows ⊢
  split at grows
  · exact grows
  · obtain ⟨after, frees, result⟩ := Option.map_eq_some_iff.mp grows
    rw [free_mono frees enough, Option.map_some, result]

theorem search_mono {freeFuel freeMore nunits prevp p : Nat} {gap : Option Nat}
    {result : State × Nat}
    (searches : State.search freeFuel gap nunits fuel state prevp p = some result)
    (freeEnough : freeFuel ≤ freeMore) (enough : fuel ≤ more) :
    State.search freeMore gap nunits more state prevp p = some result := by
  induction fuel generalizing state prevp p more with
  | zero => cases searches
  | succ fuel ih =>
      obtain ⟨more, rfl⟩ := Nat.exists_eq_add_one.mpr (Nat.zero_lt_of_lt enough)
      have enough := Nat.le_of_succ_le_succ enough
      rw [State.search] at searches ⊢
      by_cases fits : (state.header p).size ≥ nunits
      · rw [if_pos fits] at searches ⊢
        exact searches
      · rw [if_neg fits] at searches ⊢
        by_cases back : p = state.freep
        · rw [if_pos back] at searches ⊢
          cases grows : state.morecore freeFuel gap nunits with
          | none =>
              rw [grows] at searches
              cases searches
          | some grown =>
              rw [grows] at searches
              rw [morecore_mono grows freeEnough]
              obtain ⟨grown, _ | p⟩ := grown
              · exact searches
              · exact ih searches enough
        · rw [if_neg back] at searches ⊢
          exact ih searches enough

theorem malloc_mono {gap : Option Nat} {nbytes : Nat} {result : State × Nat}
    (allocates : state.malloc base fuel gap nbytes = some result) (enough : fuel ≤ more) :
    state.malloc base more gap nbytes = some result :=
  search_mono allocates enough enough

end Fuel

/-! ## Runs -/

theorem Heap.initial (initial : IsInitial base state) : Heap base state [] where
  linked := .inl ⟨initial.freep, rfl, initial.live⟩
  room := initial.base
  regions := by simp [initial.regions]
  live := by simp [initial.live]
  single := by simp [initial.regions]
  parts := by simp [initial.regions, initial.live]

theorem Heap.step (heap : Heap base state free) {action : Action}
    (taken : state.step base action = some after) : ∃ free', Heap base after free' := by
  cases action with
  | malloc nbytes gap fuel =>
      rw [State.step] at taken
      split at taken
      · next small =>
          obtain ⟨⟨called, returned⟩, allocates, result⟩ := Option.map_eq_some_iff.mp taken
          obtain ⟨later, value, bound, free', ends, -, -, isHeap⟩ := heap.malloc small gap
          have same := malloc_mono allocates (Nat.le_max_left fuel (bound + 1))
          rw [ends _ (Nat.lt_of_lt_of_le (Nat.lt_succ_self bound) (Nat.le_max_right ..))] at same
          obtain ⟨rfl, rfl⟩ := Prod.mk.inj (Option.some.inj same)
          simp only at result
          refine ⟨free', ?_⟩
          rcases isHeap with ⟨nothing, isHeap⟩ | ⟨something, isHeap⟩
          · rw [if_pos nothing] at result
            rw [← result]
            exact isHeap
          · rw [if_neg something] at result
            rw [← result]
            exact isHeap
      · cases taken
  | free allocation fuel =>
      rw [State.step] at taken
      split at taken
      · next isLive =>
          obtain ⟨called, frees, result⟩ := Option.map_eq_some_iff.mp taken
          obtain ⟨later, bound, free', ends, isHeap⟩ := heap.free_ends isLive
          have same := free_mono frees (Nat.le_max_left fuel (bound + 1))
          rw [ends _ (Nat.lt_of_lt_of_le (Nat.lt_succ_self bound) (Nat.le_max_right ..))] at same
          obtain rfl := Option.some.inj same
          rw [← result]
          exact ⟨free', isHeap⟩
      · cases taken
  | write addr header =>
      rw [State.step] at taken
      split at taken
      · next writes =>
          obtain ⟨allocation, isLive, behind⟩ := List.any_eq_true.mp writes
          obtain rfl := Option.some.inj taken
          exact ⟨free, heap.write isLive (of_decide_eq_true behind) header⟩
      · cases taken

/-- An address that `sbrk` returned. -/
def State.heap (state : State) (addr : Nat) : Bool :=
  state.regions.any fun region => region.contains addr

theorem Heap.parts_heap (heap : Heap base state free) (addr : Nat) :
    Span.cover free addr + Span.cover (state.live.map state.span) addr =
      if state.heap addr then 1 else 0 := by
  have single := heap.single addr
  rw [heap.parts]
  split
  · next inside =>
      have covered : 0 < Span.cover state.regions addr :=
        List.countP_pos_iff.mpr (List.any_eq_true.mp inside)
      omega
  · next outside =>
      by_contra covered
      obtain ⟨region, isRegion, inside⟩ :=
        List.countP_pos_iff.mp (Nat.pos_of_ne_zero covered)
      exact outside (List.any_eq_true.mpr ⟨region, isRegion, inside⟩)

/-- Without allocations the free blocks cannot be extended. -/
theorem Heap.coalesced (heap : Heap base state free) (none : state.live = []) {span : Span}
    (isFree : span ∈ free) :
    state.heap span.stop = false ∧ ∀ addr, addr + 1 = span.start → state.heap addr = false := by
  have circle : Circle base state free := by
    refine heap.linked.resolve_left ?_
    rintro ⟨-, rfl, -⟩
    cases isFree
  have nonempty := circle.nonempty span isFree
  have covers : ∀ addr, state.heap addr = true →
      ∃ other ∈ free, other.start ≤ addr ∧ addr < other.stop := by
    intro addr inside
    apply Span.exists_of_cover_pos
    have parts := heap.parts_heap addr
    rw [if_pos inside, none, List.map_nil, Span.cover_nil] at parts
    omega
  constructor
  · rw [Bool.eq_false_iff]
    intro inside
    obtain ⟨other, isOther, lower, upper⟩ := covers _ inside
    rcases circle.separated.tail.gap isFree isOther with rfl | before | after <;> omega
  · intro addr isBefore
    rw [Bool.eq_false_iff]
    intro inside
    obtain ⟨other, isOther, lower, upper⟩ := covers _ inside
    rcases circle.separated.tail.gap isFree isOther with rfl | before | after <;> omega

/-- The bytes of an allocation are no other block's and no header's. -/
theorem Heap.endows (heap : Heap base state free) {allocation : Allocation}
    (isLive : allocation ∈ state.live) {addr : Nat}
    (inside : allocation.ap ≤ addr ∧ addr < allocation.ap + allocation.nbytes) :
    base + HEADER ≤ addr ∧ Span.cover free addr = 0 ∧
      Span.cover ((state.live.erase allocation).map state.span) addr = 0 := by
  obtain ⟨lower, fits⟩ := heap.live allocation isLive
  have inSpan : (state.span allocation).start ≤ addr ∧ addr < (state.span allocation).stop := by
    simp only [State.span]
    omega
  have isCovered := Span.cover_pos (List.mem_map_of_mem (f := state.span) isLive) inSpan
  refine ⟨(heap.inside (Nat.add_pos_right _ isCovered)).1, (heap.covered isLive inSpan).1, ?_⟩
  by_contra others
  obtain ⟨span, isSpan, inOther⟩ := Span.exists_of_cover_pos (Nat.pos_of_ne_zero others)
  obtain ⟨other, isOther, rfl⟩ := List.mem_map.mp isSpan
  exact heap.apart isLive isOther inSpan inOther

theorem heap_run (run : Run (State.step base) anyStep (IsInitial base) state) :
    ∃ free, Heap base state free := by
  have initial : ∀ state, IsInitial base state → ∃ free, Heap base state free :=
    fun state initial => ⟨[], .initial initial⟩
  have preserved : ∀ state action after, (∃ free, Heap base state free) →
      anyStep state action → state.step base action = some after →
        ∃ free, Heap base after free := by
    rintro state action after ⟨free, heap⟩ - taken
    exact heap.step taken
  exact run.invariant initial preserved

/-- After every run of calls, the free list is a circle of separated blocks, every address
that `sbrk` returned is in exactly one free block or block of an allocation, and without
allocations no free block can be extended.  The next call of `malloc` ends, and what it
returns has room for the bytes that were asked for, outside of all other blocks; the next
call of `free` ends too. -/
theorem user_heap_invariant
    (run : Run (State.step base) anyStep (IsInitial base) state) :
    ∃ free, (state.freep = 0 ∧ free = [] ∨ Circle base state free) ∧
      (∀ addr, Span.cover free addr + Span.cover (state.live.map state.span) addr =
        if state.heap addr then 1 else 0) ∧
      (state.live = [] → ∀ span ∈ free, state.heap span.stop = false ∧
        ∀ addr, addr + 1 = span.start → state.heap addr = false) ∧
      (∀ nbytes gap, nbytes < 2 ^ 30 → ∃ after returned bound free',
        (∀ fuel, bound < fuel → state.malloc base fuel gap nbytes = some (after, returned)) ∧
        Circle base after free' ∧ after.live = state.live ∧
        (returned ≠ 0 → ∀ addr, returned ≤ addr ∧ addr < returned + nbytes →
          base + HEADER ≤ addr ∧ Span.cover free' addr = 0 ∧
            Span.cover (after.live.map after.span) addr = 0)) ∧
      (∀ allocation ∈ state.live, ∃ after bound, ∀ fuel, bound < fuel →
        state.free fuel allocation.ap = some after) ∧
      ∀ allocation ∈ state.live, ∀ addr,
        allocation.ap ≤ addr ∧ addr < allocation.ap + allocation.nbytes →
          base + HEADER ≤ addr ∧ Span.cover free addr = 0 ∧
            Span.cover ((state.live.erase allocation).map state.span) addr = 0 := by
  obtain ⟨free, heap⟩ := heap_run run
  refine ⟨free, ?_, heap.parts_heap, fun none span => heap.coalesced none, ?_, ?_,
    fun allocation isLive addr => heap.endows isLive⟩
  · exact heap.linked.imp_left fun ⟨nothing, empty, _⟩ => ⟨nothing, empty⟩
  · intro nbytes gap small
    obtain ⟨after, returned, bound, free', ends, circle, live, isHeap⟩ := heap.malloc small gap
    refine ⟨after, returned, bound, free', ends, circle, live, ?_⟩
    intro something addr inside
    obtain ⟨-, isHeap⟩ := isHeap.resolve_left fun nothing => something nothing.1
    have isNew : (⟨returned, nbytes⟩ : Allocation) ∈ ⟨returned, nbytes⟩ :: after.live :=
      List.mem_cons_self
    have endows := isHeap.endows isNew inside
    simp only [List.erase_cons_head] at endows
    exact endows
  · intro allocation isLive
    obtain ⟨after, bound, -, ends, -⟩ := heap.free_ends isLive
    exact ⟨after, bound, ends⟩

/-- Two allocations of which the first is freed. -/
def twoCalls : List Action :=
  [.malloc 10 (some 0) 3, .malloc 20 none 3, .write 32737 ⟨0, 0⟩, .free ⟨32768, 10⟩ 3]

def firstState : State :=
  { header := fun _ => ⟨0, 0⟩, freep := 0, live := [], regions := [], brk := 16 }

theorem twoCalls_enabled :
    (execute (State.step 8) (fun _ _ => true) firstState twoCalls).isSome = true := by
  decide +kernel

theorem twoCalls_live : (lastState (State.step 8) (fun _ _ => true) firstState twoCalls
    twoCalls_enabled).live = [⟨32736, 20⟩] := by
  decide +kernel

theorem user_heap_invariant_twoCalls :
    ∃ state, Run (State.step 8) anyStep (IsInitial 8) state ∧ state.live = [⟨32736, 20⟩] ∧
      ∃ free, (state.freep = 0 ∧ free = [] ∨ Circle 8 state free) ∧
        (∀ addr, 32736 ≤ addr ∧ addr < 32736 + 20 → 8 + HEADER ≤ addr ∧
          Span.cover free addr = 0) ∧
        (∃ after returned bound, ∀ fuel, bound < fuel →
          state.malloc 8 fuel none 100 = some (after, returned)) ∧
        ∃ after bound, ∀ fuel, bound < fuel → state.free fuel 32736 = some after := by
  have isInitial : IsInitial 8 firstState := ⟨by decide, rfl, rfl, rfl⟩
  have reached := run_lastState isInitial twoCalls twoCalls_enabled
  have live := twoCalls_live
  generalize lastState (State.step 8) _ firstState twoCalls twoCalls_enabled = state at reached live
  have run : Run (State.step 8) anyStep (IsInitial 8) state := reached.mono fun _ _ _ => trivial
  have isLive : (⟨32736, 20⟩ : Allocation) ∈ state.live := by
    rw [live]
    exact List.mem_singleton.mpr rfl
  obtain ⟨free, linked, -, -, allocates, frees, endows⟩ := user_heap_invariant run
  obtain ⟨after, returned, bound, -, ends, -⟩ := allocates 100 none (by decide)
  refine ⟨state, run, live, free, linked, ?_, ⟨after, returned, bound, ends⟩, frees ⟨32736, 20⟩ isLive⟩
  intro addr inside
  obtain ⟨above, notFree, -⟩ := endows ⟨32736, 20⟩ isLive addr inside
  exact ⟨above, notFree⟩

end Coursework.UserHeap
