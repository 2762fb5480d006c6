import Coursework.UserHeapShape

/-!
# The search of `malloc`

`malloc` goes round the circle from `freep`.  If no block is large enough it comes back to
`freep` and asks for more memory, which `free` puts into the circle; the block that holds it
is met before the second round ends.  Either way the search ends, without a block if there
is no more memory, or with the end of a block.
-/

namespace Coursework.UserHeap

variable {state after : State} {base : Nat} {free : List Span} {nunits : Nat}

/-! ## Taking a block -/

/-- What taking a block leaves: a circle that covers the other addresses. -/
structure Taken (base : Nat) (state after : State) (free : List Span) (nunits : Nat)
    (taken : Span) (free' : List Span) : Prop where
  circle : Circle base after free'
  cover : ∀ addr, Span.cover free addr = Span.cover (taken :: free') addr
  size : (after.header taken.start).size = nunits
  stop : taken.stop = taken.start + nunits * HEADER
  header : ∀ addr, addr ≠ base → Span.cover free addr = 0 → after.header addr = state.header addr
  rest : after.live = state.live ∧ after.regions = state.regions ∧ after.brk = state.brk

theorem exists_cons_of_split {first span : Span} {initial rest : List Span}
    (isSplit : first :: free = initial ++ span :: rest) (rest' : List Span) :
    ∃ free', initial ++ span :: rest' = first :: free' ∧
      ∀ other ∈ free', other ∈ free ∨ other ∈ rest' := by
  cases initial with
  | nil =>
      obtain ⟨rfl, -⟩ : first = span ∧ free = rest := by simpa using isSplit
      exact ⟨rest', rfl, fun _ => Or.inr⟩
  | cons head initial =>
      obtain ⟨rfl, rfl⟩ : first = head ∧ free = initial ++ span :: rest := by simpa using isSplit
      refine ⟨_, rfl, ?_⟩
      intro other member
      rcases List.mem_append.mp member with inInitial | inRest
      · exact Or.inl (List.mem_append_left _ inInitial)
      · rcases List.mem_cons.mp inRest with rfl | inRest
        · exact Or.inl (by simp)
        · exact Or.inr inRest

/-- The block after a place of the circle, if it is not `base`. -/
theorem Circle.split_next {prevp : Nat} (circle : Circle base state free)
    (member : prevp ∈ (baseSpan base :: free).map Span.start)
    (positive : 0 < (state.header (state.header prevp).ptr).size) :
    ∃ initial prev p rest, baseSpan base :: free = initial ++ prev :: p :: rest ∧
      prev.start = prevp ∧ p.start = (state.header prevp).ptr := by
  obtain ⟨prev, isPrev, rfl⟩ := List.mem_map.mp member
  obtain ⟨initial, rest, isSplit⟩ := List.append_of_mem isPrev
  obtain ⟨-, ⟨leads, -, -⟩, -⟩ := circle.at_split isSplit
  cases rest with
  | nil =>
      have isBase : (state.header prev.start).ptr = base := leads
      have empty : base = base + (state.header base).size * HEADER := circle.path.2.1
      rw [isBase] at positive
      simp only [HEADER] at empty
      omega
  | cons p rest => exact ⟨initial, prev, p, rest, isSplit, rfl, leads.symm⟩

/-- What follows a block of the circle is replaced. -/
theorem Circle.replace {initial rest : List Span} {prev : Span}
    (circle : Circle base state free) (tail : List Span) (after : State)
    (isSplit : baseSpan base :: free = initial ++ prev :: rest)
    (path : Path after.header (prev :: tail) base)
    (same : ∀ span ∈ initial, after.header span.start = state.header span.start)
    (freep : after.freep = prev.start) (separated : Span.Separated (prev :: tail))
    (nonempty : ∀ span ∈ tail, span.start < span.stop) :
    ∃ free', initial ++ prev :: tail = baseSpan base :: free' ∧ Circle base after free' := by
  obtain ⟨pathInitial, -, sepInitial, -, isBefore⟩ := circle.at_split isSplit
  obtain ⟨free', isResult, subset⟩ := exists_cons_of_split isSplit tail
  refine ⟨free', isResult, ⟨?_, ?_, ?_, ?_⟩⟩
  · rw [← isResult, Path.append_iff]
    exact ⟨pathInitial.congr same, path⟩
  · rw [← isResult, freep]
    simp
  · rw [← isResult]
    refine sepInitial.append separated ?_
    intro span isFirst other later
    have less := isBefore span isFirst prev List.mem_cons_self
    rcases List.mem_cons.mp later with rfl | inTail
    · exact less
    · have proper := separated.proper prev List.mem_cons_self
      have after := separated.before inTail
      omega
  · intro span inResult
    rcases subset span inResult with inFree | inTail
    · exact circle.nonempty span inFree
    · exact nonempty span inTail

theorem take_cut_of_ne {p : Nat} (prevp other : Nat) (part : (state.header p).size ≠ nunits)
    (notRest : other ≠ p)
    (notTaken : other ≠ p + ((state.header p).size - nunits) * HEADER) :
    (state.take prevp p nunits).1.header other = state.header other := by
  rw [State.take, if_neg part]
  exact (setHeader_of_ne _ _ notTaken).trans (setHeader_of_ne _ _ notRest)

theorem take_cut_rest {p : Nat} (prevp : Nat) (part : (state.header p).size ≠ nunits)
    (notTaken : p ≠ p + ((state.header p).size - nunits) * HEADER) :
    (state.take prevp p nunits).1.header p =
      { state.header p with size := (state.header p).size - nunits } := by
  rw [State.take, if_neg part]
  exact (setHeader_of_ne _ _ notTaken).trans (setHeader_self ..)

theorem take_cut_taken {p : Nat} (prevp : Nat) (part : (state.header p).size ≠ nunits) :
    ((state.take prevp p nunits).1.header
      (p + ((state.header p).size - nunits) * HEADER)).size = nunits := by
  rw [State.take, if_neg part]
  exact congrArg Header.size (setHeader_self ..)

theorem take_rest (state : State) (prevp p nunits : Nat) :
    (state.take prevp p nunits).1.freep = prevp ∧
      (state.take prevp p nunits).1.live = state.live ∧
      (state.take prevp p nunits).1.regions = state.regions ∧
      (state.take prevp p nunits).1.brk = state.brk := by
  unfold State.take
  split <;> exact ⟨rfl, rfl, rfl, rfl⟩

/-- `malloc` takes the end of a block that is large enough. -/
theorem Circle.take {prevp : Nat} (circle : Circle base state free)
    (member : prevp ∈ (baseSpan base :: free).map Span.start) (positive : 0 < nunits)
    (fits : nunits ≤ (state.header (state.header prevp).ptr).size) :
    ∃ taken free', Taken base state (state.take prevp (state.header prevp).ptr nunits).1 free
        nunits taken free' ∧
      (state.take prevp (state.header prevp).ptr nunits).2 = taken.start + HEADER := by
  obtain ⟨initial, prev, p, rest, isSplit, rfl, isNext⟩ :=
    circle.split_next member (positive.trans_le fits)
  rw [← isNext] at fits ⊢
  obtain ⟨-, ⟨prevLeads, prevSize, ⟨leads, pSize, pathRest⟩⟩, sepInitial, sepAll, isBefore⟩ :=
    circle.at_split isSplit
  have prevProper := sepAll.proper prev List.mem_cons_self
  have prevLess := sepAll.before List.mem_cons_self
  have initialBefore : ∀ span ∈ initial, span.start < prev.start := by
    intro span isFirst
    exact (sepInitial.proper span isFirst).trans_lt (isBefore span isFirst prev List.mem_cons_self)
  have isMember : ∀ span, span ∈ baseSpan base :: free ↔
      span ∈ initial ∨ span = prev ∨ span = p ∨ span ∈ rest := by
    simp [isSplit]
  have pFree : p ∈ free := by
    refine (List.mem_cons.mp ((isMember p).mpr (by simp))).resolve_left ?_
    rintro rfl
    have empty : base = base + (state.header base).size * HEADER := circle.path.2.1
    simp only [baseSpan, HEADER] at fits empty
    omega
  have restNonempty : ∀ span ∈ rest, span.start < span.stop := by
    intro span later
    have := sepAll.tail.before later
    have := circle.base_lt pFree
    have := sepAll.tail.proper p List.mem_cons_self
    refine circle.nonempty span ((List.mem_cons.mp ((isMember span).mpr (by simp [later])))
      |>.resolve_left ?_)
    rintro rfl
    simp only [baseSpan] at *
    omega
  have coverSplit : ∀ addr, Span.cover free addr =
      Span.cover initial addr + Span.cover (prev :: p :: rest) addr := by
    intro addr
    rw [← cover_baseSpan base free, isSplit, Span.cover_append]
  have covered : ∀ addr, addr ≠ base → Span.cover free addr = 0 →
      addr ≠ prev.start ∧ ¬ (p.start ≤ addr ∧ addr < p.stop) := by
    intro addr notBase nothing
    refine ⟨?_, fun inside => (Span.cover_pos pFree inside).ne' nothing⟩
    rintro rfl
    rcases List.mem_cons.mp ((isMember prev).mpr (by simp)) with rfl | inFree
    · exact notBase rfl
    · exact (Span.cover_pos inFree ⟨Nat.le_refl _, circle.nonempty prev inFree⟩).ne' nothing
  by_cases whole : (state.header p.start).size = nunits
  · rw [State.take, if_pos whole]
    obtain ⟨free', isResult, circle'⟩ := circle.replace rest
      ({ state.setHeader prev.start
        { state.header prev.start with ptr := (state.header p.start).ptr } with
          freep := prev.start } : State) isSplit (by
        refine ⟨?_, ?_, pathRest.congr ?_⟩
        · rw [setHeader_self]
          exact leads
        · rw [setHeader_self]
          exact prevSize
        · intro span later
          have := sepAll.before (List.mem_cons_of_mem _ later)
          exact setHeader_of_ne state _ (by omega))
      (fun span isFirst => setHeader_of_ne state _ (Nat.ne_of_lt (initialBefore span isFirst)))
      rfl
      (sepAll.tail.tail.cons prevProper fun other later =>
        sepAll.before (List.mem_cons_of_mem _ later))
      restNonempty
    refine ⟨p, free', ⟨circle', ?_, ?_, ?_, ?_, rfl, rfl, rfl⟩, rfl⟩
    · intro addr
      rw [coverSplit, Span.cover_cons p free', ← cover_baseSpan base free', ← isResult,
        Span.cover_append]
      simp only [Span.cover_cons]
      omega
    · rw [← whole]
      exact congrArg Header.size (setHeader_of_ne state _ (by omega))
    · rw [← whole]
      exact pSize
    · intro addr notBase nothing
      exact setHeader_of_ne state _ (covered addr notBase nothing).1
  · have isTaken : p.start + ((state.header p.start).size - nunits) * HEADER + nunits * HEADER =
        p.stop := by
      rw [pSize, Nat.add_assoc, ← Nat.add_mul, Nat.sub_add_cancel fits]
    have positiveLeft : 0 < (state.header p.start).size - nunits := by omega
    have others := fun other => take_cut_of_ne prev.start other whole
    have isRest := take_cut_rest prev.start whole (by
      simp only [HEADER]
      omega)
    have isSize := take_cut_taken prev.start whole
    have result : (state.take prev.start p.start nunits).2 =
        p.start + ((state.header p.start).size - nunits) * HEADER + HEADER := by
      rw [State.take, if_neg whole]
    obtain ⟨isFreep, same⟩ := take_rest state prev.start p.start nunits
    generalize (state.take prev.start p.start nunits).1 = after at *
    generalize (state.header p.start).size - nunits = left at *
    have cutLess : p.start < p.start + left * HEADER := by
      simp only [HEADER]
      omega
    have cutStop : p.start + left * HEADER < p.stop := by
      simp only [HEADER] at isTaken ⊢
      omega
    obtain ⟨free', isResult, circle'⟩ := circle.replace
      (⟨p.start, p.start + left * HEADER⟩ :: rest) after isSplit (by
        refine ⟨?_, ?_, ?_, ?_, pathRest.congr ?_⟩
        · rw [others prev.start (by omega) (by omega)]
          exact prevLeads
        · rw [others prev.start (by omega) (by omega)]
          exact prevSize
        · rw [isRest]
          exact leads
        · rw [isRest]
        · intro span later
          have := sepAll.tail.before later
          exact others span.start (by omega) (by omega))
      (by
        intro span isFirst
        have := initialBefore span isFirst
        exact others span.start (by omega) (by omega))
      isFreep
      ((sepAll.tail.tail.cons (Nat.le_of_lt cutLess) fun other later =>
        cutStop.trans (sepAll.tail.before later)).cons prevProper (by
          intro other later
          rcases List.mem_cons.mp later with rfl | inRest
          · exact prevLess
          · exact sepAll.before (List.mem_cons_of_mem _ inRest)))
      (by
        intro span later
        rcases List.mem_cons.mp later with rfl | inRest
        · exact cutLess
        · exact restNonempty span inRest)
    refine ⟨⟨p.start + left * HEADER, p.stop⟩, free',
      ⟨circle', ?_, isSize, isTaken.symm, ?_, same⟩, result⟩
    · intro addr
      have isTwo := Span.cover_cut (Nat.le_of_lt cutLess) (Nat.le_of_lt cutStop) rest addr
      rw [coverSplit, Span.cover_cons _ free', ← cover_baseSpan base free', ← isResult,
        Span.cover_append, Span.cover_cons, isTwo]
      simp only [Span.cover_cons]
      omega
    · intro addr notBase nothing
      have := (covered addr notBase nothing).2
      exact others addr (by omega) (by omega)

/-! ## Going round -/

/-- What a header points to. -/
abbrev State.next (state : State) (p : Nat) : Nat := (state.header p).ptr

/-- The search passes the blocks that are too small. -/
theorem search_skip {freeFuel fuel k prevp : Nat} {gap : Option Nat}
    (small : ∀ j < k, (state.header (state.next^[j + 1] prevp)).size < nunits ∧
      state.next^[j + 1] prevp ≠ state.freep) :
    State.search freeFuel gap nunits (fuel + k) state prevp (state.next prevp) =
      State.search freeFuel gap nunits fuel state (state.next^[k] prevp)
        (state.next^[k + 1] prevp) := by
  induction k generalizing prevp with
  | zero => rfl
  | succ k ih =>
      obtain ⟨tooSmall, notFreep⟩ : (state.header (state.next prevp)).size < nunits ∧
          state.next prevp ≠ state.freep := small 0 (Nat.succ_pos k)
      rw [← Nat.add_assoc, State.search, if_neg (Nat.not_le.mpr tooSmall), if_neg notFreep]
      exact ih fun j less => small (j + 1) (Nat.succ_lt_succ less)

/-- The search comes to a block that is large enough, or back to `freep`. -/
theorem Circle.scan {prevp : Nat} (circle : Circle base state free) (nunits : Nat)
    (member : prevp ∈ (baseSpan base :: free).map Span.start) :
    ∃ k, (nunits ≤ (state.header (state.next^[k + 1] prevp)).size ∨
        state.next^[k + 1] prevp = state.freep) ∧
      ∀ j < k, (state.header (state.next^[j + 1] prevp)).size < nunits ∧
        state.next^[j + 1] prevp ≠ state.freep := by
  have ends : ∃ k, nunits ≤ (state.header (state.next^[k + 1] prevp)).size ∨
      state.next^[k + 1] prevp = state.freep := by
    obtain ⟨k, -, isFreep⟩ := circle.cyclic.reach (circle.cyclic.next_mem member) circle.freep
    exact ⟨k, Or.inr isFreep⟩
  classical
  refine ⟨Nat.find ends, Nat.find_spec ends, ?_⟩
  intro j less
  have notYet := Nat.find_min ends less
  rw [not_or, Nat.not_le] at notYet
  exact notYet

/-- The search ends with the first block that is large enough. -/
theorem search_fits {freeFuel fuel k prevp : Nat} {gap : Option Nat}
    (fits : nunits ≤ (state.header (state.next^[k + 1] prevp)).size)
    (small : ∀ j < k, (state.header (state.next^[j + 1] prevp)).size < nunits ∧
      state.next^[j + 1] prevp ≠ state.freep) (enough : k < fuel) :
    State.search freeFuel gap nunits fuel state prevp (state.next prevp) =
      some (state.take (state.next^[k] prevp) (state.next (state.next^[k] prevp)) nunits) := by
  obtain ⟨left, rfl⟩ := Nat.exists_eq_add_of_lt enough
  rw [show k + left + 1 = left + 1 + k by omega, search_skip small, State.search, if_pos fits,
    Function.iterate_succ_apply']

/-- A block of the circle that is large enough is found. -/
theorem Circle.search_finds {p : Nat} (circle : Circle base state free) (positive : 0 < nunits)
    (member : p ∈ (baseSpan base :: free).map Span.start)
    (fits : nunits ≤ (state.header p).size) :
    ∃ after returned bound taken free',
      (∀ fuel, bound < fuel → ∀ freeFuel gap,
        State.search freeFuel gap nunits fuel state state.freep (state.next state.freep) =
          some (after, returned)) ∧
      Taken base state after free nunits taken free' ∧ returned = taken.start + HEADER := by
  obtain ⟨k, ends, small⟩ := circle.scan nunits circle.freep
  have found : nunits ≤ (state.header (state.next^[k + 1] state.freep)).size := by
    refine ends.elim id fun back => ?_
    obtain ⟨j, less, isBlock⟩ := circle.cyclic.meets circle.freep member back
    have large : nunits ≤ (state.header (state.next^[j + 1] state.freep)).size := by
      rw [isBlock]
      exact fits
    rcases Nat.eq_or_lt_of_le less with rfl | before
    · exact large
    · exact absurd large (Nat.not_le.mpr (small j before).1)
  rw [Function.iterate_succ_apply'] at found
  obtain ⟨taken, free', isTaken, result⟩ :=
    circle.take (circle.cyclic.iterate_mem circle.freep k) positive found
  rw [← Function.iterate_succ_apply' state.next] at found
  refine ⟨_, _, k, taken, free', ?_, isTaken, result⟩
  intro fuel enough freeFuel gap
  exact search_fits found small enough

/-! ## More memory -/

/-- The state with a new region. -/
def State.grown (state : State) (p nu : Nat) : State :=
  { state.setHeader p { state.header p with size := nu } with
    regions := ⟨p, p + nu * HEADER⟩ :: state.regions
    brk := p + nu * HEADER }

theorem Circle.grown {p : Nat} (circle : Circle base state free)
    (fresh : ∀ span ∈ baseSpan base :: free, span.start < p) (nu : Nat) :
    Circle base (state.grown p nu) free :=
  ⟨circle.path.congr fun span member => setHeader_of_ne state _ (fresh span member).ne,
    circle.freep, circle.separated, circle.nonempty⟩

/-- `morecore` fails, or puts a new region into the circle. -/
theorem Circle.morecore (circle : Circle base state free) (gap : Option Nat)
    (positive : 0 < nunits) (above : base < state.brk)
    (below : ∀ span ∈ free, span.stop ≤ state.brk) :
    (∀ fuel, state.morecore fuel gap nunits = some (state, none)) ∨
      ∃ p nu after free' bound, state.brk ≤ p ∧ nunits ≤ nu ∧
        (∀ fuel, bound < fuel → state.morecore fuel gap nunits = some (after, some after.freep)) ∧
        Freed base (state.grown p nu) after free ⟨p, p + nu * HEADER⟩ free' := by
  have amount : nunits ≤ if nunits < 4096 then 4096 else nunits := by
    split <;> omega
  simp only [State.morecore]
  generalize (if nunits < 4096 then 4096 else nunits) = nu at amount ⊢
  cases isRegion : state.sbrk gap (nu * HEADER) with
  | none => exact Or.inl fun _ => rfl
  | some p =>
      have behind : state.brk ≤ p := by
        obtain ⟨gap, -, isRegion⟩ := Option.bind_eq_some_iff.mp isRegion
        split at isRegion
        · cases isRegion
          exact Nat.le_add_right _ _
        · cases isRegion
      have apart : ∀ span ∈ free, span.stop ≤ p :=
        fun span member => (below span member).trans behind
      have fresh : ∀ span ∈ baseSpan base :: free, span.start < p := by
        intro span member
        rcases List.mem_cons.mp member with rfl | inFree
        · exact above.trans_le behind
        · exact (circle.nonempty span inFree).trans_le (apart span inFree)
      have grown := circle.grown fresh nu
      have nonempty : p < p + nu * HEADER := by
        simp only [HEADER]
        omega
      obtain ⟨after, free', bound, ends, freed⟩ := grown.free (p + HEADER)
        (b := ⟨p, p + nu * HEADER⟩) (Nat.add_sub_cancel ..).symm
        (by simp only [State.grown, setHeader_self]) nonempty (fresh _ List.mem_cons_self)
        fun span member => Or.inl (apart span member)
      refine Or.inr ⟨p, nu, after, free', bound, behind, amount, ?_, freed⟩
      intro fuel enough
      exact congrArg (Option.map _) (ends fuel enough)

/-! ## The whole search -/

/-- The search asks for more memory when it is back. -/
theorem search_back {freeFuel fuel k prevp : Nat} {gap : Option Nat} {grown : State}
    (tooSmall : (state.header (state.next^[k + 1] prevp)).size < nunits)
    (back : state.next^[k + 1] prevp = state.freep)
    (small : ∀ j < k, (state.header (state.next^[j + 1] prevp)).size < nunits ∧
      state.next^[j + 1] prevp ≠ state.freep) (enough : k < fuel) :
    (state.morecore freeFuel gap nunits = some (grown, none) →
      State.search freeFuel gap nunits fuel state prevp (state.next prevp) = some (grown, 0)) ∧
    ∀ p, state.morecore freeFuel gap nunits = some (grown, some p) →
      State.search freeFuel gap nunits fuel state prevp (state.next prevp) =
        State.search freeFuel gap nunits (fuel - (k + 1)) grown p (grown.next p) := by
  obtain ⟨left, rfl⟩ := Nat.exists_eq_add_of_lt enough
  rw [show k + left + 1 - (k + 1) = left by omega, show k + left + 1 = left + 1 + k by omega,
    search_skip small, State.search, if_neg (Nat.not_le.mpr tooSmall), if_pos back]
  constructor
  · intro fails
    rw [fails]
  · intro p grows
    rw [grows]

/-- How the search ends. -/
inductive Searched (base : Nat) (state after : State) (returned : Nat) (free : List Span)
    (nunits : Nat) : Prop
  | full : after = state → returned = 0 → Searched base state after returned free nunits
  | found (taken : Span) (free' : List Span) : Taken base state after free nunits taken free' →
      returned = taken.start + HEADER → Searched base state after returned free nunits
  | more (p nu : Nat) (grown : State) (added : List Span) (taken : Span) (free' : List Span) :
      state.brk ≤ p →
      Freed base (state.grown p nu) grown free ⟨p, p + nu * HEADER⟩ added →
      Taken base grown after added nunits taken free' → returned = taken.start + HEADER →
      Searched base state after returned free nunits

/-- The search of `malloc` ends. -/
theorem Circle.search (circle : Circle base state free) (gap : Option Nat)
    (positive : 0 < nunits) (above : base < state.brk)
    (below : ∀ span ∈ free, span.stop ≤ state.brk) :
    ∃ after returned bound, (∀ fuel, bound < fuel →
        State.search fuel gap nunits fuel state state.freep (state.next state.freep) =
          some (after, returned)) ∧
      Searched base state after returned free nunits := by
  obtain ⟨k, ends, small⟩ := circle.scan nunits circle.freep
  rcases Nat.lt_or_ge (state.header (state.next^[k + 1] state.freep)).size nunits with
    tooSmall | fits
  · have back := ends.resolve_left (Nat.not_le.mpr tooSmall)
    rcases circle.morecore gap positive above below with
      fails | ⟨p, nu, grown, added, bound, behind, amount, grows, freed⟩
    · refine ⟨state, 0, k, ?_, .full rfl rfl⟩
      intro fuel enough
      exact (search_back tooSmall back small enough).1 (fails fuel)
    · obtain ⟨block, inAdded, lower, upper⟩ := freed.within
      have size := freed.circle.path.size_eq (List.mem_cons_of_mem _ inAdded)
      have fits : nunits ≤ (grown.header block.start).size := by
        simp only [HEADER] at upper size
        simp only at lower
        omega
      obtain ⟨after, returned, bound', taken, free', found, isTaken, result⟩ :=
        freed.circle.search_finds positive
          (List.mem_map_of_mem (List.mem_cons_of_mem _ inAdded)) fits
      refine ⟨after, returned, bound + bound' + k + 1, ?_,
        .more p nu grown added taken free' behind freed isTaken result⟩
      intro fuel enough
      have waits : k < fuel := by omega
      rw [(search_back tooSmall back small waits).2 _ (grows fuel (by omega))]
      exact found _ (by omega) fuel gap
  · obtain ⟨after, returned, bound, taken, free', found, isTaken, result⟩ :=
      circle.search_finds positive
        (circle.cyclic.iterate_mem circle.freep (k + 1)) fits
    exact ⟨after, returned, bound, fun fuel enough => found fuel enough fuel gap,
      .found taken free' isTaken result⟩

end Coursework.UserHeap
