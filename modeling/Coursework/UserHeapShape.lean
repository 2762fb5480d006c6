import Coursework.UserHeap

/-!
# The circular list of free blocks

The free blocks, with `base` as an empty block in front of them, are separated spans, and
the headers at their starts point from each to the next one and from the last one to
`base`.  `free` finds the block after which a block belongs, and joins it with what comes
after it and before it; `malloc` cuts the end off a block or takes it out.
-/

namespace Coursework.UserHeap

/-- The start of the first span, or else another address. -/
def headStart : List Span → Nat → Nat
  | [], last => last
  | span :: _, _ => span.start

/-- The headers at the starts of the spans hold their sizes and point from each to the
next one, and from the last one to an address. -/
def Path (header : Nat → Header) : List Span → Nat → Prop
  | [], _ => True
  | span :: rest, last =>
      (header span.start).ptr = headStart rest last ∧
        span.stop = span.start + (header span.start).size * HEADER ∧ Path header rest last

namespace Path

variable {header header' : Nat → Header} {spans first second : List Span} {last : Nat}

theorem append_iff : Path header (first ++ second) last ↔
    Path header first (headStart second last) ∧ Path header second last := by
  induction first with
  | nil => simp [Path]
  | cons span rest ih =>
      have sameHead : headStart (rest ++ second) last =
          headStart rest (headStart second last) := by
        cases rest <;> rfl
      simp only [List.cons_append, Path, ih, sameHead, and_assoc]

theorem congr (path : Path header spans last)
    (same : ∀ span ∈ spans, header' span.start = header span.start) :
    Path header' spans last := by
  induction spans with
  | nil => trivial
  | cons span rest ih =>
      obtain ⟨ptr, size, later⟩ := path
      rw [Path, same span List.mem_cons_self]
      exact ⟨ptr, size, ih later fun other member => same other (List.mem_cons_of_mem _ member)⟩

theorem ptr_eq (path : Path header spans last) {i : Nat} {span : Span}
    (isSpan : spans[i]? = some span) :
    (header span.start).ptr = headStart (spans.drop (i + 1)) last := by
  induction spans generalizing i with
  | nil => cases isSpan
  | cons first rest ih =>
      cases i with
      | zero =>
          cases isSpan
          exact path.1
      | succ i => exact ih path.2.2 (by simpa using isSpan)

theorem size_eq (path : Path header spans last) {span : Span} (member : span ∈ spans) :
    span.stop = span.start + (header span.start).size * HEADER := by
  induction spans with
  | nil => cases member
  | cons first rest ih =>
      rcases List.mem_cons.mp member with rfl | inRest
      · exact path.2.1
      · exact ih path.2.2 inRest

/-- A path that leads back to its first span is a cycle. -/
theorem cyclic {span : Span} (path : Path header (span :: spans) span.start) :
    Cyclic (fun p => (header p).ptr) ((span :: spans).map Span.start) := by
  intro i node isNode
  rw [List.getElem?_map, Option.map_eq_some_iff] at isNode
  obtain ⟨cell, isCell, rfl⟩ := isNode
  obtain ⟨inside, -⟩ := List.getElem?_eq_some_iff.mp isCell
  have leads : (header cell.start).ptr = _ := path.ptr_eq isCell
  simp only [leads, List.length_map]
  by_cases isLast : i + 1 < (span :: spans).length
  · rw [Nat.mod_eq_of_lt isLast, List.getElem?_map, List.getElem?_eq_getElem isLast,
      List.drop_eq_getElem_cons isLast]
    rfl
  · have isEnd : i + 1 = (span :: spans).length := by omega
    rw [isEnd, Nat.mod_self, List.drop_length]
    rfl

end Path

/-! ## Joining blocks -/

variable {state after : State} {base : Nat}

theorem attach_of_ne (state : State) {p other : Nat} (next : Nat) (distinct : other ≠ p) :
    (state.attach p next).header other = state.header other := by
  unfold State.attach
  split <;> exact Function.update_of_ne distinct _ _

theorem attach_touching {p next : Nat} (touches : p + (state.header p).size * HEADER = next) :
    state.attach p next = state.setHeader p
      { ptr := (state.header next).ptr
        size := (state.header p).size + (state.header next).size } :=
  if_pos touches

theorem attach_apart {p next : Nat} (apart : p + (state.header p).size * HEADER ≠ next) :
    state.attach p next = state.setHeader p { state.header p with ptr := next } :=
  if_neg apart

@[simp]
theorem setHeader_self (state : State) (p : Nat) (header : Header) :
    (state.setHeader p header).header p = header :=
  Function.update_self ..

theorem setHeader_of_ne (state : State) {p other : Nat} (header : Header) (distinct : other ≠ p) :
    (state.setHeader p header).header other = state.header other :=
  Function.update_of_ne distinct ..

/-- A block is put in front of a path, joined with its first block where they touch. -/
theorem Path.attach {rest : List Span} {last : Nat}
    (path : Path state.header rest last) (span : Span)
    (size : span.stop = span.start + (state.header span.start).size * HEADER)
    (absent : ∀ other ∈ rest, other.start ≠ span.start)
    (notLast : rest = [] → span.stop ≠ last) :
    Path (state.attach span.start (headStart rest last)).header (Span.join span rest) last := by
  cases rest with
  | nil =>
      have apart := notLast rfl
      rw [attach_apart (by simp only [headStart]; omega)]
      simp only [Span.join, Path, setHeader_self, headStart]
      exact ⟨trivial, size, trivial⟩
  | cons next rest =>
      obtain ⟨ptr, nextSize, later⟩ := path
      have others : ∀ header : Header, ∀ other ∈ next :: rest,
          (state.setHeader span.start header).header other.start = state.header other.start :=
        fun header other member => setHeader_of_ne state header (absent other member)
      rw [Span.join_cons, headStart]
      by_cases touches : span.stop = next.start
      · rw [if_pos touches, attach_touching (by omega)]
        refine ⟨?_, ?_, later.congr fun other member =>
          others _ other (List.mem_cons_of_mem _ member)⟩
        · simp only [setHeader_self]
          exact ptr
        · simp only [setHeader_self]
          rw [Nat.add_mul, ← Nat.add_assoc, ← size, touches]
          exact nextSize
      · rw [if_neg touches, attach_apart (by omega)]
        refine ⟨?_, ?_, Path.congr ⟨ptr, nextSize, later⟩ (others _)⟩
        · simp only [setHeader_self]
          rfl
        · simp only [setHeader_self]
          exact size

/-! ## The circle -/

/-- `base` as an empty block. -/
def baseSpan (base : Nat) : Span := ⟨base, base⟩

/-- The free list goes through `base` and these blocks, in the order of their addresses and
with gaps between them. -/
structure Circle (base : Nat) (state : State) (free : List Span) : Prop where
  path : Path state.header (baseSpan base :: free) base
  freep : state.freep ∈ (baseSpan base :: free).map Span.start
  separated : Span.Separated (baseSpan base :: free)
  nonempty : ∀ span ∈ free, span.start < span.stop

theorem cover_baseSpan (base : Nat) (free : List Span) (addr : Nat) :
    Span.cover (baseSpan base :: free) addr = Span.cover free addr := by
  have nothing : ¬ (baseSpan base).contains addr = true := by
    simp only [Span.contains_iff, baseSpan]
    omega
  rw [Span.cover_cons, if_neg nothing, Nat.add_zero]

namespace Circle

variable {free initial rest : List Span} {span : Span}

theorem cyclic (circle : Circle base state free) :
    Cyclic (fun p => (state.header p).ptr) ((baseSpan base :: free).map Span.start) := by
  have path : Path state.header (baseSpan base :: free) (baseSpan base).start := circle.path
  exact path.cyclic

theorem base_lt (circle : Circle base state free) (member : span ∈ free) : base < span.start :=
  circle.separated.before member

/-- The neighbours of a block of the circle. -/
theorem at_split (circle : Circle base state free)
    (isSplit : baseSpan base :: free = initial ++ span :: rest) :
    Path state.header initial span.start ∧ Path state.header (span :: rest) base ∧
      Span.Separated initial ∧ Span.Separated (span :: rest) ∧
      ∀ first ∈ initial, ∀ later ∈ span :: rest, first.stop < later.start := by
  have path := circle.path
  have separated := circle.separated
  rw [isSplit] at path separated
  obtain ⟨isFirst, isSecond⟩ := Path.append_iff.mp path
  exact ⟨isFirst, isSecond, separated.of_append⟩

/-- The test of the loop of `free` finds the blocks around an address. -/
theorem position_iff (circle : Circle base state free) {bp : Nat} (above : base < bp)
    (isSplit : baseSpan base :: free = initial ++ span :: rest) :
    ((bp > span.start ∧ bp < (state.header span.start).ptr) ∨
      (span.start ≥ (state.header span.start).ptr ∧
        (bp > span.start ∨ bp < (state.header span.start).ptr))) ↔
      span.start < bp ∧ ∀ later ∈ rest, bp < later.start := by
  obtain ⟨-, ⟨leads, -, -⟩, -, separated, -⟩ := circle.at_split isSplit
  have proper := separated.proper span List.mem_cons_self
  have member : span ∈ baseSpan base :: free := by
    rw [isSplit]
    simp
  have lower : base ≤ span.start := by
    rcases List.mem_cons.mp member with rfl | inFree
    · exact Nat.le_refl _
    · exact Nat.le_of_lt (circle.base_lt inFree)
  rw [leads]
  cases rest with
  | nil =>
      simp only [headStart, List.not_mem_nil, false_implies, implies_true, and_true]
      omega
  | cons next later =>
      have nextLater := separated.before List.mem_cons_self
      have nextProper := separated.tail.proper next List.mem_cons_self
      simp only [headStart]
      constructor
      · intro passes
        refine ⟨by omega, ?_⟩
        intro other isOther
        rcases List.mem_cons.mp isOther with rfl | inLater
        · omega
        · have after := separated.tail.before inLater
          omega
      · rintro ⟨less, all⟩
        exact Or.inl ⟨less, all next List.mem_cons_self⟩

/-- The loop of `free` ends at the last block before an address. -/
theorem position (circle : Circle base state free) {bp : Nat} (above : base < bp)
    (absent : ∀ span ∈ free, span.start ≠ bp) :
    ∃ initial span rest, baseSpan base :: free = initial ++ span :: rest ∧ span.start < bp ∧
      (∀ later ∈ rest, bp < later.start) ∧
      ∃ bound, ∀ fuel, bound < fuel → state.position bp fuel = some span.start := by
  obtain ⟨initial, span, rest, isSplit, isPlace⟩ :=
    circle.separated.split above absent
  have isTarget : span.start ∈ (baseSpan base :: free).map Span.start := by
    rw [isSplit]
    simp
  obtain ⟨k, -, reached⟩ := circle.cyclic.reach circle.freep isTarget
  obtain ⟨found, ends⟩ := walkUntil_ends
    (fun p => (bp > p ∧ bp < (state.header p).ptr) ∨
      (p ≥ (state.header p).ptr ∧ (bp > p ∨ bp < (state.header p).ptr)))
    (fun p => (state.header p).ptr) k state.freep (by
    rw [reached, decide_eq_true_eq]
    exact (circle.position_iff above isSplit).mpr isPlace)
  obtain ⟨passes, j, isFound⟩ := walkUntil_spec (ends (k + 1) (Nat.lt_succ_self k))
  have inCircle := circle.cyclic.iterate_mem circle.freep j
  rw [isFound] at inCircle
  obtain ⟨last, isLast, rfl⟩ := List.mem_map.mp inCircle
  obtain ⟨initial', rest', isSplit'⟩ := List.append_of_mem isLast
  rw [decide_eq_true_eq] at passes
  obtain ⟨before, behind⟩ := (circle.position_iff above isSplit').mp passes
  exact ⟨initial', last, rest', isSplit', before, behind, k, ends⟩

end Circle

/-! ## Freeing a block -/

/-- What freeing a block leaves: a circle that covers its addresses too. -/
structure Freed (base : Nat) (state after : State) (free : List Span) (b : Span)
    (free' : List Span) : Prop where
  circle : Circle base after free'
  cover : ∀ addr, Span.cover free' addr = Span.cover (b :: free) addr
  within : ∃ span ∈ free', span.start ≤ b.start ∧ b.stop ≤ span.stop
  header : ∀ addr, addr ≠ b.start → addr ≠ base → (∀ span ∈ free, span.start ≠ addr) →
    after.header addr = state.header addr
  rest : after.live = state.live ∧ after.regions = state.regions ∧ after.brk = state.brk

theorem attach_rest (state : State) (p next : Nat) :
    (state.attach p next).live = state.live ∧ (state.attach p next).regions = state.regions ∧
      (state.attach p next).brk = state.brk := by
  unfold State.attach
  split <;> exact ⟨rfl, rfl, rfl⟩

/-- Linking a block in after its place. -/
theorem Circle.freed {free initial rest : List Span} {p b : Span}
    (circle : Circle base state free) (isSplit : baseSpan base :: free = initial ++ p :: rest)
    (size : b.stop = b.start + (state.header b.start).size * HEADER) (proper : b.start < b.stop)
    (above : base < b.start) (apart : ∀ span ∈ free, span.stop ≤ b.start ∨ b.stop ≤ span.start)
    (before : p.start < b.start) (behind : ∀ later ∈ rest, b.start < later.start) :
    ∃ free', Freed base state
      { (state.attach b.start (state.header p.start).ptr).attach p.start b.start with
        freep := p.start } free b free' := by
  obtain ⟨pathInitial, ⟨leads, pSize, pathRest⟩, sepInitial, sepRest, isBefore⟩ :=
    circle.at_split isSplit
  have pProper := sepRest.proper p List.mem_cons_self
  have isMember : ∀ span ∈ initial ++ p :: rest, span = baseSpan base ∨ span ∈ free := by
    rw [← isSplit]
    exact fun span => List.mem_cons.mp
  have pStops : p.stop ≤ b.start := by
    rcases isMember p (by simp) with rfl | inFree
    · exact Nat.le_of_lt above
    · have := apart p inFree
      omega
  have bStops : ∀ later ∈ rest, b.stop ≤ later.start := by
    intro later member
    have after := behind later member
    have laterProper := sepRest.tail.proper later member
    rcases isMember later (by simp [member]) with rfl | inFree
    · simp only [baseSpan] at after
      omega
    · have := apart later inFree
      omega
  rw [leads]
  have pathB := pathRest.attach b size
    (fun other member => Nat.ne_of_gt (behind other member)) fun _ => by omega
  obtain ⟨first, later, isJoin, isStart⟩ := Span.join_eq_cons b rest
  have headB : headStart (Span.join b rest) base = b.start := by
    rw [isJoin]
    exact isStart
  have pSame := attach_of_ne state (headStart rest base) (Nat.ne_of_lt before)
  have starts : ∀ other ∈ Span.join b rest, b.start ≤ other.start := by
    intro other
    exact Span.start_of_mem_join fun later member => Nat.le_of_lt (behind later member)
  have pathP := pathB.attach p (by rw [pSame]; exact pSize)
    (fun other member => by
      have := starts other member
      omega)
    fun nothing => by
      rw [isJoin] at nothing
      cases nothing
  rw [headB] at pathP
  have sepB := sepRest.tail.join (Nat.le_of_lt proper) bStops
  have sepP := sepB.join pProper fun other member => pStops.trans (starts other member)
  obtain ⟨head, tail, isJoinP, isStartP⟩ := Span.join_eq_cons p (Span.join b rest)
  have pathAll : Path
      ((state.attach b.start (headStart rest base)).attach p.start b.start).header
      (initial ++ Span.join p (Span.join b rest)) base := by
    rw [Path.append_iff, isJoinP]
    refine ⟨?_, isJoinP ▸ pathP⟩
    rw [headStart, isStartP]
    apply pathInitial.congr
    intro span member
    have less := isBefore span member p List.mem_cons_self
    have spanProper := sepInitial.proper span member
    rw [attach_of_ne _ _ (by omega), attach_of_ne _ _ (by omega)]
  have sepAll : Span.Separated (initial ++ Span.join p (Span.join b rest)) := by
    refine sepInitial.append sepP ?_
    intro span member other inJoin
    have less := isBefore span member p List.mem_cons_self
    have starts' : ∀ after ∈ Span.join b rest, p.start ≤ after.start :=
      fun after inB => Nat.le_of_lt (before.trans_le (starts after inB))
    have later := Span.start_of_mem_join starts' inJoin
    omega
  obtain ⟨free', isResult, nonempty⟩ : ∃ free',
      initial ++ Span.join p (Span.join b rest) = baseSpan base :: free' ∧
        ∀ span ∈ free', span.start < span.stop := by
    have restNonempty : ∀ later ∈ rest, later.start < later.stop := by
      intro later member
      rcases isMember later (by simp [member]) with rfl | inFree
      · have after := behind _ member
        simp only [baseSpan] at after
        omega
      · exact circle.nonempty later inFree
    have joinNonempty : ∀ span ∈ Span.join b rest, span.start < span.stop :=
      fun span => Span.nonempty_join proper restNonempty
    cases initial with
    | nil =>
        obtain ⟨rfl, rfl⟩ : baseSpan base = p ∧ free = rest := by simpa using isSplit
        refine ⟨Span.join b free, ?_, joinNonempty⟩
        rw [List.nil_append, isJoin, Span.join_cons, if_neg]
        rw [isStart]
        exact Nat.ne_of_lt above
    | cons head initial =>
        obtain ⟨rfl, rfl⟩ : baseSpan base = head ∧ free = initial ++ p :: rest := by
          simpa using isSplit
        refine ⟨_, rfl, ?_⟩
        intro span member
        rcases List.mem_append.mp member with inInitial | inJoin
        · exact circle.nonempty span (by simp [inInitial])
        · exact Span.nonempty_join (circle.nonempty p (by simp)) joinNonempty inJoin
  rw [isResult] at pathAll sepAll
  refine ⟨free', ⟨pathAll, ?_, sepAll, nonempty⟩, ?_, ?_, ?_, ?_⟩
  · rw [← isResult, isJoinP]
    simp [isStartP]
  · intro addr
    rw [← cover_baseSpan base free', ← isResult, Span.cover_append,
      Span.cover_join pProper sepB, Span.cover_cons,
      Span.cover_join (Nat.le_of_lt proper) sepRest.tail, Span.cover_cons, Span.cover_cons,
      ← cover_baseSpan base free, isSplit, Span.cover_append, Span.cover_cons]
    omega
  · obtain ⟨joined, inB, lower, upper⟩ := Span.within_join (Nat.le_of_lt proper) sepRest.tail
      (List.mem_cons_self (a := b))
    obtain ⟨result, inP, lower', upper'⟩ := Span.within_join pProper sepB
      (List.mem_cons_of_mem p inB)
    have inAll : result ∈ baseSpan base :: free' := by
      rw [← isResult]
      exact List.mem_append_right _ inP
    rcases List.mem_cons.mp inAll with rfl | inFree
    · simp only [baseSpan] at upper'
      omega
    · exact ⟨result, inFree, lower'.trans lower, upper.trans upper'⟩
  · intro addr notB notBase notFree
    have notP : addr ≠ p.start := by
      rcases isMember p (by simp) with rfl | inFree
      · exact notBase
      · exact (notFree p inFree).symm
    exact (attach_of_ne _ _ notP).trans (attach_of_ne _ _ notB)
  · obtain ⟨live, regions, brk⟩ := attach_rest (state.attach b.start (headStart rest base)) p.start
      b.start
    obtain ⟨live', regions', brk'⟩ := attach_rest state b.start (headStart rest base)
    exact ⟨live.trans live', regions.trans regions', brk.trans brk'⟩

/-- `free` ends, and frees the block. -/
theorem Circle.free {free : List Span} {b : Span} (circle : Circle base state free) (ap : Nat)
    (isBlock : b.start = ap - HEADER)
    (size : b.stop = b.start + (state.header b.start).size * HEADER) (proper : b.start < b.stop)
    (above : base < b.start) (apart : ∀ span ∈ free, span.stop ≤ b.start ∨ b.stop ≤ span.start) :
    ∃ after free' bound, (∀ fuel, bound < fuel → state.free fuel ap = some after) ∧
      Freed base state after free b free' := by
  have absent : ∀ span ∈ free, span.start ≠ b.start := by
    intro span member same
    have spanProper := circle.nonempty span member
    have := apart span member
    omega
  obtain ⟨initial, p, rest, isSplit, before, behind, bound, ends⟩ := circle.position above absent
  obtain ⟨free', freed⟩ := circle.freed isSplit size proper above apart before behind
  refine ⟨_, free', bound, ?_, freed⟩
  intro fuel enough
  simp only [State.free, ← isBlock, ends fuel enough, Option.map_some]

end Coursework.UserHeap
