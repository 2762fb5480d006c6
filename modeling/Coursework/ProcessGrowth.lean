import Coursework.AddressSpace
import Coursework.AliveProcesses
import Coursework.PageDemand

/-!
# Growing and shrinking a process

`growproc` with what it returns and with the contents of the address space.  Growing
either maps cleared pages or puts everything back; but the rest of the last page, which
is mapped already, is not cleared.  Shrinking frees the pages from the new size on.
Since `deallocuvm` returns the new size and zero means an error, shrinking to nothing frees
all pages and then fails; and a new size below zero wraps around, so that nothing is
freed and the call succeeds.
-/

namespace Coursework.Paging

/-- What `growproc` returns and leaves. -/
structure Grown where
  returned : Int
  sz : Nat
  memory : Memory
  dir : Dir

namespace Memory

def growproc (layout : Layout) (memory : Memory) (dir : Dir) (sz : Nat) (n : Int32) :
    Except Panic Grown :=
  let newsz := ((sz + n.toInt) % UINT).toNat
  if 0 < n.toInt then do
    let (size, memory, dir) ← allocuvm layout memory dir sz newsz
    return if size = 0 then ⟨-1, sz, memory, dir⟩ else ⟨0, size, memory, dir⟩
  else if n.toInt < 0 then do
    let (size, memory, dir) ← deallocuvm layout memory dir sz newsz
    return if size = 0 then ⟨-1, sz, memory, dir⟩ else ⟨0, size, memory, dir⟩
  else .ok ⟨0, sz, memory, dir⟩

theorem growproc_forget (layout : Layout) (memory : Memory) (dir : Dir) (sz : Nat) (n : Int32) :
    (growproc layout memory dir sz n).map
        (fun grown => (grown.sz, grown.memory.freelist, grown.dir)) =
      Paging.growproc layout memory.freelist dir sz n.toInt := by
  have sized : ∀ result : Nat × Memory × Dir,
      ((pure (if result.1 = 0 then ⟨-1, sz, result.2.1, result.2.2⟩
        else ⟨0, result.1, result.2.1, result.2.2⟩ : Grown) : Except Panic Grown).map
          fun grown => (grown.sz, grown.memory.freelist, grown.dir)) =
      (pure (if (forget result).1 = 0 then sz else (forget result).1, (forget result).2.1,
        (forget result).2.2) : Except Panic (Nat × Freelist × Dir)) := by
    rintro ⟨size, memory1, dir1⟩
    by_cases zero : size = 0
    · simp [zero, forget, Except.map, pure, Except.pure]
    · simp [zero, forget, Except.map, pure, Except.pure]
  unfold growproc Paging.growproc
  simp only
  split
  · exact Outcome.map_bind (allocuvm_forget layout memory dir sz _) sized
  · split
    · exact Outcome.map_bind (deallocuvm_forget layout memory dir sz _) sized
    · rfl

end Memory

/-! ## Exactly or not at all -/

section Growth

variable (memory : Memory) (dir : Dir) (sz : Nat) (n : Int32) (grown : Grown)

/-- The process has the size that it asked for, its old contents, and zeros behind them. -/
structure GrowsExactly : Prop where
  returned : grown.returned = 0
  size : (grown.sz : Int) = sz + n.toInt
  old : ∀ addr < sz, addr < grown.sz →
    grown.dir.byte grown.memory.ram addr = dir.byte memory.ram addr
  new : ∀ addr, sz ≤ addr → addr < grown.sz → grown.dir.byte grown.memory.ram addr = some 0

/-- The call fails and the process is as it was. -/
structure StaysSame : Prop where
  returned : grown.returned = -1
  size : grown.sz = sz
  entries : ∀ page < ALLPAGES, grown.dir.pte page = dir.pte page
  contents : ∀ addr < KERNBASE, grown.dir.byte grown.memory.ram addr = dir.byte memory.ram addr

/-- The call is exact or does nothing, and fails for a size that no process can have. -/
def ExactOrNothing : Prop :=
  (GrowsExactly memory dir sz n grown ∨ StaysSame memory dir sz grown) ∧
    (sz + n.toInt < 0 ∨ KERNBASE ≤ sz + n.toInt → grown.returned = -1)

/-- The rest of the last page is zero as far as the process grows. -/
def TailClear : Prop :=
  ∀ addr : Nat, sz ≤ addr → addr < sz + n.toInt → addr < PGROUNDUP sz →
    dir.byte memory.ram addr = some 0

/-- There are too few free pages for the new size. -/
def TooFewPages : Prop :=
  memory.freelist.length <
    growPages dir (pagesBelow sz) (pagesBelow (sz + n.toInt).toNat - pagesBelow sz)

/-- The calls of `growproc` that are exact or do nothing. -/
def GrowsWell : Prop :=
  n.toInt = 0 ∨
  n.toInt < 0 ∧ (0 < sz + n.toInt ∨ sz + n.toInt = 0 ∧ ∀ page < USERPAGES, dir.pte page = none) ∨
  0 < n.toInt ∧
    (KERNBASE ≤ sz + n.toInt ∨ TooFewPages memory dir sz n ∨ TailClear memory dir sz n)

end Growth

variable {layout : Layout} {memory : Memory} {dir : Dir} {sz : Nat} {n : Int32}

theorem round_up (sz : Nat) : PGROUNDUP sz = pagesBelow sz * PGSIZE := rfl

theorem page_below {addr sz : Nat} (below : addr < PGROUNDUP sz) :
    addr / PGSIZE < pagesBelow sz := by
  rw [round_up] at below
  exact Nat.div_lt_of_lt_mul (by rw [Nat.mul_comm]; exact below)

theorem page_above {addr sz : Nat} (above : PGROUNDUP sz ≤ addr) :
    pagesBelow sz ≤ addr / PGSIZE := by
  rw [round_up] at above
  exact (Nat.le_div_iff_mul_le (by decide)).mpr above

theorem le_round_up (sz : Nat) : sz ≤ PGROUNDUP sz := by
  simp only [PGROUNDUP, PGSIZE]
  omega

theorem page_lt_pagesBelow {addr sz : Nat} (below : addr < sz) : addr / PGSIZE < pagesBelow sz :=
  page_below (below.trans_le (le_round_up sz))

/-- A process whose pages all lie below its size. -/
structure Trimmed (layout : Layout) (memory : Memory) (dir : Dir) (sz : Nat) : Prop where
  sole : Sole layout memory.freelist dir
  above : ∀ page, pagesBelow sz ≤ page → page < USERPAGES → dir.pte page = none
  positive : 0 < sz
  user : sz < KERNBASE

namespace Trimmed

/-- No growth was asked for. -/
theorem stays (user : sz < KERNBASE) (isZero : n.toInt = 0) :
    ExactOrNothing memory dir sz n ⟨0, sz, memory, dir⟩ := by
  refine ⟨Or.inl ⟨rfl, ?_, fun _ _ _ => rfl, ?_⟩, ?_⟩
  · rw [isZero, Int.add_zero]
  · intro addr lower upper
    exact absurd upper (Nat.not_lt.mpr lower)
  · rw [isZero]
    rintro (negative | large)
    · omega
    · omega

/-- Shrinking. -/
theorem shrinks (trimmed : Trimmed layout memory dir sz) (negative : n.toInt < 0) :
    Outcome (fun _ => False)
      (fun grown => ExactOrNothing memory dir sz n grown ↔
        0 < sz + n.toInt ∨ sz + n.toInt = 0 ∧ ∀ page < USERPAGES, dir.pte page = none)
      (Memory.growproc layout memory dir sz n) := by
  have user := trimmed.user
  have positive := trimmed.positive
  have least := n.le_toInt
  unfold Memory.growproc
  simp only
  rw [if_neg (by omega), if_pos negative]
  generalize isNew : ((sz + n.toInt) % UINT).toNat = newsz
  have spec := @deallocuvm_spec _ _ _ _ newsz trimmed.sole user.le
  rw [← Memory.deallocuvm_forget layout memory dir sz newsz] at spec
  have both := (Memory.deallocuvm_gives memory dir sz newsz).and (Outcome.of_map spec)
  apply Outcome.bind (both.mono (fun _ impossible => impossible.2) fun _ same => same)
  rintro ⟨size, memory1, dir1⟩ ⟨⟨-, keeps⟩, isSize, entries, account⟩
  simp only [Memory.forget] at keeps isSize entries account
  have sole1 : Sole layout memory1.freelist dir1 :=
    trimmed.sole.of_le fun frame => (account frame).le
  rcases lt_trichotomy (sz + n.toInt) 0 with below | isZero | above
  · have larger : sz ≤ newsz := by
      simp only [UINT, KERNBASE] at *
      omega
    rw [if_pos larger] at isSize
    rw [isSize]
    have failed : ¬ (0 < sz + n.toInt ∨ sz + n.toInt = 0 ∧
        ∀ page < USERPAGES, dir.pte page = none) := by
      rintro (impossible | ⟨impossible, -⟩) <;> omega
    refine iff_of_false ?_ failed
    rintro ⟨-, mustFail⟩
    have returned := mustFail (Or.inl below)
    rw [if_neg (by omega)] at returned
    cases returned
  · have isNothing : newsz = 0 := by
      rw [← isNew, isZero]
      rfl
    rw [isNothing, if_neg (by omega)] at isSize
    rw [isSize, if_pos rfl]
    have noPages : pagesBelow 0 = 0 := by decide
    rw [isNothing, noPages] at entries
    simp only [isZero, lt_self_iff_false, true_and, false_or]
    constructor
    · rintro ⟨isExact | same, -⟩
      · cases isExact.returned
      · intro page inside
        have isSame := same.entries page (inside.trans user_lt_all)
        rw [← isSame]
        by_cases freed : page < pagesBelow sz
        · exact (entries page (inside.trans user_lt_all)).trans (if_pos ⟨Nat.zero_le _, freed⟩)
        · exact isSame.trans (trimmed.above page (by omega) inside)
    · intro nothing
      have sameEntries : ∀ page < ALLPAGES, dir1.pte page = dir.pte page := by
        intro page inside
        rw [entries page inside]
        split
        · next freed => exact (nothing page (by have := pagesBelow_le user.le; omega)).symm
        · rfl
      refine ⟨Or.inr ⟨rfl, rfl, sameEntries, ?_⟩, fun _ => rfl⟩
      intro addr inside
      exact keeps.byte_eq trimmed.sole sole1 inside
        (sameEntries _ ((page_lt inside).trans user_lt_all))
  · have isSum : (newsz : Int) = sz + n.toInt := by
      simp only [UINT, KERNBASE] at *
      omega
    rw [if_neg (by omega)] at isSize
    rw [isSize, if_neg (by omega)]
    refine iff_of_true ⟨Or.inl ⟨rfl, isSum, ?_, ?_⟩, ?_⟩ (Or.inl above)
    · intro addr below inside
      have page := page_lt_pagesBelow inside
      apply keeps.byte_eq trimmed.sole sole1 (below.trans user)
      rw [entries _ ((page_lt (below.trans user)).trans user_lt_all)]
      exact if_neg (by simp only at page; omega)
    · intro addr lower upper
      simp only at upper
      omega
    · rintro (impossible | impossible) <;> omega

/-- Growing. -/
theorem grows (trimmed : Trimmed layout memory dir sz) (isPositive : 0 < n.toInt) :
    Outcome (fun _ => False)
      (fun grown => ExactOrNothing memory dir sz n grown ↔
        KERNBASE ≤ sz + n.toInt ∨ TooFewPages memory dir sz n ∨ TailClear memory dir sz n)
      (Memory.growproc layout memory dir sz n) := by
  have user := trimmed.user
  have positive := trimmed.positive
  have most := n.toInt_lt
  unfold Memory.growproc
  simp only
  rw [if_pos isPositive]
  have isSum : ((sz + n.toInt) % UINT).toNat = (sz + n.toInt).toNat := by
    simp only [UINT, KERNBASE] at *
    omega
  rw [isSum]
  generalize isNew : (sz + n.toInt).toNat = newsz
  have isInt : (newsz : Int) = sz + n.toInt := by omega
  by_cases large : KERNBASE ≤ newsz
  · unfold Memory.allocuvm
    rw [if_pos large]
    refine iff_of_true ⟨Or.inr ⟨rfl, rfl, fun _ _ => rfl, fun _ _ => rfl⟩, fun _ => rfl⟩
      (Or.inl ?_)
    omega
  · have fits : sz + n.toInt < KERNBASE := by omega
    have order : pagesBelow sz ≤ pagesBelow newsz := by
      simp only [pagesBelow, PGSIZE]
      omega
    have limit := pagesBelow_le (Nat.le_of_lt (Nat.not_le.mp large))
    have all := user_lt_all
    have spec := @allocuvm_spec _ _ _ sz newsz trimmed.sole
    have demand : Outcome (fun _ => True) (fun result => result.1 = newsz ↔
        ¬ TooFewPages memory dir sz n) (Paging.allocuvm layout memory.freelist dir sz newsz) := by
      unfold Paging.allocuvm
      rw [if_neg large, if_neg (by omega)]
      apply (allocLoop_takes (by omega) _).mono (fun _ => id)
      intro result isSize
      rw [isSize, TooFewPages, isNew, Nat.not_lt]
    rw [← Memory.allocuvm_forget layout memory dir sz newsz] at spec demand
    have all3 := ((@Memory.allocuvm_fresh _ _ _ sz newsz trimmed.sole).and
      (Outcome.of_map demand)).and (Outcome.of_map spec)
    apply Outcome.bind (all3.mono ?_ fun _ same => same)
    · rintro ⟨size, memory1, dir1⟩ ⟨⟨⟨keeps, fresh⟩, isDemand⟩, account, cases⟩
      simp only [Memory.forget] at keeps fresh isDemand account cases
      have sole1 : Sole layout memory1.freelist dir1 :=
        trimmed.sole.of_le fun frame => (account frame).le
      have notLarge : ¬ KERNBASE ≤ sz + n.toInt := by omega
      by_cases isGrown : size = newsz
      · obtain ⟨others, cleared⟩ := fresh (by omega) (by omega) isGrown
        have enough : ¬ TooFewPages memory dir sz n := isDemand.mp isGrown
        have below : ∀ addr < PGROUNDUP sz, addr < newsz →
            dir1.byte memory1.ram addr = dir.byte memory.ram addr := by
          intro addr inPages inside
          have page := page_below inPages
          apply keeps.byte_eq trimmed.sole sole1 (by omega)
          exact others _ (by omega) (Or.inl page)
        simp only [notLarge, enough, false_or]
        rw [isGrown, if_neg (by omega)]
        constructor
        · rintro ⟨isExact | same, -⟩
          · intro addr lower upper inPages
            rw [← below addr inPages (by omega)]
            exact isExact.new addr lower (by simp only; omega)
          · cases same.returned
        · intro tail
          refine ⟨Or.inl ⟨rfl, isInt, ?_, ?_⟩, ?_⟩
          · intro addr inside upper
            exact below addr (inside.trans_le (le_round_up sz)) upper
          · intro addr lower upper
            simp only at upper ⊢
            by_cases inPages : addr < PGROUNDUP sz
            · rw [below addr inPages upper]
              exact tail addr lower (by omega) inPages
            · obtain ⟨mem, isPte, isClear⟩ := cleared _ (page_above (Nat.not_lt.mp inPages))
                (page_lt_pagesBelow upper)
              rw [Dir.byte, isPte]
              exact congrArg some (isClear _ (offset_lt addr))
          · rintro (impossible | impossible)
            · omega
            · omega
      · have tooFew : TooFewPages memory dir sz n := by
          by_contra enough
          exact isGrown (isDemand.mpr enough)
        have failed : size = 0 ∧ Clears dir dir1 (pagesBelow sz) (pagesBelow newsz) ∨
            size = 0 ∧ dir1 = dir := by
          rcases cases with ⟨same, -⟩ | clears | ⟨-, smaller, -⟩ | same
          · exact (isGrown same).elim
          · exact Or.inl clears
          · omega
          · exact Or.inr same
        have isZero : size = 0 := failed.elim And.left And.left
        have sameEntries : ∀ page < ALLPAGES, dir1.pte page = dir.pte page := by
          intro page inside
          rcases failed with ⟨-, clears⟩ | ⟨-, same⟩
          · rw [clears page inside]
            split
            · next range => exact (trimmed.above page range.1 (by omega)).symm
            · rfl
          · rw [same]
        rw [isZero, if_pos rfl]
        refine iff_of_true ⟨Or.inr ⟨rfl, rfl, sameEntries, ?_⟩, fun _ => rfl⟩
          (Or.inr (Or.inl tooFew))
        intro addr inside
        exact keeps.byte_eq trimmed.sole sole1 inside
          (sameEntries _ ((page_lt inside).trans all))
    · rintro error ⟨-, -, -, other, lower, upper, present⟩
      rw [trimmed.above other lower (by omega)] at present
      cases present

/-- `growproc` cannot panic, and is exact or does nothing exactly for the calls that it
serves well. -/
theorem growproc_iff (trimmed : Trimmed layout memory dir sz) :
    Outcome (fun _ => False)
      (fun grown => ExactOrNothing memory dir sz n grown ↔ GrowsWell memory dir sz n)
      (Memory.growproc layout memory dir sz n) := by
  rcases lt_trichotomy n.toInt 0 with negative | isZero | positive
  · apply (trimmed.shrinks negative).mono (fun _ => id)
    intro grown isGrown
    rw [isGrown, GrowsWell]
    constructor
    · exact fun well => Or.inr (Or.inl ⟨negative, well⟩)
    · rintro (impossible | ⟨-, well⟩ | ⟨impossible, -⟩)
      · omega
      · exact well
      · omega
  · unfold Memory.growproc
    simp only
    rw [if_neg (by omega), if_neg (by omega)]
    exact iff_of_true (stays trimmed.user isZero) (Or.inl isZero)
  · apply (trimmed.grows positive).mono (fun _ => id)
    intro grown isGrown
    rw [isGrown, GrowsWell]
    constructor
    · exact fun well => Or.inr (Or.inr ⟨positive, well⟩)
    · rintro (impossible | ⟨impossible, -⟩ | ⟨-, well⟩)
      · omega
      · omega
      · exact well

end Trimmed

/-! ## In every run -/

/-- The size of a process and the pages that lie above it. -/
def KeepsBelow (proc : Proc) : Prop :=
  0 < proc.sz ∧ ∀ dir, proc.pgdir = some dir → ∀ page, pagesBelow proc.sz ≤ page →
    page < USERPAGES → dir.pte page = none

theorem above_of_maps {count : Nat} (maps : Maps dir count) :
    ∀ page, count ≤ page → page < USERPAGES → dir.pte page = none := by
  intro page above user
  have present := maps page user
  cases isPte : dir.pte page with
  | none => rfl
  | some pte =>
      rw [isPte] at present
      have := present.mp rfl
      omega

/-- `growproc` leaves nothing above the size. -/
theorem growproc_below {freelist : Freelist} {n : Int} (sole : Sole layout freelist dir)
    (above : ∀ page, pagesBelow sz ≤ page → page < USERPAGES → dir.pte page = none)
    (positive : 0 < sz) (user : sz < KERNBASE) :
    Outcome (fun _ => True)
      (fun result => 0 < result.1 ∧ ∀ page, pagesBelow result.1 ≤ page → page < USERPAGES →
        result.2.2.pte page = none)
      (growproc layout freelist dir sz n) := by
  have all := user_lt_all
  unfold growproc
  simp only
  generalize ((sz + n) % UINT).toNat = newsz
  split
  · apply Outcome.bind ((allocuvm_spec sole).mono (fun _ _ => trivial) fun _ same => same)
    rintro ⟨size, freelist1, dir1⟩ ⟨-, cases⟩
    simp only at cases ⊢
    rcases cases with ⟨rfl, inside, larger, grows⟩ | ⟨rfl, clears⟩ | ⟨rfl, -, rfl⟩ | ⟨rfl, rfl⟩
    · rw [if_neg (by omega)]
      refine ⟨by omega, ?_⟩
      intro page lower upper
      have order := pagesBelow_mono larger
      simp only at lower
      have present := grows page (by omega)
      rw [above page (by omega) upper] at present
      cases isPte : dir1.pte page with
      | none => rfl
      | some pte =>
          rw [isPte] at present
          simp only [Option.isSome_some, Option.isSome_none, Bool.false_eq_true, false_or,
            true_iff] at present
          omega
    · rw [if_pos rfl]
      refine ⟨positive, ?_⟩
      intro page lower upper
      rw [clears page (by omega)]
      split
      · rfl
      · exact above page lower upper
    · rw [if_neg (by omega)]
      exact ⟨positive, above⟩
    · rw [if_pos rfl]
      exact ⟨positive, above⟩
  · split
    · apply Outcome.bind ((deallocuvm_spec sole user.le).mono (fun _ => False.elim)
        fun _ same => same)
      rintro ⟨size, freelist1, dir1⟩ ⟨isSize, entries, -⟩
      simp only at isSize entries ⊢
      have cleared : ∀ page, pagesBelow newsz ≤ page ∨ pagesBelow sz ≤ page → page < USERPAGES →
          dir1.pte page = none := by
        intro page lower upper
        rw [entries page (by omega)]
        split
        · rfl
        · exact above page (by omega) upper
      split
      · exact ⟨positive, fun page lower => cleared page (Or.inr lower)⟩
      · next nonzero =>
          refine ⟨by omega, ?_⟩
          intro page lower upper
          apply cleared page _ upper
          rw [isSize] at lower
          split at lower
          · exact Or.inr lower
          · exact Or.inl lower
    · exact ⟨positive, above⟩

theorem endows_below (layout : Layout) : Endows layout KeepsBelow where
  parent _ _ := id
  copied proc kstack pid source freelist below user bounded := by
    apply (copyuvm_spec bounded user.le).mono (fun _ _ => trivial)
    rintro ⟨copy, freelist1⟩ copied dir rfl
    refine ⟨below.1, ?_⟩
    rintro _ ⟨⟩
    exact above_of_maps copied.1
  loaded proc program freelist bounded := by
    apply (exec_spec bounded).mono (fun _ _ => trivial)
    rintro ⟨image, freelist1⟩ built dir sz rfl
    refine ⟨built.1, ?_⟩
    rintro _ ⟨⟩
    exact above_of_maps built.2.2.1
  grown proc dir freelist n below isDir user sole := by
    apply (growproc_below sole (below.2 dir isDir) below.1 user).mono (fun _ _ => trivial)
    rintro ⟨size, freelist1, dir1⟩ ⟨positive, above⟩
    refine ⟨positive, ?_⟩
    rintro _ ⟨⟩
    exact above

/-- The pages of every process of every run lie below its size. -/
theorem Trimmed.of_run {PipeId : Type} [DecidableEq PipeId] [Fintype PipeId]
    {state : State PipeId} {pid : Pid}
    (run : Run (State.step layout) anyStep (State.IsBooted layout) state)
    (alive : (state.proc pid).status = .alive) (isDir : (state.proc pid).pgdir = some dir)
    (ram : ByteMemory) : Trimmed layout ⟨state.freelist, ram⟩ dir (state.proc pid).sz := by
  have onePage : pagesBelow PGSIZE = 1 := by decide
  obtain ⟨owned, each⟩ := (endows_below layout).run (by
    intro kstack dir maps
    refine ⟨(by decide : 0 < PGSIZE), ?_⟩
    rintro _ ⟨⟩
    rw [← onePage] at maps
    exact above_of_maps maps) run
  have used : (state.proc pid).status ≠ .unused := by simp [alive]
  obtain ⟨positive, above⟩ := each pid alive
  exact ⟨owned.sole used isDir, above dir isDir, positive, owned.sizes pid alive⟩

theorem Trimmed.exact_iff (trimmed : Trimmed layout memory dir sz) :
    (∃ grown, Memory.growproc layout memory dir sz n = .ok grown ∧
      ExactOrNothing memory dir sz n grown) ↔ GrowsWell memory dir sz n := by
  obtain ⟨grown, isGrown, isExact⟩ := (trimmed.growproc_iff (n := n)).exists_ok
  rw [isGrown, ← isExact]
  constructor
  · rintro ⟨other, same, holds⟩
    cases same
    exact holds
  · exact fun holds => ⟨grown, rfl, holds⟩

/-- In every state of every run, whatever the pages hold: `growproc` returns, and it is
exact or does nothing exactly for the calls that it serves well. -/
theorem growproc_exact_iff {PipeId : Type} [DecidableEq PipeId] [Fintype PipeId]
    {state : State PipeId} {pid : Pid}
    (run : Run (State.step layout) anyStep (State.IsBooted layout) state)
    (alive : (state.proc pid).status = .alive) (isDir : (state.proc pid).pgdir = some dir)
    (ram : ByteMemory) (n : Int32) :
    (∃ grown, Memory.growproc layout ⟨state.freelist, ram⟩ dir (state.proc pid).sz n = .ok grown ∧
      ExactOrNothing ⟨state.freelist, ram⟩ dir (state.proc pid).sz n grown) ↔
    GrowsWell ⟨state.freelist, ram⟩ dir (state.proc pid).sz n :=
  (Trimmed.of_run run alive isDir ram).exact_iff

/-- The first process gets a second page, which is clear. -/
theorem growproc_exact_iff_page : ∃ grown,
    Memory.growproc smallLayout ⟨smallMachine.freelist, fun _ => 7⟩ smallDir PGSIZE 4096 =
      .ok grown ∧
    ExactOrNothing ⟨smallMachine.freelist, fun _ => 7⟩ smallDir PGSIZE 4096 grown := by
  have isFirst := smallMachine_first
  have alive : (smallMachine.proc initproc).status = .alive := by rw [isFirst]
  have isDir : (smallMachine.proc initproc).pgdir = some smallDir := by rw [isFirst]
  have size : (smallMachine.proc initproc).sz = PGSIZE := by rw [isFirst]
  have exact_ := growproc_exact_iff (.start smallMachine_booted) alive isDir (fun _ => 7) 4096
  rw [size] at exact_
  apply exact_.mpr
  have isPage : (4096 : Int32).toInt = 4096 := by decide
  refine Or.inr (Or.inr ⟨by rw [isPage]; decide, Or.inr (Or.inr ?_)⟩)
  intro addr lower _ inPages
  have whole : PGROUNDUP PGSIZE = PGSIZE := by decide
  omega

/-- Shrinking to nothing fails, and the page is gone. -/
theorem shrink_to_nothing_frees : ¬ ∃ grown,
    Memory.growproc smallLayout ⟨smallMachine.freelist, fun _ => 7⟩ smallDir PGSIZE (-4096) =
      .ok grown ∧
    ExactOrNothing ⟨smallMachine.freelist, fun _ => 7⟩ smallDir PGSIZE (-4096) grown := by
  have isFirst := smallMachine_first
  have alive : (smallMachine.proc initproc).status = .alive := by rw [isFirst]
  have isDir : (smallMachine.proc initproc).pgdir = some smallDir := by rw [isFirst]
  have size : (smallMachine.proc initproc).sz = PGSIZE := by rw [isFirst]
  have trimmed := Trimmed.of_run (.start smallMachine_booted) alive isDir fun _ => 7
  rw [size] at trimmed
  rw [trimmed.exact_iff]
  have isPage : (-4096 : Int32).toInt = -4096 := by decide
  have isSize : (PGSIZE : Int) = 4096 := by decide
  rintro (impossible | ⟨-, impossible | ⟨-, nothing⟩⟩ | ⟨impossible, -⟩)
  · omega
  · omega
  · have mapped : (smallDir.pte 0).isSome = true := by decide
    rw [nothing 0 (by decide)] at mapped
    cases mapped
  · omega

end Coursework.Paging
