import Coursework.PageTables

/-!
# The arguments of a system call

A system call takes its arguments from the user stack.  `syscall.c` checks that a word,
a block or a string lies below `sz` before the kernel uses it, with comparisons and sums of
32-bit numbers.  A size below `KERNBASE` keeps these sums from wrapping around: an address
below `sz` and a length that is not negative are both less than half of the range of a
`uint`.
-/

namespace Coursework.UserPointers

open Paging (KERNBASE)

/-- What the checks read of the current process. -/
structure Caller where
  sz : UInt32
  esp : UInt32
  memory : UInt32 → UInt8

/-- The return value of a call, and what it has stored through its pointer. -/
structure Fetched (Value : Type) where
  status : Int32
  stored : Option Value

/-- `*(int*)addr`. -/
def Caller.int (curproc : Caller) (addr : UInt32) : Int32 :=
  ((curproc.memory addr).toUInt32 + (curproc.memory (addr + 1)).toUInt32 * 0x100 +
    (curproc.memory (addr + 2)).toUInt32 * 0x10000 +
    (curproc.memory (addr + 3)).toUInt32 * 0x1000000).toInt32

def fetchint (curproc : Caller) (addr : UInt32) : Fetched Int32 :=
  if addr ≥ curproc.sz ∨ addr + 4 > curproc.sz then { status := -1, stored := none }
  else { status := 0, stored := some (curproc.int addr) }

/-- The loop of `fetchstr`: the first zero byte from `s` on and below `ep`. -/
def findNul (memory : UInt32 → UInt8) (ep s : UInt32) : Option UInt32 :=
  if s < ep then
    if memory s = 0 then some s else findNul memory ep (s + 1)
  else none
termination_by ep.toNat - s.toNat
decreasing_by
  have less : s.toNat < ep.toNat := UInt32.lt_iff_toNat_lt.mp ‹_›
  have bound := ep.toNat_lt
  rw [UInt32.toNat_add, UInt32.toNat_one]
  omega

def fetchstr (curproc : Caller) (addr : UInt32) : Fetched UInt32 :=
  if addr ≥ curproc.sz then { status := -1, stored := none }
  else
    match findNul curproc.memory curproc.sz addr with
    | some s => { status := (s - addr).toInt32, stored := some addr }
    | none => { status := -1, stored := some addr }

/-- The address of an argument on the stack of the caller. -/
def argaddr (curproc : Caller) (n : Int32) : UInt32 := curproc.esp + 4 + (4 * n).toUInt32

def argint (curproc : Caller) (n : Int32) : Fetched Int32 :=
  fetchint curproc (argaddr curproc n)

def argptr (curproc : Caller) (n size : Int32) : Fetched UInt32 :=
  match argint curproc n with
  | { status, stored := some i } =>
      if status < 0 then { status := -1, stored := none }
      else if size < 0 ∨ i.toUInt32 ≥ curproc.sz ∨ i.toUInt32 + size.toUInt32 > curproc.sz then
        { status := -1, stored := none }
      else { status := 0, stored := some i.toUInt32 }
  | { status := _, stored := none } => { status := -1, stored := none }

def argstr (curproc : Caller) (n : Int32) : Fetched UInt32 :=
  match argint curproc n with
  | { status, stored := some addr } =>
      if status < 0 then { status := -1, stored := none }
      else fetchstr curproc addr.toUInt32
  | { status := _, stored := none } => { status := -1, stored := none }

/-! ## Signed and unsigned numbers -/

theorem toInt_toInt32 {value : UInt32} (small : value.toNat < KERNBASE) :
    value.toInt32.toInt = value.toNat := by
  simp only [KERNBASE] at small
  exact BitVec.toInt_eq_toNat_of_lt (x := value.toBitVec) (by
    simp only [UInt32.toNat_toBitVec]
    omega)

theorem toNat_toUInt32 {value : Int32} (nonneg : ¬ value < 0) :
    (value.toUInt32.toNat : Int) = value.toInt ∧ value.toUInt32.toNat < KERNBASE := by
  have signed : ¬ value.toInt < 0 := by simpa using Int32.lt_iff_toInt_lt.not.mp nonneg
  have cases_ : value.toInt = if 2 * value.toUInt32.toNat < 2 ^ 32 then
      (value.toUInt32.toNat : Int) else value.toUInt32.toNat - 2 ^ 32 :=
    BitVec.toInt_eq_toNat_cond value.toBitVec
  have bound := value.toUInt32.toNat_lt
  simp only [KERNBASE]
  omega

/-- A checked sum of a number below `sz` and a positive number has not wrapped around. -/
theorem add_le_of_checked {sz start size : UInt32} (user : sz.toNat < KERNBASE)
    (small : size.toNat < KERNBASE) (inside : ¬ start ≥ sz) (checked : ¬ start + size > sz) :
    start.toNat + size.toNat ≤ sz.toNat := by
  simp only [KERNBASE] at user small
  rw [ge_iff_le, UInt32.le_iff_toNat_le] at inside
  rw [gt_iff_lt, UInt32.lt_iff_toNat_lt, UInt32.toNat_add] at checked
  omega

theorem toNat_add_one {s ep : UInt32} (less : s < ep) : (s + 1).toNat = s.toNat + 1 := by
  have below := UInt32.lt_iff_toNat_lt.mp less
  have bound := ep.toNat_lt
  rw [UInt32.toNat_add, UInt32.toNat_one]
  omega

theorem not_success : ¬ (0 : Int32) ≤ -1 := by decide

/-! ## Words -/

/-- All bytes of a range lie below `sz`. -/
def Caller.owns (curproc : Caller) (start count : Nat) : Prop :=
  ∀ i < count, start + i < curproc.sz.toNat

variable {curproc : Caller}

theorem owns_of_le {start count : Nat} (below : start + count ≤ curproc.sz.toNat) :
    curproc.owns start count := by
  intro i less
  omega

/-- A successful `fetchint` has read a word of the process. -/
theorem fetchint_sound (user : curproc.sz.toNat < KERNBASE) {addr : UInt32}
    (success : 0 ≤ (fetchint curproc addr).status) :
    curproc.owns addr.toNat 4 ∧ (fetchint curproc addr).stored = some (curproc.int addr) := by
  unfold fetchint at success ⊢
  by_cases refused : addr ≥ curproc.sz ∨ addr + 4 > curproc.sz
  · rw [if_pos refused] at success
    exact absurd success not_success
  · rw [if_neg refused]
    rw [not_or] at refused
    exact ⟨owns_of_le (add_le_of_checked user (by decide) refused.1 refused.2), rfl⟩

theorem argint_sound (user : curproc.sz.toNat < KERNBASE) {n : Int32}
    (success : 0 ≤ (argint curproc n).status) :
    curproc.owns (argaddr curproc n).toNat 4 ∧
      (argint curproc n).stored = some (curproc.int (argaddr curproc n)) :=
  fetchint_sound user success

theorem argint_cases (curproc : Caller) (n : Int32) :
    argint curproc n = { status := -1, stored := none } ∨
      argint curproc n = { status := 0, stored := some (curproc.int (argaddr curproc n)) } := by
  unfold argint fetchint
  split
  · exact Or.inl rfl
  · exact Or.inr rfl

/-! ## Blocks -/

/-- The block that an argument points to. -/
def argblock (curproc : Caller) (n : Int32) : UInt32 :=
  (curproc.int (argaddr curproc n)).toUInt32

theorem argptr_sound (user : curproc.sz.toNat < KERNBASE) {n size : Int32}
    (success : 0 ≤ (argptr curproc n size).status) :
    0 ≤ (argint curproc n).status ∧
      (argptr curproc n size).stored = some (argblock curproc n) ∧
      curproc.owns (argblock curproc n).toNat size.toInt.toNat := by
  unfold argptr at success ⊢
  rcases argint_cases curproc n with missing | found
  · rw [missing] at success
    exact absurd success not_success
  · rw [found] at success ⊢
    dsimp only at success ⊢
    rw [if_neg (by decide)] at success ⊢
    split at success
    · exact absurd success not_success
    · next accepted =>
        rw [if_neg accepted]
        rw [not_or, not_or] at accepted
        obtain ⟨nonneg, inside, checked⟩ := accepted
        obtain ⟨sameSize, small⟩ := toNat_toUInt32 nonneg
        refine ⟨by decide, rfl, owns_of_le ?_⟩
        have below := add_le_of_checked user small inside checked
        rw [← sameSize, Int.toNat_natCast]
        exact below

theorem argptr_negative (curproc : Caller) (n : Int32) {size : Int32} (negative : size < 0) :
    (argptr curproc n size).status = -1 := by
  unfold argptr
  rcases argint_cases curproc n with missing | found
  · rw [missing]
  · rw [found]
    dsimp only
    rw [if_neg (by decide), if_pos (Or.inl negative)]

/-! ## Strings -/

/-- The first zero byte from `start` on is `s`. -/
structure EndsAt (memory : UInt32 → UInt8) (start s : UInt32) : Prop where
  after : start ≤ s
  isNul : memory s = 0
  first : ∀ other, start ≤ other → other < s → memory other ≠ 0

theorem findNul_eq_some {memory : UInt32 → UInt8} {ep start s : UInt32}
    (found : findNul memory ep start = some s) : s < ep ∧ EndsAt memory start s := by
  induction start using findNul.induct memory ep with
  | case1 start less isNul =>
      rw [findNul, if_pos less, if_pos isNul] at found
      cases found
      refine ⟨less, UInt32.le_refl _, isNul, ?_⟩
      intro other lower upper
      exact absurd lower (UInt32.not_le.mpr upper)
  | case2 start less notNul ih =>
      rw [findNul, if_pos less, if_neg notNul] at found
      obtain ⟨below, ends⟩ := ih found
      have next := toNat_add_one less
      have later := UInt32.le_iff_toNat_le.mp ends.after
      refine ⟨below, UInt32.le_iff_toNat_le.mpr (by omega), ends.isNul, ?_⟩
      intro other lower upper
      by_cases here : other = start
      · rw [here]
        exact notNul
      · have lower' := UInt32.le_iff_toNat_le.mp lower
        have different : other.toNat ≠ start.toNat := fun same => here (UInt32.toNat_inj.mp same)
        exact ends.first other (UInt32.le_iff_toNat_le.mpr (by omega)) upper
  | case3 start ended =>
      rw [findNul, if_neg ended] at found
      cases found

theorem findNul_eq_none {memory : UInt32 → UInt8} {ep start : UInt32}
    (missing : findNul memory ep start = none) {other : UInt32} (lower : start ≤ other)
    (upper : other < ep) : memory other ≠ 0 := by
  induction start using findNul.induct memory ep with
  | case1 start less isNul =>
      rw [findNul, if_pos less, if_pos isNul] at missing
      cases missing
  | case2 start less notNul ih =>
      rw [findNul, if_pos less, if_neg notNul] at missing
      by_cases here : other = start
      · rw [here]
        exact notNul
      · have next := toNat_add_one less
        have lower' := UInt32.le_iff_toNat_le.mp lower
        have different : other.toNat ≠ start.toNat := fun same => here (UInt32.toNat_inj.mp same)
        exact ih missing (UInt32.le_iff_toNat_le.mpr (by omega))
  | case3 start ended =>
      exact absurd (UInt32.lt_of_le_of_lt lower upper) ended

/-- A string that a process owns with its zero byte. -/
structure Caller.IsString (curproc : Caller) (start : UInt32) (length : Nat) : Prop where
  owned : curproc.owns start.toNat (length + 1)
  isNul : curproc.memory (start + UInt32.ofNat length) = 0
  first : ∀ i < length, curproc.memory (start + UInt32.ofNat i) ≠ 0

theorem toNat_add_ofNat (start : UInt32) (i : Nat) (inside : start.toNat + i < 2 ^ 32) :
    (start + UInt32.ofNat i).toNat = start.toNat + i := by
  rw [UInt32.toNat_add, UInt32.toNat_ofNat_of_lt' (by simp [UInt32.size]; omega)]
  exact Nat.mod_eq_of_lt inside

theorem isString_of_ends {start s : UInt32} (below : s < curproc.sz)
    (ends : EndsAt curproc.memory start s) :
    curproc.IsString start (s.toNat - start.toNat) := by
  have after := UInt32.le_iff_toNat_le.mp ends.after
  have below' := UInt32.lt_iff_toNat_lt.mp below
  have bound := s.toNat_lt
  refine ⟨owns_of_le (by omega), ?_, ?_⟩
  · have isEnd : start + UInt32.ofNat (s.toNat - start.toNat) = s := by
      apply UInt32.toNat_inj.mp
      rw [toNat_add_ofNat _ _ (by omega)]
      omega
    rw [isEnd]
    exact ends.isNul
  · intro i less
    have position := toNat_add_ofNat start i (by omega)
    apply ends.first
    · rw [UInt32.le_iff_toNat_le]
      omega
    · rw [UInt32.lt_iff_toNat_lt]
      omega

theorem fetchstr_sound (user : curproc.sz.toNat < KERNBASE) {addr : UInt32}
    (success : 0 ≤ (fetchstr curproc addr).status) :
    (fetchstr curproc addr).stored = some addr ∧
      curproc.IsString addr (fetchstr curproc addr).status.toInt.toNat := by
  unfold fetchstr at success ⊢
  split at success
  · exact absurd success not_success
  · next inside =>
      rw [if_neg inside]
      cases found : findNul curproc.memory curproc.sz addr with
      | none =>
          rw [found] at success
          exact absurd success not_success
      | some s =>
          obtain ⟨below, ends⟩ := findNul_eq_some found
          have less := UInt32.lt_iff_toNat_lt.mp below
          have distance := UInt32.toNat_sub_of_le s addr ends.after
          refine ⟨rfl, ?_⟩
          dsimp only
          rw [toInt_toInt32 (by omega), Int.toNat_natCast, distance]
          exact isString_of_ends below ends

/-- `fetchstr` succeeds exactly when there is a zero byte before the end of the process. -/
theorem fetchstr_success (user : curproc.sz.toNat < KERNBASE) (addr : UInt32) :
    0 ≤ (fetchstr curproc addr).status ↔
      ∃ s, addr ≤ s ∧ s < curproc.sz ∧ curproc.memory s = 0 := by
  constructor
  · intro success
    obtain ⟨_, owned, isNul, _⟩ := fetchstr_sound user success
    have last := owned _ (Nat.lt_succ_self _)
    simp only [KERNBASE] at user
    have position := toNat_add_ofNat addr
      (fetchstr curproc addr).status.toInt.toNat (by omega)
    refine ⟨_, ?_, ?_, isNul⟩
    · rw [UInt32.le_iff_toNat_le]
      omega
    · rw [UInt32.lt_iff_toNat_lt]
      omega
  · rintro ⟨s, after, below, isNul⟩
    have inside : ¬ addr ≥ curproc.sz :=
      UInt32.not_le.mpr (UInt32.lt_of_le_of_lt after below)
    unfold fetchstr
    rw [if_neg inside]
    cases found : findNul curproc.memory curproc.sz addr with
    | none => exact absurd isNul (findNul_eq_none found after below)
    | some s =>
        obtain ⟨below, ends⟩ := findNul_eq_some found
        have less := UInt32.lt_iff_toNat_lt.mp below
        have distance := UInt32.toNat_sub_of_le s addr ends.after
        dsimp only
        rw [Int32.le_iff_toInt_le, toInt_toInt32 (by omega)]
        simp

theorem argstr_sound (user : curproc.sz.toNat < KERNBASE) {n : Int32}
    (success : 0 ≤ (argstr curproc n).status) :
    0 ≤ (argint curproc n).status ∧
      (argstr curproc n).stored = some (argblock curproc n) ∧
      curproc.IsString (argblock curproc n) (argstr curproc n).status.toInt.toNat := by
  unfold argstr at success ⊢
  rcases argint_cases curproc n with missing | found
  · rw [missing] at success
    exact absurd success not_success
  · rw [found] at success ⊢
    dsimp only at success ⊢
    rw [if_neg (by decide)] at success ⊢
    exact ⟨by decide, fetchstr_sound user success⟩

/-- What a check of an argument accepts belongs to the process. -/
theorem pointer_checks_sound (curproc : Caller) (user : curproc.sz.toNat < KERNBASE) :
    (∀ addr, 0 ≤ (fetchint curproc addr).status → curproc.owns addr.toNat 4 ∧
      (fetchint curproc addr).stored = some (curproc.int addr)) ∧
    (∀ n, 0 ≤ (argint curproc n).status → curproc.owns (argaddr curproc n).toNat 4 ∧
      (argint curproc n).stored = some (curproc.int (argaddr curproc n))) ∧
    (∀ n size, 0 ≤ (argptr curproc n size).status →
      (argptr curproc n size).stored = some (argblock curproc n) ∧
      curproc.owns (argblock curproc n).toNat size.toInt.toNat) ∧
    (∀ n size, size < 0 → (argptr curproc n size).status = -1) ∧
    (∀ n, 0 ≤ (argstr curproc n).status →
      (argstr curproc n).stored = some (argblock curproc n) ∧
      curproc.IsString (argblock curproc n) (argstr curproc n).status.toInt.toNat) ∧
    (∀ addr, 0 ≤ (fetchstr curproc addr).status ↔
      ∃ s, addr ≤ s ∧ s < curproc.sz ∧ curproc.memory s = 0) ∧
    (∀ addr, 0 ≤ (fetchstr curproc addr).status →
      (fetchstr curproc addr).stored = some addr ∧
      curproc.IsString addr (fetchstr curproc addr).status.toInt.toNat) := by
  refine ⟨fun _ => fetchint_sound user, fun _ => argint_sound user, ?_,
    fun n _ => argptr_negative curproc n, ?_, fetchstr_success user, fun _ => fetchstr_sound user⟩
  · intro n size success
    exact (argptr_sound user success).2
  · intro n success
    exact (argstr_sound user success).2

/-- A process with a string of two characters at address 3. -/
def twoCharacters : Caller :=
  { sz := 4096, esp := 2048, memory := fun addr => if addr = 5 then 0 else 97 }

theorem pointer_checks_sound_twoCharacters :
    0 ≤ (fetchstr twoCharacters 3).status ∧
      twoCharacters.IsString 3 (fetchstr twoCharacters 3).status.toInt.toNat ∧
      (argptr twoCharacters 0 (-1)).status = -1 := by
  obtain ⟨-, -, -, negative, -, succeeds, string⟩ :=
    pointer_checks_sound twoCharacters (by decide)
  have success := (succeeds 3).mpr ⟨5, by decide, by decide, by decide⟩
  exact ⟨success, (string 3 success).2, negative 0 (-1) (by decide)⟩

end Coursework.UserPointers
