import Coursework.ByteMemory
import Coursework.KernelParam
import Coursework.LoopRuns

/-!
# The scan of the multiprocessor table

`mpinit` walks through the entries of the table that `mpconfig` has accepted.  The type of an
entry says how far the next one is.  At a type that it does not know the scan only notes that the
machine is unsuitable; the `break` leaves the `switch` and not the loop, and the cursor stays
where it is, so the scan comes to the same entry for ever.

An entry is given by its offset in the table.  Pointers wrap, so a table at the end of the
address space can be scanned differently than it reads: the cursor wraps past the end of the
table if the walk through the entries leaves the address space and the end of the table does
not.  Without such a wrap and without an unknown type the cursor is always at the offset of
the walk, which goes up to the end of the table.
-/

namespace Coursework.MpTable

/-- The number of processors that the kernel has room for. -/
def NCPU : Nat := 8

/-- `P2V`. -/
def P2V (a : Nat) : Nat := (a + 0x80000000) % UINT

def byteAt (memory : ByteMemory) (addr : Nat) : UInt8 := memory (addr % UINT)

def ushortAt (memory : ByteMemory) (addr : Nat) : Nat :=
  (byteAt memory addr).toNat + (byteAt memory (addr + 1)).toNat * 256

def uintAt (memory : ByteMemory) (addr : Nat) : Nat :=
  ushortAt memory addr + ushortAt memory (addr + 2) * 65536

/-- `sum`. -/
def sum (memory : ByteMemory) (addr : Nat) : Nat → UInt8
  | 0 => 0
  | len + 1 => sum memory addr len + byteAt memory (addr + len)

/-- `memcmp` of four bytes with a signature. -/
def hasSignature (memory : ByteMemory) (addr : Nat) (signature : List UInt8) : Bool :=
  (List.range 4).map (fun i => byteAt memory (addr + i)) = signature

/-- `"_MP_"`. -/
def mpSignature : List UInt8 := [0x5f, 0x4d, 0x50, 0x5f]

/-- `"PCMP"`. -/
def confSignature : List UInt8 := [0x50, 0x43, 0x4d, 0x50]

/-- The loop of `mpsearch1`, which goes up by the size of the structure. -/
def searchFrom (memory : ByteMemory) (e p : Nat) : Option Nat :=
  if p < e then
    if hasSignature memory p mpSignature ∧ sum memory p 16 = 0 then some p
    else searchFrom memory e (p + 16)
  else none
termination_by e - p

/-- `mpsearch1`. -/
def mpsearch1 (memory : ByteMemory) (a len : Nat) : Option Nat :=
  searchFrom memory (P2V a + len) (P2V a)

/-- `mpsearch`. -/
def mpsearch (memory : ByteMemory) : Option Nat :=
  let bda := P2V 0x400
  let p := ushortAt memory (bda + 0x0e) * 16
  let first :=
    if p ≠ 0 then mpsearch1 memory p 1024
    else mpsearch1 memory
      ((ushortAt memory (bda + 0x13) * 1024 + UINT - 1024) % UINT) 1024
  match first with
  | some mp => some mp
  | none => mpsearch1 memory 0xf0000 0x10000

/-- The pointer `physaddr` of the structure at `mp`. -/
def physaddr (memory : ByteMemory) (mp : Nat) : Nat := uintAt memory (mp + 4)

/-- The length of the table at `conf`. -/
def confLength (memory : ByteMemory) (conf : Nat) : Nat := ushortAt memory (conf + 4)

/-- `mpconfig`: the structure and the table. -/
def mpconfig (memory : ByteMemory) : Option (Nat × Nat) :=
  match mpsearch memory with
  | none => none
  | some mp =>
      if physaddr memory mp = 0 then none
      else
        let conf := P2V (physaddr memory mp)
        let version := byteAt memory (conf + 6)
        if ¬ hasSignature memory conf confSignature then none
        else if version ≠ 1 ∧ version ≠ 4 then none
        else if sum memory conf (confLength memory conf) ≠ 0 then none
        else some (mp, conf)

/-- What the scan keeps: its cursor, the processors and the last I/O APIC it has seen. -/
structure Scan where
  p : Nat
  ismp : Bool
  lapic : Nat
  cpus : List UInt8
  ioapicid : UInt8

inductive Stop where
  | expectSmp
  | unsuitable
  | outOfFuel
  deriving DecidableEq

/-- The body of the loop. -/
def scanEntry (memory : ByteMemory) (scan : Scan) : Scan :=
  let type := (byteAt memory scan.p).toNat
  let operand := byteAt memory (scan.p + 1)
  if type = 0 then
    { scan with
      cpus := if scan.cpus.length < NCPU then scan.cpus ++ [operand] else scan.cpus
      p := (scan.p + 20) % UINT }
  else if type = 2 then { scan with ioapicid := operand, p := (scan.p + 8) % UINT }
  else if type = 1 ∨ type = 3 ∨ type = 4 then { scan with p := (scan.p + 8) % UINT }
  else { scan with ismp := false }

/-- The end of the table, as the loop computes it. -/
def tableEnd (memory : ByteMemory) (conf : Nat) : Nat := (conf + confLength memory conf) % UINT

def scanned (memory : ByteMemory) (conf : Nat) (scan : Scan) : Bool :=
  !decide (scan.p < tableEnd memory conf)

def scanStart (memory : ByteMemory) (conf : Nat) : Scan where
  p := (conf + 44) % UINT
  ismp := true
  lapic := uintAt memory (conf + 36)
  cpus := []
  ioapicid := 0

/-- `mpinit`: what the scan has left, and whether the interrupt mode is switched. -/
def mpinit (fuel : Nat) (memory : ByteMemory) : Except Stop (Scan × Bool) :=
  match mpconfig memory with
  | none => .error .expectSmp
  | some (mp, conf) =>
      match loop (scanned memory conf) (fun scan => .ok (scanEntry memory scan)) .outOfFuel fuel
          (scanStart memory conf) with
      | .error stop => .error stop
      | .ok last =>
          if last.ismp then .ok (last, byteAt memory (mp + 12) ≠ 0) else .error .unsuitable

/-- The size of an entry of some type, if the type is known. -/
def entrySize (type : UInt8) : Option Nat :=
  if type.toNat = 0 then some 20 else if type.toNat ≤ 4 then some 8 else none

/-- The offsets that the entries of a table lead to, with the one behind the last entry. -/
inductive Walked (memory : ByteMemory) (conf : Nat) : Nat → Prop
  | start : Walked memory conf 44
  | next {offset size : Nat} : Walked memory conf offset → offset < confLength memory conf →
      entrySize (byteAt memory (conf + offset)) = some size →
      Walked memory conf (offset + size)

/-- Some entry of the table has an unknown type. -/
def HasUnknown (memory : ByteMemory) (conf : Nat) : Prop :=
  ∃ offset, Walked memory conf offset ∧ offset < confLength memory conf ∧
    entrySize (byteAt memory (conf + offset)) = none

/-- If the table ends within the address space, then so does the walk through its entries. -/
def NeverWraps (memory : ByteMemory) (conf : Nat) : Prop :=
  conf + confLength memory conf < UINT → ∀ offset, Walked memory conf offset →
    conf + offset < UINT

/-- The states in which the loop tests its condition. -/
abbrev Scanning (memory : ByteMemory) (conf : Nat) : Scan → Prop :=
  Visits (scanned memory conf) (fun scan => (.ok (scanEntry memory scan) : Except Stop Scan))
    (scanStart memory conf)

/-- The scan of an accepted table at `conf` as it should be. -/
structure ScanCorrect (memory : ByteMemory) (conf : Nat) : Prop where
  terminates : ∃ fuel, mpinit fuel memory ≠ .error .outOfFuel
  headersInside : ∀ scan, Scanning memory conf scan → scan.p < tableEnd memory conf →
    (scan.p + UINT - conf) % UINT < confLength memory conf
  processors : ∀ scan, Scanning memory conf scan → scan.cpus.length ≤ NCPU
  panics : (∃ fuel, mpinit fuel memory = .error .unsuitable) ↔ HasUnknown memory conf

variable {memory : ByteMemory} {mp conf : Nat} {scan after : Scan}

theorem ushortAt_lt (addr : Nat) : ushortAt memory addr < 65536 := by
  have low := (byteAt memory addr).toNat_lt
  have high := (byteAt memory (addr + 1)).toNat_lt
  unfold ushortAt
  omega

theorem conf_lt (accepted : mpconfig memory = some (mp, conf)) : conf < UINT := by
  unfold mpconfig at accepted
  split at accepted
  · cases accepted
  · dsimp only at accepted
    split_ifs at accepted
    cases accepted
    exact Nat.mod_lt _ (by decide)

/-- An entry of a known type moves the cursor behind it. -/
theorem scanEntry_known {size : Nat} (known : entrySize (byteAt memory scan.p) = some size) :
    (scanEntry memory scan).p = (scan.p + size) % UINT ∧
      (scanEntry memory scan).ismp = scan.ismp := by
  unfold entrySize at known
  unfold scanEntry
  dsimp only
  by_cases isProc : (byteAt memory scan.p).toNat = 0
  · rw [if_pos isProc] at known ⊢
    cases known
    exact ⟨rfl, rfl⟩
  · rw [if_neg isProc] at known ⊢
    split_ifs at known
    cases known
    split_ifs with isIoapic isOther
    · exact ⟨rfl, rfl⟩
    · exact ⟨rfl, rfl⟩
    · omega

/-- An entry of an unknown type leaves the cursor where it is. -/
theorem scanEntry_unknown (unknown : entrySize (byteAt memory scan.p) = none) :
    scanEntry memory scan = { scan with ismp := false } := by
  unfold entrySize at unknown
  split_ifs at unknown with isProc isKnown
  unfold scanEntry
  dsimp only
  rw [if_neg isProc, if_neg (by omega), if_neg (by omega)]

theorem scanEntry_cpus (bounded : scan.cpus.length ≤ NCPU) :
    (scanEntry memory scan).cpus.length ≤ NCPU := by
  unfold scanEntry
  dsimp only
  split_ifs with isProc hasRoom
  · rw [List.length_append]
    exact hasRoom
  all_goals exact bounded

theorem scanning_processors (scanning : Scanning memory conf scan) :
    scan.cpus.length ≤ NCPU := by
  induction scanning with
  | start => exact Nat.zero_le NCPU
  | next _ _ isEntry ih =>
      cases isEntry
      exact scanEntry_cpus ih

/-- Once the scan has met an unknown type it stays at this entry. -/
theorem scanning_stuck (scanning : Scanning memory conf scan) (unsuitable : scan.ismp = false) :
    scan.p < tableEnd memory conf ∧ entrySize (byteAt memory scan.p) = none := by
  induction scanning with
  | start => cases unsuitable
  | @next state _ _ unfinished isEntry ih =>
      cases isEntry
      have inside : state.p < tableEnd memory conf := by simpa [scanned] using unfinished
      cases isKnown : entrySize (byteAt memory state.p) with
      | some size =>
          rw [(scanEntry_known isKnown).2] at unsuitable
          have unknown := (ih unsuitable).2
          rw [isKnown] at unknown
          cases unknown
      | none =>
          rw [scanEntry_unknown isKnown]
          exact ⟨inside, isKnown⟩

/-- The scan never comes to the panic. -/
theorem never_unsuitable (fuel : Nat) : mpinit fuel memory ≠ .error .unsuitable := by
  intro isUnsuitable
  unfold mpinit at isUnsuitable
  split at isUnsuitable
  · cases isUnsuitable
  · next mp conf _ =>
      split at isUnsuitable
      · next stop fails =>
          rw [loop_error (fun scan => ⟨_, rfl⟩) fails] at isUnsuitable
          cases isUnsuitable
      · next last ends =>
          obtain ⟨scanning, isLast⟩ := Visits.of_loop ends
          have outside : ¬ last.p < tableEnd memory conf := by simpa [scanned] using isLast
          split_ifs at isUnsuitable with isSuitable
          exact outside (scanning_stuck scanning (by simpa using isSuitable)).1

/-- The offset of a cursor in the table. -/
theorem offset_of_cursor {offset : Nat} (confLt : conf < UINT) (small : offset < UINT) :
    ((conf + offset) % UINT + UINT - conf) % UINT = offset := by
  unfold UINT at *
  omega

/-- A cursor in front of the end of the table is at an offset in the table, unless it has
wrapped. -/
theorem inside_of_cursor {offset : Nat} (confLt : conf < UINT)
    (never : conf + confLength memory conf < UINT → conf + offset < UINT)
    (small : offset < 131072)
    (inside : (conf + offset) % UINT < tableEnd memory conf) :
    offset < confLength memory conf := by
  have lengthLt : confLength memory conf < 65536 := ushortAt_lt _
  unfold tableEnd at inside
  unfold UINT at *
  omega

theorem entrySize_bounds {type : UInt8} {size : Nat} (known : entrySize type = some size) :
    0 < size ∧ size ≤ 20 := by
  unfold entrySize at known
  split_ifs at known <;> cases known <;> omega

theorem walked_lt {offset : Nat} (walked : Walked memory conf offset) : offset < 131072 := by
  have lengthLt : confLength memory conf < 65536 := ushortAt_lt _
  cases walked with
  | start => decide
  | next _ inside known =>
      have bounds := entrySize_bounds known
      omega

/-- How far the cursor is from the largest offset. -/
def remaining (conf : Nat) (scan : Scan) : Nat := 131072 - (scan.p + UINT - conf) % UINT

section Suitable

variable (confLt : conf < UINT) (allKnown : ¬ HasUnknown memory conf)
  (neverWraps : NeverWraps memory conf)

include confLt allKnown neverWraps

/-- What the scan does with the entry at an offset of the walk. -/
theorem scanEntry_walked {offset : Nat} (walked : Walked memory conf offset)
    (isCursor : scan.p = (conf + offset) % UINT)
    (unfinished : scanned memory conf scan = false) :
    ∃ size, Walked memory conf (offset + size) ∧ 0 < size ∧
      (scanEntry memory scan).p = (conf + (offset + size)) % UINT ∧
      (scanEntry memory scan).ismp = scan.ismp := by
  have inside : offset < confLength memory conf := by
    apply inside_of_cursor confLt (fun fits => neverWraps fits offset walked) (walked_lt walked)
    rw [← isCursor]
    simpa [scanned] using unfinished
  have sameByte : byteAt memory scan.p = byteAt memory (conf + offset) := by
    rw [isCursor, byteAt, byteAt, Nat.mod_mod]
  cases isKnown : entrySize (byteAt memory (conf + offset)) with
  | none => exact absurd ⟨offset, walked, inside, isKnown⟩ allKnown
  | some size =>
      have moved := @scanEntry_known memory scan size (sameByte ▸ isKnown)
      refine ⟨size, .next walked inside isKnown, (entrySize_bounds isKnown).1, ?_, moved.2⟩
      rw [moved.1, isCursor, Nat.mod_add_mod, Nat.add_assoc]

/-- The cursor follows the walk through the entries. -/
theorem scanning_walked (scanning : Scanning memory conf scan) : scan.ismp = true ∧
    ∃ offset, Walked memory conf offset ∧ scan.p = (conf + offset) % UINT := by
  induction scanning with
  | start => exact ⟨rfl, 44, .start, rfl⟩
  | next _ unfinished isEntry ih =>
      cases isEntry
      obtain ⟨isSuitable, offset, walked, isCursor⟩ := ih
      obtain ⟨size, nextWalked, -, nextCursor, sameIsmp⟩ :=
        scanEntry_walked confLt allKnown neverWraps walked isCursor unfinished
      exact ⟨sameIsmp.trans isSuitable, offset + size, nextWalked, nextCursor⟩

theorem scanning_inside (scanning : Scanning memory conf scan)
    (inside : scan.p < tableEnd memory conf) :
    (scan.p + UINT - conf) % UINT < confLength memory conf := by
  obtain ⟨-, offset, walked, isCursor⟩ := scanning_walked confLt allKnown neverWraps scanning
  have small := walked_lt walked
  rw [isCursor] at inside ⊢
  rw [offset_of_cursor confLt (Nat.lt_trans small (by decide))]
  exact inside_of_cursor confLt (fun fits => neverWraps fits offset walked) small inside

/-- Each entry brings the cursor closer to the largest offset. -/
theorem scanning_progress (scanning : Scanning memory conf scan)
    (unfinished : scanned memory conf scan = false) :
    remaining conf (scanEntry memory scan) < remaining conf scan := by
  obtain ⟨-, offset, walked, isCursor⟩ := scanning_walked confLt allKnown neverWraps scanning
  obtain ⟨size, nextWalked, sizePos, nextCursor, -⟩ :=
    scanEntry_walked confLt allKnown neverWraps walked isCursor unfinished
  have small := walked_lt walked
  have nextSmall := walked_lt nextWalked
  rw [remaining, remaining, isCursor, nextCursor, offset_of_cursor confLt (Nat.lt_trans small (by decide)),
    offset_of_cursor confLt (Nat.lt_trans nextSmall (by decide))]
  omega

theorem mpinit_ends (accepted : mpconfig memory = some (mp, conf)) :
    ∃ fuel last, mpinit fuel memory = .ok last := by
  obtain ⟨last, scanning, -, ends⟩ := loop_ends Stop.outOfFuel
    (fun scan scanning unfinished => (⟨scanEntry memory scan, rfl,
      scanning_progress confLt allKnown neverWraps scanning unfinished⟩ :
        ∃ after, Except.ok (scanEntry memory scan) = Except.ok after ∧
          remaining conf after < remaining conf scan))
  have isSuitable := (scanning_walked confLt allKnown neverWraps scanning).1
  refine ⟨131073, (last, byteAt memory (mp + 12) ≠ 0), ?_⟩
  rw [mpinit, accepted]
  simp only [ends 131073 (Nat.lt_succ_of_le (Nat.sub_le _ _)), isSuitable, if_true]

end Suitable

section Inside

variable (confLt : conf < UINT)
  (headersInside : ∀ scan, Scanning memory conf scan → scan.p < tableEnd memory conf →
    (scan.p + UINT - conf) % UINT < confLength memory conf)
  (fits : conf + confLength memory conf < UINT)

include confLt headersInside fits

/-- A cursor that has just wrapped would be in front of the end of the table. -/
theorem cursor_fits {offset : Nat} (scanning : Scanning memory conf scan)
    (isCursor : scan.p = (conf + offset) % UINT) (small : offset < 131072)
    (near : conf + offset < UINT + 44)
    (endNear : UINT ≤ conf + offset → UINT ≤ conf + confLength memory conf + 44) :
    conf + offset < UINT := by
  by_contra wrapped
  have nearEnd := endNear (Nat.le_of_not_lt wrapped)
  have inside := headersInside scan scanning
  rw [isCursor, tableEnd, Nat.mod_eq_of_lt fits,
    offset_of_cursor confLt (Nat.lt_trans small (by decide))] at inside
  unfold UINT at *
  omega

/-- The scan follows the walk, which does not wrap. -/
theorem follows_walk {offset : Nat} (walked : Walked memory conf offset) :
    conf + offset < UINT ∧ ∃ scan, Scanning memory conf scan ∧ scan.p = conf + offset := by
  induction walked with
  | start =>
      have isFits : conf + 44 < UINT :=
        cursor_fits confLt headersInside fits .start rfl (by decide) (by omega) (by omega)
      exact ⟨isFits, _, .start, Nat.mod_eq_of_lt isFits⟩
  | @next offset size walked inside isKnown ih =>
      obtain ⟨offsetFits, scan, scanning, isCursor⟩ := ih
      have bounds := entrySize_bounds isKnown
      have unfinished : scanned memory conf scan = false := by
        simp [scanned, isCursor, tableEnd, Nat.mod_eq_of_lt fits, inside]
      have moved := @scanEntry_known memory scan size (isCursor ▸ isKnown)
      rw [isCursor, Nat.add_assoc] at moved
      have nextScanning : Scanning memory conf (scanEntry memory scan) :=
        .next scanning unfinished rfl
      have isFits : conf + (offset + size) < UINT :=
        cursor_fits confLt headersInside fits nextScanning moved.1
          (walked_lt (.next walked inside isKnown)) (by omega) (by omega)
      exact ⟨isFits, _, nextScanning, moved.1.trans (Nat.mod_eq_of_lt isFits)⟩

end Inside

/-- The scan of an accepted table is correct exactly if no entry has an unknown type and the
walk through the entries does not wrap while the table does not. -/
theorem scanCorrect_iff (memory : ByteMemory) (mp conf : Nat)
    (accepted : mpconfig memory = some (mp, conf)) :
    ScanCorrect memory conf ↔ ¬ HasUnknown memory conf ∧ NeverWraps memory conf := by
  have confLt := conf_lt accepted
  constructor
  · intro correct
    constructor
    · intro hasUnknown
      obtain ⟨fuel, isUnsuitable⟩ := correct.panics.mpr hasUnknown
      exact never_unsuitable fuel isUnsuitable
    · intro fits offset walked
      exact (follows_walk confLt correct.headersInside fits walked).1
  · rintro ⟨allKnown, neverWraps⟩
    obtain ⟨fuel, last, ends⟩ := mpinit_ends confLt allKnown neverWraps accepted
    refine ⟨⟨fuel, by simp [ends]⟩, ?_, ?_, ?_⟩
    · exact fun scan scanning => scanning_inside confLt allKnown neverWraps scanning
    · exact fun scan scanning => scanning_processors scanning
    · exact iff_of_false (fun ⟨fuel, isUnsuitable⟩ => never_unsuitable fuel isUnsuitable) allKnown

/-- A firmware with a table of one entry. -/
def firmware (type : UInt8) : ByteMemory :=
  let bda := ByteMemory.store (fun _ => 0) (P2V 0x40e) [0, 0x90]
  let mp := bda.store (P2V 0x90000) (mpSignature ++ [0, 1, 9, 0, 1, 4, 150, 0, 0, 0, 0, 0])
  mp.store (P2V 0x90100)
    (confSignature ++ [52, 0, 4, 152 - type] ++ List.replicate 36 0 ++ [type, 0, 0, 0, 0, 0, 0, 0])

theorem searchFrom_found {e p : Nat} (inside : p < e)
    (found : hasSignature memory p mpSignature = true ∧ sum memory p 16 = 0) :
    searchFrom memory e p = some p := by
  rw [searchFrom, if_pos inside, if_pos found]

theorem mpconfig_firmware {type : UInt8} (isType : type = 1 ∨ type = 5) :
    mpconfig (firmware type) = some (P2V 0x90000, P2V 0x90100) := by
  have search : mpsearch (firmware type) = some (P2V 0x90000) := by
    have isArea : ushortAt (firmware type) (P2V 0x400 + 0x0e) * 16 = 0x90000 := by
      rcases isType with rfl | rfl <;> decide +kernel
    have found : mpsearch1 (firmware type) 0x90000 1024 = some (P2V 0x90000) :=
      searchFrom_found (by decide) (by rcases isType with rfl | rfl <;> decide +kernel)
    simp only [mpsearch, isArea, found]
    rfl
  rw [mpconfig, search]
  rcases isType with rfl | rfl <;> decide +kernel

theorem scanCorrect_iff_bus :
    ScanCorrect (firmware 1) (P2V 0x90100) ↔
      ¬ HasUnknown (firmware 1) (P2V 0x90100) ∧ NeverWraps (firmware 1) (P2V 0x90100) :=
  scanCorrect_iff (firmware 1) (P2V 0x90000) (P2V 0x90100) (mpconfig_firmware (Or.inl rfl))

/-- An accepted table with an unknown type, which never leads to the panic. -/
theorem firmware_unknown :
    mpconfig (firmware 5) = some (P2V 0x90000, P2V 0x90100) ∧
      ¬ ScanCorrect (firmware 5) (P2V 0x90100) := by
  refine ⟨mpconfig_firmware (Or.inr rfl), fun correct => ?_⟩
  have hasUnknown : HasUnknown (firmware 5) (P2V 0x90100) :=
    ⟨44, .start, by decide +kernel, by decide +kernel⟩
  obtain ⟨fuel, isUnsuitable⟩ := correct.panics.mpr hasUnknown
  exact never_unsuitable fuel isUnsuitable

end Coursework.MpTable
