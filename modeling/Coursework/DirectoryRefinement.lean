import Coursework.DirectoryReferences
import Coursework.LedgerExactness

/-!
# The ledger of the directory calls

The references that the processes and the open files hold, added up, make the
state of the directory calls a ledger.  What a process knows while it is between
two locks stays true because others take the lock first, or because the
references it holds keep the inodes from being freed.
-/

namespace Coursework.Directory

open FileSystem (FileType)

/-! ## What a process has to do -/

/-- The link counts that the process has to settle. -/
def Pc.pending : Pc → List Inum
  | .walk lookup _ _ | .resolved lookup _ _ => lookup.target
  | .unlinkCleared ip | .linkExists _ ip | .undo ip => [ip]
  | _ => []

/-- The inode that the process is making. -/
def Pc.making : Pc → List Inum
  | .creating _ _ ip _ => [ip]
  | _ => []

def Proc.pending (proc : Proc) (inum : Inum) : Nat := proc.pc.pending.count inum

def Proc.making (proc : Proc) (inum : Inum) : Nat := proc.pc.making.count inum

namespace State

variable {Pid : Type} [DecidableEq Pid] [Fintype Pid]

/-- The ledger of a state. -/
def ledger (state : State Pid) : Ledger Inum where
  type := state.type
  nlink := state.nlink
  entries := state.entries
  ref := state.ref
  valid := state.valid
  held := fun inum => tally Proc.held state.proc inum + state.opened inum
  dropping := tally Proc.dropping state.proc
  pending := tally Proc.pending state.proc
  making := tally Proc.making state.proc
  lost := state.history.lost
  attached := state.history.attached
  born := state.history.born
  clock := state.history.clock
  container := state.history.container

/-! ## What a process knows -/

def LookupFact (state : State Pid) : Lookup → Prop
  | .linkNew ip => state.type ip ≠ .dir
  | .create type => type ≠ .free
  | _ => True

def PcFact (state : State Pid) : Pc → Prop
  | .walk lookup _ _ => state.LookupFact lookup
  | .resolved lookup ip _ =>
      state.LookupFact lookup ∧ (lookup.nameiparent = true → state.type ip = .dir)
  | .unlinkFound dp off ip =>
      state.valid dp = true ∧ ∃ name, (state.entries dp)[off]? = some (some (name, ip)) ∧
        name ≠ dot ∧ name ≠ dotdot
  | .unlinkCleared ip => state.valid ip = true
  | .creating dp name ip type =>
      state.type ip = type ∧ type ≠ .free ∧ state.type dp = .dir ∧
        slotLookup name (state.entries dp) = none
  | .linkExists _ ip | .undo ip => state.type ip ≠ .dir
  | _ => True

/-- The invariant of careful runs, and of strict runs. -/
structure Inv (strict : Prop) (state : State Pid) : Prop extends Balanced state where
  sound : state.ledger.Sound rootInum
  exact : strict → state.ledger.Exact
  facts : ∀ pid, state.PcFact (state.proc pid).pc
  noType : state.panic ≠ some .noType

omit [DecidableEq Pid] in
theorem held_le (state : State Pid) (pid : Pid) (inum : Inum) :
    (state.proc pid).held inum ≤ state.ledger.held inum := by
  have := le_total (fun proc => proc.held inum) state.proc pid
  simp only [ledger, tally]
  omega

theorem count_making_le (pc : Pc) (inum : Inum) :
    pc.making.count inum ≤ pc.held.count inum := by
  cases pc with
  | creating dp name ip type => exact List.count_le_count_cons
  | _ => simp [Pc.making]

theorem making_le_held (proc : Proc) (inum : Inum) : proc.making inum ≤ proc.held inum := by
  have inside := count_making_le proc.pc inum
  simp only [Proc.making, Proc.held]
  omega

/-- A process that holds an inode it is not making holds one that is made. -/
theorem making_eq_zero {state : State Pid} (sound : state.ledger.Sound rootInum) {pid : Pid}
    {inum : Inum} (extra : (state.proc pid).making inum < (state.proc pid).held inum) :
    state.ledger.making inum = 0 := by
  by_contra isMade
  obtain ⟨one, -, -, held, -⟩ := sound.making inum (Nat.pos_of_ne_zero isMade)
  have room : total (fun proc => proc.making inum) state.proc + (state.proc pid).held inum ≤
      total (fun proc => proc.held inum) state.proc + (state.proc pid).making inum :=
    total_add_le (fun proc : Proc => proc.making inum) (fun proc : Proc => proc.held inum)
      (fun pid => making_le_held (state.proc pid) inum) pid
  have making : state.ledger.making inum = total (fun proc => proc.making inum) state.proc := rfl
  have total : state.ledger.held inum =
      total (fun proc => proc.held inum) state.proc + state.opened inum := rfl
  omega

omit [DecidableEq Pid] in
theorem alive_of_held {state : State Pid} (sound : state.ledger.Sound rootInum) {pid : Pid}
    {inum : Inum} (isHeld : 0 < (state.proc pid).held inum) : state.type inum ≠ .free :=
  sound.heldAlive inum (lt_of_lt_of_le isHeld (state.held_le pid inum))

/-! ## Moves -/

omit [DecidableEq Pid] [Fintype Pid] in
/-- What a process knows is about inodes that it holds or has locked. -/
theorem PcFact.stable {state after : State Pid} {pc : Pc} (fact : state.PcFact pc)
    (types : ∀ inum ∈ pc.held, after.type inum = state.type inum)
    (entries : ∀ inum, pc.lock = some inum → after.entries inum = state.entries inum)
    (valids : ∀ inum ∈ pc.held, state.valid inum = true → after.valid inum = true) :
    after.PcFact pc := by
  have lookups : ∀ lookup : Lookup,
      (∀ inum ∈ lookup.target, after.type inum = state.type inum) →
      state.LookupFact lookup → after.LookupFact lookup := by
    intro lookup same known
    cases lookup with
    | linkNew ip =>
        simp only [LookupFact] at known ⊢
        rw [same ip (by simp [Lookup.target])]
        exact known
    | create type => exact known
    | _ => trivial
  cases pc with
  | walk lookup ip path =>
      exact lookups lookup (fun inum member => types inum (by simp [Pc.held, member])) fact
  | resolved lookup ip name =>
      refine ⟨lookups lookup (fun inum member => types inum (by simp [Pc.held, member])) fact.1, ?_⟩
      rw [types ip (by simp [Pc.held])]
      exact fact.2
  | unlinkFound dp off ip =>
      refine ⟨valids dp (by simp [Pc.held]) fact.1, ?_⟩
      rw [entries dp rfl]
      exact fact.2
  | unlinkCleared ip => exact valids ip (by simp [Pc.held]) fact
  | creating dp name ip type =>
      simp only [PcFact] at fact ⊢
      rw [types ip (by simp [Pc.held]), types dp (by simp [Pc.held]), entries dp rfl]
      exact fact
  | linkExists dp ip =>
      simp only [PcFact] at fact ⊢
      rw [types ip (by simp [Pc.held])]
      exact fact
  | undo ip =>
      simp only [PcFact] at fact ⊢
      rw [types ip (by simp [Pc.held])]
      exact fact
  | _ => trivial

variable {strict : Prop} {state after : State Pid} {pid : Pid} {proc : Proc}

/-- A step of one process that follows transitions of the ledger and respects the locks of
others. -/
theorem Inv.move (inv : state.Inv strict) (balanced : after.Balanced)
    (isProc : after.proc = Function.update state.proc pid proc)
    (chain : Relation.ReflTransGen (Ledger.Step strict) state.ledger after.ledger)
    (types : ∀ inum, 0 < after.ledger.held inum → state.type inum ≠ .free →
      after.type inum = state.type inum)
    (entries : ∀ inum other, other ≠ pid → state.lock inum = some other →
      after.entries inum = state.entries inum)
    (valids : ∀ inum, 0 < after.ledger.held inum → 0 < state.ledger.held inum →
      state.valid inum = true → after.valid inum = true)
    (fact : after.PcFact proc.pc) (panic : after.panic = state.panic) : after.Inv strict := by
  have here : after.proc pid = proc := by rw [isProc, Function.update_self]
  have others : ∀ other, other ≠ pid → after.proc other = state.proc other := by
    intro other distinct
    rw [isProc, Function.update_of_ne distinct]
  have kept : after.ledger.Sound rootInum ∧ (strict → after.ledger.Exact) := by
    have both : ∀ last, Relation.ReflTransGen (Ledger.Step strict) state.ledger last →
        last.Sound rootInum ∧ (strict → last.Exact) := by
      intro last chain
      induction chain with
      | refl => exact ⟨inv.sound, inv.exact⟩
      | tail _ step ih =>
          exact ⟨ih.1.step step, fun isStrict => (ih.2 isStrict).step isStrict ih.1 step⟩
    exact both _ chain
  refine ⟨balanced, kept.1, kept.2, ?_, ?_⟩
  · intro other
    by_cases same : other = pid
    · subst same
      rw [here]
      exact fact
    · rw [others other same]
      have heldAfter : ∀ inum ∈ (state.proc other).pc.held, 0 < after.ledger.held inum := by
        intro inum member
        have le := after.held_le other inum
        rw [others other same] at le
        exact lt_of_lt_of_le (held_pos_of_mem member) le
      have heldBefore : ∀ inum ∈ (state.proc other).pc.held, 0 < state.ledger.held inum := by
        intro inum member
        exact lt_of_lt_of_le (held_pos_of_mem member) (state.held_le other inum)
      apply (inv.facts other).stable
      · intro inum member
        exact types inum (heldAfter inum member)
          (inv.sound.heldAlive inum (heldBefore inum member))
      · intro inum isLocked
        exact entries inum other same ((inv.locks inum other).mpr isLocked)
      · intro inum member
        exact valids inum (heldAfter inum member) (heldBefore inum member)
  · rw [panic]
    exact inv.noType

/-! ## The ledger of a move -/

omit [DecidableEq Pid] in
/-- What is counted is held or being dropped. -/
theorem Balanced.ledger_refs (balanced : state.Balanced) (inum : Inum) :
    state.ledger.ref inum = state.ledger.held inum + state.ledger.dropping inum := by
  have counted : state.ref inum = _ := balanced.refs inum
  have both : tally Proc.uses state.proc inum =
      tally Proc.held state.proc inum + tally Proc.dropping state.proc inum :=
    Finset.sum_add_distrib
  simp only [State.ledger]
  omega

omit [DecidableEq Pid] in
/-- The ledger of a state given by its fields and tallies.  What is held is what is counted and not
being dropped. -/
theorem ledger_eq {ledger : Ledger Inum} (balanced : after.Balanced)
    (refs : ∀ inum, ledger.ref inum = ledger.held inum + ledger.dropping inum)
    (type : after.type = ledger.type) (nlink : after.nlink = ledger.nlink)
    (entries : after.entries = ledger.entries) (ref : after.ref = ledger.ref)
    (valid : after.valid = ledger.valid)
    (history : after.history =
      ⟨ledger.lost, ledger.attached, ledger.born, ledger.clock, ledger.container⟩)
    (dropping : tally Proc.dropping after.proc = ledger.dropping)
    (pending : tally Proc.pending after.proc = ledger.pending)
    (making : tally Proc.making after.proc = ledger.making) : after.ledger = ledger := by
  have held : after.ledger.held = ledger.held := by
    funext inum
    have counted := balanced.ledger_refs inum
    have recorded := refs inum
    simp only [State.ledger, ref, dropping] at counted ⊢
    omega
  cases ledger
  simp only [State.ledger] at held ⊢
  simp_all

omit [DecidableEq Pid] in
/-- The ledger after a step that follows a transition. -/
theorem Inv.ledger_step (inv : state.Inv strict) {ledger : Ledger Inum}
    (step : Ledger.Step strict state.ledger ledger) (balanced : after.Balanced)
    (type : after.type = ledger.type) (nlink : after.nlink = ledger.nlink)
    (entries : after.entries = ledger.entries) (ref : after.ref = ledger.ref)
    (valid : after.valid = ledger.valid)
    (history : after.history =
      ⟨ledger.lost, ledger.attached, ledger.born, ledger.clock, ledger.container⟩)
    (dropping : tally Proc.dropping after.proc = ledger.dropping)
    (pending : tally Proc.pending after.proc = ledger.pending)
    (making : tally Proc.making after.proc = ledger.making) :
    Ledger.Step strict state.ledger after.ledger := by
  rw [ledger_eq balanced (inv.sound.step step).refs type nlink entries ref valid history dropping
    pending making]
  exact step

/-- What a process is dropping and has to settle does not change. -/
structure SameAccount (first second : Proc) : Prop where
  dropping : ∀ inum, first.dropping inum = second.dropping inum
  pending : ∀ inum, first.pending inum = second.pending inum
  making : ∀ inum, first.making inum = second.making inum

/-- A step that changes neither the ledger nor the inodes. -/
theorem Inv.quiet (inv : state.Inv strict) (balanced : after.Balanced)
    (isProc : after.proc = Function.update state.proc pid proc)
    (same : SameAccount proc (state.proc pid)) (fact : state.PcFact proc.pc)
    (ref : after.ref = state.ref) (type : after.type = state.type)
    (nlink : after.nlink = state.nlink) (entries : after.entries = state.entries)
    (valid : after.valid = state.valid) (history : after.history = state.history)
    (panic : after.panic = state.panic) : after.Inv strict := by
  have ledger : after.ledger = state.ledger :=
    ledger_eq balanced inv.sound.refs type nlink entries ref valid history
      (isProc ▸ tally_same same.dropping) (isProc ▸ tally_same same.pending)
      (isProc ▸ tally_same same.making)
  refine inv.move balanced isProc (ledger ▸ .refl) (fun inum _ _ => congrFun type inum)
    (fun inum _ _ _ => congrFun entries inum) (fun inum _ _ isRead => ?_) ?_ panic
  · rw [valid]
    exact isRead
  · exact fact.stable (fun inum _ => congrFun type inum) (fun inum _ => congrFun entries inum)
      fun inum _ isRead => by rw [valid]; exact isRead

end State

end Coursework.Directory
