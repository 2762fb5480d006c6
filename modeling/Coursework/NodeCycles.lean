import Mathlib.Data.List.Nodup
import Mathlib.Dynamics.PeriodicPts.Defs

/-!
# Cycles of nodes

A cycle is a list of nodes of which each leads to the one after it, and the last to the
first.  From every node of a cycle every other one is reached within one round, so a walk
that looks for a node of the cycle finds one.
-/

namespace Coursework

variable {Node : Type*}

/-- Each node leads to the next one, the last one to the first one. -/
def Cyclic (next : Node → Node) (nodes : List Node) : Prop :=
  ∀ i node, nodes[i]? = some node → nodes[(i + 1) % nodes.length]? = some (next node)

/-- The first node that passes a test, of at most `fuel` nodes. -/
def walkUntil (test : Node → Bool) (next : Node → Node) : Nat → Node → Option Node
  | 0, _ => none
  | fuel + 1, node => if test node then some node else walkUntil test next fuel (next node)

theorem walkUntil_spec {test : Node → Bool} {next : Node → Node} {fuel : Nat} {node found : Node}
    (walks : walkUntil test next fuel node = some found) :
    test found = true ∧ ∃ k, next^[k] node = found := by
  induction fuel generalizing node with
  | zero => cases walks
  | succ fuel ih =>
      rw [walkUntil] at walks
      split at walks
      · next passes =>
          cases walks
          exact ⟨passes, 0, rfl⟩
      · obtain ⟨passes, k, isFound⟩ := ih walks
        exact ⟨passes, k + 1, isFound⟩

/-- More fuel does not change the node that is found. -/
theorem walkUntil_mono {test : Node → Bool} {next : Node → Node} {fuel more : Nat}
    {node found : Node} (walks : walkUntil test next fuel node = some found)
    (enough : fuel ≤ more) : walkUntil test next more node = some found := by
  induction fuel generalizing node more with
  | zero => cases walks
  | succ fuel ih =>
      obtain ⟨more, rfl⟩ := Nat.exists_eq_add_one.mpr (Nat.zero_lt_of_lt enough)
      rw [walkUntil] at walks ⊢
      split at walks
      · next passes => rw [if_pos passes, walks]
      · next fails =>
          rw [if_neg fails]
          exact ih walks (Nat.le_of_succ_le_succ enough)

theorem walkUntil_ends (test : Node → Bool) (next : Node → Node) (k : Nat) (node : Node)
    (passes : test (next^[k] node) = true) :
    ∃ found, ∀ fuel, k < fuel → walkUntil test next fuel node = some found := by
  induction k generalizing node with
  | zero =>
      refine ⟨node, fun fuel enough => ?_⟩
      obtain ⟨fuel, rfl⟩ := Nat.exists_eq_add_one.mpr enough
      exact if_pos passes
  | succ k ih =>
      by_cases here : test node = true
      · refine ⟨node, fun fuel enough => ?_⟩
        obtain ⟨fuel, rfl⟩ := Nat.exists_eq_add_one.mpr (Nat.zero_lt_of_lt enough)
        exact if_pos here
      · obtain ⟨found, ends⟩ := ih (next node) passes
        refine ⟨found, fun fuel enough => ?_⟩
        obtain ⟨fuel, rfl⟩ := Nat.exists_eq_add_one.mpr (Nat.zero_lt_of_lt enough)
        rw [walkUntil, if_neg here]
        exact ends fuel (by omega)

namespace Cyclic

variable {next : Node → Node} {nodes : List Node} {node other : Node}

theorem iterate (cyclic : Cyclic next nodes) {i : Nat} (isNode : nodes[i]? = some node)
    (k : Nat) : nodes[(i + k) % nodes.length]? = some (next^[k] node) := by
  induction k with
  | zero =>
      obtain ⟨inside, -⟩ := List.getElem?_eq_some_iff.mp isNode
      rw [Nat.add_zero, Nat.mod_eq_of_lt inside]
      exact isNode
  | succ k ih =>
      have later := cyclic _ _ ih
      rw [Nat.mod_add_mod, Nat.add_assoc] at later
      rw [later, Function.iterate_succ_apply']

theorem next_mem (cyclic : Cyclic next nodes) (member : node ∈ nodes) : next node ∈ nodes := by
  obtain ⟨i, isNode⟩ := List.mem_iff_getElem?.mp member
  exact List.mem_of_getElem? (cyclic i node isNode)

theorem iterate_mem (cyclic : Cyclic next nodes) (member : node ∈ nodes) (k : Nat) :
    next^[k] node ∈ nodes := by
  obtain ⟨i, isNode⟩ := List.mem_iff_getElem?.mp member
  exact List.mem_of_getElem? (cyclic.iterate isNode k)

/-- Every node is reached within one round. -/
theorem reach (cyclic : Cyclic next nodes) (member : node ∈ nodes) (isOther : other ∈ nodes) :
    ∃ k < nodes.length, next^[k] node = other := by
  obtain ⟨i, isNode⟩ := List.mem_iff_getElem?.mp member
  obtain ⟨j, isEnd⟩ := List.mem_iff_getElem?.mp isOther
  obtain ⟨inside, -⟩ := List.getElem?_eq_some_iff.mp isNode
  obtain ⟨otherInside, -⟩ := List.getElem?_eq_some_iff.mp isEnd
  obtain ⟨k, less, lands⟩ : ∃ k < nodes.length, (i + k) % nodes.length = j := by
    by_cases before : i ≤ j
    · refine ⟨j - i, by omega, ?_⟩
      rw [show i + (j - i) = j by omega, Nat.mod_eq_of_lt otherInside]
    · refine ⟨nodes.length - i + j, by omega, ?_⟩
      rw [show i + (nodes.length - i + j) = j + nodes.length by omega, Nat.add_mod_right,
        Nat.mod_eq_of_lt otherInside]
  refine ⟨k, less, ?_⟩
  have after := cyclic.iterate isNode k
  rw [lands, isEnd] at after
  exact (Option.some.inj after).symm

/-- A walk through the cycle meets all nodes before it comes back. -/
theorem meets (cyclic : Cyclic next nodes) (member : node ∈ nodes) (isOther : other ∈ nodes)
    {k : Nat} (back : next^[k + 1] node = node) : ∃ j ≤ k, next^[j + 1] node = other := by
  obtain ⟨n, -, isEnd⟩ := cyclic.reach member isOther
  have periodic : Function.IsPeriodicPt next (k + 1) node := back
  have shorter : next^[n % (k + 1)] node = other := by
    rw [periodic.iterate_mod_apply, isEnd]
  have less : n % (k + 1) < k + 1 := Nat.mod_lt n (Nat.succ_pos k)
  cases isRest : n % (k + 1) with
  | zero =>
      refine ⟨k, Nat.le_refl k, ?_⟩
      rw [isRest] at shorter
      exact back.trans shorter
  | succ j =>
      refine ⟨j, by omega, ?_⟩
      rw [← isRest]
      exact shorter

end Cyclic

end Coursework
