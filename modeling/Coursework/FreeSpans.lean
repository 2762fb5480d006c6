import Mathlib.Data.List.Basic
import Mathlib.Tactic.Common

/-!
# Separated spans

A span is a range of addresses.  In a separated list every span stops before the next one
starts, with a gap in between.  A span that is put in front of a separated list and
touches its first span is joined with it; the joined list is separated again and
covers the same addresses.
-/

namespace Coursework

/-- The addresses from `start` up to `stop`. -/
structure Span where
  start : Nat
  stop : Nat
  deriving DecidableEq

namespace Span

def contains (span : Span) (addr : Nat) : Bool := span.start ≤ addr && addr < span.stop

@[simp]
theorem contains_iff {span : Span} {addr : Nat} :
    span.contains addr = true ↔ span.start ≤ addr ∧ addr < span.stop := by
  simp [contains]

/-- The number of spans that contain an address. -/
def cover (spans : List Span) (addr : Nat) : Nat := spans.countP fun span => span.contains addr

@[simp]
theorem cover_nil (addr : Nat) : cover [] addr = 0 := rfl

theorem cover_cons (span : Span) (spans : List Span) (addr : Nat) :
    cover (span :: spans) addr = cover spans addr + if span.contains addr then 1 else 0 :=
  List.countP_cons

theorem cover_append (first second : List Span) (addr : Nat) :
    cover (first ++ second) addr = cover first addr + cover second addr :=
  List.countP_append

theorem cover_pos {span : Span} {spans : List Span} {addr : Nat} (member : span ∈ spans)
    (inside : span.start ≤ addr ∧ addr < span.stop) : 0 < cover spans addr :=
  List.countP_pos_iff.mpr ⟨span, member, contains_iff.mpr inside⟩

theorem exists_of_cover_pos {spans : List Span} {addr : Nat} (covered : 0 < cover spans addr) :
    ∃ span ∈ spans, span.start ≤ addr ∧ addr < span.stop := by
  obtain ⟨span, member, inside⟩ := List.countP_pos_iff.mp covered
  exact ⟨span, member, contains_iff.mp inside⟩

/-- A span that is cut in two. -/
theorem cover_cut {start cut stop : Nat} (lower : start ≤ cut) (upper : cut ≤ stop)
    (spans : List Span) (addr : Nat) :
    cover (⟨start, stop⟩ :: spans) addr = cover (⟨start, cut⟩ :: ⟨cut, stop⟩ :: spans) addr := by
  simp only [cover_cons, contains_iff, Nat.add_assoc, Nat.add_left_cancel_iff]
  by_cases before : addr < cut
  · rw [if_neg (show ¬ (cut ≤ addr ∧ addr < stop) by omega), Nat.zero_add]
    exact if_congr (by omega) rfl rfl
  · rw [if_neg (show ¬ (start ≤ addr ∧ addr < cut) by omega), Nat.add_zero]
    exact if_congr (by omega) rfl rfl

/-- Every span stops before the next one starts. -/
structure Separated (spans : List Span) : Prop where
  apart : spans.Pairwise fun first second => first.stop < second.start
  proper : ∀ span ∈ spans, span.start ≤ span.stop

/-- Put a span in front, joined with the first span where they touch. -/
def join (span : Span) : List Span → List Span
  | [] => [span]
  | next :: rest =>
      if span.stop = next.start then ⟨span.start, next.stop⟩ :: rest else span :: next :: rest

theorem join_cons (span next : Span) (rest : List Span) : join span (next :: rest) =
    if span.stop = next.start then ⟨span.start, next.stop⟩ :: rest else span :: next :: rest := rfl

theorem cover_join {span : Span} {spans : List Span} (proper : span.start ≤ span.stop)
    (separated : Separated spans) (addr : Nat) :
    cover (join span spans) addr = cover (span :: spans) addr := by
  cases spans with
  | nil => rfl
  | cons next rest =>
      rw [join_cons]
      split
      · next touches =>
          have nextProper := separated.proper next List.mem_cons_self
          simp only [cover_cons, contains_iff]
          split_ifs <;> omega
      · rfl

theorem Separated.tail {span : Span} {spans : List Span} (separated : Separated (span :: spans)) :
    Separated spans :=
  ⟨(List.pairwise_cons.mp separated.apart).2, fun other member =>
    separated.proper other (List.mem_cons_of_mem _ member)⟩

theorem Separated.before {span other : Span} {spans : List Span}
    (separated : Separated (span :: spans)) (member : other ∈ spans) :
    span.stop < other.start :=
  (List.pairwise_cons.mp separated.apart).1 other member

/-- Two spans of a separated list do not touch. -/
theorem Separated.gap {spans : List Span} (separated : Separated spans) {first second : Span}
    (isFirst : first ∈ spans) (isSecond : second ∈ spans) :
    first = second ∨ first.stop < second.start ∨ second.stop < first.start := by
  induction spans with
  | nil => cases isFirst
  | cons span rest ih =>
      rcases List.mem_cons.mp isFirst with rfl | firstLater <;>
        rcases List.mem_cons.mp isSecond with rfl | secondLater
      · exact Or.inl rfl
      · exact Or.inr (Or.inl (separated.before secondLater))
      · exact Or.inr (Or.inr (separated.before firstLater))
      · exact ih separated.tail firstLater secondLater

theorem Separated.cons {span : Span} {spans : List Span} (separated : Separated spans)
    (proper : span.start ≤ span.stop) (before : ∀ other ∈ spans, span.stop < other.start) :
    Separated (span :: spans) := by
  refine ⟨List.pairwise_cons.mpr ⟨before, separated.apart⟩, ?_⟩
  intro other member
  rcases List.mem_cons.mp member with rfl | inRest
  · exact proper
  · exact separated.proper other inRest

theorem Separated.join {span : Span} {spans : List Span} (separated : Separated spans)
    (proper : span.start ≤ span.stop) (before : ∀ other ∈ spans, span.stop ≤ other.start) :
    Separated (join span spans) := by
  cases spans with
  | nil => exact separated.cons proper (by simp)
  | cons next rest =>
      have nextProper := separated.proper next List.mem_cons_self
      have first := before next List.mem_cons_self
      rw [join_cons]
      split
      · next touches =>
          refine separated.tail.cons ?_ ?_
          · simp only
            omega
          · exact fun other member => separated.before member
      · next apart =>
          refine separated.cons proper ?_
          intro other member
          rcases List.mem_cons.mp member with rfl | inRest
          · omega
          · have later := separated.before inRest
            omega

/-- A joined list starts where its span starts. -/
theorem start_of_mem_join {span other : Span} {spans : List Span}
    (before : ∀ later ∈ spans, span.start ≤ later.start) (member : other ∈ join span spans) :
    span.start ≤ other.start := by
  cases spans with
  | nil =>
      obtain rfl := List.mem_singleton.mp member
      exact Nat.le_refl _
  | cons next rest =>
      rw [join_cons] at member
      split at member
      · rcases List.mem_cons.mp member with rfl | inRest
        · exact Nat.le_refl _
        · exact before other (List.mem_cons_of_mem _ inRest)
      · rcases List.mem_cons.mp member with rfl | inRest
        · exact Nat.le_refl _
        · exact before other inRest

theorem join_eq_cons (span : Span) (spans : List Span) :
    ∃ first rest, join span spans = first :: rest ∧ first.start = span.start := by
  cases spans with
  | nil => exact ⟨span, [], rfl, rfl⟩
  | cons next rest =>
      rw [join_cons]
      split
      · exact ⟨_, _, rfl, rfl⟩
      · exact ⟨_, _, rfl, rfl⟩

theorem nonempty_join {span other : Span} {spans : List Span} (nonempty : span.start < span.stop)
    (all : ∀ other ∈ spans, other.start < other.stop) (member : other ∈ join span spans) :
    other.start < other.stop := by
  cases spans with
  | nil =>
      obtain rfl := List.mem_singleton.mp member
      exact nonempty
  | cons next rest =>
      have nextNonempty := all next List.mem_cons_self
      rw [join_cons] at member
      split at member
      · next touches =>
          rcases List.mem_cons.mp member with rfl | inRest
          · simp only
            omega
          · exact all other (List.mem_cons_of_mem _ inRest)
      · rcases List.mem_cons.mp member with rfl | inRest
        · exact nonempty
        · exact all other inRest

/-- A joined list has a span for each of the spans that went into it. -/
theorem within_join {span other : Span} {spans : List Span} (proper : span.start ≤ span.stop)
    (separated : Separated spans) (member : other ∈ span :: spans) :
    ∃ joined ∈ join span spans, joined.start ≤ other.start ∧ other.stop ≤ joined.stop := by
  cases spans with
  | nil => exact ⟨other, member, Nat.le_refl _, Nat.le_refl _⟩
  | cons next rest =>
      have nextProper := separated.proper next List.mem_cons_self
      rw [join_cons]
      split
      · next touches =>
          rcases List.mem_cons.mp member with rfl | later
          · refine ⟨_, List.mem_cons_self, Nat.le_refl _, ?_⟩
            simp only
            omega
          · rcases List.mem_cons.mp later with rfl | inRest
            · refine ⟨_, List.mem_cons_self, ?_, Nat.le_refl _⟩
              simp only
              omega
            · exact ⟨other, List.mem_cons_of_mem _ inRest, Nat.le_refl _, Nat.le_refl _⟩
      · exact ⟨other, member, Nat.le_refl _, Nat.le_refl _⟩

/-- An address lies between two neighbours of a separated list that begins before it. -/
theorem Separated.split {first : Span} {spans : List Span} {addr : Nat}
    (separated : Separated (first :: spans)) (before : first.start < addr)
    (absent : ∀ span ∈ spans, span.start ≠ addr) :
    ∃ initial span rest, first :: spans = initial ++ span :: rest ∧ span.start < addr ∧
      ∀ later ∈ rest, addr < later.start := by
  induction spans generalizing first with
  | nil => exact ⟨[], first, [], rfl, before, by simp⟩
  | cons second rest ih =>
      by_cases less : second.start < addr
      · obtain ⟨initial, span, rest', isSplit, isLess, isLater⟩ :=
          ih separated.tail less fun span member => absent span (List.mem_cons_of_mem _ member)
        exact ⟨first :: initial, span, rest', by rw [isSplit, List.cons_append], isLess, isLater⟩
      · have different := absent second List.mem_cons_self
        have proper := separated.proper second (List.mem_cons_of_mem _ List.mem_cons_self)
        refine ⟨[], first, second :: rest, rfl, before, ?_⟩
        intro later member
        rcases List.mem_cons.mp member with rfl | inRest
        · omega
        · have after := separated.tail.before inRest
          omega

/-- Lists of which the first lies before the second. -/
theorem Separated.append {first second : List Span} (isFirst : Separated first)
    (isSecond : Separated second)
    (before : ∀ span ∈ first, ∀ other ∈ second, span.stop < other.start) :
    Separated (first ++ second) := by
  refine ⟨List.pairwise_append.mpr ⟨isFirst.apart, isSecond.apart, before⟩, ?_⟩
  intro span member
  rcases List.mem_append.mp member with inFirst | inSecond
  · exact isFirst.proper span inFirst
  · exact isSecond.proper span inSecond

theorem Separated.of_append {first second : List Span}
    (separated : Separated (first ++ second)) : Separated first ∧ Separated second ∧
      ∀ span ∈ first, ∀ other ∈ second, span.stop < other.start := by
  obtain ⟨isFirst, isSecond, before⟩ := List.pairwise_append.mp separated.apart
  exact ⟨⟨isFirst, fun span member => separated.proper span (List.mem_append_left _ member)⟩,
    ⟨isSecond, fun span member => separated.proper span (List.mem_append_right _ member)⟩, before⟩

end Span

end Coursework
