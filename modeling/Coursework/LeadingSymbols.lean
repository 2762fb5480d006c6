import Mathlib.Computability.ContextFreeGrammar
import Mathlib.Tactic.Common

/-!
# What derived strings begin with

`Begins g symbols x` tells, by the rules of the grammar alone, that a string
derived from `symbols` can begin with the terminal `a` for `x = some a`, and that
the empty string can be derived for `x = none`.  It agrees with derivability: a
rewriting step can be undone at the front of the string.
-/

namespace Coursework

variable {T : Type*}

/-- What a string derived from the symbols can begin with. -/
inductive Begins (g : ContextFreeGrammar T) : List (Symbol T g.NT) → Option T → Prop
  | nil : Begins g [] none
  | terminal (a : T) (rest : List (Symbol T g.NT)) : Begins g (.terminal a :: rest) (some a)
  | expand {r : ContextFreeRule T g.NT} {a : T} (rest : List (Symbol T g.NT)) :
      r ∈ g.rules → Begins g r.output (some a) →
      Begins g (.nonterminal r.input :: rest) (some a)
  | erase {r : ContextFreeRule T g.NT} {rest : List (Symbol T g.NT)} {x : Option T} :
      r ∈ g.rules → Begins g r.output none → Begins g rest x →
      Begins g (.nonterminal r.input :: rest) x

namespace Begins

variable {g : ContextFreeGrammar T} {symbols first second : List (Symbol T g.NT)} {a : T}
  {x : Option T}

theorem ne_some_of_nil : ¬ Begins g [] (some a) := by
  intro begins
  cases begins

theorem eq_of_terminal {rest : List (Symbol T g.NT)} (begins : Begins g (.terminal a :: rest) x) :
    x = some a := by
  cases begins
  rfl

/-- A nonterminal is left by one of its rules. -/
theorem exists_rule {A : g.NT} {rest : List (Symbol T g.NT)}
    (begins : Begins g (.nonterminal A :: rest) x) : ∃ r ∈ g.rules, r.input = A := by
  cases begins with
  | expand rest isRule begins => exact ⟨_, isRule, rfl⟩
  | erase isRule erased begins => exact ⟨_, isRule, rfl⟩

theorem append_left (begins : Begins g first (some a)) (second : List (Symbol T g.NT)) :
    Begins g (first ++ second) (some a) := by
  generalize isSome : some a = x at begins
  induction begins with
  | nil => cases isSome
  | terminal b rest => exact .terminal b (rest ++ second)
  | expand rest isRule begins ih => exact .expand (rest ++ second) isRule begins
  | erase isRule erased begins ih ih' => exact .erase isRule erased (ih' isSome)

theorem append_right (erased : Begins g first none) (begins : Begins g second x) :
    Begins g (first ++ second) x := by
  generalize isNone : none = y at erased
  induction erased with
  | nil => exact begins
  | terminal b rest => cases isNone
  | expand rest isRule begins ih => cases isNone
  | erase isRule erased begins ih ih' => exact .erase isRule erased (ih' isNone)

/-- What the concatenation begins with comes from the first part, or that part is
erased. -/
theorem of_append (begins : Begins g (first ++ second) x) :
    (x ≠ none ∧ Begins g first x) ∨ (Begins g first none ∧ Begins g second x) := by
  generalize isWhole : first ++ second = whole at begins
  induction begins generalizing first with
  | nil =>
      obtain ⟨rfl, rfl⟩ := List.append_eq_nil_iff.mp isWhole
      exact .inr ⟨.nil, .nil⟩
  | terminal b rest =>
      cases first with
      | nil =>
          rw [List.nil_append] at isWhole
          exact .inr ⟨.nil, isWhole ▸ .terminal b rest⟩
      | cons symbol first =>
          cases isWhole
          exact .inl ⟨by simp, .terminal b first⟩
  | expand rest isRule begins ih =>
      cases first with
      | nil =>
          rw [List.nil_append] at isWhole
          exact .inr ⟨.nil, isWhole ▸ .expand rest isRule begins⟩
      | cons symbol first =>
          cases isWhole
          exact .inl ⟨by simp, .expand first isRule begins⟩
  | erase isRule erased begins ih ih' =>
      cases first with
      | nil =>
          rw [List.nil_append] at isWhole
          exact .inr ⟨.nil, isWhole ▸ .erase isRule erased begins⟩
      | cons symbol first =>
          cases isWhole
          rcases ih' rfl with ⟨isSome, left⟩ | ⟨left, right⟩
          · exact .inl ⟨isSome, .erase isRule erased left⟩
          · exact .inr ⟨.erase isRule erased left, right⟩

/-- A rewriting step is undone. -/
theorem of_rewrites {r : ContextFreeRule T g.NT} (isRule : r ∈ g.rules)
    (rewrites : r.Rewrites first second) (begins : Begins g second x) : Begins g first x := by
  induction rewrites generalizing x with
  | head rest =>
      rcases begins.of_append with ⟨isSome, left⟩ | ⟨left, right⟩
      · obtain ⟨a, rfl⟩ := Option.ne_none_iff_exists'.mp isSome
        exact .expand rest isRule left
      · exact .erase isRule left right
  | cons symbol rewrites ih =>
      cases begins with
      | terminal b rest => exact .terminal b _
      | expand rest isRule' begins => exact .expand _ isRule' begins
      | erase isRule' erased begins => exact .erase isRule' erased (ih begins)

theorem of_derives (derives : g.Derives first second) (begins : Begins g second x) :
    Begins g first x := by
  induction derives using Relation.ReflTransGen.head_induction_on with
  | refl => exact begins
  | head produces _ ih =>
      obtain ⟨r, isRule, rewrites⟩ := produces
      exact ih.of_rewrites isRule rewrites

theorem derives_of_rule {r : ContextFreeRule T g.NT} (isRule : r ∈ g.rules)
    (rest : List (Symbol T g.NT)) :
    g.Derives (.nonterminal r.input :: rest) (r.output ++ rest) :=
  ContextFreeGrammar.Produces.single ⟨r, isRule, .head rest⟩

theorem derives_nil (begins : Begins g symbols none) : g.Derives symbols [] := by
  generalize isNone : none = x at begins
  induction begins with
  | nil => exact .refl _
  | terminal b rest => cases isNone
  | expand rest isRule begins ih => cases isNone
  | @erase r rest x isRule erased begins ih ih' =>
      have step := (derives_of_rule isRule rest).trans ((ih rfl).append_right rest)
      exact step.trans (ih' isNone)

theorem derives_cons (begins : Begins g symbols (some a)) :
    ∃ rest, g.Derives symbols (.terminal a :: rest) := by
  generalize isSome : some a = x at begins
  induction begins with
  | nil => cases isSome
  | terminal b rest =>
      cases isSome
      exact ⟨rest, .refl _⟩
  | expand rest isRule begins ih =>
      obtain ⟨tail, derives⟩ := ih isSome
      exact ⟨tail ++ rest, (derives_of_rule isRule rest).trans (derives.append_right rest)⟩
  | @erase r rest x isRule erased begins ih ih' =>
      obtain ⟨tail, derives⟩ := ih' isSome
      have step := (derives_of_rule isRule rest).trans (erased.derives_nil.append_right rest)
      exact ⟨tail, step.trans derives⟩

/-- The empty string can be derived. -/
theorem none_iff : Begins g symbols none ↔ g.Derives symbols [] :=
  ⟨derives_nil, fun derives => of_derives derives .nil⟩

/-- A string that begins with a terminal can be derived. -/
theorem some_iff : Begins g symbols (some a) ↔ ∃ rest, g.Derives symbols (.terminal a :: rest) :=
  ⟨derives_cons, fun ⟨rest, derives⟩ => of_derives derives (.terminal a rest)⟩

end Begins

end Coursework
