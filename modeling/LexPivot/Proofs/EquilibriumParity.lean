import Mathlib
import LexPivot.Proofs.EquilibriumClosure

/-!
# The number of equilibria is odd

Without degenerate bases the path of one fixed label joins the solutions of a game in pairs: it
leads from each solution to another one, from there back, and the solution alone decides where. A
search has seen the partner of every solution it has seen, so it has seen an even number of them.
All but the starting one are equilibria.
-/
namespace LexPivot

/-- What is joined in pairs is even in number. -/
theorem even_length_of_pairs {α : Type} {items : List α} (distinct : items.Nodup)
    {R : α → α → Prop} (joined : ∀ a ∈ items, ∃ b ∈ items, R a b) (symm : ∀ a b, R a b → R b a)
    (functional : ∀ a b d, R a b → R a d → b = d) (irrefl : ∀ a, ¬R a a) : Even items.length := by
  classical
  choose partner member related using joined
  -- Counted modulo two, the two items of a pair cancel.
  have total : ∑ _a ∈ items.toFinset, (1 : ZMod 2) = 0 := by
    refine Finset.sum_involution (fun a listed => partner a (List.mem_toFinset.mp listed))
      (fun _ _ => rfl) (fun a listed _ same => ?_)
      (fun a listed => List.mem_toFinset.mpr (member a _)) (fun a listed => ?_)
    · have self := related a (List.mem_toFinset.mp listed)
      rw [same] at self
      exact irrefl a self
    · exact functional _ _ _ (related _ _) (symm _ _ (related a _))
  rw [Finset.sum_const, nsmul_one, List.toFinset_card_of_nodup distinct,
    ZMod.natCast_eq_zero_iff] at total
  exact even_iff_two_dvd.mpr total

namespace GameTableau

open Tableau

variable {m n : Nat} {payoff₁ payoff₂ : Grid ℚ m n} {fresh : GameTableau ℚ m n} {l : Label}
  {s s' : BasicSolution ℚ}

/-- The path of a label leads from one solution to the other. -/
def Joins (payoff₁ payoff₂ : Grid ℚ m n) (fresh : GameTableau ℚ m n) (l : Label)
    (s s' : BasicSolution ℚ) : Prop :=
  ∃ t next, Reached payoff₁ payoff₂ fresh t ∧ t.complementarySolution = s ∧
    t.lemkePath l = ⟨.ok (), next⟩ ∧ next.complementarySolution = s'

namespace Joins

variable (some_row : 0 < m) (some_column : 0 < n) (valid : ∃ j, fresh.basis.labelAt j = l)
  (proper : l ≠ .artificial)

include some_row some_column valid proper

theorem symm (h : Joins payoff₁ payoff₂ fresh l s s') : Joins payoff₁ payoff₂ fresh l s' s := by
  obtain ⟨t, next, reached, rfl, path, rfl⟩ := h
  rw [← reached.between.feasible.labelAt] at valid
  obtain ⟨_, back, path', reached', _, returns, solution⟩ :=
    reached.lemkePath_lemkePath some_row some_column valid proper
  cases path.symm.trans path'
  exact ⟨next, back, reached', rfl, returns, solution⟩

variable (nondegenerate : fresh.Nondegenerate)

include nondegenerate

theorem functional {s₁ s₂ : BasicSolution ℚ} (h₁ : Joins payoff₁ payoff₂ fresh l s s₁)
    (h₂ : Joins payoff₁ payoff₂ fresh l s s₂) : s₁ = s₂ := by
  obtain ⟨t, next₁, reached, rfl, path₁, rfl⟩ := h₁
  obtain ⟨t', next₂, reached', same, path₂, rfl⟩ := h₂
  rw [← reached.between.feasible.labelAt] at valid
  have range := reached.range_of_complementarySolution reached' nondegenerate same
  obtain ⟨_, _, path₁', path₂', solution⟩ :=
    reached.between.lemkePath_congr reached'.between some_row some_column range valid proper
  cases path₁.symm.trans path₁'
  cases path₂.symm.trans path₂'
  exact solution.symm

theorem irrefl : ¬Joins payoff₁ payoff₂ fresh l s s := by
  rintro ⟨t, next, reached, rfl, path, same⟩
  rw [← reached.between.feasible.labelAt] at valid
  obtain ⟨_, _, path', reached', differs, _⟩ :=
    reached.lemkePath_lemkePath some_row some_column valid proper
  cases path.symm.trans path'
  exact differs (reached.range_of_complementarySolution reached' nondegenerate same)

end Joins

/-- A complete search has seen an even number of solutions, the starting one included. -/
theorem even_length_seen (initial : BetweenPaths payoff₁ payoff₂ fresh fresh) (some_row : 0 < m)
    (some_column : 0 < n) (nondegenerate : fresh.Nondegenerate) {σ : Type} (o : Observer σ ℚ)
    (state : σ) (bounds : SearchBounds)
    (distinct : (Search.seen fresh (fresh.searchWith o state bounds).1).Nodup)
    (complete : (fresh.searchWith o state bounds).1.isComplete = true) :
    Even (Search.seen fresh (fresh.searchWith o state bounds).1).length := by
  have closed := searchWith_closed initial some_row some_column o state bounds complete
  -- Any label would do, and the first one is there in every game.
  have last : 1 ≤ m + n := Nat.le_add_right_of_le some_row
  obtain ⟨valid, proper⟩ := exists_labelAt initial.basis_first le_rfl last (Or.inl rfl)
  refine even_length_of_pairs distinct (R := Joins payoff₁ payoff₂ fresh (.structural 1))
    (fun s member => ?_) (fun _ _ => Joins.symm some_row some_column valid proper)
    (fun _ _ _ => Joins.functional some_row some_column valid proper nondegenerate)
    (fun _ => Joins.irrefl some_row some_column valid proper nondegenerate)
  obtain ⟨t, reached, solution, _, leads⟩ := closed s member
  obtain ⟨next, path, member'⟩ := leads _ (structural_mem_searchLabels initial.first le_rfl last)
  exact ⟨_, member', t, next, reached, solution, path, rfl⟩

/-- In a game without degenerate bases, a search that is neither bounded nor cancelled reports an
odd number of equilibria. -/
theorem odd_length_equilibria (payoff₁ payoff₂ : Grid ℚ m n) (some_row : 0 < m)
    (some_column : 0 < n) :
    ∃ fresh : GameTableau ℚ m n, ofPayoffs payoff₁ payoff₂ = .ok fresh ∧
      (fresh.Nondegenerate → ∀ {σ : Type} (o : Observer σ ℚ) (state : σ),
        (fresh.searchWith o state .unbounded).1.cancelled = false →
          Odd (fresh.searchWith o state .unbounded).1.equilibria.length) := by
  obtain ⟨fresh, built, initial, _⟩ :=
    ofPayoffs_betweenPaths payoff₁ payoff₂ some_row some_column
  obtain ⟨_, built', empty, sound⟩ := searchWith_sound payoff₁ payoff₂ some_row some_column
  cases built.symm.trans built'
  refine ⟨fresh, built, fun nondegenerate σ o state cancelled => ?_⟩
  have found := sound o state .unbounded
  have complete := isComplete_of_cancelled_eq_false (isClean_of_sound found empty)
    (fresh.truncated_searchWith o state) cancelled
  have even := even_length_seen initial some_row some_column nondegenerate o state .unbounded
    found.distinct complete
  rw [Search.seen, List.length_cons, Nat.even_add_one, Nat.not_even_iff_odd] at even
  exact even

/-- The game of coordination has no degenerate basis, and three equilibria. -/
theorem odd_length_equilibria_coordination :
    let payoff : Grid ℚ 2 2 := #v[#v[2, 0], #v[0, 1]]
    ∃ fresh : GameTableau ℚ 2 2, ofPayoffs payoff payoff = .ok fresh ∧ fresh.Nondegenerate ∧
      (fresh.search .unbounded).cancelled = false ∧
      Odd (fresh.search .unbounded).equilibria.length := by
  intro payoff
  obtain ⟨fresh, built, odd⟩ := odd_length_equilibria payoff payoff (by decide) (by decide)
  have nondegenerate := nondegenerate_coordination fresh built
  have cancelled := fresh.cancelled_searchWith (o := .silent ℚ) (fun _ => rfl) () .unbounded
  exact ⟨fresh, built, nondegenerate, cancelled, odd nondegenerate (.silent ℚ) () cancelled⟩

end GameTableau

end LexPivot
