import Mathlib
import LexPivot.Game.Strategy
import LexPivot.Proofs.GameSystem

/-!
# Complementary solutions of a game are equilibria

At a complementary point of the tableau of a game, a strategy that has weight has no slack, so its
payoff against the weights of the other player is the largest there is. Unless all weights are
zero, both players have some weight, and the weights divided by their sums are an equilibrium of
the game as it was given, before the payoffs were shifted.
-/
namespace LexPivot

open Matrix Tableau

variable {m n : Nat}

/-- The players mix, and whatever a player plays with positive probability is worth most against
the mix of the other. -/
structure IsNash (payoff₁ payoff₂ : Grid ℚ m n) (x : Vector ℚ m) (y : Vector ℚ n) : Prop where
  nonneg₁ : ∀ i, 0 ≤ x.get i
  nonneg₂ : ∀ j, 0 ≤ y.get j
  total₁ : ∑ i, x.get i = 1
  total₂ : ∑ j, y.get j = 1
  best₁ : ∀ i, 0 < x.get i → ∀ other,
    ∑ j, payoff₁.entry other j * y.get j ≤ ∑ j, payoff₁.entry i j * y.get j
  best₂ : ∀ j, 0 < y.get j → ∀ other,
    ∑ i, payoff₂.entry i other * x.get i ≤ ∑ i, payoff₂.entry i j * x.get i

theorem normalize?_eq_some {k : Nat} {weights : Vector ℚ k} (positive : 0 < ∑ i, weights.get i) :
    ∃ x, normalize? weights = some x ∧ ∀ i, x.get i = weights.get i / ∑ q, weights.get q := by
  have total : Scalar.isStrictlyPositive (Scalar.sum weights.toList) = true := by
    rw [Scalar.isStrictlyPositive_iff, Scalar.sum_toList]
    exact positive
  refine ⟨weights.map (· / Scalar.sum weights.toList), ?_, fun i => ?_⟩
  · simp only [normalize?, total, if_true]
  · rw [get_map, Scalar.sum_toList]

namespace GameTableau

/-- Weights of both players that are complementary to the slacks of their strategies. -/
structure BestWeights (payoff₁ payoff₂ : Grid ℚ m n) (x : Fin m → ℚ) (y : Fin n → ℚ) : Prop where
  nonneg₁ : ∀ i, 0 ≤ x i
  nonneg₂ : ∀ j, 0 ≤ y j
  slack₁ : ∀ i, ∑ j, (payoff₁.entry i j - shift payoff₁) * y j ≤ 1
  slack₂ : ∀ j, ∑ i, (payoff₂.entry i j - shift payoff₂) * x i ≤ 1
  tight₁ : ∀ i, 0 < x i → ∑ j, (payoff₁.entry i j - shift payoff₁) * y j = 1
  tight₂ : ∀ j, 0 < y j → ∑ i, (payoff₂.entry i j - shift payoff₂) * x i = 1

namespace BestWeights

variable {payoff₁ payoff₂ : Grid ℚ m n} {x : Fin m → ℚ} {y : Fin n → ℚ}

private theorem exists_pos_of_sum_eq_one {k : Nat} {f z : Fin k → ℚ} (nonneg : ∀ i, 0 ≤ z i)
    (total : ∑ i, f i * z i = 1) : ∃ i, 0 < z i := by
  by_contra none
  push Not at none
  have zero (i : Fin k) : z i = 0 := le_antisymm (none i) (nonneg i)
  simp [zero] at total

theorem totals_pos (h : BestWeights payoff₁ payoff₂ x y)
    (weight : (∃ i, 0 < x i) ∨ ∃ j, 0 < y j) : 0 < ∑ i, x i ∧ 0 < ∑ j, y j := by
  have both : (∃ i, 0 < x i) ∧ ∃ j, 0 < y j := by
    -- A strategy with weight meets its payoff of one, so the other player has weight.
    rcases weight with ⟨i, positive⟩ | ⟨j, positive⟩
    · exact ⟨⟨i, positive⟩, exists_pos_of_sum_eq_one h.nonneg₂ (h.tight₁ i positive)⟩
    · exact ⟨exists_pos_of_sum_eq_one h.nonneg₁ (h.tight₂ j positive), ⟨j, positive⟩⟩
  obtain ⟨⟨i, first⟩, ⟨j, second⟩⟩ := both
  exact ⟨Finset.sum_pos' (fun k _ => h.nonneg₁ k) ⟨i, Finset.mem_univ i, first⟩,
    Finset.sum_pos' (fun k _ => h.nonneg₂ k) ⟨j, Finset.mem_univ j, second⟩⟩

theorem sum_shifted {k : Nat} (p z : Fin k → ℚ) (s : ℚ) :
    ∑ i, (p i - s) * z i = ∑ i, p i * z i - s * ∑ i, z i := by
  simp only [sub_mul, Finset.sum_sub_distrib, Finset.mul_sum]

theorem sum_div_total {k : Nat} (p z : Fin k → ℚ) (total : ℚ) :
    ∑ i, p i * (z i / total) = (∑ i, p i * z i) / total := by
  simp only [Finset.sum_div, mul_div_assoc]

/-- Normalised, the weights are an equilibrium. -/
theorem isNash (h : BestWeights payoff₁ payoff₂ x y) (total₁ : 0 < ∑ i, x i)
    (total₂ : 0 < ∑ j, y j) {p : Vector ℚ m} {q : Vector ℚ n}
    (first : ∀ i, p.get i = x i / ∑ k, x k) (second : ∀ j, q.get j = y j / ∑ k, y k) :
    IsNash payoff₁ payoff₂ p q where
  nonneg₁ i := by
    rw [first]
    exact div_nonneg (h.nonneg₁ i) total₁.le
  nonneg₂ j := by
    rw [second]
    exact div_nonneg (h.nonneg₂ j) total₂.le
  total₁ := by
    simp only [first, ← Finset.sum_div]
    exact div_self total₁.ne'
  total₂ := by
    simp only [second, ← Finset.sum_div]
    exact div_self total₂.ne'
  best₁ i positive other := by
    rw [first] at positive
    have tight := h.tight₁ i ((div_pos_iff_of_pos_right total₁).mp positive)
    have bound := h.slack₁ other
    rw [sum_shifted] at tight bound
    -- The shift costs both strategies the same, and so does the normalisation.
    simp only [second, sum_div_total]
    refine (div_le_div_iff_of_pos_right total₂).mpr ?_
    linarith
  best₂ j positive other := by
    rw [second] at positive
    have tight := h.tight₂ j ((div_pos_iff_of_pos_right total₂).mp positive)
    have bound := h.slack₂ other
    rw [sum_shifted] at tight bound
    simp only [first, sum_div_total]
    refine (div_le_div_iff_of_pos_right total₁).mpr ?_
    linarith

end BestWeights

/-! ### Complementary tableaus -/

section Complementary

variable {payoff₁ payoff₂ : Grid ℚ m n} {origin t : GameTableau ℚ m n}

theorem bestWeights (feasible : FeasibleFrom (system payoff₁ payoff₂) origin t)
    (first : t.basis.first = 0) (complementary : t.isComplementary = true) :
    BestWeights payoff₁ payoff₂ (fun i => t.point (weightColumn (Fin.castAdd n i)))
      (fun j => t.point (weightColumn (Fin.natAdd m j))) := by
  have nonneg (j : Fin (m + n + 1 + (m + n))) : 0 ≤ t.point j :=
    spread_nonneg (fun i => feasible.feasible.nonneg i) j
  -- A strategy with weight has no slack.
  have tight {k : Fin (m + n)} (weight : 0 < t.point (weightColumn k)) :
      t.point (slackColumn k) = 0 :=
    ComplementarityProblem.slack_eq_zero feasible.represents.consistent first complementary
      weight.ne'
  obtain ⟨slacks₁, slacks₂⟩ := slack_of_solves feasible.represents.solves_point
  refine ⟨fun i => nonneg _, fun j => nonneg _, fun i => ?_, fun j => ?_, fun i weight => ?_,
    fun j weight => ?_⟩
  · linarith [slacks₁ i, nonneg (slackColumn (Fin.castAdd n i))]
  · linarith [slacks₂ j, nonneg (slackColumn (Fin.natAdd m j))]
  · linarith [slacks₁ i, tight weight]
  · linarith [slacks₂ j, tight weight]

theorem get_complementarySolution (represents : t.Represents (system payoff₁ payoff₂))
    (first : t.basis.first = 0) (k : Fin (m + n)) :
    t.complementarySolution.get (.structural (k + 1)) = t.point (weightColumn k) :=
  get_filterLabels_basicSolution represents.consistent (labelAt_weight first k) rfl

theorem get_split (represents : t.Represents (system payoff₁ payoff₂)) (first : t.basis.first = 0) :
    (∀ i, (split m n t.complementarySolution).1.get i = t.point (weightColumn (Fin.castAdd n i))) ∧
    ∀ j, (split m n t.complementarySolution).2.get j = t.point (weightColumn (Fin.natAdd m j)) := by
  constructor
  · intro i
    rw [split, get_ofFn]
    exact get_complementarySolution represents first (Fin.castAdd n i)
  · intro j
    rw [split, get_ofFn]
    exact get_complementarySolution represents first (Fin.natAdd m j)

/-- A solution that is not empty gives weight to some strategy. -/
theorem exists_weight (feasible : FeasibleFrom (system payoff₁ payoff₂) origin t)
    (nonempty : t.complementarySolution.isEmpty = false) :
    (∃ i, 0 < t.point (weightColumn (Fin.castAdd n i))) ∨
      ∃ j, 0 < t.point (weightColumn (Fin.natAdd m j)) := by
  obtain ⟨i, structural, _, nonzero⟩ :=
    (isEmpty_filterLabels_basicSolution feasible.represents.consistent _).mp nonempty
  have positive : 0 < t.point (t.basis.columns.get i) := by
    rw [feasible.represents.point_basic]
    exact lt_of_le_of_ne (feasible.feasible.nonneg i) (Ne.symm nonzero)
  rcases column_cases (t.basis.columns.get i) with cover | ⟨k, weight⟩ | ⟨k, slack⟩
  · exact absurd cover (cover_nonbasic feasible.represents i)
  · rw [weight] at positive
    revert positive
    refine Fin.addCases (fun i positive => Or.inl ⟨i, positive⟩)
      (fun j positive => Or.inr ⟨j, positive⟩) k
  · rw [feasible.represents.consistent.rowLabel_eq, slack, labelAt_slack] at structural
    cases structural

end Complementary

/-- Whatever moves are made on the tableau of a game, a complementary solution that is not empty
gives both players weights, and the normalised weights are an equilibrium of the game. -/
theorem moves_isNash (payoff₁ payoff₂ : Grid ℚ m n) (some_row : 0 < m) (some_column : 0 < n) :
    ∃ t : GameTableau ℚ m n, ofPayoffs payoff₁ payoff₂ = .ok t ∧
      ∀ ms : List Move, (t.moves ms).isComplementary = true →
        (t.moves ms).complementarySolution.isEmpty = false →
        let weights := split m n (t.moves ms).complementarySolution
        (∀ i, 0 ≤ weights.1.get i) ∧ (∀ j, 0 ≤ weights.2.get j) ∧
        0 < ∑ i, weights.1.get i ∧ 0 < ∑ j, weights.2.get j ∧
        ∃ x y, normalize? weights.1 = some x ∧ normalize? weights.2 = some y ∧
          (∀ i, x.get i = weights.1.get i / ∑ k, weights.1.get k) ∧
          (∀ j, y.get j = weights.2.get j / ∑ k, weights.2.get k) ∧ IsNash payoff₁ payoff₂ x y := by
  obtain ⟨t, built, feasible, basis⟩ := ofPayoffs_represents payoff₁ payoff₂ some_row some_column
  refine ⟨t, built, fun ms complementary nonempty => ?_⟩
  have reached := feasible.moves ms
  have first : (t.moves ms).basis.first = 0 := by
    rw [reached.first, basis]
    rfl
  obtain ⟨weights₁, weights₂⟩ := get_split reached.represents first
  have best := bestWeights reached first complementary
  obtain ⟨total₁, total₂⟩ := best.totals_pos (exists_weight reached nonempty)
  simp only [← weights₁, ← weights₂] at best total₁ total₂
  obtain ⟨x, normal₁, value₁⟩ := normalize?_eq_some total₁
  obtain ⟨y, normal₂, value₂⟩ := normalize?_eq_some total₂
  exact ⟨best.nonneg₁, best.nonneg₂, total₁, total₂, x, y, normal₁, normal₂, value₁, value₂,
    best.isNash total₁ total₂ value₁ value₂⟩

/-- One path from the fresh tableau, matching pennies has an equilibrium. -/
theorem moves_isNash_pennies :
    let payoff₁ : Grid ℚ 2 2 := #v[#v[1, -1], #v[-1, 1]]
    let payoff₂ : Grid ℚ 2 2 := #v[#v[-1, 1], #v[1, -1]]
    ∃ t : GameTableau ℚ 2 2, ofPayoffs payoff₁ payoff₂ = .ok t ∧
      (t.moves [.lemkePath (.structural 1)]).isComplementary = true ∧
      (t.moves [.lemkePath (.structural 1)]).complementarySolution.isEmpty = false ∧
      ∃ x y, IsNash payoff₁ payoff₂ x y := by
  intro payoff₁ payoff₂
  obtain ⟨t, built, sound⟩ := moves_isNash payoff₁ payoff₂ (by decide) (by decide)
  have ends : (match ofPayoffs payoff₁ payoff₂ with
      | .ok t => (t.moves [.lemkePath (.structural 1)]).isComplementary &&
          !(t.moves [.lemkePath (.structural 1)]).complementarySolution.isEmpty
      | .error _ => false) = true := by decide +kernel
  rw [built] at ends
  simp only [Bool.and_eq_true, Bool.not_eq_true'] at ends
  obtain ⟨_, _, _, _, x, y, _, _, _, _, nash⟩ := sound _ ends.1 ends.2
  exact ⟨t, built, ends.1, ends.2, x, y, nash⟩

end GameTableau

end LexPivot
