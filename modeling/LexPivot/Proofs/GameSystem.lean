import Mathlib
import LexPivot.Complementary.Bimatrix
import LexPivot.Proofs.ComplementaryColumns

/-!
# The system of a game

The equations behind the tableau of a game. With the payoffs shifted so that all are at least one,
the slack of a strategy is one less its payoff against the weights of the other player. So the
weights are bounded, the covering column is zero and never basic, and the fresh tableau is
lexicographically feasible.
-/
namespace LexPivot.GameTableau

open Matrix Tableau

variable {m n : Nat}

/-- The equations of a game. -/
def system (payoff₁ payoff₂ : Grid ℚ m n) :
    Matrix (Fin (m + n)) (Fin (m + n + 1 + (m + n) + 1)) ℚ :=
  systemMatrix (columns payoff₁ payoff₂) (Vector.replicate (m + n) (-1))

def weightColumn (k : Fin (m + n)) : Fin (m + n + 1 + (m + n)) := Fin.castAdd (m + n) k.succ

def slackColumn (k : Fin (m + n)) : Fin (m + n + 1 + (m + n)) := Fin.natAdd (m + n + 1) k

def coverColumn : Fin (m + n + 1 + (m + n)) := Fin.castAdd (m + n) 0

theorem column_cases (j : Fin (m + n + 1 + (m + n))) :
    j = coverColumn ∨ (∃ k, j = weightColumn k) ∨ ∃ k, j = slackColumn k :=
  ComplementarityProblem.column_cases j

/-! ### Payoffs and equations -/

theorem shift_add_one_le (payoff : Grid ℚ m n) (i : Fin m) (j : Fin n) :
    shift payoff + 1 ≤ payoff.entry i j := by
  have member := Grid.entry_mem_entries payoff i j
  obtain ⟨low, found, _, least⟩ := Scalar.least?_spec (List.ne_nil_of_mem member)
  have value : shift payoff = low - 1 := by
    rw [shift, found]
    rfl
  rw [value]
  linarith [least _ member]

theorem entry_negativeBlock (payoff : Grid ℚ m n) (i : Fin m) (j : Fin n) :
    (negativeBlock payoff).entry i j = -(payoff.entry i j - shift payoff) := by
  rw [negativeBlock, Grid.entry_map]
  exact (neg_sub _ _).symm

theorem columns_cover (payoff₁ payoff₂ : Grid ℚ m n) (k : Fin (m + n)) :
    (columns payoff₁ payoff₂).entry k 0 = 0 := by
  simp only [columns, Grid.entry_ofFn, Fin.cases_zero]

/-- A best-response constraint of the first player involves the weights of the second one. -/
theorem sum_system_first (payoff₁ payoff₂ : Grid ℚ m n) (i : Fin m)
    (z : Fin (m + n + 1 + (m + n)) → ℚ) :
    ∑ l, system payoff₁ payoff₂ (Fin.castAdd n i) l.castSucc * z l =
      -∑ j, (payoff₁.entry i j - shift payoff₁) * z (weightColumn (Fin.natAdd m j)) -
        z (slackColumn (Fin.castAdd n i)) := by
  have own (k : Fin m) :
      (columns payoff₁ payoff₂).entry (Fin.castAdd n i) (Fin.castAdd n k).succ = 0 := by
    simp only [columns, Grid.entry_ofFn, Fin.cases_succ, Fin.addCases_left]
  have other (j : Fin n) :
      (columns payoff₁ payoff₂).entry (Fin.castAdd n i) (Fin.natAdd m j).succ =
        -(payoff₁.entry i j - shift payoff₁) := by
    simp only [columns, Grid.entry_ofFn, Fin.cases_succ, Fin.addCases_left, Fin.addCases_right]
    exact entry_negativeBlock payoff₁ i j
  rw [system, sum_systemMatrix, Fin.sum_univ_succ, columns_cover, zero_mul, zero_add,
    Fin.sum_univ_add]
  simp only [own, other, zero_mul, Finset.sum_const_zero, zero_add, neg_mul, Finset.sum_neg_distrib]
  rfl

theorem sum_system_second (payoff₁ payoff₂ : Grid ℚ m n) (j : Fin n)
    (z : Fin (m + n + 1 + (m + n)) → ℚ) :
    ∑ l, system payoff₁ payoff₂ (Fin.natAdd m j) l.castSucc * z l =
      -∑ i, (payoff₂.entry i j - shift payoff₂) * z (weightColumn (Fin.castAdd n i)) -
        z (slackColumn (Fin.natAdd m j)) := by
  have own (k : Fin n) :
      (columns payoff₁ payoff₂).entry (Fin.natAdd m j) (Fin.natAdd m k).succ = 0 := by
    simp only [columns, Grid.entry_ofFn, Fin.cases_succ, Fin.addCases_right]
  have other (i : Fin m) :
      (columns payoff₁ payoff₂).entry (Fin.natAdd m j) (Fin.castAdd n i).succ =
        -(payoff₂.entry i j - shift payoff₂) := by
    simp only [columns, Grid.entry_ofFn, Fin.cases_succ, Fin.addCases_left, Fin.addCases_right]
    exact entry_negativeBlock payoff₂ i j
  rw [system, sum_systemMatrix, Fin.sum_univ_succ, columns_cover, zero_mul, zero_add,
    Fin.sum_univ_add]
  simp only [own, other, zero_mul, Finset.sum_const_zero, add_zero, neg_mul, Finset.sum_neg_distrib]
  rfl

theorem system_last (payoff₁ payoff₂ : Grid ℚ m n) (k : Fin (m + n)) :
    system payoff₁ payoff₂ k (Fin.last _) = -1 := by
  rw [system, systemMatrix_last]
  simp [Vector.get]

/-- At a solution the slack of a strategy is one less its payoff. -/
theorem slack_of_solves {payoff₁ payoff₂ : Grid ℚ m n} {z : Fin (m + n + 1 + (m + n)) → ℚ}
    (solves : Solves (system payoff₁ payoff₂) z) :
    (∀ i, z (slackColumn (Fin.castAdd n i)) =
      1 - ∑ j, (payoff₁.entry i j - shift payoff₁) * z (weightColumn (Fin.natAdd m j))) ∧
    ∀ j, z (slackColumn (Fin.natAdd m j)) =
      1 - ∑ i, (payoff₂.entry i j - shift payoff₂) * z (weightColumn (Fin.castAdd n i)) := by
  constructor
  · intro i
    have equation := solves (Fin.castAdd n i)
    rw [sum_system_first, system_last] at equation
    linarith
  · intro j
    have equation := solves (Fin.natAdd m j)
    rw [sum_system_second, system_last] at equation
    linarith

private theorem eq_zero_of_sum_nonpos {k : Nat} {f x : Fin k → ℚ} (large : ∀ i, 1 ≤ f i)
    (nonneg : ∀ i, 0 ≤ x i) (bounded : ∑ i, f i * x i ≤ 0) (i : Fin k) : x i = 0 := by
  have terms (q : Fin k) : 0 ≤ f q * x q := mul_nonneg (zero_le_one.trans (large q)) (nonneg q)
  have zero : ∑ q, f q * x q = 0 := le_antisymm bounded (Finset.sum_nonneg fun q _ => terms q)
  have term := (Finset.sum_eq_zero_iff_of_nonneg fun q _ => terms q).mp zero i (Finset.mem_univ i)
  rcases mul_eq_zero.mp term with factor | value
  · linarith [large i]
  · exact value

/-- The weights and slacks of a game cannot grow without bound. -/
theorem direction_eq_zero {payoff₁ payoff₂ : Grid ℚ m n} (some_row : 0 < m) (some_column : 0 < n)
    {d : Fin (m + n + 1 + (m + n)) → ℚ} (direction : IsDirection (system payoff₁ payoff₂) d)
    (nonneg : ∀ j, 0 ≤ d j) (k : Fin (m + n)) : d (weightColumn k) = 0 ∧ d (slackColumn k) = 0 := by
  have first (i : Fin m) : d (slackColumn (Fin.castAdd n i)) =
      -∑ j, (payoff₁.entry i j - shift payoff₁) * d (weightColumn (Fin.natAdd m j)) := by
    have equation := direction (Fin.castAdd n i)
    rw [sum_system_first] at equation
    linarith
  have second (j : Fin n) : d (slackColumn (Fin.natAdd m j)) =
      -∑ i, (payoff₂.entry i j - shift payoff₂) * d (weightColumn (Fin.castAdd n i)) := by
    have equation := direction (Fin.natAdd m j)
    rw [sum_system_second] at equation
    linarith
  -- A slack that cannot fall forces the weights in its row to be zero, each has a factor of at
  -- least one.
  have weights₂ (j : Fin n) : d (weightColumn (Fin.natAdd m j)) = 0 := by
    refine eq_zero_of_sum_nonpos (f := fun j => payoff₁.entry ⟨0, some_row⟩ j - shift payoff₁)
      (fun j => ?_) (fun j => nonneg (weightColumn (Fin.natAdd m j))) ?_ j
    · linarith [shift_add_one_le payoff₁ ⟨0, some_row⟩ j]
    · linarith [first ⟨0, some_row⟩, nonneg (slackColumn (Fin.castAdd n ⟨0, some_row⟩))]
  have weights₁ (i : Fin m) : d (weightColumn (Fin.castAdd n i)) = 0 := by
    refine eq_zero_of_sum_nonpos (f := fun i => payoff₂.entry i ⟨0, some_column⟩ - shift payoff₂)
      (fun i => ?_) (fun i => nonneg (weightColumn (Fin.castAdd n i))) ?_ i
    · linarith [shift_add_one_le payoff₂ i ⟨0, some_column⟩]
    · linarith [second ⟨0, some_column⟩, nonneg (slackColumn (Fin.natAdd m ⟨0, some_column⟩))]
  refine Fin.addCases (fun i => ?_) (fun j => ?_) k
  · exact ⟨weights₁ i, by simp [first, weights₂]⟩
  · exact ⟨weights₂ j, by simp [second, weights₁]⟩

/-! ### The tableau of a game -/

/-- The fresh tableau of a game holds the slacks, all at one, and breaks its ties there. -/
theorem ofPayoffs_represents (payoff₁ payoff₂ : Grid ℚ m n) (some_row : 0 < m)
    (some_column : 0 < n) :
    ∃ t : GameTableau ℚ m n, ofPayoffs payoff₁ payoff₂ = .ok t ∧
      FeasibleFrom (system payoff₁ payoff₂) t t ∧ t.basis = Basis.slack 0 := by
  have nonpos (k : Fin (m + n)) : (Vector.replicate (m + n) (-1 : ℚ)).get k ≤ 0 := by
    rw [← systemMatrix_last (columns payoff₁ payoff₂), ← system, system_last]
    norm_num
  obtain ⟨t, built, feasible, basis, _⟩ := ofSystem_feasibleFrom
    (columns payoff₁ payoff₂) (Vector.replicate (m + n) (-1)) 0 (Nat.succ_pos _) nonpos
  refine ⟨t, ?_, feasible, basis⟩
  have sized : ¬(m = 0 || n = 0) = true := by
    simp [some_row.ne', some_column.ne']
  rw [ofPayoffs, if_neg sized]
  exact built

section Labels

variable {t : GameTableau ℚ m n}

theorem labelAt_cover (first : t.basis.first = 0) :
    t.basis.labelAt coverColumn = .artificial :=
  ComplementarityProblem.labelAt_cover first

theorem labelAt_weight (first : t.basis.first = 0) (k : Fin (m + n)) :
    t.basis.labelAt (weightColumn k) = .structural (k + 1) :=
  ComplementarityProblem.labelAt_variable first k

theorem labelAt_slack (t : GameTableau ℚ m n) (k : Fin (m + n)) :
    t.basis.labelAt (slackColumn k) = .slack (k + 1) :=
  ComplementarityProblem.labelAt_slack t.basis k

end Labels

/-- The covering column is zero, so the artificial label is never basic. -/
theorem cover_nonbasic {payoff₁ payoff₂ : Grid ℚ m n} {t : GameTableau ℚ m n}
    (h : t.Represents (system payoff₁ payoff₂)) (i : Fin (m + n)) :
    t.basis.columns.get i ≠ coverColumn := by
  intro held
  have zero : ∀ k, system payoff₁ payoff₂ k coverColumn.castSucc = 0 := by
    intro k
    rw [system, coverColumn, systemMatrix_structural, columns_cover]
  -- A basic column reads as a unit column, but the zero column stays zero.
  have one := h.reduced.apply_self i
  rw [held, h.reduced.eq_inv_mul, Matrix.mul_apply] at one
  simp [zero] at one

end LexPivot.GameTableau
