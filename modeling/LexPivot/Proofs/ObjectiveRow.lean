import Mathlib
import LexPivot.Proofs.BasicPoint
import LexPivot.Proofs.LexFeasible

/-!
# The row of the objective

A reduced system carries one more row, what the objective loses per unit of each column, with the
value of the objective in its last column. Where that row is nonnegative, the basis is an optimum.
A pivot subtracts a multiple of the pivot row, so under the lexicographic ratio test the row grows
in the lexicographic order and no basis comes back.
-/
namespace LexPivot

open Matrix

variable {r n : Nat}

/-- What the objective `w` loses per unit of each column, and its value. -/
def objectiveRow (w : Fin n → ℚ) (reduced : Matrix (Fin r) (Fin (n + 1)) ℚ)
    (columns : Fin r → Fin n) (l : Fin (n + 1)) : ℚ :=
  ∑ i, w (columns i) * reduced i l - Fin.lastCases 0 w l

section ObjectiveRow

variable {w : Fin n → ℚ} {system reduced : Matrix (Fin r) (Fin (n + 1)) ℚ}
  {columns : Fin r → Fin n}

theorem objectiveRow_castSucc (j : Fin n) :
    objectiveRow w reduced columns j.castSucc =
      ∑ i, w (columns i) * reduced i j.castSucc - w j := by
  rw [objectiveRow, Fin.lastCases_castSucc]

theorem objectiveRow_last :
    objectiveRow w reduced columns (Fin.last n) = ∑ i, w (columns i) * reduced i (Fin.last n) := by
  rw [objectiveRow, Fin.lastCases_last, sub_zero]

theorem objectiveRow_basic (h : Reduced system columns reduced) (k : Fin r) :
    objectiveRow w reduced columns (columns k).castSucc = 0 := by
  simp [objectiveRow_castSucc, h.apply_basic]

/-- The costs of the basic columns are a combination of the equations. -/
theorem exists_multipliers (h : Reduced system columns reduced) (w : Fin n → ℚ) :
    ∃ y : Fin r → ℚ, ∀ l, ∑ k, w (columns k) * reduced k l = ∑ i, y i * system i l := by
  refine ⟨(w ∘ columns) ᵥ* (basisMatrix system columns)⁻¹, fun l => ?_⟩
  have rows : (w ∘ columns) ᵥ* reduced =
      ((w ∘ columns) ᵥ* (basisMatrix system columns)⁻¹) ᵥ* system := by
    rw [vecMul_vecMul, ← h.eq_inv_mul]
  exact congrFun rows l

/-- A pivot clears the entering column from the row of the objective. -/
theorem objectiveRow_pivoted {i : Fin r} {j : Fin n} (nonzero : reduced i j.castSucc ≠ 0)
    (l : Fin (n + 1)) :
    objectiveRow w (pivoted reduced i j) (Function.update columns i j) l =
      objectiveRow w reduced columns l -
        objectiveRow w reduced columns j.castSucc * (reduced i l / reduced i j.castSucc) := by
  -- Every row loses a multiple of the pivot row, and row `i` gets the cost of the new column.
  have term (k : Fin r) : w (Function.update columns i j k) * pivoted reduced i j k l =
      w (columns k) * reduced k l -
        w (columns k) * reduced k j.castSucc * (reduced i l / reduced i j.castSucc) +
        if k = i then w j * (reduced i l / reduced i j.castSucc) else 0 := by
    by_cases same : k = i
    · subst k
      simp only [Function.update_self, pivoted_self, if_true]
      field_simp
      ring
    · simp only [Function.update_of_ne same, pivoted_ne _ _ _ same, if_neg same]
      ring
  rw [objectiveRow, Finset.sum_congr rfl fun k _ => term k, Finset.sum_add_distrib,
    Finset.sum_sub_distrib, ← Finset.sum_mul, Finset.sum_ite_eq' Finset.univ i,
    if_pos (Finset.mem_univ i), objectiveRow_castSucc, objectiveRow]
  ring

/-- At any solution, the objective is less than its value at the basis by what the columns lose. -/
theorem sum_mul_of_solves (h : Reduced system columns reduced) {z : Fin n → ℚ}
    (solves : Solves system z) :
    ∑ l, w l * z l = objectiveRow w reduced columns (Fin.last n) -
      ∑ l, objectiveRow w reduced columns l.castSucc * z l := by
  -- Weigh the reduced equations by the costs of the basic columns.
  have rows := (h.solves_iff z).mpr solves
  have total : ∑ l, (∑ i, w (columns i) * reduced i l.castSucc) * z l =
      objectiveRow w reduced columns (Fin.last n) := by
    simp only [Finset.sum_mul, objectiveRow_last, ← rows _, Finset.mul_sum, mul_assoc]
    rw [Finset.sum_comm]
  simp only [objectiveRow_castSucc, sub_mul, Finset.sum_sub_distrib, total]
  ring

theorem sum_mul_basicPoint :
    ∑ l, w l * basicPoint reduced columns l = objectiveRow w reduced columns (Fin.last n) := by
  rw [basicPoint, sum_mul_spread, objectiveRow_last]

theorem sum_mul_basicRay_eq (j : Fin n) :
    ∑ l, w l * basicRay reduced columns j l = -objectiveRow w reduced columns j.castSucc := by
  rw [sum_mul_basicRay, objectiveRow_castSucc, neg_sub]

end ObjectiveRow

/-- A nonnegative solution that is zero on the blocked columns. -/
structure Admissible (system : Matrix (Fin r) (Fin (n + 1)) ℚ) (blocked : Fin n → Bool)
    (z : Fin n → ℚ) : Prop where
  solves : Solves system z
  nonneg : ∀ j, 0 ≤ z j
  zero : ∀ j, blocked j = true → z j = 0

/-- A direction in which admissible points stay admissible. -/
structure Recedes (system : Matrix (Fin r) (Fin (n + 1)) ℚ) (blocked : Fin n → Bool)
    (d : Fin n → ℚ) : Prop where
  direction : IsDirection system d
  nonneg : ∀ j, 0 ≤ d j
  zero : ∀ j, blocked j = true → d j = 0

section Admissible

variable {system reduced : Matrix (Fin r) (Fin (n + 1)) ℚ} {columns : Fin r → Fin n}
  {blocked : Fin n → Bool} {w z d : Fin n → ℚ}

theorem Admissible.add_recedes (h : Admissible system blocked z)
    (recedes : Recedes system blocked d) {θ : ℚ} (nonneg : 0 ≤ θ) :
    Admissible system blocked (z + θ • d) where
  solves := h.solves.add_direction recedes.direction θ
  nonneg j := add_nonneg (h.nonneg j) (mul_nonneg nonneg (recedes.nonneg j))
  zero j held := by
    rw [Pi.add_apply, Pi.smul_apply, h.zero j held, recedes.zero j held, smul_zero, add_zero]

/-- If no column that is not blocked can gain, the basis is an optimum. -/
theorem Admissible.sum_mul_le (h : Admissible system blocked z)
    (reduces : Reduced system columns reduced)
    (optimal : ∀ j, blocked j = false → 0 ≤ objectiveRow w reduced columns j.castSucc) :
    ∑ l, w l * z l ≤ ∑ l, w l * basicPoint reduced columns l := by
  rw [sum_mul_basicPoint, sum_mul_of_solves reduces h.solves, sub_le_self_iff]
  refine Finset.sum_nonneg fun j _ => ?_
  cases held : blocked j with
  | false => exact mul_nonneg (optimal j held) (h.nonneg j)
  | true => rw [h.zero j held, mul_zero]

end Admissible

end LexPivot
