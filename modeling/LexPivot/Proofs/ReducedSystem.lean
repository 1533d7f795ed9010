import Mathlib

/-!
# Systems reduced to a basis

A system of equations is a matrix with the right-hand side in its last column. Reduced to a basis,
that is a choice of one regular column for each row, it becomes `B⁻¹` times that matrix. The reduced
system is determined by the basis, has the same solutions, and an exchange of one column is a
Gauss-Jordan pivot.
-/
namespace LexPivot

open Matrix

variable {r n : Nat}

def basisMatrix {K : Type} (system : Matrix (Fin r) (Fin (n + 1)) K) (columns : Fin r → Fin n) :
    Matrix (Fin r) (Fin r) K :=
  system.submatrix id fun k => (columns k).castSucc

@[simp] theorem basisMatrix_apply {K : Type} (system : Matrix (Fin r) (Fin (n + 1)) K)
    (columns : Fin r → Fin n) (i k : Fin r) :
    basisMatrix system columns i k = system i (columns k).castSucc := rfl

theorem basisMatrix_update {K : Type} (system : Matrix (Fin r) (Fin (n + 1)) K)
    (columns : Fin r → Fin n) (i : Fin r) (j : Fin n) :
    basisMatrix system (Function.update columns i j) =
      (basisMatrix system columns).updateCol i (system.col j.castSucc) := by
  ext p k
  by_cases same : k = i
  · subst k
    simp
  · simp [same]

/-- Whether the values of the columns satisfy every equation. -/
def Solves (system : Matrix (Fin r) (Fin (n + 1)) ℚ) (z : Fin n → ℚ) : Prop :=
  ∀ i, ∑ j, system i j.castSucc * z j = system i (Fin.last n)

/-- `reduced` is the system solved for the basic columns. -/
structure Reduced (system : Matrix (Fin r) (Fin (n + 1)) ℚ) (columns : Fin r → Fin n)
    (reduced : Matrix (Fin r) (Fin (n + 1)) ℚ) : Prop where
  regular : (basisMatrix system columns).det ≠ 0
  product : basisMatrix system columns * reduced = system

/-- The Gauss-Jordan pivot on `(i, j)`. -/
def pivoted (reduced : Matrix (Fin r) (Fin (n + 1)) ℚ) (i : Fin r) (j : Fin n) :
    Matrix (Fin r) (Fin (n + 1)) ℚ :=
  Matrix.of fun k l =>
    if k = i then reduced i l / reduced i j.castSucc
    else reduced k l - reduced k j.castSucc * (reduced i l / reduced i j.castSucc)

@[simp] theorem pivoted_self (reduced : Matrix (Fin r) (Fin (n + 1)) ℚ) (i : Fin r) (j : Fin n)
    (l : Fin (n + 1)) : pivoted reduced i j i l = reduced i l / reduced i j.castSucc := by
  simp [pivoted]

theorem pivoted_ne (reduced : Matrix (Fin r) (Fin (n + 1)) ℚ) {i k : Fin r} (j : Fin n)
    (l : Fin (n + 1)) (ne : k ≠ i) :
    pivoted reduced i j k l =
      reduced k l - reduced k j.castSucc * (reduced i l / reduced i j.castSucc) := by
  simp [pivoted, ne]

theorem sum_mul_solution (system : Matrix (Fin r) (Fin (n + 1)) ℚ) (z : Fin n → ℚ) (i : Fin r) :
    ∑ j, system i j.castSucc * z j - system i (Fin.last n) =
      (system *ᵥ Fin.snoc z (-1)) i := by
  rw [Matrix.mulVec, dotProduct, Fin.sum_univ_castSucc]
  simp [sub_eq_add_neg]

theorem solves_iff (system : Matrix (Fin r) (Fin (n + 1)) ℚ) (z : Fin n → ℚ) :
    Solves system z ↔ system *ᵥ Fin.snoc z (-1) = 0 := by
  rw [funext_iff]
  refine forall_congr' fun i => ?_
  rw [← sum_mul_solution, Pi.zero_apply, sub_eq_zero]

namespace Reduced

variable {system reduced : Matrix (Fin r) (Fin (n + 1)) ℚ} {columns : Fin r → Fin n}

theorem eq_inv_mul (h : Reduced system columns reduced) :
    reduced = (basisMatrix system columns)⁻¹ * system := by
  have unit : IsUnit (basisMatrix system columns).det := isUnit_iff_ne_zero.mpr h.regular
  rw [← Matrix.one_mul reduced, ← Matrix.nonsing_inv_mul _ unit, Matrix.mul_assoc, h.product]

/-- The basis determines the reduced system. -/
theorem unique {other : Matrix (Fin r) (Fin (n + 1)) ℚ} (h : Reduced system columns reduced)
    (h' : Reduced system columns other) : reduced = other :=
  h.eq_inv_mul.trans h'.eq_inv_mul.symm

theorem sum_mul (h : Reduced system columns reduced) (i : Fin r) (l : Fin (n + 1)) :
    ∑ k, system i (columns k).castSucc * reduced k l = system i l :=
  congrFun (congrFun h.product i) l

/-- If every basic column lives in its own row only, a reduced row is a row divided by its basic
entry. -/
theorem mul_apply_of_diagonal (h : Reduced system columns reduced)
    (diagonal : ∀ i k, k ≠ i → system i (columns k).castSucc = 0) (i : Fin r) (l : Fin (n + 1)) :
    system i (columns i).castSucc * reduced i l = system i l := by
  rw [← h.sum_mul i l, Finset.sum_eq_single i]
  · intro k _ ne
    rw [diagonal i k ne, zero_mul]
  · exact fun absent => absurd (Finset.mem_univ i) absent

theorem apply_basic (h : Reduced system columns reduced) (i k : Fin r) :
    reduced i (columns k).castSucc = if i = k then 1 else 0 := by
  have unit : IsUnit (basisMatrix system columns).det := isUnit_iff_ne_zero.mpr h.regular
  have identity : reduced.submatrix id (fun k => (columns k).castSucc) = 1 := by
    rw [h.eq_inv_mul, ← Matrix.nonsing_inv_mul _ unit]
    rfl
  simpa [Matrix.one_apply] using congrFun (congrFun identity i) k

theorem apply_self (h : Reduced system columns reduced) (k : Fin r) :
    reduced k (columns k).castSucc = 1 := by
  simp [h.apply_basic]

theorem apply_ne (h : Reduced system columns reduced) {i k : Fin r} (ne : i ≠ k) :
    reduced i (columns k).castSucc = 0 := by
  simp [h.apply_basic, ne]

theorem injective (h : Reduced system columns reduced) : Function.Injective columns := by
  intro i k same
  by_contra ne
  have one := h.apply_self i
  rw [same, h.apply_ne ne] at one
  exact zero_ne_one one

theorem mulVec_eq_zero_iff (h : Reduced system columns reduced) (z : Fin (n + 1) → ℚ) :
    reduced *ᵥ z = 0 ↔ system *ᵥ z = 0 := by
  constructor
  · intro zero
    rw [← h.product, ← Matrix.mulVec_mulVec, zero, Matrix.mulVec_zero]
  · intro zero
    rw [h.eq_inv_mul, ← Matrix.mulVec_mulVec, zero, Matrix.mulVec_zero]

/-- Reducing a system keeps its solutions. -/
theorem solves_iff (h : Reduced system columns reduced) (z : Fin n → ℚ) :
    Solves reduced z ↔ Solves system z := by
  rw [LexPivot.solves_iff, LexPivot.solves_iff, h.mulVec_eq_zero_iff]

/-- The rows of a reduced system come in the order of its basis. -/
theorem permute (h : Reduced system columns reduced) (σ : Equiv.Perm (Fin r)) :
    Reduced system (columns ∘ σ) (reduced.submatrix σ id) where
  regular := by
    have same : basisMatrix system (columns ∘ σ) =
        (basisMatrix system columns).submatrix id σ := rfl
    rw [same, Matrix.det_permute']
    exact mul_ne_zero (by exact_mod_cast (Equiv.Perm.sign σ).ne_zero) h.regular
  product := by
    have same : basisMatrix system (columns ∘ σ) =
        (basisMatrix system columns).submatrix id σ := rfl
    rw [same, Matrix.submatrix_mul_equiv, h.product, Matrix.submatrix_id_id]

/-- By Cramer's rule, making another column basic in a row multiplies the determinant by the entry
of that column in the row. -/
theorem det_update (h : Reduced system columns reduced) (i : Fin r) (j : Fin n) :
    (basisMatrix system (Function.update columns i j)).det =
      (basisMatrix system columns).det * reduced i j.castSucc := by
  have image : basisMatrix system columns *ᵥ reduced.col j.castSucc = system.col j.castSucc := by
    ext k
    exact h.sum_mul k j.castSucc
  rw [basisMatrix_update, ← Matrix.cramer_apply, ← image, Matrix.cramer_eq_adjugate_mulVec,
    Matrix.mulVec_mulVec, Matrix.adjugate_mul, Matrix.smul_mulVec, Matrix.one_mulVec]
  rfl

/-- Making another column basic in a row is a Gauss-Jordan pivot. -/
theorem exchange (h : Reduced system columns reduced) (i : Fin r) (j : Fin n)
    (nonzero : reduced i j.castSucc ≠ 0) :
    Reduced system (Function.update columns i j) (pivoted reduced i j) where
  regular := by
    rw [h.det_update]
    exact mul_ne_zero h.regular nonzero
  product := by
    -- The rows together make the old products; the pivot row adds the new column.
    ext p l
    have term (k : Fin r) :
        basisMatrix system (Function.update columns i j) p k * pivoted reduced i j k l =
        system p (columns k).castSucc * reduced k l -
          system p (columns k).castSucc * reduced k j.castSucc *
            (reduced i l / reduced i j.castSucc) +
          if k = i then system p j.castSucc * (reduced i l / reduced i j.castSucc) else 0 := by
      by_cases same : k = i
      · subst k
        simp only [basisMatrix_apply, Function.update_self, pivoted_self, if_true]
        field_simp
        ring
      · simp only [basisMatrix_apply, Function.update_of_ne same, pivoted_ne _ _ _ same,
          if_neg same]
        ring
    rw [Matrix.mul_apply, Finset.sum_congr rfl fun k _ => term k, Finset.sum_add_distrib,
      Finset.sum_sub_distrib, ← Finset.sum_mul, h.sum_mul, h.sum_mul,
      Finset.sum_ite_eq' Finset.univ i, if_pos (Finset.mem_univ i)]
    ring

end Reduced

end LexPivot
