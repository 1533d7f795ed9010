import Mathlib
import LexPivot.Proofs.LemkeRun

/-!
# Copositive-plus problems

When the quadratic form of the matrix is nonnegative on nonnegative vectors, the form vanishes along
a secondary ray and the covering column does not grow on it. When also `(M + Mᵀ) z = 0` wherever the
form vanishes, the direction of the ray combines the rows into one that no feasible vector can
satisfy. So on such problems the algorithm ends on a ray only if there is nothing to find.
-/
namespace LexPivot

open Matrix

variable {n : Nat}

/-! ### Classes of matrices -/

def PositiveSemidefinite (M : Matrix (Fin n) (Fin n) ℚ) : Prop := ∀ z, 0 ≤ z ⬝ᵥ M *ᵥ z

def PositiveDefinite (M : Matrix (Fin n) (Fin n) ℚ) : Prop := ∀ z, z ≠ 0 → 0 < z ⬝ᵥ M *ᵥ z

/-- The form is nonnegative on nonnegative vectors, and where it vanishes on one, so does its
gradient. -/
structure CopositivePlus (M : Matrix (Fin n) (Fin n) ℚ) : Prop where
  nonneg : ∀ z, 0 ≤ z → 0 ≤ z ⬝ᵥ M *ᵥ z
  plus : ∀ z, 0 ≤ z → z ⬝ᵥ M *ᵥ z = 0 → (M + Mᵀ) *ᵥ z = 0

variable {M : Matrix (Fin n) (Fin n) ℚ}

/-- The form at `z + s y`. -/
theorem form_add_smul (z y : Fin n → ℚ) (s : ℚ) :
    (z + s • y) ⬝ᵥ M *ᵥ (z + s • y) =
      z ⬝ᵥ M *ᵥ z + s * (y ⬝ᵥ (M + Mᵀ) *ᵥ z) + s * s * (y ⬝ᵥ M *ᵥ y) := by
  have swap : z ⬝ᵥ M *ᵥ y = y ⬝ᵥ Mᵀ *ᵥ z := by
    rw [dotProduct_mulVec, ← mulVec_transpose, dotProduct_comm]
  simp only [mulVec_add, mulVec_smul, add_mulVec, dotProduct_add, add_dotProduct, dotProduct_smul,
    smul_dotProduct, smul_eq_mul, swap]
  ring

theorem PositiveSemidefinite.copositivePlus (h : PositiveSemidefinite M) : CopositivePlus M := by
  refine ⟨fun z _ => h z, fun z _ zero => ?_⟩
  -- A step against the gradient would make the form negative, unless the gradient vanishes.
  let y := (M + Mᵀ) *ᵥ z
  have curvature : 0 ≤ y ⬝ᵥ M *ᵥ y := h y
  obtain ⟨s, scaled⟩ : ∃ s, s * (y ⬝ᵥ M *ᵥ y + 1) = -(y ⬝ᵥ y) :=
    ⟨-(y ⬝ᵥ y) / (y ⬝ᵥ M *ᵥ y + 1), div_mul_cancel₀ _ (by linarith)⟩
  have step : 0 ≤ -(s * s) := by
    calc 0 ≤ (z + s • y) ⬝ᵥ M *ᵥ (z + s • y) := h _
      _ = z ⬝ᵥ M *ᵥ z + s * (y ⬝ᵥ y) + s * s * (y ⬝ᵥ M *ᵥ y) := form_add_smul z y s
      _ = s * (y ⬝ᵥ y + s * (y ⬝ᵥ M *ᵥ y + 1)) - s * s := by rw [zero]; ring
      _ = -(s * s) := by rw [scaled]; ring
  have still : s = 0 := mul_self_eq_zero.mp (le_antisymm (neg_nonneg.mp step) (mul_self_nonneg s))
  rw [still, zero_mul, zero_eq_neg, dotProduct_self_eq_zero] at scaled
  exact scaled

/-- Where the form vanishes, the matrix can be moved from one side to the other. -/
theorem CopositivePlus.dotProduct_mulVec_eq (h : CopositivePlus M) {d : Fin n → ℚ} (nonneg : 0 ≤ d)
    (zero : d ⬝ᵥ M *ᵥ d = 0) (y : Fin n → ℚ) : d ⬝ᵥ M *ᵥ y = -(M *ᵥ d ⬝ᵥ y) := by
  have gradient := h.plus d nonneg zero
  rw [add_mulVec] at gradient
  rw [dotProduct_mulVec, ← mulVec_transpose, eq_neg_of_add_eq_zero_right gradient, neg_dotProduct]

/-! ### Secondary rays -/

namespace ComplementarityProblem

variable {p : ComplementarityProblem ℚ n}

def IsFeasible (p : ComplementarityProblem ℚ n) (z : Fin n → ℚ) : Prop := 0 ≤ z ∧ 0 ≤ p.slack z

theorem slack_eq (z : Fin n → ℚ) : p.slack z = p.offset.get + p.matrix.toMatrix *ᵥ z := rfl

/-- The part of a vector on the columns of the variables. -/
def variablePart (z : Fin (n + 1 + n) → ℚ) : Fin n → ℚ := fun k => z (variableColumn k)

namespace SecondaryRay

variable {z d : Fin (n + 1 + n) → ℚ} (h : p.SecondaryRay z d)

include h

theorem variablePart_nonneg : 0 ≤ variablePart d := fun _ => h.direction_nonneg _

theorem variablePart_ne_zero : variablePart d ≠ 0 := by
  obtain ⟨k, grows⟩ := h.grows
  exact fun zero => grows (congrFun zero k)

theorem total_pos : 0 < ∑ k, variablePart d k := by
  obtain ⟨k, grows⟩ := h.grows
  refine Finset.sum_pos' (fun k _ => h.variablePart_nonneg k) ⟨k, Finset.mem_univ k, ?_⟩
  exact (h.variablePart_nonneg k).lt_of_ne' grows

/-- The slacks and the variables grow in orthogonal directions, so the form is what the covering
column takes away. -/
theorem form_eq : variablePart d ⬝ᵥ p.matrix.toMatrix *ᵥ variablePart d =
    -(d coverColumn * ∑ k, variablePart d k) := by
  have orthogonal : ∑ k, variablePart d k * d (slackColumn k) = 0 :=
    Finset.sum_eq_zero fun k _ => h.complementary k
  simp only [slack_of_direction h.direction, mul_add, Finset.sum_add_distrib,
    ← Finset.sum_mul] at orthogonal
  rw [eq_neg_iff_add_eq_zero, mul_comm (d coverColumn), ← orthogonal]
  rfl

theorem form_nonpos : variablePart d ⬝ᵥ p.matrix.toMatrix *ᵥ variablePart d ≤ 0 := by
  rw [h.form_eq, neg_nonpos]
  exact mul_nonneg (h.direction_nonneg _) h.total_pos.le

section Copositive

variable (plus : CopositivePlus p.matrix.toMatrix)

include plus

theorem form_eq_zero : variablePart d ⬝ᵥ p.matrix.toMatrix *ᵥ variablePart d = 0 :=
  le_antisymm h.form_nonpos (plus.nonneg _ h.variablePart_nonneg)

theorem cover_eq_zero : d coverColumn = 0 := by
  have form := h.form_eq_zero plus
  rw [h.form_eq, neg_eq_zero, mul_eq_zero] at form
  exact form.resolve_right h.total_pos.ne'

theorem mulVec_variablePart (i : Fin n) :
    (p.matrix.toMatrix *ᵥ variablePart d) i = d (slackColumn i) := by
  rw [slack_of_direction h.direction, h.cover_eq_zero plus, add_zero]
  rfl

/-- At the point of the ray, only the offset balances the covering column. -/
theorem dotProduct_offset :
    variablePart d ⬝ᵥ p.offset.get = -(z coverColumn * ∑ k, variablePart d k) := by
  have apart : variablePart d ⬝ᵥ p.matrix.toMatrix *ᵥ variablePart z = 0 := by
    rw [plus.dotProduct_mulVec_eq h.variablePart_nonneg (h.form_eq_zero plus), neg_eq_zero]
    refine Finset.sum_eq_zero fun k _ => ?_
    rw [h.mulVec_variablePart plus, mul_comm]
    exact h.point_apart k
  have balance : ∑ k, variablePart d k * z (slackColumn k) = 0 :=
    Finset.sum_eq_zero fun k _ => h.direction_apart k
  simp only [slack_of_solves h.solves, mul_add, Finset.sum_add_distrib, ← Finset.sum_mul] at balance
  have split : ∑ k, variablePart d k * p.slack (variablePart z) k =
      variablePart d ⬝ᵥ p.offset.get + variablePart d ⬝ᵥ p.matrix.toMatrix *ᵥ variablePart z :=
    dotProduct_add _ _ _
  rw [apart, add_zero] at split
  rw [← split, eq_neg_iff_add_eq_zero, mul_comm (z coverColumn)]
  exact balance

theorem not_isFeasible (y : Fin n → ℚ) : ¬p.IsFeasible y := by
  rintro ⟨nonneg, slack⟩
  -- The rows, combined with the direction, would be nonnegative at a feasible vector.
  have combined : 0 ≤ variablePart d ⬝ᵥ p.slack y :=
    dotProduct_nonneg_of_nonneg h.variablePart_nonneg slack
  have moved : 0 ≤ p.matrix.toMatrix *ᵥ variablePart d ⬝ᵥ y := by
    refine dotProduct_nonneg_of_nonneg (fun i => ?_) nonneg
    rw [h.mulVec_variablePart plus]
    exact h.direction_nonneg _
  rw [slack_eq, dotProduct_add, h.dotProduct_offset plus,
    plus.dotProduct_mulVec_eq h.variablePart_nonneg (h.form_eq_zero plus)] at combined
  have positive := mul_pos (h.stuck (h.cover_eq_zero plus)) h.total_pos
  linarith

end Copositive

end SecondaryRay

/-! ### Completeness -/

theorem solve_eq_ray_iff (p : ComplementarityProblem ℚ n)
    (plus : CopositivePlus p.matrix.toMatrix) :
    p.solve = .ok .ray ↔ ¬∃ z, p.IsFeasible z := by
  rcases p.solve_cases with ⟨z, solved, solution⟩ | ⟨ray, z, d, secondary⟩
  · have feasible : ∃ z, p.IsFeasible z := ⟨_, solution.nonneg, solution.slack_nonneg⟩
    simp [solved, feasible]
  · simp [ray, secondary.not_isFeasible plus]

/-- The algorithm solves every feasible problem with a copositive-plus matrix. Semidefinite matrices
are such matrices, and with a definite one the algorithm solves every problem. -/
theorem solve_complete (p : ComplementarityProblem ℚ n) :
    (CopositivePlus p.matrix.toMatrix →
      (p.solve = .ok .ray ↔ ¬∃ z, p.IsFeasible z) ∧
      ((∃ z, p.IsFeasible z) → ∃ z, p.solve = .ok (.solved z))) ∧
    (PositiveSemidefinite p.matrix.toMatrix → CopositivePlus p.matrix.toMatrix) ∧
    (PositiveDefinite p.matrix.toMatrix → ∃ z, p.solve = .ok (.solved z)) := by
  refine ⟨fun plus => ⟨p.solve_eq_ray_iff plus, fun feasible => ?_⟩,
    fun semidefinite => semidefinite.copositivePlus, fun definite => ?_⟩
  · rcases p.solve_cases with ⟨z, solved, _⟩ | ⟨ray, _⟩
    · exact ⟨z, solved⟩
    · exact absurd feasible ((p.solve_eq_ray_iff plus).mp ray)
  · rcases p.solve_cases with ⟨z, solved, _⟩ | ⟨_, z, d, secondary⟩
    · exact ⟨z, solved⟩
    · exact absurd secondary.form_nonpos (definite _ secondary.variablePart_ne_zero).not_ge

/-- A singular semidefinite matrix with two offsets, of which one can be solved, and a definite
matrix that is not symmetric. -/
theorem solve_complete_semidefinite :
    let singular : Grid ℚ 2 2 := #v[#v[1, -1], #v[-1, 1]]
    let definite : Grid ℚ 2 2 := #v[#v[1, 1], #v[-1, 1]]
    (∃ z, (ComplementarityProblem.mk singular #v[-1, 1]).solve = .ok (.solved z)) ∧
    (ComplementarityProblem.mk singular #v[-1, -1]).solve = .ok .ray ∧
    ∃ z, (ComplementarityProblem.mk definite #v[-1, -1]).solve = .ok (.solved z) := by
  intro singular definite
  have semidefinite : PositiveSemidefinite singular.toMatrix := by
    intro z
    have form : z ⬝ᵥ singular.toMatrix *ᵥ z = (z 0 - z 1) ^ 2 := by
      simp [dotProduct, mulVec, singular, Grid.entry, Fin.sum_univ_two]
      ring
    rw [form]
    exact sq_nonneg _
  have positive : PositiveDefinite definite.toMatrix := by
    intro z nonzero
    have form : z ⬝ᵥ definite.toMatrix *ᵥ z = z 0 ^ 2 + z 1 ^ 2 := by
      simp [dotProduct, mulVec, definite, Grid.entry, Fin.sum_univ_two]
      ring
    rw [form]
    have moves : z 0 ≠ 0 ∨ z 1 ≠ 0 := by
      rw [← not_and_or]
      exact fun zero => nonzero (funext (Fin.forall_fin_two.mpr zero))
    rcases moves with first | second
    · positivity
    · positivity
  obtain ⟨solves, plus, _⟩ := solve_complete ⟨singular, #v[-1, 1]⟩
  obtain ⟨rays, _⟩ := solve_complete ⟨singular, #v[-1, -1]⟩
  obtain ⟨_, _, always⟩ := solve_complete ⟨definite, #v[-1, -1]⟩
  refine ⟨(solves (plus semidefinite)).2 ⟨![1, 0], ?_⟩,
    (rays (plus semidefinite)).1.mpr ?_, always positive⟩
  · constructor
    · intro k
      fin_cases k <;> simp
    · intro k
      fin_cases k <;> simp [slack, singular, Grid.entry]
  · rintro ⟨z, _, slack⟩
    have first := slack 0
    have second := slack 1
    simp [ComplementarityProblem.slack, singular, Grid.entry] at first second
    linarith

end ComplementarityProblem

end LexPivot
