import Mathlib
import LexPivot.LinearProgram.Solve
import LexPivot.Proofs.SimplexRun

/-!
# The system of constraints

The columns of a simplex tableau are the variables, the artificial columns and the slacks. The
points that satisfy the constraints are the admissible solutions that are zero on the artificial
columns, where the slacks of the equality rows are blocked.
-/
namespace LexPivot

open Matrix

namespace SimplexTableau

variable {r v a : Nat}

def variableColumn (j : Fin v) : Fin (v + a + r) := Fin.castAdd r (Fin.castAdd a j)

def artificialColumn (q : Fin a) : Fin (v + a + r) := Fin.castAdd r (Fin.natAdd v q)

def slackColumn (i : Fin r) : Fin (v + a + r) := Fin.natAdd (v + a) i

theorem column_cases (l : Fin (v + a + r)) :
    (∃ j, l = variableColumn j) ∨ (∃ q, l = artificialColumn q) ∨ ∃ i, l = slackColumn i := by
  refine Fin.addCases (fun k => ?_) (fun i => Or.inr (Or.inr ⟨i, rfl⟩)) l
  refine Fin.addCases (fun j => Or.inl ⟨j, rfl⟩) (fun q => Or.inr (Or.inl ⟨q, rfl⟩)) k

theorem sum_columns (f : Fin (v + a + r) → ℚ) :
    ∑ l, f l =
      ∑ j, f (variableColumn j) + ∑ q, f (artificialColumn q) + ∑ i, f (slackColumn i) := by
  rw [Fin.sum_univ_add, Fin.sum_univ_add]
  rfl

theorem artificialColumn_ne_slackColumn (q : Fin a) (i : Fin r) :
    (artificialColumn q : Fin (v + a + r)) ≠ slackColumn i := by
  intro same
  have bound := (Fin.natAdd v q).isLt
  have number := congrArg Fin.val same
  simp only [artificialColumn, slackColumn, Fin.val_castAdd, Fin.val_natAdd] at number bound
  omega

theorem variableColumn_ne_slackColumn (j : Fin v) (i : Fin r) :
    (variableColumn j : Fin (v + a + r)) ≠ slackColumn i := by
  intro same
  have number := congrArg Fin.val same
  simp only [variableColumn, slackColumn, Fin.val_castAdd, Fin.val_natAdd] at number
  omega

theorem variableColumn_ne_artificialColumn (j : Fin v) (q : Fin a) :
    (variableColumn j : Fin (v + a + r)) ≠ artificialColumn q := by
  intro same
  have number := congrArg Fin.val same
  simp only [variableColumn, artificialColumn, Fin.val_castAdd, Fin.val_natAdd] at number
  omega

theorem artificialColumn_injective :
    Function.Injective (artificialColumn : Fin a → Fin (v + a + r)) :=
  (Fin.castAdd_injective _ _).comp (Fin.natAdd_injective _ _)

theorem slackColumn_injective : Function.Injective (slackColumn : Fin r → Fin (v + a + r)) :=
  Fin.natAdd_injective _ _

section Labels

variable {basis : Basis r (v + a)}

theorem labelAt_variable (first : basis.first = 1) (j : Fin v) :
    basis.labelAt (variableColumn j) = .structural (j + 1) := by
  rw [variableColumn, Basis.labelAt_castAdd, first, Fin.val_castAdd, Nat.add_comm]

theorem labelAt_artificial (first : basis.first = 1) (q : Fin a) :
    basis.labelAt (artificialColumn q) = .structural (v + 1 + q) := by
  rw [artificialColumn, Basis.labelAt_castAdd, first, Fin.val_natAdd]
  congr 1
  omega

theorem labelAt_slackColumn (basis : Basis r (v + a)) (i : Fin r) :
    basis.labelAt (slackColumn i) = .slack (i + 1) :=
  Basis.labelAt_natAdd _ _

end Labels

/-! ### Objectives -/

theorem sum_phase1Costs (s : SimplexTableau ℚ r v) (z : Fin (v + s.artificials + r) → ℚ) :
    ∑ l, columnCosts s.phase1Costs l * z l = -∑ q, z (artificialColumn q) := by
  rw [sum_columns]
  simp [columnCosts, phase1Costs, variableColumn, artificialColumn, slackColumn]

end SimplexTableau

namespace Constraints

open SimplexTableau

variable {r v : Nat} {k : Constraints ℚ r v} {rows : List (Fin r)} {x : Fin v → ℚ}

/-- The points that satisfy the constraints. -/
structure Feasible (k : Constraints ℚ r v) (x : Fin v → ℚ) : Prop where
  nonneg : ∀ j, 0 ≤ x j
  rows : ∀ i, k.bound.get i ≤ ∑ j, k.matrix.entry i j * x j
  equalities : ∀ i : Fin r, r - k.equalities ≤ i → ∑ j, k.matrix.entry i j * x j = k.bound.get i

/-- The equations of the constraints, with an artificial column for each of the rows of a list. -/
def system (k : Constraints ℚ r v) (rows : List (Fin r)) :
    Matrix (Fin r) (Fin (v + rows.length + r + 1)) ℚ :=
  Tableau.systemMatrix (k.extended rows) k.bound

theorem system_variable (i : Fin r) (j : Fin v) :
    k.system rows i (variableColumn j).castSucc = k.matrix.entry i j := by
  rw [system, variableColumn, Tableau.systemMatrix_structural, extended, Grid.entry_ofFn,
    Fin.addCases_left]

theorem system_artificial (i : Fin r) (q : Fin rows.length) :
    k.system rows i (artificialColumn q).castSucc =
      if rows.get q = i then k.artificialEntry i else 0 := by
  rw [system, artificialColumn, Tableau.systemMatrix_structural, extended, Grid.entry_ofFn,
    Fin.addCases_right]

theorem system_slack (i q : Fin r) :
    k.system rows i (slackColumn q).castSucc = if q = i then -1 else 0 :=
  Tableau.systemMatrix_slack _ _ _ _

theorem system_last (i : Fin r) : k.system rows i (Fin.last _) = k.bound.get i :=
  Tableau.systemMatrix_last _ _ _

theorem sum_system (i : Fin r) (z : Fin (v + rows.length + r) → ℚ) :
    ∑ l, k.system rows i l.castSucc * z l =
      ∑ j, k.matrix.entry i j * z (variableColumn j) +
      ∑ q, (if rows.get q = i then k.artificialEntry i else 0) * z (artificialColumn q) -
      z (slackColumn i) := by
  rw [system, sum_systemMatrix, Fin.sum_univ_add]
  simp only [extended, Grid.entry_ofFn, Fin.addCases_left, Fin.addCases_right]
  rfl

/-- A point with the slacks of its rows and nothing on the artificial columns. -/
def lift {a : Nat} (k : Constraints ℚ r v) (x : Fin v → ℚ) : Fin (v + a + r) → ℚ :=
  Fin.addCases (Fin.addCases x fun _ => 0)
    fun i => ∑ j, k.matrix.entry i j * x j - k.bound.get i

section Lift

variable {a : Nat}

@[simp] theorem lift_variable (j : Fin v) :
    (k.lift x : Fin (v + a + r) → ℚ) (variableColumn j) = x j := by
  simp [lift, variableColumn]

@[simp] theorem lift_artificial (q : Fin a) :
    (k.lift x : Fin (v + a + r) → ℚ) (artificialColumn q) = 0 := by
  simp [lift, artificialColumn]

@[simp] theorem lift_slack (i : Fin r) : (k.lift x : Fin (v + a + r) → ℚ) (slackColumn i) =
    ∑ j, k.matrix.entry i j * x j - k.bound.get i := by
  simp [lift, slackColumn]

end Lift

/-- A point that satisfies the constraints is admissible, if nothing else is blocked than the slacks
of equality rows and artificial columns. -/
theorem Feasible.admissible_lift (h : k.Feasible x) {blocked : Fin (v + rows.length + r) → Bool}
    (only : ∀ l, blocked l = true →
      (∃ i, k.isEquality i = true ∧ l = slackColumn i) ∨ ∃ q, l = artificialColumn q) :
    Admissible (k.system rows) blocked (k.lift x) where
  solves i := by
    rw [sum_system, system_last]
    simp
  nonneg l := by
    rcases column_cases l with ⟨j, rfl⟩ | ⟨q, rfl⟩ | ⟨i, rfl⟩
    · rw [lift_variable]
      exact h.nonneg j
    · rw [lift_artificial]
    · rw [lift_slack]
      linarith [h.rows i]
  zero l held := by
    rcases only l held with ⟨i, equality, rfl⟩ | ⟨q, rfl⟩
    · rw [lift_slack, h.equalities i (of_decide_eq_true equality), sub_self]
    · exact lift_artificial q

/-- Without artificial columns a row exceeds its bound by its slack. -/
theorem sum_entry_of_solves {z : Fin (v + rows.length + r) → ℚ} (solves : Solves (k.system rows) z)
    (artificials : ∀ q, z (artificialColumn q) = 0) (i : Fin r) :
    ∑ j, k.matrix.entry i j * z (variableColumn j) = k.bound.get i + z (slackColumn i) := by
  have equation := solves i
  rw [sum_system, system_last] at equation
  simp only [artificials, mul_zero, Finset.sum_const_zero, add_zero] at equation
  linarith

/-- An admissible point without artificial columns satisfies the constraints, if the slacks of the
equality rows are blocked. -/
theorem feasible_of_admissible {blocked : Fin (v + rows.length + r) → Bool}
    {z : Fin (v + rows.length + r) → ℚ} (h : Admissible (k.system rows) blocked z)
    (slacks : ∀ i, k.isEquality i = true → blocked (slackColumn i) = true)
    (artificials : ∀ q, z (artificialColumn q) = 0) : k.Feasible fun j => z (variableColumn j) := by
  have row := sum_entry_of_solves h.solves artificials
  refine ⟨fun j => h.nonneg _, fun i => ?_, fun i equality => ?_⟩
  · rw [row]
    linarith [h.nonneg (slackColumn i)]
  · rw [row, h.zero _ (slacks i (decide_eq_true equality)), add_zero]

end Constraints

end LexPivot
