import Mathlib
import LexPivot.Proofs.ProgramStatus

/-!
# Shadow prices certify the optimum

The costs of the basic columns combine the equations into one. The slack columns are minus the unit
columns, so the multipliers of that combination are what the shadow prices read off them. Its other
columns then say that the prices cover the objective, and its last one that they attain its value.
A column that is not zero is basic and has no reduced cost, which is complementary slackness.
-/
namespace LexPivot

open Matrix SimplexTableau Tableau

variable {r v : Nat}

/-! ### Shadow prices as multipliers -/

namespace SimplexTableau

theorem objectiveRow_slack {a : Nat} {t : Tableau ℚ r (v + a)} (costs : Vector ℚ (v + a))
    (i : Fin r) :
    objectiveRow (columnCosts costs) t.values t.basis.columns.get (slackColumn i).castSucc =
      ∑ q, columnCosts costs (t.basis.columns.get q) * t.values q (slackColumn i).castSucc := by
  have free : columnCosts costs (slackColumn i : Fin (v + a + r)) = 0 := Fin.addCases_right _
  rw [objectiveRow_castSucc, free, sub_zero]

theorem get_dualValues {a : Nat} {t : Tableau ℚ r (v + a)} (costs : Vector ℚ (v + a))
    (consistent : t.basis.Consistent) (first : t.basis.first = 1) (i : Fin r) :
    (dualValues ⟨a, t, costs⟩).get i =
      -objectiveRow (columnCosts costs) t.values t.basis.columns.get (slackColumn i).castSucc := by
  rw [dualValues, get_ofFn, Scalar.dot_eq, objectiveRow_slack]
  refine congrArg _ (Finset.sum_congr rfl fun q _ => ?_)
  rw [basicCosts, get_ofFn, consistent.rowLabel_eq, cost_labelAt first, get_reducedColumn]
  rfl

/-- The shadow prices combine the equations as the costs of the basic columns do. -/
theorem sum_basicCosts_eq {k : Constraints ℚ r v} {rows : List (Fin r)}
    {t : Tableau ℚ r (v + rows.length)} (costs : Vector ℚ (v + rows.length))
    (represents : t.Represents (k.system rows)) (first : t.basis.first = 1)
    (l : Fin (v + rows.length + r + 1)) :
    ∑ q, columnCosts costs (t.basis.columns.get q) * t.values q l =
      ∑ i, k.system rows i l * (dualValues ⟨_, t, costs⟩).get i := by
  obtain ⟨y, combine⟩ := exists_multipliers represents.reduced (columnCosts costs)
  have price (i : Fin r) : (dualValues ⟨_, t, costs⟩).get i = y i := by
    rw [get_dualValues costs represents.consistent first, objectiveRow_slack, combine]
    simp [Constraints.system_slack]
  simp only [combine, price, mul_comm]

end SimplexTableau

namespace LinearProgram

variable {p : LinearProgram ℚ r v}

/-- A feasible point and prices of the rows that prove each other optimal, with their common
value. -/
structure IsCertificate (p : LinearProgram ℚ r v) (x : Fin v → ℚ) (u : Fin r → ℚ) (value : ℚ) :
    Prop where
  feasible : p.Feasible x
  nonpos : ∀ i : Fin r, i < r - p.equalities → u i ≤ 0
  covers : ∀ j, p.objective.get j ≤ ∑ i, p.matrix.entry i j * u i
  value_eq : p.value x = value
  bound_eq : ∑ i, p.bound.get i * u i = value
  -- A price is paid for tight rows only, and a variable is used where its price is tight.
  tight : ∀ i : Fin r, i < r - p.equalities →
    p.bound.get i < ∑ j, p.matrix.entry i j * x j → u i = 0
  unused : ∀ j, p.objective.get j < ∑ i, p.matrix.entry i j * u i → x j = 0

namespace PhaseTwo

variable {origin t : Tableau ℚ r (v + p.artificialRows.length)} (phase : p.PhaseTwo t)

include phase

theorem blocked_variable (j : Fin v) : t.basis.blocked.get (variableColumn j) = false := by
  rw [← Bool.not_eq_true, phase.blocked]
  rintro (⟨i, _, slack⟩ | ⟨q, artificial⟩)
  · exact variableColumn_ne_slackColumn j i slack
  · exact variableColumn_ne_artificialColumn j q artificial

theorem blocked_slack {i : Fin r} (inequality : i < r - p.equalities) :
    t.basis.blocked.get (slackColumn i) = false := by
  rw [← Bool.not_eq_true, phase.blocked]
  rintro (⟨q, equality, slack⟩ | ⟨q, artificial⟩)
  · obtain rfl := slackColumn_injective slack
    exact absurd (of_decide_eq_true equality) (not_le.mpr inequality)
  · exact artificialColumn_ne_slackColumn q i artificial.symm

theorem objectiveRow_variable (j : Fin v) :
    objectiveRow (columnCosts p.objectiveCosts) t.values t.basis.columns.get
        (variableColumn j).castSucc =
      ∑ i, p.matrix.entry i j * (dualValues ⟨_, t, p.objectiveCosts⟩).get i -
        p.objective.get j := by
  have cost : columnCosts p.objectiveCosts
      (variableColumn j : Fin (v + p.artificialRows.length + r)) = p.objective.get j := by
    simp [columnCosts, objectiveCosts, variableColumn]
  rw [objectiveRow_castSucc, sum_basicCosts_eq _ phase.represents phase.first, cost]
  simp only [Constraints.system_variable]

/-- The basis at the end of the second phase and its shadow prices certify each other. -/
theorem isCertificate (state : SimplexState (p.system p.artificialRows) origin t)
    (ends : Ends p.objectiveCosts t .optimal) :
    p.IsCertificate (primal ⟨_, t, p.objectiveCosts⟩).get
      (dualValues ⟨_, t, p.objectiveCosts⟩).get (objectiveValue ⟨_, t, p.objectiveCosts⟩) := by
  cases ends with
  | optimal optimal =>
  have represents := state.represents
  have point : (primal ⟨_, t, p.objectiveCosts⟩).get = fun j => t.point (variableColumn j) :=
    funext (get_primal _ represents phase.first)
  have basic {l : Fin (v + p.artificialRows.length + r)} (nonzero : t.point l ≠ 0) :
      objectiveRow (columnCosts p.objectiveCosts) t.values t.basis.columns.get l.castSucc = 0 := by
    obtain ⟨q, rfl⟩ := exists_row_of_point_ne_zero nonzero
    exact objectiveRow_basic represents.reduced q
  have artificials (q : Fin p.artificialRows.length) : t.point (artificialColumn q) = 0 :=
    state.admissible.zero _ ((phase.blocked _).mpr (Or.inr ⟨q, rfl⟩))
  have row := Constraints.sum_entry_of_solves represents.solves_point artificials
  rw [point]
  refine ⟨phase.feasible state.admissible, fun i inequality => ?_, fun j => ?_, ?_, ?_,
    fun i _ loose => ?_, fun j covered => ?_⟩
  · rw [get_dualValues _ represents.consistent phase.first, neg_nonpos]
    exact optimal _ (phase.blocked_slack inequality)
  · have reduced := optimal _ (phase.blocked_variable j)
    rw [phase.objectiveRow_variable] at reduced
    exact sub_nonneg.mp reduced
  · rw [objectiveValue_eq phase.represents.consistent phase.first, sum_objectiveCosts]
  · have total := sum_basicCosts_eq p.objectiveCosts represents phase.first (Fin.last _)
    simp only [Constraints.system_last] at total
    rw [← total, objectiveValue_eq phase.represents.consistent phase.first, Tableau.point,
      sum_mul_basicPoint, objectiveRow_last]
  · -- The slack of a row that is not tight is positive.
    rw [row, lt_add_iff_pos_right] at loose
    rw [get_dualValues _ represents.consistent phase.first, basic loose.ne', neg_zero]
  · by_contra nonzero
    have zero := basic nonzero
    rw [phase.objectiveRow_variable] at zero
    exact covered.ne' (sub_eq_zero.mp zero)

end PhaseTwo

theorem columns_pos_of_solve {s : SolvedProgram ℚ r v} (solved : p.solve = .ok s) :
    0 < v + p.artificialRows.length := by
  cases built : ofConstraints p.toConstraints with
  | error e => simp [solve, built] at solved
  | ok fresh => exact columns_pos_of_ofConstraints built

/-- A program that is feasible and bounded is solved with a certificate. -/
theorem exists_certificate (p : LinearProgram ℚ r v) (some_variable : 0 < v) {x : Fin v → ℚ}
    (feasible : p.Feasible x) (bounded : ¬p.IsUnbounded) :
    ∃ s x value u, p.solve = .ok s ∧ s.optimum? = some x ∧ s.optimumValue? = some value ∧
      s.dualValues? = some u ∧ p.IsCertificate x.get u.get value := by
  obtain ⟨s, solved, ends⟩ := p.solve_finishes (Nat.add_pos_left some_variable _)
  rcases ends with ⟨_, none⟩ | finishes
  · exact absurd feasible (none x)
  · rcases finishes.verdict with ⟨status, _⟩ | ⟨_, unbounded⟩
    · cases finishes with
      | optimal pivots phase state ends =>
        exact ⟨_, _, _, _, solved, rfl, rfl, rfl, phase.isCertificate state ends⟩
      | unbounded => cases status
    · exact absurd unbounded bounded

/-- At an optimum the variables and the shadow prices that are read off certify each other. -/
theorem solve_isCertificate (p : LinearProgram ℚ r v) {s : SolvedProgram ℚ r v}
    (solved : p.solve = .ok s) (optimal : s.status = .optimal) :
    ∃ x value u, s.optimum? = some x ∧ s.optimumValue? = some value ∧ s.dualValues? = some u ∧
      p.IsCertificate x.get u.get value := by
  obtain ⟨s', solved', ends⟩ := p.solve_finishes (columns_pos_of_solve solved)
  cases solved.symm.trans solved'
  rcases ends with ⟨infeasible, _⟩ | finishes
  · cases optimal.symm.trans infeasible
  · cases finishes with
    | optimal pivots phase state ends =>
      exact ⟨_, _, _, rfl, rfl, rfl, phase.isCertificate state ends⟩
    | unbounded => cases optimal

/-- Here one row is redundant, and its artificial column stays basic at zero. -/
theorem solve_isCertificate_redundant :
    let p : LinearProgram ℚ 4 2 := {
      matrix := #v[#v[-1, 0], #v[0, -1], #v[1, 1], #v[2, 2]]
      bound := #v[-1/2, -3, 1, 2]
      equalities := 2
      equalities_le := by decide
      objective := #v[3, 1] }
    ∃ s x value u, p.solve = .ok s ∧ s.status = .optimal ∧
      s.simplex.artificialLabels.any s.simplex.tableau.basis.isMember = true ∧
      s.optimum? = some x ∧ s.optimumValue? = some value ∧ s.dualValues? = some u ∧
      p.IsCertificate x.get u.get value := by
  intro p
  have ends : (match p.solve with
      | .ok s => decide (s.status = .optimal) &&
          s.simplex.artificialLabels.any s.simplex.tableau.basis.isMember
      | .error _ => false) = true := by decide +kernel
  split at ends
  next s solved =>
    rw [Bool.and_eq_true, decide_eq_true_eq] at ends
    obtain ⟨x, value, u, certificate⟩ := p.solve_isCertificate solved ends.1
    exact ⟨s, x, value, u, solved, ends.1, ends.2, certificate⟩
  next => cases ends

end LinearProgram

end LexPivot
