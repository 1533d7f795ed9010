import Mathlib
import LexPivot.Proofs.ArtificialRemoval

/-!
# The status of a program is right

The first phase ends at an optimum, since its objective cannot be positive; the program is feasible
exactly if the artificial columns are zero there. They stay zero in the second phase, whose
admissible points are then the points that satisfy the constraints, so an optimum or a ray of the
second phase is one of the program. A program is infeasible, unbounded or has an optimum, and never
two of these, so the status says which.
-/
namespace LexPivot

open Matrix SimplexTableau Tableau

variable {r v a : Nat}

/-! ### What is read off at the end -/

namespace SimplexTableau

variable {costs : Vector ℚ (v + a)} {t : Tableau ℚ r (v + a)}
  {system : Matrix (Fin r) (Fin (v + a + r + 1)) ℚ}

theorem get_primal (costs : Vector ℚ (v + a)) (represents : t.Represents system)
    (first : t.basis.first = 1) (j : Fin v) :
    (primal ⟨a, t, costs⟩).get j = t.point (variableColumn j) := by
  rw [primal, get_ofFn]
  refine get_filterLabels_basicSolution represents.consistent (labelAt_variable first j) ?_
  simp only [isArtificial, Bool.not_eq_true', decide_eq_false_iff_not, not_lt]
  exact j.isLt

theorem objectiveValue_eq (consistent : t.basis.Consistent) (first : t.basis.first = 1) :
    objectiveValue ⟨a, t, costs⟩ = ∑ l, columnCosts costs l * t.point l := by
  rw [point, sum_mul_basicPoint, objectiveRow_last, objectiveValue, Scalar.dot_eq]
  refine Finset.sum_congr rfl fun i _ => ?_
  rw [basicCosts, get_ofFn, consistent.rowLabel_eq, cost_labelAt first]
  rfl

theorem Ends.sum_mul_le (ends : Ends costs t .optimal) (represents : t.Represents system)
    {z : Fin (v + a + r) → ℚ} (admissible : Admissible system t.basis.blocked.get z) :
    ∑ l, columnCosts costs l * z l ≤ ∑ l, columnCosts costs l * t.point l := by
  cases ends with
  | optimal optimal => exact admissible.sum_mul_le represents.reduced optimal

/-- A run that does not end at an optimum ends at a ray on which the objective grows. -/
theorem Ends.exists_ray {origin : Tableau ℚ r (v + a)} {label : Label}
    (ends : Ends costs t (.unbounded label)) (state : SimplexState system origin t) :
    ∃ d, Recedes system t.basis.blocked.get d ∧ 0 < ∑ l, columnCosts costs l * d l := by
  cases ends with
  | unbounded j free gains nonpos =>
    refine ⟨_, state.recedes free nonpos, ?_⟩
    rw [sum_mul_basicRay_eq]
    exact neg_pos.mpr gains

end SimplexTableau

namespace LinearProgram

/-! ### Programs -/

def value (p : LinearProgram ℚ r v) (x : Fin v → ℚ) : ℚ := ∑ j, p.objective.get j * x j

/-- A point at which the objective attains its maximum. -/
structure IsOptimum (p : LinearProgram ℚ r v) (x : Fin v → ℚ) : Prop where
  feasible : p.Feasible x
  greatest : ∀ y, p.Feasible y → p.value y ≤ p.value x

/-- Whether the objective takes arbitrarily large values. -/
def IsUnbounded (p : LinearProgram ℚ r v) : Prop :=
  (∃ x, p.Feasible x) ∧ ∀ bound, ∃ x, p.Feasible x ∧ bound < p.value x

theorem IsUnbounded.not_isOptimum {p : LinearProgram ℚ r v} (h : p.IsUnbounded) (x : Fin v → ℚ) :
    ¬p.IsOptimum x := by
  intro optimum
  obtain ⟨y, feasible, greater⟩ := h.2 (p.value x)
  exact absurd (optimum.greatest y feasible) (not_le.mpr greater)

variable {p : LinearProgram ℚ r v}

/-! ### The second phase -/

/-- The tableaus of the second phase: the artificial columns are blocked as well. -/
structure PhaseTwo (p : LinearProgram ℚ r v)
    (t : Tableau ℚ r (v + p.artificialRows.length)) : Prop where
  represents : t.Represents (p.system p.artificialRows)
  first : t.basis.first = 1
  blocked : ∀ l, t.basis.blocked.get l = true ↔
    (∃ i, p.isEquality i = true ∧ l = slackColumn i) ∨ ∃ q, l = artificialColumn q

theorem PhaseTwo.feasible {t : Tableau ℚ r (v + p.artificialRows.length)} (h : p.PhaseTwo t)
    {z : Fin (v + p.artificialRows.length + r) → ℚ}
    (admissible : Admissible (p.system p.artificialRows) t.basis.blocked.get z) :
    p.Feasible fun j => z (variableColumn j) :=
  Constraints.feasible_of_admissible admissible
    (fun i equality => (h.blocked _).mpr (Or.inl ⟨i, equality, rfl⟩))
    (fun q => admissible.zero _ ((h.blocked _).mpr (Or.inr ⟨q, rfl⟩)))

theorem PhaseTwo.admissible_lift {t : Tableau ℚ r (v + p.artificialRows.length)} (h : p.PhaseTwo t)
    {x : Fin v → ℚ} (feasible : p.Feasible x) :
    Admissible (p.system p.artificialRows) t.basis.blocked.get (p.lift x) :=
  feasible.admissible_lift fun l => (h.blocked l).mp

/-- A ray of the second phase makes the program unbounded. -/
theorem PhaseTwo.isUnbounded {t : Tableau ℚ r (v + p.artificialRows.length)} (h : p.PhaseTwo t)
    {z d : Fin (v + p.artificialRows.length + r) → ℚ}
    (admissible : Admissible (p.system p.artificialRows) t.basis.blocked.get z)
    (recedes : Recedes (p.system p.artificialRows) t.basis.blocked.get d)
    (grows : 0 < p.value fun j => d (variableColumn j)) : p.IsUnbounded := by
  refine ⟨⟨_, h.feasible admissible⟩, fun bound => ?_⟩
  let gain := p.value fun j => d (variableColumn j)
  let here := p.value fun j => z (variableColumn j)
  -- So far along the ray the objective is past the bound.
  let θ := |bound - here| / gain + 1
  have θ_nonneg : 0 ≤ θ := by positivity
  refine ⟨_, h.feasible (admissible.add_recedes recedes θ_nonneg), ?_⟩
  have linear : (p.value fun j => (z + θ • d) (variableColumn j)) = here + θ * gain := by
    simp only [value, here, gain, Pi.add_apply, Pi.smul_apply, smul_eq_mul, mul_add,
      Finset.sum_add_distrib, Finset.mul_sum]
    congr 1
    refine Finset.sum_congr rfl fun j _ => ?_
    ring
  have step : θ * gain = |bound - here| + gain := by
    have nonzero : gain ≠ 0 := grows.ne'
    simp only [θ]
    field_simp
  rw [linear, step]
  linarith [le_abs_self (bound - here)]

/-- The costs of the second phase: the objective, and nothing for the artificial columns. -/
def objectiveCosts (p : LinearProgram ℚ r v) : Vector ℚ (v + p.artificialRows.length) :=
  Vector.ofFn fun j => Fin.addCases (fun k => p.objective.get k) (fun _ => 0) j

theorem phase2Costs_eq (t : Tableau ℚ r (v + p.artificialRows.length))
    (costs : Vector ℚ (v + p.artificialRows.length)) :
    phase2Costs ⟨_, t, costs⟩ p.objective = p.objectiveCosts := rfl

theorem sum_objectiveCosts (z : Fin (v + p.artificialRows.length + r) → ℚ) :
    ∑ l, columnCosts p.objectiveCosts l * z l = p.value fun j => z (variableColumn j) := by
  rw [sum_columns]
  simp [columnCosts, objectiveCosts, value, variableColumn, artificialColumn, slackColumn]

/-- How the second phase ends. -/
inductive Finishes (p : LinearProgram ℚ r v) : SolvedProgram ℚ r v → Prop
  | optimal {origin t : Tableau ℚ r (v + p.artificialRows.length)} (pivots : Nat)
    (phase : p.PhaseTwo t) (state : SimplexState (p.system p.artificialRows) origin t)
    (ends : Ends p.objectiveCosts t .optimal) :
    Finishes p ⟨⟨_, t, p.objectiveCosts⟩, .optimal, pivots⟩
  | unbounded {origin t : Tableau ℚ r (v + p.artificialRows.length)} {label : Label}
    (pivots : Nat) (phase : p.PhaseTwo t)
    (state : SimplexState (p.system p.artificialRows) origin t)
    (ends : Ends p.objectiveCosts t (.unbounded label)) :
    Finishes p ⟨⟨_, t, p.objectiveCosts⟩, .unbounded, pivots⟩

/-- From a feasible basis with the artificial columns at zero, the second phase comes to its end. -/
theorem solvePhase2_finishes {t : Tableau ℚ r (v + p.artificialRows.length)}
    (costs : Vector ℚ (v + p.artificialRows.length))
    (some_column : 0 < v + p.artificialRows.length)
    (represents : t.Represents (p.system p.artificialRows)) (first : t.basis.first = 1)
    (nonneg : ∀ i, 0 ≤ t.values i (Fin.last _)) (sealed : t.Sealed)
    (equalities : p.BlocksEqualities t) (zero : ∀ q, t.point (artificialColumn q) = 0) :
    ∃ s, solvePhase2 ⟨_, t, costs⟩ p.objective = .ok s ∧ p.Finishes s := by
  obtain ⟨start, removes, represents', first', nonneg', sealed', _, blocked, _⟩ :=
    removeArtificials_eq_ok costs represents first nonneg sealed zero
  obtain ⟨outcome, final, run, state, ends⟩ := optimize_ends p.objectiveCosts represents' first'
    nonneg' sealed' (Nat.add_pos_left some_column r)
  -- Nothing artificial can come back, for the artificial columns are blocked by now.
  have phase : p.PhaseTwo final := by
    refine ⟨state.represents, state.first.trans first', fun l => ?_⟩
    rw [state.blocked]
    exact (blocked l).trans (or_congr_left (equalities l))
  cases outcome with
  | optimal =>
    refine ⟨_, ?_, .optimal start.pivots phase state ends⟩
    simp only [solvePhase2, removes, Attempt.stateOrError, phase2Costs_eq, run]
  | unbounded label =>
    refine ⟨_, ?_, .unbounded start.pivots phase state ends⟩
    simp only [solvePhase2, removes, Attempt.stateOrError, phase2Costs_eq, run]

/-- The second phase finds an optimum of the program, or that there is none. -/
theorem Finishes.verdict {s : SolvedProgram ℚ r v} (finishes : p.Finishes s) :
    (s.status = .optimal ∧ ∃ x, s.optimum? = some x ∧ p.IsOptimum x.get ∧
      s.optimumValue? = some (p.value x.get)) ∨
    (s.status = .unbounded ∧ p.IsUnbounded) := by
  cases finishes with
  | @optimal _ t _ phase state ends =>
    have point : (SimplexTableau.primal ⟨_, t, p.objectiveCosts⟩).get =
        fun j => t.point (variableColumn j) :=
      funext (get_primal _ state.represents phase.first)
    refine Or.inl ⟨rfl, SimplexTableau.primal ⟨_, t, p.objectiveCosts⟩, rfl,
      ⟨?_, fun y feasible => ?_⟩, ?_⟩
    · rw [point]
      exact phase.feasible state.admissible
    · have best := ends.sum_mul_le state.represents (phase.admissible_lift feasible)
      rw [sum_objectiveCosts, sum_objectiveCosts] at best
      simpa [point] using best
    · rw [point, ← sum_objectiveCosts, ← objectiveValue_eq phase.represents.consistent phase.first]
      rfl
  | unbounded _ phase state ends =>
    obtain ⟨d, recedes, grows⟩ := ends.exists_ray state
    rw [sum_objectiveCosts] at grows
    exact Or.inr ⟨rfl, phase.isUnbounded state.admissible recedes grows⟩

/-! ### The first phase -/

/-- The first phase ends at a basis at which the sum of the artificial columns is least. -/
theorem optimize_phase1 {t : Tableau ℚ r (v + p.artificialRows.length)}
    (costs : Vector ℚ (v + p.artificialRows.length))
    (some_column : 0 < v + p.artificialRows.length)
    (represents : t.Represents (p.system p.artificialRows)) (first : t.basis.first = 1)
    (nonneg : ∀ i, 0 ≤ t.values i (Fin.last _)) (equalities : p.BlocksEqualities t)
    (unblocked : ∀ i, t.basis.blocked.get (t.basis.columns.get i) = false) :
    ∃ t' costs', (optimize ⟨_, t, phase1Costs ⟨_, t, costs⟩⟩).stateOrError = .ok ⟨_, t', costs'⟩ ∧
      SimplexState (p.system p.artificialRows) t.setLexReference t' ∧ p.BlocksEqualities t' ∧
      ∀ x, p.Feasible x → ∑ q, t'.point (artificialColumn q) ≤ 0 := by
  have sealed : t.Sealed := by
    intro i held
    rw [unblocked] at held
    cases held
  obtain ⟨outcome, final, run, state, ends⟩ := optimize_ends (phase1Costs ⟨_, t, costs⟩) represents
    first nonneg sealed (Nat.add_pos_left some_column r)
  have equalities' : p.BlocksEqualities final := fun l => by
    rw [state.blocked]
    exact equalities l
  have value := sum_phase1Costs ⟨_, t, costs⟩
  refine ⟨final, phase1Costs ⟨_, t, costs⟩, by rw [run]; rfl, state, equalities',
    fun x feasible => ?_⟩
  cases outcome with
  | optimal =>
    have admissible : Admissible (p.system p.artificialRows) final.basis.blocked.get (p.lift x) :=
      feasible.admissible_lift fun l held => Or.inl ((equalities' l).mp held)
    have best := ends.sum_mul_le state.represents admissible
    rw [value, value] at best
    simpa using best
  | unbounded label =>
    obtain ⟨d, recedes, grows⟩ := ends.exists_ray state
    rw [value] at grows
    -- The objective of the first phase does not grow along nonnegative values.
    have sum : 0 ≤ ∑ q, d (artificialColumn q) := Finset.sum_nonneg fun q _ => recedes.nonneg _
    linarith

/-- A program is infeasible, or its second phase comes to its end. -/
theorem solve_finishes (p : LinearProgram ℚ r v) (some_column : 0 < v + p.artificialRows.length) :
    ∃ s, p.solve = .ok s ∧
      ((s.status = .infeasible ∧ ∀ x, ¬p.Feasible x) ∨ p.Finishes s) := by
  obtain ⟨start, built, represents, first, nonneg, equalities, unblocked⟩ :=
    ofConstraints_eq_ok p.toConstraints some_column
  obtain ⟨t, costs, run, state, equalities', least⟩ := optimize_phase1 (Vector.replicate _ 0)
    some_column represents first nonneg equalities unblocked
  have first' : t.basis.first = 1 := state.first.trans first
  by_cases positive : artificialIsPositive ⟨_, t, costs⟩ = true
  · refine ⟨⟨⟨_, t, costs⟩, .infeasible, t.pivots⟩, ?_, Or.inl ⟨rfl, fun x feasible => ?_⟩⟩
    · simp only [solve, built, run, positive, if_true]
    · obtain ⟨q, value⟩ := (artificialIsPositive_iff state.represents first').mp positive
      have sum : 0 < ∑ q, t.point (artificialColumn q) := Finset.sum_pos'
        (fun q _ => state.admissible.nonneg _) ⟨q, Finset.mem_univ q, value⟩
      exact absurd (least x feasible) (not_le.mpr sum)
  · have zero (q : Fin p.artificialRows.length) : t.point (artificialColumn q) = 0 := by
      refine le_antisymm (not_lt.mp fun value => positive ?_) (state.admissible.nonneg _)
      exact (artificialIsPositive_iff state.represents first').mpr ⟨q, value⟩
    obtain ⟨s, solved, finishes⟩ := solvePhase2_finishes costs some_column state.represents first'
      (fun i => state.feasible.nonneg i) state.sealed equalities' zero
    refine ⟨s, ?_, Or.inr finishes⟩
    simp only [solve, built, run, positive]
    exact solved

/-- A program is infeasible, or its second phase finds an optimum, or that it is unbounded. -/
theorem solve_cases (p : LinearProgram ℚ r v) (some_variable : 0 < v) :
    ∃ s, p.solve = .ok s ∧
      ((s.status = .infeasible ∧ ∀ x, ¬p.Feasible x) ∨
      (s.status = .optimal ∧ ∃ x, s.optimum? = some x ∧ p.IsOptimum x.get ∧
        s.optimumValue? = some (p.value x.get)) ∨
      (s.status = .unbounded ∧ p.IsUnbounded)) := by
  obtain ⟨s, solved, ends⟩ := p.solve_finishes (Nat.add_pos_left some_variable _)
  exact ⟨s, solved, ends.imp_right Finishes.verdict⟩

/-- The status of a program says which of the three it is, and an optimum that is found is one. -/
theorem solve_status (p : LinearProgram ℚ r v) (some_variable : 0 < v) :
    ∃ s, p.solve = .ok s ∧
      (s.status = .infeasible ↔ ∀ x, ¬p.Feasible x) ∧
      (s.status = .unbounded ↔ p.IsUnbounded) ∧
      (s.status = .optimal ↔ ∃ x, p.IsOptimum x) ∧
      (s.status = .optimal → ∃ x, s.optimum? = some x ∧ p.IsOptimum x.get ∧
        s.optimumValue? = some (p.value x.get)) := by
  obtain ⟨s, solved, verdict⟩ := p.solve_cases some_variable
  refine ⟨s, solved, ?_⟩
  rcases verdict with ⟨status, none⟩ | ⟨status, x, optimum, best, value⟩ | ⟨status, unbounded⟩
  · have bounded : ¬p.IsUnbounded := fun ⟨⟨x, feasible⟩, _⟩ => none x feasible
    have absent : ¬∃ x, p.IsOptimum x := fun ⟨x, best⟩ => none x best.feasible
    simp [status, none, bounded, absent]
  · have bounded : ¬p.IsUnbounded := fun unbounded => unbounded.not_isOptimum _ best
    have found : ∃ x, p.IsOptimum x := ⟨_, best⟩
    have feasible : ¬∀ x, ¬p.Feasible x := fun none => none _ best.feasible
    simp only [status, reduceCtorEq, false_iff, true_iff, true_imp_iff]
    exact ⟨feasible, bounded, found, x, optimum, best, value⟩
  · have feasible : ¬∀ x, ¬p.Feasible x := fun none => unbounded.1.elim none
    have absent : ¬∃ x, p.IsOptimum x := fun ⟨x, best⟩ => unbounded.not_isOptimum x best
    simp [status, unbounded, feasible, absent]

/-- One equation stated twice: the program with a redundant row has an optimum. -/
theorem solve_status_redundant :
    let p : LinearProgram ℚ 3 2 := {
      matrix := #v[#v[-1, 0], #v[1, 1], #v[2, 2]]
      bound := #v[-1/2, 1, 2]
      equalities := 2
      equalities_le := by decide
      objective := #v[3, 1] }
    ∃ s, p.solve = .ok s ∧ s.status = .optimal ∧ ∃ x, p.IsOptimum x := by
  intro p
  obtain ⟨s, solved, _, _, optimal, _⟩ := p.solve_status (by decide)
  have status : (match p.solve with
      | .ok s => decide (s.status = .optimal)
      | .error _ => false) = true := by decide +kernel
  rw [solved] at status
  have found := of_decide_eq_true status
  exact ⟨s, solved, found, optimal.mp found⟩

end LinearProgram

end LexPivot
