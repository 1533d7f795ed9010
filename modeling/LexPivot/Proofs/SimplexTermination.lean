import Mathlib
import LexPivot.Proofs.SimplexCalls
import LexPivot.Proofs.TableauRun

/-!
# Optimisations come to their end

An optimisation lets the column with the most negative reduced cost enter until there is none, or
until one enters that no row bounds. `SimplexLoop` is that loop as a relation, without a budget: it
lists the states in which the loop pivots. Where the program is degenerate the objective may stand
still, but its row grows lexicographically against the basis at which the optimisation started. So
no basis comes back, and the budget covers the loop.
-/
namespace LexPivot

open SimplexTableau Tableau

variable {r v : Nat}

namespace SimplexTableau

/-- The row that bounds an entering column first, if any does. -/
def exitRow? (s : SimplexTableau ℚ r v) (j : Fin (v + s.artificials + r)) : Option (Fin r) :=
  s.tableau.lexExitRow (s.tableau.reducedColumn j) (positiveRows (s.tableau.reducedColumn j))

/-- The loop of an optimisation, from a state on: the states in which it pivots, and what it comes
to. -/
inductive SimplexLoop : SimplexTableau ℚ r v → List (SimplexTableau ℚ r v) →
    Attempt (SimplexTableau ℚ r v) PhaseOutcome → Prop
  | optimal {s : SimplexTableau ℚ r v} (optimal : s.enteringColumn? = none) :
    SimplexLoop s [] ⟨.ok .optimal, s⟩
  | unbounded {s : SimplexTableau ℚ r v} {j : Fin (v + s.artificials + r)}
    (enters : s.enteringColumn? = some j) (unbounded : s.exitRow? j = none) :
    SimplexLoop s [] ⟨.ok (.unbounded (s.tableau.basis.labelAt j)), s⟩
  | fails {s : SimplexTableau ℚ r v} {j : Fin (v + s.artificials + r)} {i : Fin r}
    {e : PivotError} {left : Tableau ℚ r (v + s.artificials)}
    (enters : s.enteringColumn? = some j) (exits : s.exitRow? j = some i)
    (failed : s.tableau.pivot i (s.tableau.basis.labelAt j) = ⟨.error e, left⟩) :
    SimplexLoop s [s] ⟨.error e, { s with tableau := left }⟩
  | step {s : SimplexTableau ℚ r v} {j : Fin (v + s.artificials + r)} {i : Fin r}
    {leaving : Label} {next : Tableau ℚ r (v + s.artificials)}
    {visited : List (SimplexTableau ℚ r v)}
    {outcome : Attempt (SimplexTableau ℚ r v) PhaseOutcome}
    (enters : s.enteringColumn? = some j) (exits : s.exitRow? j = some i)
    (passed : s.tableau.pivot i (s.tableau.basis.labelAt j) = ⟨.ok leaving, next⟩)
    (rest : SimplexLoop { s with tableau := next } visited outcome) :
    SimplexLoop s (s :: visited) outcome

/-- A run within a budget is the loop without one, unless the budget runs out. -/
theorem optimizeWithin_loop (budget : Nat) (s : SimplexTableau ℚ r v) :
    (optimizeWithin budget s).result = .error .cycling ∨
      ∃ visited, SimplexLoop s visited (optimizeWithin budget s) ∧ visited.length ≤ budget := by
  -- Loop and run make the same choices, and each round of the run takes one from the budget.
  induction budget generalizing s with
  | zero => exact Or.inl rfl
  | succ budget ih =>
    unfold optimizeWithin
    cases enters : s.enteringColumn? with
    | none => exact Or.inr ⟨[], .optimal enters, Nat.zero_le _⟩
    | some j =>
      cases exits : s.exitRow? j with
      | none =>
        rw [exitRow?] at exits
        simp only [exits]
        exact Or.inr ⟨[], .unbounded enters exits, Nat.zero_le _⟩
      | some i =>
        have exits' := exits
        rw [exitRow?] at exits'
        simp only [exits']
        rcases pivots : s.tableau.pivot i (s.tableau.basis.labelAt j) with ⟨e | leaving, next⟩
        · exact Or.inr ⟨[s], .fails enters exits pivots, Nat.succ_le_succ (Nat.zero_le _)⟩
        · rcases ih { s with tableau := next } with out | ⟨visited, loop, bound⟩
          · exact Or.inl out
          · exact Or.inr ⟨s :: visited, .step enters exits pivots loop, Nat.succ_le_succ bound⟩

theorem SimplexLoop.pivots_le {s : SimplexTableau ℚ r v} {visited : List (SimplexTableau ℚ r v)}
    {outcome : Attempt (SimplexTableau ℚ r v) PhaseOutcome} (loop : SimplexLoop s visited outcome) :
    outcome.state.tableau.pivots ≤ s.tableau.pivots + visited.length := by
  have step {c : Nat} (t : Tableau ℚ r c) (row : Nat) (l : Label) :
      (t.pivot row l).state.pivots ≤ t.pivots + 1 := by
    rcases t.pivot_state_cases row l with same | ⟨i, j, moved⟩
    · rw [same]
      exact Nat.le_succ _
    · rw [moved]
      exact le_rfl
  induction loop with
  | optimal => exact le_rfl
  | unbounded => exact le_rfl
  | @fails s j i e left _ _ failed =>
    have bound := step s.tableau i (s.tableau.basis.labelAt j)
    rwa [failed] at bound
  | @step s j i leaving next visited outcome _ _ passed _ ih =>
    have bound := step s.tableau i (s.tableau.basis.labelAt j)
    rw [passed] at bound
    rw [List.length_cons]
    dsimp only at bound ih
    omega

end SimplexTableau

/-- A standing tableau is optimised, or found unbounded, within the budget. -/
theorem Constraints.Standing.optimize {k : Constraints ℚ r v}
    {t : Tableau ℚ r (v + k.artificialRows.length)} (h : k.Standing t)
    (some_column : 0 < v + k.artificialRows.length)
    (costs : Vector ℚ (v + k.artificialRows.length)) :
    ∃ outcome, (SimplexTableau.optimize ⟨_, t, costs⟩).result = .ok outcome := by
  obtain ⟨outcome, final, run, _⟩ := optimize_ends costs h.represents h.first h.nonneg h.sealed
    (Nat.add_pos_left some_column r)
  exact ⟨outcome, by rw [run]⟩

namespace SimplexTableau

/-- Whatever calls were made before, and whatever costs are set, the loop of an optimisation ends
after finitely many pivots, at an optimum or at a label that nothing bounds, and never with an
error. -/
theorem optimize_terminates (k : Constraints ℚ r v) {fresh : SimplexTableau ℚ r v}
    (built : ofConstraints k = .ok fresh) (calls : List Call)
    (permitted : fresh.permits calls = true) (costs : Array ℚ)
    (fits : costs.size = v + (fresh.performAll calls).artificials) :
    ∃ s, (fresh.performAll calls).setCosts costs = .ok s ∧ ∃ visited,
      SimplexLoop { s with tableau := s.tableau.setLexReference } visited s.optimize ∧
      visited.length ≤ s.tableau.pivotBudget ∧
      s.optimize.state.tableau.pivots ≤ s.tableau.pivots + visited.length ∧
      (s.optimize.result = .ok .optimal ∨ ∃ l, s.optimize.result = .ok (.unbounded l)) := by
  obtain ⟨t, costs', reached, standing⟩ := Constraints.standing_performAll built permitted
  rw [reached] at fits ⊢
  refine ⟨⟨_, t, ⟨costs, fits⟩⟩, by simp [setCosts, fits], ?_⟩
  obtain ⟨outcome, ends⟩ :=
    standing.optimize (columns_pos_of_ofConstraints built) ⟨costs, fits⟩
  -- The budget did not run out, since the result is no error.
  rcases optimizeWithin_loop t.pivotBudget ⟨_, t.setLexReference, ⟨costs, fits⟩⟩ with
    out | ⟨visited, loop, bound⟩
  · cases ends.symm.trans out
  · refine ⟨visited, loop, bound, loop.pivots_le, ?_⟩
    cases outcome with
    | optimal => exact Or.inl ends
    | unbounded l => exact Or.inr ⟨l, ends⟩

/-- Two of the three rows are degenerate, and the first of the two pivots does not move the
objective. -/
theorem optimize_terminates_degenerate :
    let k : Constraints ℚ 3 4 := {
      matrix := #v[#v[-1/4, 60, 1/25, -9], #v[-1/2, 90, 1/50, -3], #v[0, 0, -1, 0]]
      bound := #v[0, 0, -1]
      equalities := 0
      equalities_le := by decide }
    let calls : List Call := [.optimize, .removeArtificials]
    ∃ fresh s visited, ofConstraints k = .ok fresh ∧ fresh.permits calls = true ∧
      (fresh.performAll calls).setCosts #[3/4, -150, 1/50, -6] = .ok s ∧
      s.optimize.result = .ok .optimal ∧ s.optimize.state.tableau.pivots = s.tableau.pivots + 2 ∧
      SimplexLoop { s with tableau := s.tableau.setLexReference } visited s.optimize := by
  intro k calls
  have found : (match ofConstraints k with
      | .error _ => false
      | .ok fresh => fresh.permits calls && decide (4 = 4 + (fresh.performAll calls).artificials) &&
        match (fresh.performAll calls).setCosts #[3/4, -150, 1/50, -6] with
        | .error _ => false
        | .ok s =>
          (match s.optimize.result with
          | .error _ => false
          | .ok outcome => decide (outcome = .optimal)) &&
          decide (s.optimize.state.tableau.pivots = s.tableau.pivots + 2)) = true := by
    decide +kernel
  cases built : ofConstraints k with
  | error e =>
    rw [built] at found
    cases found
  | ok fresh =>
    simp only [built, Bool.and_eq_true, decide_eq_true_eq] at found
    obtain ⟨⟨permitted, fits⟩, ends⟩ := found
    obtain ⟨s, set, visited, loop, _⟩ :=
      optimize_terminates k built calls permitted #[3/4, -150, 1/50, -6] fits
    simp only [set, Bool.and_eq_true, decide_eq_true_eq] at ends
    obtain ⟨outcome, two⟩ := ends
    refine ⟨fresh, s, visited, rfl, permitted, set, ?_, two, loop⟩
    split at outcome
    · cases outcome
    next outcome' result => rw [result, of_decide_eq_true outcome]

end SimplexTableau

end LexPivot
