import Mathlib
import LexPivot.Proofs.LemkeRun

/-!
# Lemke's algorithm comes to its end

The algorithm lets labels enter until the artificial label leaves or nothing bounds the one that
enters. `LemkeLoop` is that loop as a relation, without a budget: it lists the states the loop goes
through. A budget is enough exactly if it covers this list, and the list is finite because no basis
comes back with the same label to enter. The ratios along the way are those of positive entries, and
at the first pivot those of ones.
-/
namespace LexPivot

namespace Tableau

variable {r c : Nat}

/-- The loop from a state, which is an entering label and the tableau it is to enter: the states it
goes through, the outcome, and the tableau it leaves behind. -/
inductive LemkeLoop : Label × Tableau ℚ r c → List (Label × Tableau ℚ r c) → LemkeOutcome ℚ →
    Tableau ℚ r c → Prop
  | refused {s : Label × Tableau ℚ r c} {l : Label} {left : Tableau ℚ r c}
    (stops : s.2.pivotIn s.1 = ⟨.error (.noExitRow l), left⟩) : LemkeLoop s [s] .ray left
  | leaves {s : Label × Tableau ℚ r c} {next : Tableau ℚ r c}
    (stops : s.2.pivotIn s.1 = ⟨.ok .artificial, next⟩) :
    LemkeLoop s [s] (if next.artificialRemains then .ray else .solved next.complementarySolution)
      next
  | step {s : Label × Tableau ℚ r c} {leaving : Label} {next final : Tableau ℚ r c}
    {visited : List (Label × Tableau ℚ r c)} {outcome : LemkeOutcome ℚ}
    (passed : s.2.pivotIn s.1 = ⟨.ok leaving, next⟩) (proper : leaving ≠ .artificial)
    (rest : LemkeLoop (leaving.complement, next) visited outcome final) :
    LemkeLoop s (s :: visited) outcome final

namespace LemkeLoop

variable {s : Label × Tableau ℚ r c} {visited : List (Label × Tableau ℚ r c)}
  {outcome : LemkeOutcome ℚ} {final : Tableau ℚ r c}

/-- A budget for all the states is enough. -/
theorem lemkeFrom_eq_ok (h : LemkeLoop s visited outcome final) {budget : Nat}
    (enough : visited.length ≤ budget) : lemkeFrom budget s.1 s.2 = ⟨.ok outcome, final⟩ := by
  induction h generalizing budget with
  | refused stops =>
    obtain ⟨budget, rfl⟩ := Nat.exists_eq_add_of_lt enough
    simp [lemkeFrom, stops]
  | leaves stops =>
    obtain ⟨budget, rfl⟩ := Nat.exists_eq_add_of_lt enough
    simp [lemkeFrom, stops, Label.isArtificial]
  | step passed proper _ ih =>
    obtain ⟨budget, rfl⟩ := Nat.exists_eq_add_of_lt (Nat.lt_of_lt_of_le (Nat.succ_pos _) enough)
    have stays : ¬Label.isArtificial _ = true := mt beq_iff_eq.mp proper
    simp only [Nat.zero_add] at enough ⊢
    simp only [lemkeFrom, passed, if_neg stays]
    exact ih (Nat.le_of_succ_le_succ enough)

/-- A run within a budget goes along a path that the budget covers. -/
theorem of_lemkeFrom {budget : Nat} (run : lemkeFrom budget s.1 s.2 = ⟨.ok outcome, final⟩) :
    ∃ visited, visited.length ≤ budget ∧ LemkeLoop s visited outcome final := by
  induction budget generalizing s with
  | zero => simp [lemkeFrom] at run
  | succ budget ih =>
    unfold lemkeFrom at run
    split at run
    next stops =>
      cases run
      exact ⟨[s], by simp, .refused stops⟩
    · cases run
    next leaving next passed =>
      split at run
      next artificial =>
        obtain rfl : leaving = .artificial := beq_iff_eq.mp artificial
        cases run
        exact ⟨[s], by simp, .leaves passed⟩
      next proper =>
        obtain ⟨visited, enough, rest⟩ := ih (s := (leaving.complement, next)) run
        exact ⟨s :: visited, Nat.succ_le_succ enough,
          .step passed (fun same => proper (beq_iff_eq.mpr same)) rest⟩

/-- The states of a path are those of its trace, and it goes on at all of them but the last. -/
theorem exists_steps (h : LemkeLoop s visited outcome final) :
    ∃ steps, visited = (List.range (steps + 1)).map (advance^[·] s) ∧
      ∀ i < steps, GoesOn (· = .artificial) (advance^[i] s) := by
  induction h with
  | refused | leaves => exact ⟨0, rfl, fun i absurd => (nomatch absurd)⟩
  | step passed proper _ ih =>
    obtain ⟨steps, states, on⟩ := ih
    refine ⟨steps + 1, ?_, fun i bound => ?_⟩
    · rw [List.range_succ_eq_map, List.map_cons, List.map_map, states, ← advance_eq passed]
      rfl
    · cases i with
      | zero => exact ⟨_, _, passed, proper⟩
      | succ i =>
        rw [Function.iterate_succ_apply, advance_eq passed]
        exact on i (Nat.lt_of_succ_lt_succ bound)

end LemkeLoop

end Tableau

namespace ComplementarityProblem

open Tableau

variable {n : Nat} {p : ComplementarityProblem ℚ n} {start final : Tableau ℚ n (n + 1)} {i : Fin n}
  {visited : List (Label × Tableau ℚ n (n + 1))} {outcome : LemkeOutcome ℚ}

section Path

variable (feasible : FeasibleFrom p.system start start) (first : start.basis.first = 0)
  (columns : start.basis.columns.get = coverBasis i)
  (loop : LemkeLoop (.structural (i + 1), start) visited outcome final)

include feasible first columns loop

theorem onPath_of_mem_visited {s : Label × Tableau ℚ n (n + 1)} (member : s ∈ visited) :
    OnPath p start s := by
  obtain ⟨steps, rfl, on⟩ := loop.exists_steps
  obtain ⟨k, below, rfl⟩ := List.mem_map.mp member
  have bound : k < steps + 1 := List.mem_range.mp below
  exact (onPath_start feasible first columns).iterate k fun q earlier => on q (by omega)

/-- No basis comes back with the same label to enter. -/
theorem nodup_flags : (visited.map flag).Nodup := by
  obtain ⟨steps, rfl, on⟩ := loop.exists_steps
  have distinct := (onPath_start feasible first columns).feasible.flag_injOn (· = .artificial) rfl
    (fun x paired => absurd paired (not_paired_across feasible columns x)) on
  exact nodup_flags_iterate distinct

end Path

/-- Every ratio that is formed when the label enters has a divisor. -/
def RatiosDefined (s : Label × Tableau ℚ n (n + 1)) : Prop :=
  ∃ column, s.2.solveColumn s.1 = .ok column ∧ s.2.lexExitRowChecked column (positiveRows column) =
    .ok (s.2.lexExitRow column (positiveRows column))

theorem OnPath.ratiosDefined {origin : Tableau ℚ n (n + 1)} {s : Label × Tableau ℚ n (n + 1)}
    (h : OnPath p origin s) : RatiosDefined s := by
  obtain ⟨j, enters⟩ := h.almost.valid
  refine ⟨s.2.reducedColumn j, by rw [← enters, solveColumn_labelAt], ?_⟩
  exact lexExitRowChecked_eq_ok fun k listed => (mem_positiveRows_iff.mp listed).ne'

/-- Unless no value is negative, the algorithm lets the covering column enter and goes along a
path that the budget covers. -/
theorem exists_loop {t : Tableau ℚ n (n + 1)} (represents : t.Represents p.system)
    (basis : t.basis = Basis.slack 0) (negative : t.negativeRows ≠ []) :
    ∃ i start visited outcome final, t.coverRow = .ok i ∧
      t.pivot i .artificial = ⟨.ok (.slack (i + 1)), start⟩ ∧
      FeasibleFrom p.system start start ∧ start.basis.first = 0 ∧
      start.basis.columns.get = coverBasis i ∧
      LemkeLoop (.structural (i + 1), start) visited outcome final ∧
      visited.length ≤ t.pivotBudget ∧ t.lemke = ⟨.ok outcome, final⟩ := by
  have first : t.basis.first = 0 := by
    rw [basis]
    rfl
  obtain ⟨outcome, final, run, _⟩ := lemke_ends represents basis
  obtain ⟨i, row, pivots, columns, feasible⟩ := pivot_coverRow represents basis negative
  have follows : lemkeFrom (t.exchangeColumn i coverColumn).pivotBudget (.structural (i + 1))
      (t.exchangeColumn i coverColumn) = ⟨.ok outcome, final⟩ := by
    simpa [lemke, negative, row, pivots] using run
  obtain ⟨visited, enough, loop⟩ :=
    LemkeLoop.of_lemkeFrom (s := (.structural (i + 1), t.exchangeColumn i coverColumn)) follows
  exact ⟨i, _, visited, outcome, final, row, pivots, feasible,
    (t.first_exchangeColumn i coverColumn).trans first, columns, loop, enough, run⟩

theorem lemke_of_nonneg {t : Tableau ℚ n (n + 1)} (nonneg : t.negativeRows = []) :
    t.lemke = ⟨.ok (.solved t.complementarySolution), t⟩ := by
  simp [lemke, nonneg]

/-- The algorithm answers every problem. Unless no value is negative, the covering column enters,
and the path from there is finite, never comes back to a basis with the same label to enter, and
forms no ratio without a divisor. -/
theorem solve_answers (p : ComplementarityProblem ℚ n) :
    ∃ t outcome final, p.tableau = .ok t ∧ t.lemke = ⟨.ok outcome, final⟩ ∧ p.solve = .ok outcome ∧
      (t.negativeRows = [] ∧ outcome = .solved t.complementarySolution ∧ final = t ∨
      ∃ i start visited, t.coverRow = .ok i ∧
        t.pivot i .artificial = ⟨.ok (.slack (i + 1)), start⟩ ∧
        LemkeLoop (.structural (i + 1), start) visited outcome final ∧
        (∀ budget, visited.length ≤ budget →
          lemkeFrom budget (.structural (i + 1)) start = ⟨.ok outcome, final⟩) ∧
        visited.length ≤ t.pivotBudget ∧ (visited.map flag).Nodup ∧
        ∀ s ∈ visited, RatiosDefined s) := by
  obtain ⟨t, built, represents, basis, _⟩ := p.tableau_represents
  by_cases nonneg : t.negativeRows = []
  · have run := lemke_of_nonneg nonneg
    exact ⟨t, _, t, built, run, by simp only [solve, built, run], Or.inl ⟨nonneg, rfl, rfl⟩⟩
  · obtain ⟨i, start, visited, outcome, final, row, pivots, feasible, first, columns, loop, enough,
      run⟩ := exists_loop represents basis nonneg
    refine ⟨t, outcome, final, built, run, by simp only [solve, built, run],
      Or.inr ⟨i, start, visited, row, pivots, loop, fun _ => loop.lemkeFrom_eq_ok, enough,
        nodup_flags feasible first columns loop, fun s member => ?_⟩⟩
    exact (onPath_of_mem_visited feasible first columns loop member).ratiosDefined

end ComplementarityProblem

end LexPivot
