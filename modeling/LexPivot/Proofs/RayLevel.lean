import Mathlib
import LexPivot.Proofs.CopositivePlus
import LexPivot.Proofs.LemkeTermination

/-!
# What a ray leaves behind

A run that ends on a ray leaves the artificial label basic. The pair that is about to enter is not
basic at all, so the slack of its row is zero, and `q + M z` falls short there by the value of the
artificial label. So the point is a solution exactly if that value is zero.

When the covering column stands still on the ray, the algorithm looks at its value, and takes a zero
for a solution. When the covering column grows, it does not look: a tie may have let another label
leave while the covering column came down to zero, and the path has then gone on from a solution to
the ray. On copositive-plus problems this does not happen.
-/
namespace LexPivot.ComplementarityProblem

open Tableau

variable {n : Nat} {p : ComplementarityProblem ℚ n} {origin : Tableau ℚ n (n + 1)}
  {s : Label × Tableau ℚ n (n + 1)}

namespace OnPath

variable (h : OnPath p origin s)

include h

theorem basicValue_artificial :
    s.2.basicValue .artificial = .ok (s.2.point coverColumn) := by
  rcases h.feasible.represents.basicValue_cases coverColumn with value | ⟨⟨e, refused⟩, _⟩
  · rwa [labelAt_cover h.basis_first] at value
  · obtain ⟨i, held⟩ := h.covered
    rw [labelAt_cover h.basis_first, basicValue, Basis.find,
      (h.consistent.position_iff _ i).mpr held] at refused
    cases refused

/-- The slack of the pair that comes next is zero. -/
theorem exists_slack_eq_zero : ∃ k, s.2.point (slackColumn k) = 0 := by
  have nonbasic (k : Fin n) (absent : ¬s.2.basis.Holds (.slack (k + 1))) :
      s.2.point (slackColumn k) = 0 := by
    rw [← labelAt_slack s.2.basis, h.consistent.holds_labelAt_iff] at absent
    exact spread_nonbasic _ fun i held => absent ⟨i, held⟩
  obtain ⟨j, enters⟩ := h.almost.valid
  rcases column_cases j with rfl | ⟨k, rfl⟩ | ⟨k, rfl⟩
  · exact absurd (enters.symm.trans (labelAt_cover h.basis_first)) h.almost.proper
  · have across := h.almost.across
    rw [← enters, labelAt_variable h.basis_first] at across
    exact ⟨k, nonbasic k (across (Nat.succ_ne_zero _))⟩
  · have absent := h.almost.nonbasic
    rw [← enters, labelAt_slack] at absent
    exact ⟨k, nonbasic k absent⟩

/-- The point of a path is a solution exactly if the covering column is zero. -/
theorem isSolution_iff :
    (p.IsSolution fun k => s.2.complementarySolution.get (.structural (k + 1))) ↔
      s.2.point coverColumn = 0 := by
  have represents := h.feasible.represents
  have nonneg (i : Fin n) : 0 ≤ s.2.values i (Fin.last (n + 1 + n)) := h.feasible.feasible.nonneg i
  constructor
  · intro solution
    obtain ⟨k, zero⟩ := h.exists_slack_eq_zero
    have short := slack_of_solves represents.solves_point k
    have enough := solution.slack_nonneg k
    simp only [get_complementarySolution represents h.basis_first] at enough
    rw [zero] at short
    have cover : 0 ≤ s.2.point coverColumn := spread_nonneg nonneg _
    linarith
  · exact isSolution_of_cover_eq_zero represents h.basis_first nonneg
      (isComplementary_of_pairs h.almost.consistent h.almost.pairs)

/-- Where the loop ends on a ray, no label leaves, and either the covering column stands still at a
value that is not zero, or nothing bounds the entering label. -/
theorem exists_last_of_ray {visited : List (Label × Tableau ℚ n (n + 1))}
    {outcome : LemkeOutcome ℚ} {final : Tableau ℚ n (n + 1)}
    (loop : LemkeLoop s visited outcome final) (ray : outcome = .ray) :
    ∃ entering, visited.getLast? = some (entering, final) ∧ OnPath p origin (entering, final) ∧
      (final.pivotIn entering = ⟨.ok .artificial, final⟩ ∧ final.point coverColumn ≠ 0 ∨
      final.pivotIn entering = ⟨.error (.noExitRow entering), final⟩) := by
  induction loop with
  | @refused s l left stops =>
    obtain ⟨_, _, ⟨_, ⟨done, _⟩ | ⟨done, _⟩⟩ | ⟨_, _, done, _⟩⟩ := h.pivotIn_cases
    all_goals cases stops.symm.trans done
    exact ⟨s.1, rfl, h, Or.inr done⟩
  | @leaves s next stops =>
    have remains : next.artificialRemains = true := by
      by_contra gone
      rw [if_neg gone] at ray
      cases ray
    have feasible := h.feasible_next stops
    have nonzero := (artificialRemains_iff feasible.represents
      (feasible.first.trans h.first)).mp remains
    obtain ⟨_, _, ⟨_, ⟨done, _⟩ | ⟨done, _⟩⟩ | ⟨_, _, done, replaces⟩⟩ := h.pivotIn_cases
    all_goals cases stops.symm.trans done
    · exact ⟨s.1, rfl, h, Or.inl ⟨done, nonzero⟩⟩
    · -- Had the covering column left, it would be zero.
      exact absurd (h.cover_eq_zero_of_leaves done replaces) nonzero
  | step passed proper _ ih =>
    have on : GoesOn (· = .artificial) _ := ⟨_, _, passed, proper⟩
    have next := h.advance on
    rw [advance_eq passed] at next
    obtain ⟨entering, last, ends⟩ := ih next ray
    exact ⟨entering, by rw [List.getLast?_cons, last]; rfl, ends⟩

end OnPath

/-- After a run that ends on a ray the artificial label is basic at a value that is not negative.
The value is positive exactly if the point there is not a solution. It is positive unless the run
ended because nothing bounds the last label to enter, and always on copositive-plus problems. -/
theorem lemke_ray_level (p : ComplementarityProblem ℚ n) {t : Tableau ℚ n (n + 1)}
    (built : p.tableau = .ok t) (ray : t.lemke.result = .ok .ray) :
    ∃ i start visited entering x, t.pivot i .artificial = ⟨.ok (.slack (i + 1)), start⟩ ∧
      LemkeLoop (.structural (i + 1), start) visited .ray t.lemke.state ∧
      visited.getLast? = some (entering, t.lemke.state) ∧
      t.lemke.state.basicValue .artificial = .ok x ∧ 0 ≤ x ∧
      (0 < x ↔
        ¬p.IsSolution fun k => t.lemke.state.complementarySolution.get (.structural (k + 1))) ∧
      (0 < x ∨ t.lemke.state.pivotIn entering = ⟨.error (.noExitRow entering), t.lemke.state⟩) ∧
      (CopositivePlus p.matrix.toMatrix → 0 < x) := by
  obtain ⟨_, built', represents, basis, _⟩ := p.tableau_represents
  cases built.symm.trans built'
  have negative : t.negativeRows ≠ [] := by
    intro nonneg
    rw [lemke_of_nonneg nonneg] at ray
    cases ray
  obtain ⟨i, start, visited, outcome, final, _, enters, feasible, first, columns, loop, _, run⟩ :=
    exists_loop represents basis negative
  rw [run] at ray ⊢
  cases ray
  obtain ⟨entering, last, on, ends⟩ :=
    (onPath_start feasible first columns).exists_last_of_ray loop rfl
  have solution := on.isSolution_iff
  have nonneg : 0 ≤ final.point coverColumn :=
    spread_nonneg (fun k => on.feasible.feasible.nonneg k) _
  refine ⟨i, start, visited, entering, final.point coverColumn, enters, loop, last,
    on.basicValue_artificial, nonneg, ?_, ?_, fun plus => nonneg.lt_of_ne' fun zero => ?_⟩
  · rw [solution]
    exact ⟨ne_of_gt, nonneg.lt_of_ne'⟩
  · exact ends.imp (fun still => nonneg.lt_of_ne' still.2) id
  · have solved : p.solve = .ok .ray := by simp only [solve, built, run]
    have point := solution.mpr zero
    exact (p.solve_eq_ray_iff plus).mp solved ⟨_, point.nonneg, point.slack_nonneg⟩

/-- A problem without a solution, where the value left is one. -/
theorem lemke_ray_level_negative :
    let p : ComplementarityProblem ℚ 1 := ⟨#v[#v[-1]], #v[-1]⟩
    ∃ t, p.tableau = .ok t ∧ t.lemke.result = .ok .ray ∧
      t.lemke.state.basicValue .artificial = .ok 1 ∧
      ¬p.IsSolution fun k => t.lemke.state.complementarySolution.get (.structural (k + 1)) := by
  intro p
  obtain ⟨t, built, _⟩ := p.tableau_represents
  have ends : (match p.tableau with
      | .ok t =>
        match t.lemke.result, t.lemke.state.basicValue .artificial with
        | .ok .ray, .ok x => x == 1
        | _, _ => false
      | .error _ => false) = true := by decide +kernel
  simp only [built] at ends
  split at ends
  next x ray level =>
    obtain rfl := beq_iff_eq.mp ends
    obtain ⟨_, _, _, _, x, _, _, _, value, _, honest, _⟩ := p.lemke_ray_level built ray
    cases level.symm.trans value
    exact ⟨t, built, ray, level, honest.mp one_pos⟩
  next => cases ends

/-- Here the path goes on from the solution `(1, 0)`, and the run ends on a ray with the artificial
label at zero. -/
theorem lemke_ray_at_solution :
    let p : ComplementarityProblem ℚ 2 := ⟨#v[#v[2, -1], #v[1, -1]], #v[-2, -1]⟩
    ∃ t, p.tableau = .ok t ∧ t.lemke.result = .ok .ray ∧
      t.lemke.state.basicValue .artificial = .ok 0 ∧
      p.IsSolution fun k => t.lemke.state.complementarySolution.get (.structural (k + 1)) := by
  intro p
  obtain ⟨t, built, _⟩ := p.tableau_represents
  have ends : (match p.tableau with
      | .ok t =>
        match t.lemke.result, t.lemke.state.basicValue .artificial with
        | .ok .ray, .ok x => x == 0 && decide (∀ k : Fin 2,
            t.lemke.state.complementarySolution.get (.structural (k + 1)) = if k = 0 then 1 else 0)
        | _, _ => false
      | .error _ => false) = true := by decide +kernel
  simp only [built] at ends
  split at ends
  next x ray level =>
    simp only [Bool.and_eq_true, beq_iff_eq, decide_eq_true_eq] at ends
    obtain ⟨rfl, values⟩ := ends
    refine ⟨t, built, ray, level, ?_⟩
    simp only [values]
    constructor
    · decide +kernel
    · intro i
      fin_cases i <;> simp [slack, p, Grid.entry]
    · intro i
      fin_cases i <;> simp [slack, p, Grid.entry]
  next => cases ends

end LexPivot.ComplementarityProblem
