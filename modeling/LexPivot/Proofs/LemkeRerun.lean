import Mathlib
import LexPivot.Proofs.RayLevel

/-!
# Running Lemke's algorithm again

The algorithm has work to do if some value is negative, and from the first pivot on none is. So a
second run finds nothing to do, whatever the first one came to: it leaves the tableau as it is, and
takes its point for a solution. After a solution this is the same answer. After a ray it is another
one, and it is right only if the covering column has come down to zero on the ray.
-/
namespace LexPivot

namespace Tableau

variable {r c : Nat} {system : Matrix (Fin r) (Fin (c + r + 1)) ℚ} {origin t final : Tableau ℚ r c}

theorem LexFeasible.negativeRows_eq_nil (feasible : t.LexFeasible) : t.negativeRows = [] := by
  rw [List.eq_nil_iff_forall_not_mem]
  intro i listed
  have negative := ComplementarityProblem.mem_negativeRows_iff.mp listed
  exact absurd (feasible.nonneg i) (not_le.mpr negative)

namespace LemkeLoop

variable {s : Label × Tableau ℚ r c} {visited : List (Label × Tableau ℚ r c)}
  {outcome : LemkeOutcome ℚ}

/-- The loop leaves a feasible tableau behind, also on a ray. -/
theorem feasibleFrom (loop : LemkeLoop s visited outcome final)
    (h : FeasibleFrom system origin s.2) : FeasibleFrom system origin final := by
  induction loop with
  | @refused s _ _ stops | @leaves s _ stops =>
    have kept := h.pivotIn_state s.1
    rwa [stops] at kept
  | @step s _ _ _ _ _ passed _ _ ih =>
    have kept := h.pivotIn_state s.1
    rw [passed] at kept
    exact ih kept

/-- What the loop gives as a solution is that of the tableau it leaves behind. -/
theorem outcome_eq (loop : LemkeLoop s visited outcome final) :
    outcome = .ray ∨ outcome = .solved final.complementarySolution := by
  induction loop with
  | refused => exact Or.inl rfl
  | leaves =>
    split
    · exact Or.inl rfl
    · exact Or.inr rfl
  | step _ _ _ ih => exact ih

end LemkeLoop

end Tableau

namespace ComplementarityProblem

open Tableau

variable {n : Nat}

/-- The algorithm leaves a tableau without negative values, and a solution that it gives is the one
of that tableau. After a ray the point there is a solution exactly if the artificial label is at
zero. -/
theorem lemke_leaves {p : ComplementarityProblem ℚ n} {t : Tableau ℚ n (n + 1)}
    (represents : t.Represents p.system) (basis : t.basis = Basis.slack 0) :
    ∃ outcome final, t.lemke = ⟨.ok outcome, final⟩ ∧ final.negativeRows = [] ∧
      (outcome = .ray ∨ outcome = .solved final.complementarySolution) ∧
      (outcome = .ray → ∃ x, final.basicValue .artificial = .ok x ∧
        ((p.IsSolution fun k => final.complementarySolution.get (.structural (k + 1))) ↔
          x = 0)) := by
  by_cases negative : t.negativeRows = []
  · exact ⟨_, t, lemke_of_nonneg negative, negative, Or.inr rfl, fun ray => nomatch ray⟩
  · obtain ⟨i, start, visited, outcome, final, _, _, feasible, first, columns, loop, _, run⟩ :=
      exists_loop represents basis negative
    refine ⟨outcome, final, run, (loop.feasibleFrom feasible).feasible.negativeRows_eq_nil,
      loop.outcome_eq, fun ray => ?_⟩
    -- The tableau left behind is that of the last state, where the artificial label is basic.
    obtain ⟨entering, _, on, _⟩ :=
      (onPath_start feasible first columns).exists_last_of_ray loop ray
    exact ⟨_, on.basicValue_artificial, on.isSolution_iff⟩

/-- A second run changes nothing in the tableau that the first one leaves, and gives its point as a
solution. So it comes to the same exactly if the first run did not end on a ray. After a ray the
point is a solution only if the artificial label is at zero. -/
theorem lemke_lemke (p : ComplementarityProblem ℚ n) :
    ∃ t outcome final, p.tableau = .ok t ∧ t.lemke = ⟨.ok outcome, final⟩ ∧
      final.lemke = ⟨.ok (.solved final.complementarySolution), final⟩ ∧
      (final.lemke = t.lemke ↔ outcome ≠ .ray) ∧
      (outcome = .ray → ∃ x, final.basicValue .artificial = .ok x ∧
        ((p.IsSolution fun k => final.complementarySolution.get (.structural (k + 1))) ↔
          x = 0)) := by
  obtain ⟨t, built, represents, basis, _⟩ := p.tableau_represents
  obtain ⟨outcome, final, run, nonneg, ends, level⟩ := lemke_leaves represents basis
  have again : final.lemke = ⟨.ok (.solved final.complementarySolution), final⟩ :=
    lemke_of_nonneg nonneg
  refine ⟨t, outcome, final, built, run, again, ?_, level⟩
  rw [again, run]
  rcases ends with rfl | rfl
  · simp
  · simp

/-- A problem without a solution: the first run ends on a ray, and the second gives its point as a
solution. -/
theorem lemke_lemke_after_ray :
    let p : ComplementarityProblem ℚ 1 := ⟨#v[#v[-1]], #v[-1]⟩
    ∃ t z, p.tableau = .ok t ∧ t.lemke.result = .ok .ray ∧
      t.lemke.state.lemke.result = .ok (.solved z) ∧
      ¬p.IsSolution fun k => z.get (.structural (k + 1)) := by
  intro p
  obtain ⟨t, built, _⟩ := p.tableau_represents
  have runs : (match p.tableau with
      | .ok t =>
        match t.lemke.result, t.lemke.state.lemke.result with
        | .ok .ray, .ok (.solved z) => z.get (.structural 1) == 0
        | _, _ => false
      | .error _ => false) = true := by decide +kernel
  simp only [built] at runs
  split at runs
  next z ray again =>
    refine ⟨t, z, built, ray, again, fun solution => ?_⟩
    have short : p.slack (fun k => z.get (.structural (k + 1))) 0 = -1 := by
      simp [slack, p, Grid.entry, beq_iff_eq.mp runs]
    exact absurd (solution.slack_nonneg 0) (by rw [short]; norm_num)
  next => cases runs

end ComplementarityProblem

end LexPivot
