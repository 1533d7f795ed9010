import Mathlib
import LexPivot.Complementary.Problem
import LexPivot.Proofs.AlmostComplementary
import LexPivot.Proofs.BasicPoint

/-!
# Columns in complementary pairs

A tableau with `n` rows, a covering column and `n` more constraint columns: the column of a variable
and the slack of its row form a complementary pair, and the covering column carries the artificial
label. At a basis that holds no pair, the point is complementary.
-/
namespace LexPivot.ComplementarityProblem

open Tableau

variable {n : Nat}

def coverColumn : Fin (n + 1 + n) := Fin.castAdd n 0

def variableColumn (k : Fin n) : Fin (n + 1 + n) := Fin.castAdd n k.succ

def slackColumn (k : Fin n) : Fin (n + 1 + n) := Fin.natAdd (n + 1) k

theorem column_cases (j : Fin (n + 1 + n)) :
    j = coverColumn ∨ (∃ k, j = variableColumn k) ∨ ∃ k, j = slackColumn k := by
  refine Fin.addCases (fun l => ?_) (fun k => Or.inr (Or.inr ⟨k, rfl⟩)) j
  refine Fin.cases (Or.inl rfl) (fun k => Or.inr (Or.inl ⟨k, rfl⟩)) l

theorem slackColumn_injective : Function.Injective (slackColumn : Fin n → Fin (n + 1 + n)) :=
  Fin.natAdd_injective _ _

theorem coverColumn_ne_slackColumn (k : Fin n) : coverColumn ≠ slackColumn k := by
  intro same
  have number := congrArg Fin.val same
  simp only [coverColumn, slackColumn, Fin.val_castAdd, Fin.val_natAdd, Fin.val_zero] at number
  omega

section Labels

variable {basis : Basis n (n + 1)}

theorem labelAt_cover (first : basis.first = 0) : basis.labelAt coverColumn = .artificial := by
  rw [coverColumn, Basis.labelAt_castAdd, first]
  rfl

theorem labelAt_variable (first : basis.first = 0) (k : Fin n) :
    basis.labelAt (variableColumn k) = .structural (k + 1) := by
  rw [variableColumn, Basis.labelAt_castAdd, first, Fin.val_succ, Nat.zero_add]

theorem labelAt_slack (basis : Basis n (n + 1)) (k : Fin n) :
    basis.labelAt (slackColumn k) = .slack (k + 1) :=
  Basis.labelAt_natAdd _ _

theorem exists_complement (first : basis.first = 0) {l : Label}
    (valid : ∃ j, basis.labelAt j = l) (proper : l ≠ .artificial) :
    ∃ j, basis.labelAt j = l.complement := by
  obtain ⟨j, rfl⟩ := valid
  rcases column_cases j with rfl | ⟨k, rfl⟩ | ⟨k, rfl⟩
  · exact absurd (labelAt_cover first) proper
  · refine ⟨slackColumn k, ?_⟩
    rw [labelAt_variable first, labelAt_slack, Label.complement_structural_succ]
  · refine ⟨variableColumn k, ?_⟩
    rw [labelAt_variable first, labelAt_slack, Label.complement_slack]

end Labels

/-- At a complementary tableau a variable that is not zero has no slack. -/
theorem slack_eq_zero {t : Tableau ℚ n (n + 1)} (consistent : t.basis.Consistent)
    (first : t.basis.first = 0) (complementary : t.isComplementary = true) {k : Fin n}
    (nonzero : t.point (variableColumn k) ≠ 0) : t.point (slackColumn k) = 0 := by
  obtain ⟨i, held⟩ := exists_row_of_point_ne_zero nonzero
  have label : t.basis.rowLabel i = .structural (k + 1) := by
    rw [consistent.rowLabel_eq, held, labelAt_variable first]
  refine spread_nonbasic _ fun q slack => ?_
  rcases (isComplementary_iff consistent).mp complementary i with artificial | absent
  · rw [label] at artificial
    cases artificial
  · apply absent q
    rw [label, consistent.rowLabel_eq, slack, labelAt_slack]
    rfl

end LexPivot.ComplementarityProblem
