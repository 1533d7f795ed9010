import Mathlib
import LexPivot.Proofs.ComplementaryColumns

/-!
# The covering column enters

The equations of a complementarity problem are `z₀ + M z - w = -q`. At the slack basis the values
are `q`, and some of them are negative. When the covering column enters in the row that is least in
the order of the ratio test, each row becomes the difference of that row and the one it was, so all
rows become positive in that order. Only one choice of the row has this property.
-/
namespace LexPivot.ComplementarityProblem

open Matrix Tableau

variable {n : Nat} {p : ComplementarityProblem ℚ n}

/-! ### Equations and solutions -/

/-- The equations of a problem. -/
def system (p : ComplementarityProblem ℚ n) : Matrix (Fin n) (Fin (n + 1 + n + 1)) ℚ :=
  systemMatrix p.columns (p.offset.map fun x => -x)

/-- What `w = q + M z` is in a row. -/
def slack (p : ComplementarityProblem ℚ n) (z : Fin n → ℚ) (i : Fin n) : ℚ :=
  p.offset.get i + ∑ k, p.matrix.entry i k * z k

structure IsSolution (p : ComplementarityProblem ℚ n) (z : Fin n → ℚ) : Prop where
  nonneg : ∀ k, 0 ≤ z k
  slack_nonneg : ∀ i, 0 ≤ p.slack z i
  complementary : ∀ i, z i * p.slack z i = 0

theorem system_cover (i : Fin n) : p.system i coverColumn.castSucc = 1 := by
  rw [system, coverColumn, systemMatrix_structural, columns, Grid.entry_ofFn, Fin.cases_zero]

theorem system_slack (i k : Fin n) :
    p.system i (slackColumn k).castSucc = if k = i then -1 else 0 :=
  systemMatrix_slack _ _ _ _

theorem system_last (i : Fin n) : p.system i (Fin.last _) = -p.offset.get i := by
  rw [system, systemMatrix_last, get_map]

theorem sum_system (i : Fin n) (z : Fin (n + 1 + n) → ℚ) :
    ∑ l, p.system i l.castSucc * z l =
      z coverColumn + ∑ k, p.matrix.entry i k * z (variableColumn k) - z (slackColumn i) := by
  rw [system, sum_systemMatrix, Fin.sum_univ_succ]
  simp only [columns, Grid.entry_ofFn, Fin.cases_zero, Fin.cases_succ]
  exact congrArg₂ _ (congrArg₂ _ (one_mul _) rfl) rfl

/-- At a solution of the equations the slacks are those of the problem, raised by the covering
column. -/
theorem slack_of_solves {z : Fin (n + 1 + n) → ℚ} (solves : Solves p.system z) (i : Fin n) :
    z (slackColumn i) = p.slack (fun k => z (variableColumn k)) i + z coverColumn := by
  have equation := solves i
  rw [sum_system, system_last] at equation
  rw [slack]
  linarith

theorem slack_of_direction {d : Fin (n + 1 + n) → ℚ} (direction : IsDirection p.system d)
    (i : Fin n) : d (slackColumn i) =
      ∑ k, p.matrix.entry i k * d (variableColumn k) + d coverColumn := by
  have equation := direction i
  rw [sum_system] at equation
  linarith

theorem get_complementarySolution {t : Tableau ℚ n (n + 1)} (represents : t.Represents p.system)
    (first : t.basis.first = 0) (k : Fin n) :
    t.complementarySolution.get (.structural (k + 1)) = t.point (variableColumn k) :=
  get_filterLabels_basicSolution represents.consistent (labelAt_variable first k) rfl

/-- A complementary tableau with nonnegative values is a solution if the covering column is zero,
whether or not it is basic. -/
theorem isSolution_of_cover_eq_zero {t : Tableau ℚ n (n + 1)} (represents : t.Represents p.system)
    (first : t.basis.first = 0) (nonneg : ∀ i, 0 ≤ t.values i (Fin.last (n + 1 + n)))
    (complementary : t.isComplementary = true) (zero : t.point coverColumn = 0) :
    p.IsSolution fun k => t.complementarySolution.get (.structural (k + 1)) := by
  have slacks (i : Fin n) : p.slack (fun k => t.point (variableColumn k)) i =
      t.point (slackColumn i) := by
    rw [slack_of_solves represents.solves_point i, zero, add_zero]
  simp only [get_complementarySolution represents first]
  refine ⟨fun k => spread_nonneg nonneg _, fun i => ?_, fun i => ?_⟩
  · rw [slacks]
    exact spread_nonneg nonneg _
  · rw [slacks, mul_eq_zero]
    exact or_iff_not_imp_left.mpr (slack_eq_zero represents.consistent first complementary)

/-! ### The slack basis -/

theorem tableau_represents (p : ComplementarityProblem ℚ n) :
    ∃ t, p.tableau = .ok t ∧ t.Represents p.system ∧ t.basis = Basis.slack 0 ∧
      t.reference = t.basis.rows :=
  ofSystem_represents p.columns (p.offset.map fun x => -x) 0 (Nat.succ_pos n)

section SlackBasis

variable {t : Tableau ℚ n (n + 1)}

theorem columns_of_slack (basis : t.basis = Basis.slack 0) : t.basis.columns.get = slackColumn := by
  ext i
  rw [basis, Basis.get_columns_slack]
  rfl

theorem values_of_slack (represents : t.Represents p.system) (basis : t.basis = Basis.slack 0)
    (i : Fin n) (l : Fin (n + 1 + n + 1)) : t.values i l = -p.system i l :=
  congrFun (congrFun (Represents.values_of_slack represents basis) i) l

theorem isComplementary_of_slack (basis : t.basis = Basis.slack 0) : t.isComplementary = true := by
  rw [isComplementary_iff (by rw [basis]; exact Basis.consistent_slack 0)]
  intro i
  right
  intro q
  rw [basis, Basis.rowLabel_slack, Basis.rowLabel_slack]
  exact nofun

end SlackBasis

/-! ### The covering column in place of a slack -/

/-- The slacks, except for one that the covering column replaces. -/
def coverBasis (k : Fin n) : Fin n → Fin (n + 1 + n) :=
  Function.update slackColumn k coverColumn

theorem coverBasis_injective (k : Fin n) : Function.Injective (coverBasis k) := by
  intro i q same
  by_cases hi : i = k
  · by_cases hq : q = k
    · rw [hi, hq]
    · rw [hi, coverBasis, Function.update_self, Function.update_of_ne hq] at same
      exact absurd same (coverColumn_ne_slackColumn q)
  · by_cases hq : q = k
    · rw [hq, coverBasis, Function.update_self, Function.update_of_ne hi] at same
      exact absurd same.symm (coverColumn_ne_slackColumn i)
    · rw [coverBasis, Function.update_of_ne hi, Function.update_of_ne hq] at same
      exact slackColumn_injective same

/-- With the covering column in place of slack `k`, each row is the difference of row `k` and the
row it was, and row `k` is what it was. -/
theorem reduced_coverBasis {k : Fin n} {reduced : Matrix (Fin n) (Fin (n + 1 + n + 1)) ℚ}
    (h : Reduced p.system (coverBasis k) reduced) (l : Fin (n + 1 + n + 1)) :
    reduced k l = p.system k l ∧ ∀ i, i ≠ k → reduced i l = p.system k l - p.system i l := by
  have entry (i q : Fin n) : p.system i (coverBasis k q).castSucc =
      if q = k then 1 else if q = i then -1 else 0 := by
    by_cases same : q = k
    · rw [same, coverBasis, Function.update_self, system_cover, if_pos rfl]
    · rw [coverBasis, Function.update_of_ne same, system_slack, if_neg same]
  have own : reduced k l = p.system k l := by
    rw [← h.sum_mul k l, Finset.sum_eq_single k]
    · rw [entry, if_pos rfl, one_mul]
    · intro q _ ne
      rw [entry, if_neg ne, if_neg ne, zero_mul]
    · exact fun absent => absurd (Finset.mem_univ k) absent
  refine ⟨own, fun i ne => ?_⟩
  have equation : p.system i l = reduced k l - reduced i l := by
    rw [← h.sum_mul i l, Finset.sum_eq_add k i ne.symm]
    · rw [entry, entry, if_pos rfl, if_neg ne, if_pos rfl]
      ring
    · rintro q _ ⟨other, other'⟩
      rw [entry, if_neg other, if_neg other', zero_mul]
    · exact fun absent => absurd (Finset.mem_univ k) absent
    · exact fun absent => absurd (Finset.mem_univ i) absent
  rw [equation, own, sub_sub_cancel]

/-- No two choices of the row make all rows positive. -/
theorem coverBasis_unique {k q : Fin n} (js : List (Fin (n + 1 + n + 1)))
    {reduced other : Matrix (Fin n) (Fin (n + 1 + n + 1)) ℚ}
    (h : Reduced p.system (coverBasis k) reduced) (h' : Reduced p.system (coverBasis q) other)
    (positive : ∀ i, LexPositive (reduced i) js) (positive' : ∀ i, LexPositive (other i) js) :
    k = q := by
  by_contra ne
  have less : LexPositive (fun l => p.system k l - p.system q l) js :=
    (positive q).congr fun l _ => (reduced_coverBasis h l).2 q (Ne.symm ne)
  have greater : LexPositive (fun l => p.system q l - p.system k l) js :=
    (positive' k).congr fun l _ => (reduced_coverBasis h' l).2 k ne
  apply less.not_neg
  refine greater.congr fun l _ => ?_
  simp

/-! ### The first pivot -/

theorem mem_negativeRows_iff {r c : Nat} {t : Tableau ℚ r c} {i : Fin r} :
    i ∈ t.negativeRows ↔ t.values i (Fin.last (c + r)) < 0 := by
  simp [negativeRows, Scalar.isStrictlyNegative_iff]

section FirstPivot

variable {t : Tableau ℚ n (n + 1)} (represents : t.Represents p.system)
  (basis : t.basis = Basis.slack 0)

include represents basis

/-- The row in which the covering column enters is negative, and below all other rows in the order
of the ratio test. -/
theorem coverRow_eq_ok (negative : t.negativeRows ≠ []) :
    ∃ i, t.coverRow = .ok i ∧ t.values i (Fin.last (n + 1 + n)) < 0 ∧
      ∀ k, k ≠ i → LexPositive (fun l => t.values k l - t.values i l) t.lexColumns := by
  have first : t.basis.first = 0 := by rw [basis]; rfl
  have column : t.solveColumn .artificial = .ok (t.reducedColumn coverColumn) := by
    rw [← labelAt_cover first, solveColumn_labelAt]
  -- The covering column is minus one in every row, so the ratios are the rows themselves.
  let entering := (t.reducedColumn coverColumn).map fun x => -x
  have one (k : Fin n) : entering.get k = 1 := by
    rw [get_map, get_reducedColumn, values_of_slack represents basis, system_cover, neg_neg]
  have positive (k : Fin n) (_ : k ∈ t.negativeRows) : 0 < entering.get k := by
    rw [one]
    exact one_pos
  obtain ⟨i, listed, found, least⟩ := represents.lexExitRow_eq_some negative positive
  have checked : t.lexExitRowChecked entering t.negativeRows = .ok (some i) := by
    rw [lexExitRowChecked_eq_ok fun k listed => (positive k listed).ne', found]
  have below := mem_negativeRows_iff.mp listed
  refine ⟨i, by simp only [coverRow, column, checked, entering], below, fun k ne => ?_⟩
  by_cases candidate : k ∈ t.negativeRows
  · refine (least k candidate ne).congr fun l _ => ?_
    rw [one, one, div_one, div_one]
  · -- A row that is not negative is above the one that is.
    rw [mem_negativeRows_iff, not_lt] at candidate
    exact Or.inl (sub_pos.mpr (below.trans_le candidate))

/-- The covering column enters, and the tableau becomes feasible. -/
theorem pivot_coverRow (negative : t.negativeRows ≠ []) :
    ∃ i, t.coverRow = .ok i ∧
      t.pivot i .artificial = ⟨.ok (.slack (i + 1)), t.exchangeColumn i coverColumn⟩ ∧
      (t.exchangeColumn i coverColumn).basis.columns.get = coverBasis i ∧
      FeasibleFrom p.system (t.exchangeColumn i coverColumn) (t.exchangeColumn i coverColumn) := by
  have first : t.basis.first = 0 := by rw [basis]; rfl
  have columns := columns_of_slack basis
  obtain ⟨i, row, below, least⟩ := coverRow_eq_ok represents basis negative
  have nonzero : t.values i coverColumn.castSucc ≠ 0 := by
    rw [values_of_slack represents basis, system_cover]
    norm_num
  have nonbasic (k : Fin n) : t.basis.columns.get k ≠ coverColumn := by
    rw [columns]
    exact (coverColumn_ne_slackColumn k).symm
  have pivots := represents.pivot_eq_ok nonbasic nonzero
  rw [labelAt_cover first, represents.consistent.rowLabel_eq, columns, labelAt_slack] at pivots
  have exchanged : (t.exchangeColumn i coverColumn).basis.columns.get = coverBasis i := by
    rw [columns_exchangeColumn, columns, coverBasis]
  have represents' := represents.exchangeColumn nonzero
  have reduced := represents'.reduced
  rw [exchanged] at reduced
  refine ⟨i, row, pivots, exchanged, represents', fun k => ?_, rfl, rfl⟩
  rw [lexColumns_exchangeColumn]
  by_cases same : k = i
  · subst k
    refine Or.inl ?_
    rw [(reduced_coverBasis reduced _).1, ← neg_neg (p.system _ _),
      ← values_of_slack represents basis]
    exact neg_pos.mpr below
  · refine (least k same).congr fun l _ => ?_
    rw [(reduced_coverBasis reduced l).2 k same, values_of_slack represents basis,
      values_of_slack represents basis]
    ring

end FirstPivot

end LexPivot.ComplementarityProblem
