import Mathlib
import LexPivot.Proofs.LexRatioTest

/-!
# Lexicographic feasibility

A tableau is lexicographically feasible when every row of `[x | B⁻¹ B₀]` is positive in the
lexicographic order, which is more than `x ≥ 0`. A pivot on the row that the ratio test selects
keeps this, and the ratio test then selects the same row for the way back. Which column leaves
depends on the set of basic columns only, not on their order.
-/
namespace LexPivot

open Matrix

theorem LexPositive.of_nonneg {ι : Type} {f : ι → ℚ} {js : List ι}
    (nonneg : ∀ j ∈ js, 0 ≤ f j) (positive : ∃ j ∈ js, 0 < f j) : LexPositive f js := by
  induction js with
  | nil => simp at positive
  | cons j js ih =>
    rcases (nonneg j (by simp)).eq_or_lt with zero | head
    · refine Or.inr ⟨zero.symm, ih (fun k member => nonneg k (by simp [member])) ?_⟩
      obtain ⟨k, member, strict⟩ := positive
      rcases List.mem_cons.mp member with rfl | later
      · exact absurd zero strict.ne
      · exact ⟨k, later, strict⟩
    · exact Or.inl head

namespace Tableau

variable {r c : Nat} {t : Tableau ℚ r c} {system : Matrix (Fin r) (Fin (c + r + 1)) ℚ}

/-- Every row is positive in the lexicographic order of the ratio test. -/
def LexFeasible (t : Tableau ℚ r c) : Prop := ∀ k, LexPositive (t.values k) t.lexColumns

theorem LexFeasible.nonneg (feasible : t.LexFeasible) (k : Fin r) :
    0 ≤ t.values k (Fin.last (c + r)) :=
  (feasible k).head_nonneg

@[simp] theorem lexColumns_exchangeColumn (t : Tableau ℚ r c) (i : Fin r) (j : Fin (c + r)) :
    (t.exchangeColumn i j).lexColumns = t.lexColumns := by
  rw [lexColumns, lexColumns, referenceColumns_exchangeColumn]

/-- When a column enters that is not blocked, the basic columns that are blocked stay where they
are. -/
theorem blocked_stays_exchangeColumn {i k : Fin r} {j : Fin (c + r)}
    (free : t.basis.blocked.get j = false)
    (held : (t.exchangeColumn i j).basis.blocked.get
      ((t.exchangeColumn i j).basis.columns.get k) = true) :
    k ≠ i ∧ t.basis.blocked.get (t.basis.columns.get k) = true ∧
      (t.exchangeColumn i j).basis.columns.get k = t.basis.columns.get k := by
  rw [blocked_exchangeColumn, columns_exchangeColumn] at held
  by_cases same : k = i
  · rw [same, Function.update_self, free] at held
    cases held
  · rw [Function.update_of_ne same] at held
    exact ⟨same, held, by rw [columns_exchangeColumn, Function.update_of_ne same]⟩

namespace Represents

/-- At its own reference, a tableau with nonnegative values is lexicographically feasible. -/
theorem lexFeasible_of_reference (h : t.Represents system)
    (reference : t.reference = t.basis.rows)
    (nonneg : ∀ k, 0 ≤ t.values k (Fin.last (c + r))) : t.LexFeasible := by
  intro k
  -- At the reference the rows of `B⁻¹ B₀` are the unit rows.
  have unit (q : Fin r) :
      t.values k (t.referenceColumns.get q).castSucc = if k = q then 1 else 0 := by
    rw [referenceColumns_eq rfl reference]
    exact h.reduced.apply_basic k q
  have own : (t.referenceColumns.get k).castSucc ∈ t.lexColumns :=
    mem_lexColumns_iff.mpr (Or.inr ⟨k, rfl⟩)
  refine LexPositive.of_nonneg (fun j listed => ?_) ⟨_, own, by simp [unit]⟩
  rcases mem_lexColumns_iff.mp listed with rfl | ⟨q, rfl⟩
  · exact nonneg k
  · rw [unit]
    split <;> simp

/-- A pivot on the row that bounds the entering column first keeps lexicographic feasibility. -/
theorem lexFeasible_exchangeColumn (h : t.Represents system) (feasible : t.LexFeasible)
    {i : Fin r} {j : Fin (c + r)}
    (exit : IsLexExit t.values t.lexColumns (t.values.col j.castSucc) i) :
    (t.exchangeColumn i j).LexFeasible := by
  have pivot : 0 < t.values i j.castSucc := exit.1
  intro k
  rw [lexColumns_exchangeColumn, h.values_exchangeColumn pivot.ne']
  by_cases same : k = i
  · subst k
    refine ((feasible i).smul (one_div_pos.mpr pivot)).congr fun l _ => ?_
    rw [pivoted_self, Pi.smul_apply, smul_eq_mul]
    ring
  · -- A row gains a multiple of a positive row, unless its entry in the entering column is
    -- positive. Then the ratio test has compared it with the pivot row.
    rcases le_or_gt (t.values k j.castSucc) 0 with nonpos | positive
    · have factor : 0 ≤ -t.values k j.castSucc / t.values i j.castSucc :=
        div_nonneg (neg_nonneg.mpr nonpos) pivot.le
      refine ((feasible k).add_smul (feasible i) factor).congr fun l _ => ?_
      rw [pivoted_ne _ _ _ same, Pi.add_apply, Pi.smul_apply, smul_eq_mul]
      ring
    · refine ((exit.2 k same positive).smul positive).congr fun l _ => ?_
      have positive' : t.values k j.castSucc ≠ 0 := positive.ne'
      rw [pivoted_ne _ _ _ same, Pi.smul_apply, smul_eq_mul]
      simp only [Matrix.col_apply]
      field_simp

/-- After a pivot the column that left would leave the same row when it entered again. -/
theorem isLexExit_reverse (h : t.Represents system) (feasible : t.LexFeasible)
    {i : Fin r} {j : Fin (c + r)}
    (exit : IsLexExit t.values t.lexColumns (t.values.col j.castSucc) i) :
    IsLexExit (t.exchangeColumn i j).values (t.exchangeColumn i j).lexColumns
      ((t.exchangeColumn i j).values.col (t.basis.columns.get i).castSucc) i := by
  have pivot : 0 < t.values i j.castSucc := exit.1
  have own := h.reduced.apply_self i
  rw [lexColumns_exchangeColumn, h.values_exchangeColumn pivot.ne']
  refine ⟨?_, fun k ne positive => ?_⟩
  · rw [Matrix.col_apply, pivoted_self, own]
    exact one_div_pos.mpr pivot
  · have other := h.reduced.apply_ne ne
    rw [Matrix.col_apply, pivoted_ne _ _ _ ne, other, own, zero_sub, neg_pos] at positive
    -- The column that left is positive in the rows that were negative in the column that entered.
    have negative : t.values k j.castSucc < 0 := by
      by_contra nonneg
      exact absurd positive (not_lt.mpr (mul_nonneg (not_lt.mp nonneg) (one_div_pos.mpr pivot).le))
    have factor : 0 < t.values i j.castSucc / -t.values k j.castSucc :=
      div_pos pivot (neg_pos.mpr negative)
    refine ((feasible k).smul factor).congr fun l _ => ?_
    have negative' : t.values k j.castSucc ≠ 0 := negative.ne
    have pivot' : t.values i j.castSucc ≠ 0 := pivot.ne'
    rw [Matrix.col_apply, Matrix.col_apply, pivoted_self, pivoted_self, pivoted_ne _ _ _ ne,
      pivoted_ne _ _ _ ne, other, own, zero_sub, Pi.smul_apply, smul_eq_mul]
    field_simp
    ring

/-- The basic columns in another order of the rows give the rows in that order. -/
theorem values_of_order {t' : Tableau ℚ r c} (h : t.Represents system) (h' : t'.Represents system)
    {σ : Equiv.Perm (Fin r)} (order : t'.basis.columns.get = t.basis.columns.get ∘ σ) :
    t'.values = t.values.submatrix σ id := by
  have permuted := h.reduced.permute σ
  rw [← order] at permuted
  exact h'.reduced.unique permuted

/-- Two tableaus of one system with the same basic columns differ by the order of their rows. -/
theorem exists_perm {t' : Tableau ℚ r c} (h : t.Represents system) (h' : t'.Represents system)
    (same : Set.range t'.basis.columns.get = Set.range t.basis.columns.get) :
    ∃ σ : Equiv.Perm (Fin r), t'.basis.columns.get = t.basis.columns.get ∘ σ ∧
      t'.values = t.values.submatrix σ id := by
  have row (k : Fin r) : ∃ i, t.basis.columns.get i = t'.basis.columns.get k := by
    have member : t'.basis.columns.get k ∈ Set.range t.basis.columns.get := same ▸ ⟨k, rfl⟩
    exact member
  -- Matching the basic columns of the two tableaus matches their rows.
  choose f held using row
  have injective : Function.Injective f := by
    intro k q equal
    apply h'.distinct
    rw [← held k, ← held q, equal]
  let σ : Equiv.Perm (Fin r) := Equiv.ofBijective f (Finite.injective_iff_bijective.mp injective)
  have columns : t'.basis.columns.get = t.basis.columns.get ∘ σ := by
    ext k
    exact congrArg Fin.val (held k).symm
  exact ⟨σ, columns, h.values_of_order h' columns⟩

end Represents

/-- A lexicographically feasible tableau of a system, with the reference and the labels of another
one. -/
structure FeasibleFrom (system : Matrix (Fin r) (Fin (c + r + 1)) ℚ) (origin t : Tableau ℚ r c) :
    Prop where
  represents : t.Represents system
  feasible : t.LexFeasible
  reference : t.reference = origin.reference
  first : t.basis.first = origin.basis.first

namespace FeasibleFrom

variable {origin : Tableau ℚ r c}

theorem lexColumns (h : FeasibleFrom system origin t) : t.lexColumns = origin.lexColumns := by
  rw [Tableau.lexColumns, Tableau.lexColumns, referenceColumns, referenceColumns, h.reference,
    Basis.columnsOf_of_first h.first]

theorem labelAt (h : FeasibleFrom system origin t) : t.basis.labelAt = origin.basis.labelAt :=
  Basis.labelAt_of_first h.first

theorem exchangeColumn (h : FeasibleFrom system origin t) {i : Fin r} {j : Fin (c + r)}
    (exit : IsLexExit t.values t.lexColumns (t.values.col j.castSucc) i) :
    FeasibleFrom system origin (t.exchangeColumn i j) where
  represents := h.represents.exchangeColumn (ne_of_gt exit.1)
  feasible := h.represents.lexFeasible_exchangeColumn h.feasible exit
  reference := h.reference
  first := (t.first_exchangeColumn i j).trans h.first

end FeasibleFrom

/-- With a right-hand side that is nowhere positive, a tableau starts out feasible. -/
theorem ofSystem_feasibleFrom (a : Grid ℚ r c) (b : Vector ℚ r) (first : Nat)
    (some_column : 0 < c) (nonpos : ∀ i, b.get i ≤ 0) :
    ∃ t, ofSystem a b first = .ok t ∧ FeasibleFrom (systemMatrix a b) t t ∧
      t.basis = Basis.slack first ∧ t.reference = t.basis.rows := by
  obtain ⟨t, built, represents, basis, reference⟩ := ofSystem_represents a b first some_column
  have nonneg (k : Fin r) : 0 ≤ t.values k (Fin.last (c + r)) := by
    rw [represents.values_of_slack basis, Matrix.neg_apply, systemMatrix_last]
    exact neg_nonneg.mpr (nonpos k)
  exact ⟨t, built, ⟨represents, represents.lexFeasible_of_reference reference nonneg, rfl, rfl⟩,
    basis, reference⟩

end Tableau

theorem IsLexExit.of_submatrix {r n : Nat} {values : Matrix (Fin r) (Fin n) ℚ} {js : List (Fin n)}
    {l : Fin n} (σ : Equiv.Perm (Fin r)) {i : Fin r}
    (exit : IsLexExit (values.submatrix σ id) js ((values.submatrix σ id).col l) i) :
    IsLexExit values js (values.col l) (σ i) := by
  refine ⟨exit.1, fun k ne positive => ?_⟩
  have other : σ.symm k ≠ i := fun same => ne (by rw [← same, Equiv.apply_symm_apply])
  have row := exit.2 (σ.symm k) other (by simpa using positive)
  simpa using row

end LexPivot
