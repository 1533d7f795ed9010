import Mathlib
import LexPivot.Proofs.TableauRun

/-!
# When a pivot succeeds

A request to make a label basic in a row is refused when there is no such row, when the label is
unknown or basic in another row, and when the exchange would leave a singular basis. The pivot
reads the last off one integer of the working matrix. By Cramer's rule that integer vanishes exactly
if the determinant of the basis after the exchange does. A request that is refused leaves the
tableau as it is, and one that succeeds changes the label of its own row only.
-/
namespace LexPivot.Tableau

variable {r c : Nat}

/-- The label is one of the tableau and no row holds it. -/
def IsNonbasic (t : Tableau ℚ r c) (l : Label) : Prop :=
  t.basis.isValid l = true ∧ t.basis.isMember l = false

/-- The basis with the column of `entering` in place of the column of row `i`. -/
def exchangedBasis (a : Grid ℚ r c) (first : Nat) (t : Tableau ℚ r c) (i : Fin r)
    (entering : Label) : Matrix (Fin r) (Fin r) ℚ :=
  (labelBasis a first t).updateCol i (labelColumn a first entering)

/-- Which answer a request to make `entering` basic in `row` gets, and what it does to the
tableau. -/
structure PivotContract (a : Grid ℚ r c) (first : Nat) (t : Tableau ℚ r c) (row : Nat)
    (entering : Label) : Prop where
  rowOutside_iff : ∀ n, (t.pivot row entering).result = .error (.rowOutside n) ↔
    n = row ∧ r ≤ row
  undefinedLabel_iff : ∀ l, (t.pivot row entering).result = .error (.undefinedLabel l) ↔
    l = entering ∧ row < r ∧
      (t.basis.isValid entering = false ∨ ∃ k : Fin r, k.val ≠ row ∧ t.basis.rowLabel k = entering)
  singularPivot_iff : ∀ n l, (t.pivot row entering).result = .error (.singularPivot n l) ↔
    n = row ∧ l = entering ∧ ∃ inside : row < r, t.IsNonbasic entering ∧
      (exchangedBasis a first t ⟨row, inside⟩ entering).det = 0
  ok_iff : ∀ l, (t.pivot row entering).result = .ok l ↔
    ∃ inside : row < r, l = t.basis.rowLabel ⟨row, inside⟩ ∧
      (l = entering ∨
        t.IsNonbasic entering ∧ (exchangedBasis a first t ⟨row, inside⟩ entering).det ≠ 0)
  refused : ∀ e, (t.pivot row entering).result = .error e → (t.pivot row entering).state = t
  rows : ∀ l, (t.pivot row entering).result = .ok l → ∀ k : Fin r,
    (t.pivot row entering).state.basis.rowLabel k =
      if k.val = row then entering else t.basis.rowLabel k

theorem isNonbasic_labelAt_iff {t : Tableau ℚ r c} (consistent : t.basis.Consistent)
    {j : Fin (c + r)} :
    t.IsNonbasic (t.basis.labelAt j) ↔ ∀ k, t.basis.columns.get k ≠ j := by
  have valid : t.basis.isValid (t.basis.labelAt j) = true := Basis.isValid_iff.mpr ⟨j, rfl⟩
  rw [IsNonbasic, and_iff_right valid, ← Bool.not_eq_true, consistent.isMember_labelAt_iff,
    not_exists]

namespace Represents

variable {a : Grid ℚ r c} {b : Vector ℚ r} {t : Tableau ℚ r c}

theorem det_exchangedBasis (h : t.Represents (systemMatrix a b)) (i : Fin r) (j : Fin (c + r)) :
    (exchangedBasis a t.basis.first t i (t.basis.labelAt j)).det =
      (labelBasis a t.basis.first t).det * t.values i j.castSucc := by
  rw [exchangedBasis, labelColumn_labelAt a b, labelBasis_eq a b h.consistent,
    ← basisMatrix_update, h.reduced.det_update]

/-- The entry that a pivot tests vanishes exactly if the exchange would leave a singular basis. -/
theorem det_exchangedBasis_eq_zero_iff (h : t.Represents (systemMatrix a b)) (i : Fin r)
    (j : Fin (c + r)) :
    (exchangedBasis a t.basis.first t i (t.basis.labelAt j)).det = 0 ↔
      t.values i j.castSucc = 0 := by
  rw [h.det_exchangedBasis, mul_eq_zero, or_iff_right h.solvesExactly.regular]

theorem pivotContract (h : t.Represents (systemMatrix a b)) (row : Nat) (entering : Label) :
    PivotContract a t.basis.first t row entering := by
  rcases h.pivot_cases row entering with
    ⟨outside, done⟩ | ⟨inside, ⟨undefined, done⟩ | ⟨j, rfl, request⟩⟩
  -- Each case fixes which of the conditions hold, and with them every clause.
  · constructor <;> grind
  · have invalid : t.basis.isValid entering = false := by
      rw [← Bool.not_eq_true, Basis.isValid_iff, not_exists]
      exact undefined
    have held_nowhere (k : Fin r) : t.basis.rowLabel k ≠ entering := by
      rw [h.consistent.rowLabel_eq]
      exact undefined _
    constructor <;> grind [IsNonbasic]
  · -- The label has a column. It is basic in another row, in this one, or nowhere, and then the
    -- determinant decides.
    have valid : t.basis.isValid (t.basis.labelAt j) = true := Basis.isValid_iff.mpr ⟨j, rfl⟩
    have held_iff (k : Fin r) :
        t.basis.rowLabel k = t.basis.labelAt j ↔ t.basis.columns.get k = j :=
      h.consistent.rowLabel_eq_labelAt_iff
    have nonbasic_iff := isNonbasic_labelAt_iff h.consistent (j := j)
    have singular_iff := h.det_exchangedBasis_eq_zero_iff ⟨row, inside⟩ j
    rcases request with
      ⟨k, ne, held, done⟩ | ⟨held, done⟩ | ⟨free, zero, done⟩ | ⟨free, nonzero, done⟩
    · have elsewhere : k.val ≠ row := fun same => ne (Fin.ext same)
      have not_here : t.basis.columns.get ⟨row, inside⟩ ≠ j :=
        fun here => ne (h.distinct (held.trans here.symm))
      constructor <;> grind
    · have only_here (k : Fin r) (basic : t.basis.columns.get k = j) : k.val = row :=
        congrArg Fin.val (h.distinct (basic.trans held.symm))
      constructor <;> grind
    · constructor <;> grind
    · have labels := t.rowLabel_exchangeColumn ⟨row, inside⟩ j
      constructor <;> grind

end Represents

/-- After any run, a pivot is answered by what its row and its label are: it succeeds exactly if the
label is in the row already, or in none and the exchange leaves a regular basis. -/
theorem run_pivotContract (a : Grid ℚ r c) (b : Vector ℚ r) (first : Nat) (some_column : 0 < c) :
    ∃ t, ofSystem a b first = .ok t ∧ ∀ (ops : List Operation) (row : Nat) (entering : Label),
      PivotContract a first (t.run ops) row entering := by
  obtain ⟨t, built, _, runs⟩ := ofSystem_run a b first some_column
  refine ⟨t, built, fun ops row entering => ?_⟩
  obtain ⟨represents, numbering⟩ := runs ops
  rw [← numbering]
  exact represents.pivotContract row entering

/-- Of two columns that are multiples of each other, the second is refused. -/
theorem run_pivotContract_multiples :
    let a : Grid ℚ 2 2 := #v[#v[1, 2], #v[2, 4]]
    let b : Vector ℚ 2 := #v[-1, 1/3]
    0 < 2 ∧ ∃ t, ofSystem a b 1 = .ok t ∧
      let s := t.run [.pivot 0 (.structural 1)]
      (s.pivot 1 (.structural 2)).result = .error (.singularPivot 1 (.structural 2)) ∧
      (s.pivot 1 (.structural 2)).state = s ∧
      (exchangedBasis a 1 s 1 (.structural 2)).det = 0 := by
  intro a b
  obtain ⟨t, built, contract⟩ := run_pivotContract a b 1 (by decide)
  have answer : (match ofSystem a b 1 with
      | .ok t => ((t.run [.pivot 0 (.structural 1)]).pivot 1 (.structural 2)).result ==
          .error (.singularPivot 1 (.structural 2))
      | .error _ => false) = true := by decide +kernel
  rw [built] at answer
  have singular := beq_iff_eq.mp answer
  have refusal := contract [.pivot 0 (.structural 1)] 1 (.structural 2)
  obtain ⟨_, _, _, _, vanishes⟩ := (refusal.singularPivot_iff _ _).mp singular
  exact ⟨by decide, t, built, singular, refusal.refused _ singular, vanishes⟩

end LexPivot.Tableau
