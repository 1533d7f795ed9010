import Mathlib
import LexPivot.Proofs.Representation

/-!
# Runs of an exact tableau

Whatever operations are asked of an exact tableau, in whatever order and whether or not they
succeed, its columns are the columns of `[A | -I]` and its basic solution is the right-hand side,
solved for the basis that the row labels select. The integers behind them, their denominator and
the scale of the data leave no trace.
-/
namespace LexPivot

open Matrix

variable {r c : Nat}

/-- The column of a label in `[A | -I]`, where the columns of `A` are labelled from `first` on.
Other labels have the column zero. -/
def labelColumn (a : Grid ℚ r c) (first : Nat) : Label → Fin r → ℚ
  | .structural k, i => if h : first ≤ k ∧ k - first < c then a.entry i ⟨k - first, h.2⟩ else 0
  | .slack k, i => if i.val + 1 = k then -1 else 0

namespace Tableau

/-- What can be asked of a tableau. -/
inductive Operation where
  | pivot (row : Nat) (entering : Label)
  | refactor
  | mark (l : Label)
  | unmark (l : Label)
  | setLexReference
deriving DecidableEq, Repr

def perform (t : Tableau ℚ r c) : Operation → Tableau ℚ r c
  | .pivot row entering => (t.pivot row entering).state
  | .refactor =>
    match t.refactor with
    | .ok rebuilt => rebuilt
    | .error _ => t
  | .mark l => t.mark l
  | .unmark l => t.unmark l
  | .setLexReference => t.setLexReference

def run (t : Tableau ℚ r c) (ops : List Operation) : Tableau ℚ r c := ops.foldl perform t

/-- The columns of `[A | -I]` that the row labels select. -/
def labelBasis (a : Grid ℚ r c) (first : Nat) (t : Tableau ℚ r c) : Matrix (Fin r) (Fin r) ℚ :=
  Matrix.of fun i k => labelColumn a first (t.basis.rowLabel k) i

/-- The labels of a tableau are those of `[A | -I]`, the row labels select a regular basis, and
the tableau solves every column and the right-hand side for it. -/
structure SolvesExactly (a : Grid ℚ r c) (b : Vector ℚ r) (first : Nat) (t : Tableau ℚ r c) :
    Prop where
  valid_iff : ∀ l, t.basis.isValid l = true ↔
    (∃ k < c, l = .structural (first + k)) ∨ ∃ k < r, l = .slack (k + 1)
  regular : (labelBasis a first t).det ≠ 0
  positive : (0 : ℤ) < t.work.denominator
  solveColumn : ∀ l, t.basis.isValid l = true → ∃ x, t.solveColumn l = .ok x ∧
    x.get = (labelBasis a first t)⁻¹ *ᵥ labelColumn a first l
  basicVector : t.basicVector.get = (labelBasis a first t)⁻¹ *ᵥ b.get

/-- A pivot leaves a tableau as it is or exchanges one column. -/
theorem pivot_state_cases (t : Tableau ℚ r c) (row : Nat) (entering : Label) :
    (t.pivot row entering).state = t ∨
      ∃ i j, (t.pivot row entering).state = t.exchangeColumn i j := by
  by_cases inside : row < r
  · cases found : t.basis.column? entering with
    | none => exact Or.inl (by simp [pivot, inside, found])
    | some j =>
      obtain rfl := Basis.labelAt_of_column? found
      by_cases held : t.basis.rowLabel ⟨row, inside⟩ = t.basis.labelAt j
      · exact Or.inl (by simp [pivot, inside, found, held])
      · cases member : t.basis.isMember (t.basis.labelAt j) with
        | true => exact Or.inl (by simp [pivot, inside, found, held, member])
        | false =>
          by_cases zero :
              Scalar.isZeroEntry (α := ℚ) (t.work.entries.entry ⟨row, inside⟩ j.castSucc)
          · exact Or.inl (by simp [pivot, inside, found, held, member, zero])
          · refine Or.inr ⟨⟨row, inside⟩, j, ?_⟩
            exact congrArg Attempt.state
              (pivot_eq_exchangeColumn (i := ⟨row, inside⟩) held member zero)
  · exact Or.inl (by simp [pivot, inside])

theorem perform_refactor_cases (t : Tableau ℚ r c) :
    t.perform .refactor = t ∨
      ∃ work, t.perform .refactor = { t with work := work, sinceRefactor := 0 } := by
  simp only [perform, refactor]
  -- An elimination that fails is dropped, and the tableau stays.
  cases eliminateRows t.basis (List.finRange r) (.start t.system (Scalar.unit (α := ℚ))) with
  | error e => exact Or.inl rfl
  | ok e => exact Or.inr ⟨e.inOrder, rfl⟩

/-- Operations keep the system and the numbering of its columns, and all but one keep the
reference. -/
theorem perform_keeps (t : Tableau ℚ r c) (op : Operation) :
    (t.perform op).system = t.system ∧ (t.perform op).basis.first = t.basis.first ∧
      (op ≠ .setLexReference → (t.perform op).reference = t.reference) := by
  cases op with
  | pivot row entering =>
    simp only [perform]
    rcases t.pivot_state_cases row entering with same | ⟨i, j, moved⟩
    · rw [same]
      exact ⟨rfl, rfl, fun _ => rfl⟩
    · rw [moved]
      exact ⟨rfl, t.first_exchangeColumn i j, fun _ => rfl⟩
  | refactor =>
    rcases t.perform_refactor_cases with same | ⟨work, rebuilt⟩
    · rw [same]
      exact ⟨rfl, rfl, fun _ => rfl⟩
    · rw [rebuilt]
      exact ⟨rfl, rfl, fun _ => rfl⟩
  | mark l => exact ⟨rfl, Basis.first_setBlocked _ _ _, fun _ => rfl⟩
  | unmark l => exact ⟨rfl, Basis.first_setBlocked _ _ _, fun _ => rfl⟩
  | setLexReference => exact ⟨rfl, rfl, fun other => absurd rfl other⟩

theorem system_run (t : Tableau ℚ r c) (ops : List Operation) : (t.run ops).system = t.system := by
  induction ops generalizing t with
  | nil => rfl
  | cons op ops ih => exact (ih (t.perform op)).trans (t.perform_keeps op).1

theorem Represents.perform {t : Tableau ℚ r c} {system : Matrix (Fin r) (Fin (c + r + 1)) ℚ}
    (h : t.Represents system) (op : Operation) :
    (t.perform op).Represents system ∧ (t.perform op).basis.first = t.basis.first := by
  refine ⟨?_, (t.perform_keeps op).2.1⟩
  cases op with
  | pivot row entering => exact h.pivot_state row entering
  | refactor =>
    obtain ⟨rebuilt, done, represents, _⟩ := h.refactor
    simp only [Tableau.perform, done]
    exact represents
  | mark l => exact h.mark l
  | unmark l => exact h.unmark l
  | setLexReference => exact h.setLexReference

theorem Represents.run {t : Tableau ℚ r c} {system : Matrix (Fin r) (Fin (c + r + 1)) ℚ}
    (h : t.Represents system) (ops : List Operation) :
    (t.run ops).Represents system ∧ (t.run ops).basis.first = t.basis.first := by
  induction ops generalizing t with
  | nil => exact ⟨h, rfl⟩
  | cons op ops ih =>
    obtain ⟨represents, first⟩ := h.perform op
    obtain ⟨later, firstLater⟩ := ih represents
    exact ⟨later, firstLater.trans first⟩

/-- A tableau can be built, and every run from it represents the system under the same labels. -/
theorem ofSystem_run (a : Grid ℚ r c) (b : Vector ℚ r) (first : Nat) (some_column : 0 < c) :
    ∃ t, ofSystem a b first = .ok t ∧ t.reference = t.basis.rows ∧
      ∀ ops : List Operation, (t.run ops).Represents (systemMatrix a b) ∧
        (t.run ops).basis.first = first := by
  obtain ⟨t, built, represents, basis, reference⟩ := ofSystem_represents a b first some_column
  refine ⟨t, built, reference, fun ops => ?_⟩
  obtain ⟨later, same⟩ := represents.run ops
  exact ⟨later, same.trans (congrArg Basis.first basis)⟩

theorem labelColumn_labelAt (a : Grid ℚ r c) (b : Vector ℚ r) (basis : Basis r c)
    (j : Fin (c + r)) :
    labelColumn a basis.first (basis.labelAt j) = (systemMatrix a b).col j.castSucc := by
  ext i
  refine Fin.addCases (fun k => ?_) (fun k => ?_) j
  · rw [Matrix.col_apply, systemMatrix_structural, Basis.labelAt_castAdd]
    simp [labelColumn]
  · rw [Matrix.col_apply, systemMatrix_slack, Basis.labelAt_natAdd]
    simp [labelColumn, Fin.ext_iff, eq_comm]

theorem labelBasis_eq (a : Grid ℚ r c) (b : Vector ℚ r) {t : Tableau ℚ r c}
    (consistent : t.basis.Consistent) :
    labelBasis a t.basis.first t = basisMatrix (systemMatrix a b) t.basis.columns.get := by
  ext i k
  rw [labelBasis, Matrix.of_apply, consistent.rowLabel_eq]
  exact congrFun (labelColumn_labelAt a b t.basis (t.basis.columns.get k)) i

theorem Represents.solvesExactly {a : Grid ℚ r c} {b : Vector ℚ r} {t : Tableau ℚ r c}
    (h : t.Represents (systemMatrix a b)) : SolvesExactly a b t.basis.first t := by
  have basis := labelBasis_eq a b h.consistent
  -- Every column of the working matrix is solved for the basis, the right-hand side included.
  have solved (j : Fin (c + r + 1)) : t.values.col j =
      (basisMatrix (systemMatrix a b) t.basis.columns.get)⁻¹ *ᵥ (systemMatrix a b).col j := by
    rw [h.reduced.eq_inv_mul]
    rfl
  refine ⟨fun l => ?_, ?_, h.expresses.positive, fun l valid => ?_, ?_⟩
  · rw [Basis.isValid_iff]
    constructor
    · rintro ⟨j, rfl⟩
      refine Fin.addCases (fun k => ?_) (fun i => ?_) j
      · exact Or.inl ⟨k, k.isLt, Basis.labelAt_castAdd _ _⟩
      · exact Or.inr ⟨i, i.isLt, Basis.labelAt_natAdd _ _⟩
    · rintro (⟨k, below, rfl⟩ | ⟨k, below, rfl⟩)
      · exact ⟨Fin.castAdd r ⟨k, below⟩, Basis.labelAt_castAdd _ _⟩
      · exact ⟨Fin.natAdd c ⟨k, below⟩, Basis.labelAt_natAdd _ _⟩
  · rw [basis]
    exact h.reduced.regular
  · obtain ⟨j, rfl⟩ := Basis.isValid_iff.mp valid
    refine ⟨t.reducedColumn j, ?_, ?_⟩
    · rw [Tableau.solveColumn, Basis.column?_labelAt]
    · rw [basis, labelColumn_labelAt a b]
      exact solved j.castSucc
  · have bound : b.get = (systemMatrix a b).col (Fin.last (c + r)) := by
      ext i
      exact (systemMatrix_last a b i).symm
    rw [basis, bound]
    exact solved (Fin.last (c + r))

end Tableau

end LexPivot
