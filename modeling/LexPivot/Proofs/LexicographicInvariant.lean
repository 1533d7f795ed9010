import Mathlib
import LexPivot.Proofs.ComplementaryPivot
import LexPivot.Proofs.TableauRun

/-!
# The lexicographic invariant

With a right-hand side that is nowhere positive, a tableau starts at the slacks with values that are
not negative. Let `B₀` be that basis. Then whatever labels are let in and whatever paths are
followed, every row of `[x | B⁻¹ B₀]` is positive in the lexicographic order of its entries. A
request that is refused changes nothing, and a path that is given up on the way has made pivots
that keep the rows positive one by one.
-/
namespace LexPivot

open Matrix

/-- Positive along a list of columns is positive in the lexicographic order. -/
theorem lexPositive_ofFn_iff {ι : Type} {f : ι → ℚ} {n : Nat} (js : Fin n → ι) :
    LexPositive f (List.ofFn js) ↔ toLex (0 : Fin n → ℚ) < toLex (f ∘ js) := by
  change _ ↔ ∃ i, (∀ k < i, 0 = f (js k)) ∧ 0 < f (js i)
  induction n with
  | zero => simp [LexPositive]
  | succ n ih =>
    rw [List.ofFn_succ, LexPositive, ih, Fin.exists_fin_succ]
    refine or_congr (by simp) ?_
    -- The first entry is the one below every later one.
    simp only [Fin.forall_fin_succ, Fin.succ_pos, Fin.succ_lt_succ_iff, true_imp_iff, and_assoc,
      exists_and_left, eq_comm (a := (0 : ℚ))]

namespace Tableau

variable {r c : Nat} {a : Grid ℚ r c} {b : Vector ℚ r} {origin t : Tableau ℚ r c}

theorem lexColumns_eq_ofFn (t : Tableau ℚ r c) : t.lexColumns =
    List.ofFn (Fin.cons (Fin.last (c + r)) fun q => (t.referenceColumns.get q).castSucc) := by
  have members : t.referenceColumns.toList = List.ofFn t.referenceColumns.get := by
    apply List.ext_get
    · simp
    · intro q _ _
      simp [Vector.get]
  rw [lexColumns, members, List.ofFn_succ, List.map_ofFn]
  rfl

/-- Row `k` of `[x | B⁻¹ B₀]`, where `B` and `B₀` collect the columns of `[A | -I]` that the row
labels of two tableaus select. -/
noncomputable def lexRow (a : Grid ℚ r c) (first : Nat) (origin t : Tableau ℚ r c) (k : Fin r) :
    Fin (r + 1) → ℚ :=
  Fin.cons (t.basicVector.get k) (((labelBasis a first t)⁻¹ * labelBasis a first origin) k)

theorem labelBasis_slack {first : Nat} (basis : t.basis = Basis.slack first) (a : Grid ℚ r c) :
    labelBasis a first t = -1 := by
  have columns : t.basis.columns.get = Fin.natAdd c := by
    ext k
    rw [basis, Basis.get_columns_slack]
  have labels : t.basis.first = first := by
    rw [basis]
    rfl
  have consistent : t.basis.Consistent := by
    rw [basis]
    exact Basis.consistent_slack first
  rw [← labels, labelBasis_eq a (Vector.replicate r 0) consistent, columns, basisMatrix_slack]

/-- The columns that decide the ratio test read `[x | B⁻¹ B₀]`. -/
theorem Represents.lexRow_eq (h : t.Represents (systemMatrix a b))
    (consistent : origin.basis.Consistent) (first : t.basis.first = origin.basis.first)
    (reference : t.reference = origin.basis.rows) (k : Fin r) :
    lexRow a origin.basis.first origin t k = t.values k ∘
      Fin.cons (Fin.last (c + r)) fun q => (t.referenceColumns.get q).castSucc := by
  ext q
  refine Fin.cases rfl (fun q => ?_) q
  have basis : labelBasis a origin.basis.first t =
      basisMatrix (systemMatrix a b) t.basis.columns.get := by
    rw [← first, labelBasis_eq a b h.consistent]
  rw [lexRow, Fin.cons_succ, basis, labelBasis_eq a b consistent, Function.comp_apply,
    Fin.cons_succ, referenceColumns_eq first reference, h.reduced.eq_inv_mul]
  rfl

theorem FeasibleFrom.lexRow_pos (h : FeasibleFrom (systemMatrix a b) origin t)
    (consistent : origin.basis.Consistent)
    (reference : origin.reference = origin.basis.rows) (k : Fin r) :
    toLex (0 : Fin (r + 1) → ℚ) < toLex (lexRow a origin.basis.first origin t k) := by
  have positive := h.feasible k
  rwa [lexColumns_eq_ofFn, lexPositive_ofFn_iff,
    ← h.represents.lexRow_eq consistent h.first (h.reference.trans reference)] at positive

theorem LexFeasible.isFeasible (feasible : t.LexFeasible) : t.isFeasible = true := by
  rw [Tableau.isFeasible, Vector.all_eq_true]
  intro k bound
  have nonneg : 0 ≤ t.basicVector.get ⟨k, bound⟩ := feasible.nonneg ⟨k, bound⟩
  have negative : ¬Scalar.isStrictlyNegative (t.basicVector.get ⟨k, bound⟩) = true :=
    mt Scalar.isStrictlyNegative_iff.mp (not_lt.mpr nonneg)
  simpa [Vector.get] using negative

/-- Whatever moves are made from the slacks, every row of `[x | B⁻¹ B₀]` is lexicographically
positive, so the tableau is feasible. -/
theorem moves_lexRow_pos (a : Grid ℚ r c) (b : Vector ℚ r) (some_column : 0 < c)
    (nonpos : ∀ i, b.get i ≤ 0) :
    ∃ t, ofSystem a b 0 = .ok t ∧ labelBasis a 0 t = -1 ∧ ∀ ms : List Move,
      (labelBasis a 0 (t.moves ms)).det ≠ 0 ∧
      (∀ k, toLex (0 : Fin (r + 1) → ℚ) < toLex (lexRow a 0 t (t.moves ms) k)) ∧
      (t.moves ms).isFeasible = true := by
  obtain ⟨t, built, feasible, basis, reference⟩ :=
    ofSystem_feasibleFrom a b 0 some_column nonpos
  have first : t.basis.first = 0 := by
    rw [basis]
    rfl
  refine ⟨t, built, labelBasis_slack basis a, fun ms => ?_⟩
  have reached := feasible.moves ms
  refine ⟨?_, fun k => ?_, reached.feasible.isFeasible⟩
  · rw [← first, ← reached.first]
    exact reached.represents.solvesExactly.regular
  · rw [← first]
    exact reached.lexRow_pos feasible.represents.consistent reference k

/-- The path of the first label is given up after one pivot, at a value of zero. -/
theorem moves_lexRow_pos_given_up :
    let a : Grid ℚ 2 3 := #v[#v[0, 1, 1], #v[0, -1, 1]]
    let b : Vector ℚ 2 := #v[-1, 0]
    (∀ i, b.get i ≤ 0) ∧ ∃ t left, ofSystem a b 0 = .ok t ∧
      t.lemkePath (.structural 1) = ⟨.error (.noExitRow (.structural 2)), left⟩ ∧
      left.pivots = 1 ∧ left.isFeasible = true ∧
      ∀ k, toLex (0 : Fin 3 → ℚ) < toLex (lexRow a 0 t left k) := by
  intro a b
  have nonpos : ∀ i, b.get i ≤ 0 := by decide +kernel
  obtain ⟨t, built, _, kept⟩ := moves_lexRow_pos a b (by decide) nonpos
  have ends : (match ofSystem a b 0 with
      | .ok t =>
        match t.lemkePath (.structural 1) with
        | ⟨.error e, left⟩ => e == .noExitRow (.structural 2) && left.pivots == 1
        | ⟨.ok _, _⟩ => false
      | .error _ => false) = true := by decide +kernel
  rw [built] at ends
  obtain ⟨_, positive, feasible⟩ := kept [.lemkePath (.structural 1)]
  rcases path : t.lemkePath (.structural 1) with ⟨e | _, left⟩
  · simp only [path, Bool.and_eq_true, beq_iff_eq] at ends
    obtain ⟨rfl, pivots⟩ := ends
    have state : t.moves [.lemkePath (.structural 1)] = left := congrArg Attempt.state path
    rw [state] at positive feasible
    exact ⟨nonpos, t, left, built, path, pivots, feasible, positive⟩
  · simp only [path, Bool.false_eq_true] at ends

end Tableau

end LexPivot
