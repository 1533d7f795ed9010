import Mathlib
import LexPivot.Proofs.BasisLookup
import LexPivot.Proofs.FractionFree
import LexPivot.Proofs.ReducedSystem
import LexPivot.Tableau.Refactor

/-!
# Rebuilding finds every basis

The elimination of the basic columns keeps a working matrix that expresses the system in a basis
made of the columns eliminated so far, each on the row it was eliminated on, and of unit columns on
the rows still unused. For a regular basis the search for a pivot row cannot fail: a column that
vanishes on every unused row is a combination of the columns eliminated before it.

`Tableau.refactor_eq_ok`: rebuilding at a regular basis succeeds, and its result expresses the
system in that basis.
-/
namespace LexPivot

open Matrix

variable {r w n : Nat}

namespace Elimination

theorem larger_mem (work : Working Int r w) (j : Fin w) (i k : Fin r) :
    larger ℚ work j i k = i ∨ larger ℚ work j i k = k := by
  unfold larger
  split
  · exact Or.inl rfl
  · exact Or.inr rfl

theorem foldl_larger_mem {work : Working Int r w} {j : Fin w} (rows : List (Fin r)) (i : Fin r) :
    rows.foldl (larger ℚ work j) i ∈ i :: rows := by
  induction rows generalizing i with
  | nil => simp
  | cons k rows ih =>
    rw [List.foldl_cons]
    rcases List.mem_cons.mp (ih (larger ℚ work j i k)) with same | later
    · rw [same]
      rcases larger_mem work j i k with left | right
      · simp [left]
      · simp [right]
    · simp [later]

private theorem mem_candidates {e : Elimination Int r w} {j : Fin w} {q : Fin r} :
    q ∈ ((List.finRange r).filter fun i =>
      !e.used.contains i && !Scalar.isZeroEntry (α := ℚ) (e.work.entries.entry i j)) ↔
    q ∉ e.used ∧ e.work.entries.entry q j ≠ 0 := by
  simp only [List.mem_filter, List.mem_finRange, true_and, Bool.and_eq_true, Bool.not_eq_true',
    List.contains_eq_mem, decide_eq_false_iff_not]
  exact and_congr_right fun _ => (beq_eq_false_iff_ne (α := ℤ))

theorem pivotRow?_eq_some {e : Elimination Int r w} {j : Fin w} {q : Fin r}
    (found : e.pivotRow? ℚ j = some q) : q ∉ e.used ∧ e.work.entries.entry q j ≠ 0 := by
  apply mem_candidates.mp
  unfold pivotRow? at found
  dsimp only at found
  split at found
  · cases found
  next i rest candidates =>
    rw [candidates]
    cases found
    exact foldl_larger_mem rest i

theorem pivotRow?_eq_none {e : Elimination Int r w} {j : Fin w}
    (absent : e.pivotRow? ℚ j = none) (q : Fin r) (unused : q ∉ e.used) :
    e.work.entries.entry q j = 0 := by
  unfold pivotRow? at absent
  dsimp only at absent
  split at absent
  next candidates =>
    by_contra nonzero
    have member := mem_candidates.mpr ⟨unused, nonzero⟩
    rw [candidates] at member
    simp at member
  · cases absent

/-- The row that the basic column of row `p` was eliminated on. -/
def rowOf (e : Elimination Int r w) (p : Fin r) : Fin r := (e.used[p.val]?).getD p

/-- The basic columns of the first rows are eliminated, in a basis of these columns and of unit
columns. -/
structure Progress (system : Matrix (Fin r) (Fin (n + 1)) ℤ) (columns : Fin r → Fin n)
    (e : Elimination Int r (n + 1)) (B : Matrix (Fin r) (Fin r) ℤ) : Prop where
  expresses : e.work.Expresses B system
  nodup : e.used.Nodup
  done : ∀ p : Fin r, p.val < e.used.length →
    B.col (e.rowOf p) = system.col (columns p).castSucc

namespace Progress

variable {system : Matrix (Fin r) (Fin (n + 1)) ℤ} {columns : Fin r → Fin n}
  {e : Elimination Int r (n + 1)} {B : Matrix (Fin r) (Fin r) ℤ}

theorem start (system : Grid Int r (n + 1)) (columns : Fin r → Fin n) :
    Progress system.toMatrix columns (.start system 1) 1 where
  expresses := Working.expresses_one system
  nodup := List.nodup_nil
  done p later := by simp [Elimination.start] at later

theorem rowOf_mem (p : Fin r) (below : p.val < e.used.length) : e.rowOf p ∈ e.used := by
  simp [rowOf, below]

theorem rowOf_injOn (h : Progress system columns e B) :
    Set.InjOn e.rowOf {p : Fin r | p.val < e.used.length} := by
  intro p hp q hq same
  have hp' : p.val < e.used.length := hp
  have hq' : q.val < e.used.length := hq
  simp only [rowOf, hp', hq', List.getElem?_eq_getElem, Option.getD_some] at same
  exact Fin.ext ((h.nodup.getElem_inj_iff).mp same)

theorem exists_rowOf {q : Fin r} (used : q ∈ e.used) (short : e.used.length ≤ r) :
    ∃ p : Fin r, p.val < e.used.length ∧ e.rowOf p = q := by
  obtain ⟨k, bound, rfl⟩ := List.getElem_of_mem used
  exact ⟨⟨k, by omega⟩, bound, by simp [rowOf, bound]⟩

theorem eliminate (h : Progress system columns e B) {q i : Fin r} (next : e.used.length = i.val)
    (unused : q ∉ e.used) (nonzero : e.work.entries.entry q (columns i).castSucc ≠ 0) :
    Progress system columns (Elimination.eliminate ℚ e q (columns i).castSucc)
      (B.updateCol q (system.col (columns i).castSucc)) where
  expresses := h.expresses.pivot q (columns i).castSucc nonzero
  nodup := by
    simp only [Elimination.eliminate]
    exact List.nodup_append.mpr ⟨h.nodup, List.nodup_singleton q, fun a member b last =>
      fun same => unused (List.mem_singleton.mp last ▸ same ▸ member)⟩
  done p below := by
    simp only [Elimination.eliminate, List.length_append, List.length_singleton] at below
    -- An earlier column keeps its row, and the new one is in the row just used.
    by_cases old : p.val < e.used.length
    · have row : (Elimination.eliminate ℚ e q (columns i).castSucc).rowOf p = e.rowOf p := by
        simp [Elimination.eliminate, rowOf, List.getElem?_append_left old]
      have other : e.rowOf p ≠ q := fun same => unused (same ▸ rowOf_mem p old)
      rw [row, ← h.done p old]
      ext k
      simp [other]
    · have last : p = i := Fin.ext (by omega)
      subst last
      have row : (Elimination.eliminate ℚ e q (columns p).castSucc).rowOf p = q := by
        simp [Elimination.eliminate, rowOf, ← next]
      rw [row]
      ext k
      simp

/-- A column that vanishes on the unused rows is a combination of the columns eliminated before. -/
theorem sum_eliminated (h : Progress system columns e B) {i : Fin r} (short : e.used.length ≤ r)
    (vanishing : ∀ q, q ∉ e.used → e.work.entries.entry q (columns i).castSucc = 0) (k : Fin r) :
    ∑ p : Fin r with p.val < e.used.length,
      system k (columns p).castSucc * e.work.entries.entry (e.rowOf p) (columns i).castSucc =
      e.work.denominator * system k (columns i).castSucc := by
  let a (q : Fin r) : ℤ := e.work.entries.entry q (columns i).castSucc
  let before : Finset (Fin r) := Finset.univ.filter fun p => p.val < e.used.length
  have injective : Set.InjOn e.rowOf (before : Set (Fin r)) := by
    simpa [before] using h.rowOf_injOn
  have outside (q : Fin r) (absent : q ∉ before.image e.rowOf) : a q = 0 := by
    apply vanishing q
    intro used
    obtain ⟨p, below, rfl⟩ := exists_rowOf used short
    exact absent (Finset.mem_image_of_mem _ (by simpa [before] using below))
  calc ∑ p ∈ before, system k (columns p).castSucc * a (e.rowOf p)
      = ∑ p ∈ before, B k (e.rowOf p) * a (e.rowOf p) := by
        refine Finset.sum_congr rfl fun p member => ?_
        have column := congrFun (h.done p (by simpa [before] using member)) k
        simp only [Matrix.col_apply] at column
        rw [column]
    _ = ∑ q ∈ before.image e.rowOf, B k q * a q := by
        rw [Finset.sum_image injective]
    _ = ∑ q, B k q * a q := by
        refine Finset.sum_subset (Finset.subset_univ _) fun q _ absent => ?_
        rw [outside q absent, mul_zero]
    _ = e.work.denominator * system k (columns i).castSucc :=
        h.expresses.sum_mul_entry k (columns i).castSucc

/-- In a regular basis every column can be eliminated on some unused row. -/
theorem exists_nonzero (h : Progress system columns e B) {i : Fin r}
    (next : e.used.length = i.val) (regular : (basisMatrix system columns).det ≠ 0) :
    ∃ q, q ∉ e.used ∧ e.work.entries.entry q (columns i).castSucc ≠ 0 := by
  by_contra vanishing
  push Not at vanishing
  apply regular
  apply Matrix.exists_mulVec_eq_zero_iff.mp
  -- The coefficients of the dependency: the entries for the earlier columns, and minus the
  -- denominator for the column itself.
  refine ⟨fun p => if p.val < e.used.length then
    e.work.entries.entry (e.rowOf p) (columns i).castSucc
    else if p = i then -e.work.denominator else 0, ?_, ?_⟩
  · intro zero
    have own := congrFun zero i
    simp only [next, lt_irrefl, if_false, if_true, Pi.zero_apply, neg_eq_zero] at own
    exact h.expresses.positive.ne' own
  · ext k
    have combination := h.sum_eliminated (by omega) vanishing k
    have term (p : Fin r) : basisMatrix system columns k p *
        (if p.val < e.used.length then e.work.entries.entry (e.rowOf p) (columns i).castSucc
          else if p = i then -e.work.denominator else 0) =
        (if p.val < e.used.length then system k (columns p).castSucc *
          e.work.entries.entry (e.rowOf p) (columns i).castSucc else 0) -
          if p = i then system k (columns i).castSucc * e.work.denominator else 0 := by
      by_cases early : p.val < e.used.length
      · have ne : p ≠ i := by
          rintro rfl
          omega
        simp [early, ne]
      · by_cases same : p = i
        · subst p
          simp [early]
        · simp [early, same]
    rw [Matrix.mulVec, dotProduct, Finset.sum_congr rfl fun p _ => term p,
      Finset.sum_sub_distrib, ← Finset.sum_filter, combination,
      Finset.sum_ite_eq' Finset.univ i, if_pos (Finset.mem_univ i), Pi.zero_apply]
    ring

/-- With every column eliminated, the rows in the order of the basis express the system in it. -/
theorem inOrder (h : Progress system columns e B) (all : e.used.length = r) :
    e.inOrder.Expresses (basisMatrix system columns) system := by
  have injective : Function.Injective e.rowOf := by
    intro p q same
    exact h.rowOf_injOn (by simp [all]) (by simp [all]) same
  -- The rows that were used, in order, are all the rows.
  let σ : Equiv.Perm (Fin r) :=
    Equiv.ofBijective e.rowOf (Finite.injective_iff_bijective.mp injective)
  have basis : basisMatrix system columns = B.submatrix id σ := by
    ext k p
    exact (congrFun (h.done p (by simp [all])) k).symm
  have rows : e.inOrder.entries.toMatrix = e.work.entries.toMatrix.submatrix σ id := by
    ext k l
    simp [Elimination.inOrder, Grid.entry, σ, rowOf]
  refine ⟨h.expresses.positive, ?_, ?_⟩
  · rw [basis, Matrix.det_permute', abs_mul]
    have unit : |((Equiv.Perm.sign σ : ℤˣ) : ℤ)| = 1 := by
      rcases Int.units_eq_one_or (Equiv.Perm.sign σ) with one | minus
      · simp [one]
      · simp [minus]
    rw [Int.cast_id, unit, one_mul]
    exact h.expresses.magnitude
  · rw [basis, rows, Matrix.submatrix_mul_equiv, h.expresses.product]
    rfl

end Progress

end Elimination

namespace Tableau

open Elimination (Progress)

variable {c : Nat}

private theorem eliminateRows_eq_ok {system : Matrix (Fin r) (Fin (c + r + 1)) ℤ}
    {basis : Basis r c} (consistent : basis.Consistent)
    (regular : (basisMatrix system basis.columns.get).det ≠ 0)
    (rows : List (Fin r)) (e : Elimination Int r (c + r + 1)) (B : Matrix (Fin r) (Fin r) ℤ)
    (h : Progress system basis.columns.get e B) (short : e.used.length ≤ r)
    (remaining : rows = (List.finRange r).drop e.used.length) :
    ∃ e' B', eliminateRows (α := ℚ) basis rows e = .ok e' ∧
      Progress system basis.columns.get e' B' ∧ e'.used.length = r := by
  induction rows generalizing e B with
  | nil =>
    refine ⟨e, B, rfl, h, ?_⟩
    have empty : (List.finRange r).length ≤ e.used.length := List.drop_eq_nil_iff.mp remaining.symm
    rw [List.length_finRange] at empty
    omega
  | cons i rest ih =>
    have below : e.used.length < (List.finRange r).length := by
      by_contra beyond
      rw [List.drop_eq_nil_of_le (not_lt.mp beyond)] at remaining
      cases remaining
    rw [List.drop_eq_getElem_cons below] at remaining
    obtain ⟨head, tail⟩ := List.cons.inj remaining
    have next : e.used.length = i.val := by simp [head]
    obtain ⟨q, unused, nonzero⟩ := h.exists_nonzero next regular
    -- There is a row to eliminate on, so the search finds one.
    cases found : e.pivotRow? ℚ (basis.columns.get i).castSucc with
    | none => exact absurd (Elimination.pivotRow?_eq_none found q unused) nonzero
    | some k =>
      obtain ⟨unused, nonzero⟩ := Elimination.pivotRow?_eq_some found
      have length : (Elimination.eliminate ℚ e k (basis.columns.get i).castSucc).used.length =
          e.used.length + 1 := by
        simp [Elimination.eliminate]
      obtain ⟨e', B', run, progress, all⟩ := ih _ _ (h.eliminate next unused nonzero)
        (by rw [length]; omega) (by rw [length]; exact tail)
      refine ⟨e', B', ?_, progress, all⟩
      simp only [eliminateRows, consistent.column?_rowLabel]
      rw [found]
      exact run

/-- Rebuilding at a regular basis succeeds. -/
theorem refactor_eq_ok (t : Tableau ℚ r c) (consistent : t.basis.Consistent)
    (regular : (basisMatrix (Grid.toMatrix (α := ℤ) t.system) t.basis.columns.get).det ≠ 0) :
    ∃ work : Working Int r (c + r + 1),
      t.refactor = .ok { t with work := work, sinceRefactor := 0 } ∧
      work.Expresses (basisMatrix (Grid.toMatrix (α := ℤ) t.system) t.basis.columns.get)
        (Grid.toMatrix (α := ℤ) t.system) := by
  obtain ⟨e, B, run, progress, all⟩ := eliminateRows_eq_ok consistent regular (List.finRange r)
    (.start t.system 1) 1 (Progress.start t.system t.basis.columns.get) (Nat.zero_le r) rfl
  refine ⟨e.inOrder, ?_, progress.inOrder all⟩
  have started : eliminateRows t.basis (List.finRange r)
      (.start t.system (Scalar.unit (α := ℚ))) = .ok e := run
  rw [refactor, started]

end Tableau

end LexPivot
