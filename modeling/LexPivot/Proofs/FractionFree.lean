import Mathlib
import LexPivot.Scalar.Exact

/-!
# Fraction-free pivoting is exact

A working matrix of integers expresses a system in a basis `B` when it is `B⁻¹` times the system,
over the denominator `|det B|`. By Cramer's rule its entries are then minors of the system up to
sign, which is why the divisions of a pivot leave no remainder.

`Working.Expresses.pivot`: a pivot at a nonzero entry replaces one column of the basis by a column
of the system.
-/
namespace LexPivot

open Matrix

variable {r w : Nat}

def Grid.toMatrix {α : Type} {r c : Nat} (g : Grid α r c) : Matrix (Fin r) (Fin c) α :=
  Matrix.of g.entry

@[simp] theorem Grid.toMatrix_apply {α : Type} {r c : Nat} (g : Grid α r c) (i : Fin r)
    (j : Fin c) : g.toMatrix i j = g.entry i j := rfl

/-- `work` stands for `B⁻¹ * system`, over the magnitude of the determinant of `B`. -/
structure Working.Expresses (work : Working Int r w) (B : Matrix (Fin r) (Fin r) ℤ)
    (system : Matrix (Fin r) (Fin w) ℤ) : Prop where
  positive : 0 < work.denominator
  magnitude : work.denominator = |B.det|
  product : B * work.entries.toMatrix = work.denominator • system

theorem Working.expresses_one (system : Grid Int r w) :
    (Working.mk system 1).Expresses 1 system.toMatrix where
  positive := Int.one_pos
  magnitude := by simp
  product := by simp

theorem eq_of_mul_eq_mul_left {B : Matrix (Fin r) (Fin r) ℤ} {X Y : Matrix (Fin r) (Fin w) ℤ}
    (regular : B.det ≠ 0) (equal : B * X = B * Y) : X = Y := by
  have scaled : B.det • X = B.det • Y := by
    rw [← Matrix.one_mul X, ← Matrix.one_mul Y, ← Matrix.smul_mul, ← Matrix.smul_mul,
      ← Matrix.adjugate_mul, Matrix.mul_assoc, Matrix.mul_assoc, equal]
  ext i j
  have entry := congrFun (congrFun scaled i) j
  simpa [regular] using entry

namespace Working.Expresses

variable {work : Working Int r w} {B : Matrix (Fin r) (Fin r) ℤ} {system : Matrix (Fin r) (Fin w) ℤ}

theorem det_ne_zero (h : work.Expresses B system) : B.det ≠ 0 := by
  have positive := h.positive
  rw [h.magnitude] at positive
  exact abs_pos.mp positive

theorem exists_sign (h : work.Expresses B system) :
    ∃ σ : ℤ, |σ| = 1 ∧ work.denominator = σ * B.det := by
  rcases abs_choice B.det with same | opposite
  · exact ⟨1, by simp, by rw [h.magnitude, same, one_mul]⟩
  · exact ⟨-1, by simp, by rw [h.magnitude, opposite]; ring⟩

/-- Cramer's rule: an entry is the determinant of the basis in which its column replaces the
column of its row. -/
theorem entry_eq (h : work.Expresses B system) {σ : ℤ} (sign : work.denominator = σ * B.det)
    (i : Fin r) (j : Fin w) :
    work.entries.entry i j = σ * (B.updateCol i (system.col j)).det := by
  have image : B *ᵥ work.entries.toMatrix.col j = work.denominator • system.col j := by
    ext k
    exact congrFun (congrFun h.product k) j
  -- Cramer's rule for the column, before the sign of the determinant is cancelled.
  have cramer : work.denominator * (B.updateCol i (system.col j)).det =
      B.det * work.entries.entry i j := by
    calc work.denominator * (B.updateCol i (system.col j)).det
        = (B.cramer (work.denominator • system.col j)) i := by
          rw [map_smul, Pi.smul_apply, Matrix.cramer_apply, smul_eq_mul]
      _ = ((B.adjugate * B) *ᵥ work.entries.toMatrix.col j) i := by
          rw [← image, Matrix.cramer_eq_adjugate_mulVec, Matrix.mulVec_mulVec]
      _ = B.det * work.entries.entry i j := by
          rw [Matrix.adjugate_mul, Matrix.smul_mulVec, Matrix.one_mulVec]
          rfl
  apply mul_left_cancel₀ h.positive.ne'
  calc work.denominator * work.entries.entry i j
      = σ * (B.det * work.entries.entry i j) := by rw [sign]; ring
    _ = work.denominator * (σ * (B.updateCol i (system.col j)).det) := by rw [← cramer]; ring

theorem sum_mul_entry (h : work.Expresses B system) (k : Fin r) (l : Fin w) :
    ∑ q, B k q * work.entries.entry q l = work.denominator * system k l :=
  congrFun (congrFun h.product k) l

/-- What a pivot divides by the denominator, solved for in the new basis. -/
private theorem updateCol_mul_numerators (h : work.Expresses B system) (i : Fin r) (j : Fin w) :
    B.updateCol i (system.col j) *
      Matrix.of (fun k l =>
        if k = i then work.denominator * work.entries.entry i l
        else work.entries.entry k l * work.entries.entry i j -
          work.entries.entry k j * work.entries.entry i l) =
    (work.denominator * work.entries.entry i j) • system := by
  ext p l
  let a := work.entries.entry
  let d := work.denominator
  -- Row `i` of the cross products vanishes, so column `i` of the basis may be put back there.
  have term (q : Fin r) :
      B.updateCol i (system.col j) p q *
        (if q = i then d * a i l else a q l * a i j - a q j * a i l) =
      B p q * a q l * a i j - B p q * a q j * a i l +
        if q = i then system p j * (d * a i l) else 0 := by
    by_cases same : q = i
    · subst q
      simp only [Matrix.updateCol_self, Matrix.col_apply, if_true]
      ring
    · simp only [Matrix.updateCol_ne same, if_neg same]
      ring
  have first := h.sum_mul_entry p l
  have second := h.sum_mul_entry p j
  calc _ = ∑ q, (B p q * a q l * a i j - B p q * a q j * a i l +
        if q = i then system p j * (d * a i l) else 0) := by
        rw [Matrix.mul_apply]
        exact Finset.sum_congr rfl fun q _ => term q
    _ = (∑ q, B p q * a q l) * a i j - (∑ q, B p q * a q j) * a i l +
        system p j * (d * a i l) := by
        rw [Finset.sum_add_distrib, Finset.sum_sub_distrib, Finset.sum_mul, Finset.sum_mul,
          Finset.sum_ite_eq' Finset.univ i, if_pos (Finset.mem_univ i)]
    _ = d * a i j * system p l := by
        simp only [a, d] at first second ⊢
        rw [first, second]
        ring

/-- A pivot before the sign is settled: no division leaves a remainder, and the entries solve for
the system in the new basis. -/
theorem crossPivot_exact (h : work.Expresses B system) (i : Fin r) (j : Fin w)
    (nonzero : work.entries.entry i j ≠ 0) :
    (∀ k l, k ≠ i → work.denominator ∣ work.entries.entry k l * work.entries.entry i j -
      work.entries.entry k j * work.entries.entry i l) ∧
    B.updateCol i (system.col j) * (Exact.crossPivot work i j).entries.toMatrix =
      work.entries.entry i j • system := by
  obtain ⟨σ, _, sign⟩ := h.exists_sign
  have pivot := h.entry_eq sign i j
  let B' := B.updateCol i (system.col j)
  have regular : B'.det ≠ 0 := by
    intro singular
    exact nonzero (by rw [pivot, singular, mul_zero])
  -- The new entries are integers because they are cofactors times the system.
  let X := σ • (B'.adjugate * system)
  have solves : B' * X = work.entries.entry i j • system := by
    rw [Matrix.mul_smul, ← Matrix.mul_assoc, Matrix.mul_adjugate, Matrix.smul_mul,
      Matrix.one_mul, smul_smul, pivot]
  have numerators := eq_of_mul_eq_mul_left regular
    ((h.updateCol_mul_numerators i j).trans (by
      rw [mul_smul, ← solves, ← Matrix.mul_smul] :
        _ = B' * (work.denominator • X)))
  have other (k : Fin r) (l : Fin w) (ne : k ≠ i) :
      work.entries.entry k l * work.entries.entry i j -
        work.entries.entry k j * work.entries.entry i l = work.denominator * X k l := by
    have entry := congrFun (congrFun numerators k) l
    simpa [ne] using entry
  have own (l : Fin w) : work.entries.entry i l = X i l := by
    have entry := congrFun (congrFun numerators i) l
    simpa [h.positive.ne'] using entry
  refine ⟨fun k l ne => ⟨X k l, other k l ne⟩, ?_⟩
  rw [← solves]
  congr 1
  ext k l
  by_cases same : k = i
  · subst k
    simpa [Exact.crossPivot] using own l
  · simp [Exact.crossPivot, same, other k l same, h.positive.ne']

private theorem of_normalizeSign {cross : Working Int r w}
    (magnitude : |cross.denominator| = |B.det|) (regular : B.det ≠ 0)
    (product : B * cross.entries.toMatrix = cross.denominator • system) :
    (Exact.normalizeSign cross).Expresses B system := by
  have nonzero : cross.denominator ≠ 0 := by
    rwa [← abs_ne_zero, magnitude, abs_ne_zero]
  -- A negative denominator hands its sign to the entries.
  by_cases negative : cross.denominator < 0
  · have flipped : (Grid.map (fun a => -a) cross.entries).toMatrix = -cross.entries.toMatrix := by
      ext k l
      simp
    rw [Exact.normalizeSign, if_pos negative]
    refine ⟨by simpa using negative, ?_, ?_⟩
    · rw [← magnitude, abs_of_neg negative]
    · rw [flipped, Matrix.mul_neg, product, neg_smul]
  · have positive : 0 < cross.denominator := lt_of_le_of_ne (not_lt.mp negative) nonzero.symm
    rw [Exact.normalizeSign, if_neg negative]
    exact ⟨positive, by rw [← magnitude, abs_of_pos positive], product⟩

/-- A pivot puts a column of the system into the basis. -/
theorem pivot (h : work.Expresses B system) (i : Fin r) (j : Fin w)
    (nonzero : work.entries.entry i j ≠ 0) :
    (Exact.pivot work i j).Expresses (B.updateCol i (system.col j)) system := by
  obtain ⟨σ, unit, sign⟩ := h.exists_sign
  have entry := h.entry_eq sign i j
  -- The pivot entry is the determinant of the new basis, up to sign.
  have magnitude : |work.entries.entry i j| = |(B.updateCol i (system.col j)).det| := by
    rw [entry, abs_mul, unit, one_mul]
  apply of_normalizeSign magnitude
  · rwa [← abs_ne_zero, ← magnitude, abs_ne_zero]
  · exact (h.crossPivot_exact i j nonzero).2

end Working.Expresses

end LexPivot
