import Mathlib
import LexPivot.Scalar.Exact

/-!
# Exact scalars are fractions

What the operations on exact scalars mean for fractions: comparisons are strict and without a
tolerance, sums do not depend on the order of the additions, and a grid of fractions is turned into
integers by one common factor.
-/
namespace LexPivot

variable {r c : Nat}

theorem Grid.entry_mem_entries {α : Type} (g : Grid α r c) (i : Fin r) (j : Fin c) :
    g.entry i j ∈ Grid.entries g :=
  List.mem_flatMap.mpr ⟨Vector.get g i, by simp [Vector.get], by simp [Grid.entry, Vector.get]⟩

namespace Exact

theorem dvd_foldl_lcm (qs : List ℚ) (d : Nat) :
    d ∣ qs.foldl (fun d q => d.lcm q.den) d ∧
      ∀ q ∈ qs, q.den ∣ qs.foldl (fun d q => d.lcm q.den) d := by
  induction qs generalizing d with
  | nil => simp
  | cons p qs ih =>
    rw [List.foldl_cons]
    obtain ⟨start, members⟩ := ih (d.lcm p.den)
    refine ⟨(Nat.dvd_lcm_left d p.den).trans start, fun q member => ?_⟩
    rcases List.mem_cons.mp member with rfl | later
    · exact (Nat.dvd_lcm_right d q.den).trans start
    · exact members q later

theorem foldl_lcm_pos (qs : List ℚ) (d : Nat) (positive : 0 < d) :
    0 < qs.foldl (fun d q => d.lcm q.den) d := by
  induction qs generalizing d with
  | nil => exact positive
  | cons p qs ih => exact ih _ (Nat.lcm_pos positive p.den_pos)

theorem commonDenominator_pos (data : Grid ℚ r c) : 0 < commonDenominator data :=
  foldl_lcm_pos _ 1 Nat.one_pos

theorem den_dvd_commonDenominator (data : Grid ℚ r c) (i : Fin r) (j : Fin c) :
    (data.entry i j).den ∣ commonDenominator data :=
  (dvd_foldl_lcm (Grid.entries data) 1).2 _ (Grid.entry_mem_entries data i j)

/-- The integers of a grid are its entries, scaled by the common denominator. -/
theorem cast_toIntegers (data : Grid ℚ r c) (i : Fin r) (j : Fin c) :
    (((toIntegers data).entry i j : ℤ) : ℚ) = commonDenominator data * data.entry i j := by
  obtain ⟨k, multiple⟩ := den_dvd_commonDenominator data i j
  have den : ((data.entry i j).den : ℚ) ≠ 0 := by exact_mod_cast (data.entry i j).den_nz
  have value : data.entry i j * (data.entry i j).den = (data.entry i j).num :=
    Rat.mul_den_eq_num _
  rw [toIntegers, Grid.entry_map, multiple, Nat.mul_div_cancel_left k (data.entry i j).den_pos]
  push_cast
  rw [← value]
  ring

end Exact

namespace Binary64

/-- A double that is finite is a fraction. -/
theorem isSome_toRat? {x : Float} (finite : x.isFinite = true) :
    (toRat? x).isSome = true := by
  have field : ¬x.toBits.toNat >>> 52 % 2048 = 2047 := by
    intro ones
    have exponent : @Float.Model.UnpackedFloat.unpackExponent .binary64
        x.toModel.toBits.toBitVec = -1#11 := by
      apply BitVec.eq_of_toNat_eq
      simpa [Float.Model.UnpackedFloat.unpackExponent, BitVec.extractLsb_toNat, Float.toBits]
        using ones
    -- An exponent of ones is that of infinity, or no number at all.
    have infinite : x.isFinite = false := by
      simp only [Float.isFinite, Float.Model.isFinite, Float.Model.unpack,
        Float.Model.UnpackedFloat.unpack, exponent]
      split_ifs <;> rfl
    rw [infinite] at finite
    cases finite
  simp [toRat?, field]

end Binary64

namespace Scalar

theorem isNegligible_iff {x : ℚ} : isNegligible x = true ↔ x = 0 := beq_iff_eq

theorem isDivisor_iff {x : ℚ} : isDivisor x = true ↔ x ≠ 0 := bne_iff_ne

theorem isStrictlyPositive_iff {x : ℚ} : isStrictlyPositive x = true ↔ 0 < x := by
  have unfolded : isStrictlyPositive x = (!(x == 0) && decide (0 < x)) := rfl
  rw [unfolded, Bool.and_eq_true, decide_eq_true_eq, Bool.not_eq_true', beq_eq_false_iff_ne,
    and_iff_right_iff_imp]
  exact fun positive => positive.ne'

theorem isStrictlyNegative_iff {x : ℚ} : isStrictlyNegative x = true ↔ x < 0 := by
  have unfolded : isStrictlyNegative x = (!(x == 0) && decide (x < 0)) := rfl
  rw [unfolded, Bool.and_eq_true, decide_eq_true_eq, Bool.not_eq_true', beq_eq_false_iff_ne,
    and_iff_right_iff_imp]
  exact fun negative => negative.ne

theorem isNegative_iff {x : ℚ} : isNegative x = true ↔ x < 0 := decide_eq_true_iff

theorem definitelyLess_iff {x y : ℚ} : definitelyLess x y = true ↔ x < y := decide_eq_true_iff

theorem sum_eq (xs : List ℚ) : sum xs = xs.sum := by
  rw [List.sum_eq_foldl]
  rfl

theorem sum_toList {n : Nat} (v : Vector ℚ n) : sum v.toList = ∑ i, v.get i := by
  rw [sum_eq, ← List.sum_ofFn]
  congr 1
  apply List.ext_getElem
  · simp
  · intro i _ _
    simp [Vector.get]

theorem dot_eq {n : Nat} (u v : Vector ℚ n) : dot u v = ∑ i, u.get i * v.get i := by
  rw [dot, sum_toList]
  refine Finset.sum_congr rfl fun i _ => ?_
  simp [Vector.get]
  rfl

theorem foldl_lesser_spec (xs : List ℚ) (x : ℚ) :
    xs.foldl lesser x ∈ x :: xs ∧ ∀ y ∈ x :: xs, xs.foldl lesser x ≤ y := by
  induction xs generalizing x with
  | nil => simp
  | cons z xs ih =>
    rw [List.foldl_cons]
    obtain ⟨member, least⟩ := ih (lesser x z)
    have choice : lesser x z = min z x := by
      have unfolded : lesser x z = if z < x then z else x := by
        unfold lesser
        simp only [Scalar.less, decide_eq_true_eq]
      rw [unfolded]
      by_cases less : z < x
      · rw [if_pos less, min_eq_left less.le]
      · rw [if_neg less, min_eq_right (not_lt.mp less)]
    rw [choice] at member least ⊢
    constructor
    · rcases List.mem_cons.mp member with first | later
      · rcases min_choice z x with left | right
        · rw [first, left]; simp
        · rw [first, right]; simp
      · simp [later]
    · have bound := least (min z x) (by simp)
      intro y listed
      rcases List.mem_cons.mp listed with rfl | listed
      · exact bound.trans (min_le_right z y)
      · rcases List.mem_cons.mp listed with rfl | listed
        · exact bound.trans (min_le_left y x)
        · exact least y (by simp [listed])

theorem least?_spec {xs : List ℚ} (nonempty : xs ≠ []) :
    ∃ low, least? xs = some low ∧ low ∈ xs ∧ ∀ y ∈ xs, low ≤ y := by
  cases xs with
  | nil => exact absurd rfl nonempty
  | cons x xs => exact ⟨_, rfl, foldl_lesser_spec xs x⟩

end Scalar

end LexPivot
