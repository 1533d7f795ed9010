import Mathlib
import LexPivot.Proofs.FractionFree

/-!
# Fraction-free pivots are Gauss-Jordan pivots

A fraction-free pivot keeps integers over one denominator where Gauss-Jordan elimination keeps
fractions. Pivot after pivot, on whatever rows and columns, both hold the same fractions. The
divisions of a single pivot need not come out even on integers of any kind: they do after a run of
pivots, since the entries are minors of the matrix that the run started from.
-/
namespace LexPivot

variable {r w : Nat}

/-- The fractions that the entries stand for. -/
def Working.values (work : Working Int r w) : Grid ℚ r w :=
  Grid.map (fun entry => Scalar.value (α := ℚ) entry work.denominator) work.entries

theorem Working.entry_values (work : Working Int r w) (k : Fin r) (l : Fin w) :
    work.values.entry k l = (work.entries.entry k l : ℚ) / work.denominator := by
  rw [values, Grid.entry_map]
  rfl

/-- Gauss-Jordan pivots at one position after the other. -/
def Grid.gaussJordanAll (g : Grid ℚ r w) (positions : List (Fin r × Fin w)) : Grid ℚ r w :=
  positions.foldl (fun g p => g.gaussJordan p.1 p.2) g

theorem Grid.entry_gaussJordan {g : Grid ℚ r w} {i : Fin r} {j : Fin w}
    (nonzero : g.entry i j ≠ 0) (k : Fin r) (l : Fin w) :
    (g.gaussJordan i j).entry k l =
      if k = i then g.entry i l / g.entry i j
      else g.entry k l - g.entry k j * (g.entry i l / g.entry i j) := by
  have row (l : Fin w) : ((Vector.get g i).map (· / g.entry i j)).get l =
      g.entry i l / g.entry i j := get_map _ _ _
  simp only [gaussJordan, entry_ofFn, row]
  by_cases own : k = i
  · subst k
    by_cases here : l = j
    · subst l
      simp [nonzero]
    · simp [here]
  · by_cases here : l = j
    · subst l
      simp [own, nonzero]
    · -- A row that the pivot column misses is left alone.
      by_cases zero : g.entry k j = 0
      · simp [own, here, zero]
      · simp [own, here, zero, sub_eq_add_neg]

namespace Exact

/-- Pivots at one position after the other. -/
def pivotAll (work : Working Int r w) (positions : List (Fin r × Fin w)) : Working Int r w :=
  positions.foldl (fun work p => pivot work p.1 p.2) work

/-- Every pivot finds an entry that is not zero. -/
def PivotsNonzero (work : Working Int r w) : List (Fin r × Fin w) → Prop
  | [] => True
  | (i, j) :: rest => work.entries.entry i j ≠ 0 ∧ PivotsNonzero (pivot work i j) rest

/-- No division of the pivot at `(i, j)` leaves a remainder, neither of a row that meets the pivot
column nor of one that misses it. -/
structure DividesEvenly (work : Working Int r w) (i : Fin r) (j : Fin w) : Prop where
  divisor : work.denominator ≠ 0
  cross : ∀ k l, k ≠ i →
    (work.entries.entry k l * work.entries.entry i j -
      work.entries.entry k j * work.entries.entry i l).tmod work.denominator = 0
  scaled : ∀ k l, k ≠ i → work.entries.entry k j = 0 →
    (work.entries.entry k l * work.entries.entry i j).tmod work.denominator = 0

end Exact

namespace Working.Expresses

variable {work : Working Int r w} {B : Matrix (Fin r) (Fin r) ℤ} {system : Matrix (Fin r) (Fin w) ℤ}
  {i : Fin r} {j : Fin w}

theorem dividesEvenly (h : work.Expresses B system) (nonzero : work.entries.entry i j ≠ 0) :
    Exact.DividesEvenly work i j := by
  have even := (h.crossPivot_exact i j nonzero).1
  refine ⟨h.positive.ne', fun k l other => ?_, fun k l other misses => ?_⟩
  · exact Int.tmod_eq_zero_of_dvd (even k l other)
  · -- The subtracted product is zero, so this is the same dividend.
    have scaled := even k l other
    rw [misses, zero_mul, sub_zero] at scaled
    exact Int.tmod_eq_zero_of_dvd scaled

theorem pivotAt?_eq_some (h : work.Expresses B system) (i : Fin r) (j : Fin w) :
    Scalar.pivotAt? ℚ work i j = some (Exact.pivot work i j) := by
  have divides : Scalar.isDenominator (α := ℚ) work.denominator = true :=
    bne_iff_ne.mpr h.positive.ne'
  simp only [Scalar.pivotAt?, i.isLt, j.isLt, and_self, dite_true, divides, Bool.not_true,
    Bool.and_false, Bool.false_eq_true, if_false, Fin.eta]
  rfl

theorem value_crossPivot (h : work.Expresses B system) (nonzero : work.entries.entry i j ≠ 0)
    (k : Fin r) (l : Fin w) :
    (Exact.crossPivot work i j).values.entry k l =
      if k = i then work.values.entry i l / work.values.entry i j
      else work.values.entry k l -
        work.values.entry k j * (work.values.entry i l / work.values.entry i j) := by
  have denominator : (work.denominator : ℚ) ≠ 0 := Int.cast_ne_zero.mpr h.positive.ne'
  have pivot : (work.entries.entry i j : ℚ) ≠ 0 := Int.cast_ne_zero.mpr nonzero
  simp only [entry_values, Exact.crossPivot, Grid.entry_ofFn]
  split
  next own => field_simp
  next other =>
    -- The integer quotient is the quotient of the fractions, for nothing is cut off.
    obtain ⟨quotient, product⟩ := (h.crossPivot_exact i j nonzero).1 k l other
    have cast := congrArg (Int.cast : ℤ → ℚ) product
    push_cast at cast
    rw [product, Int.mul_tdiv_cancel_left _ h.positive.ne']
    field_simp
    linarith

theorem values_normalizeSign (cross : Working Int r w) :
    (Exact.normalizeSign cross).values = cross.values := by
  unfold Exact.normalizeSign
  split
  · ext k l
    simp [entry_values]
  · rfl

/-- A fraction-free pivot is a Gauss-Jordan pivot on the fractions. -/
theorem values_pivot (h : work.Expresses B system) (nonzero : work.entries.entry i j ≠ 0) :
    (Exact.pivot work i j).values = work.values.gaussJordan i j := by
  have entry : work.values.entry i j ≠ 0 := by
    rw [entry_values]
    exact div_ne_zero (Int.cast_ne_zero.mpr nonzero) (Int.cast_ne_zero.mpr h.positive.ne')
  rw [Exact.pivot, values_normalizeSign]
  ext k l
  rw [h.value_crossPivot nonzero, Grid.entry_gaussJordan entry]

/-- What holds before a run of pivots holds after each of them. -/
theorem pivotAll (h : work.Expresses B system) {positions : List (Fin r × Fin w)}
    (nonzero : Exact.PivotsNonzero work positions) :
    (∃ B', (Exact.pivotAll work positions).Expresses B' system) ∧
      (Exact.pivotAll work positions).values = work.values.gaussJordanAll positions := by
  -- The system stays the one of the start. Its basis `B` changes with every pivot.
  induction positions generalizing work B with
  | nil => exact ⟨⟨B, h⟩, rfl⟩
  | cons p rest ih =>
    obtain ⟨here, later⟩ := nonzero
    obtain ⟨expresses, values⟩ := ih (h.pivot p.1 p.2 here) later
    refine ⟨expresses, ?_⟩
    rw [h.values_pivot here] at values
    exact values

end Working.Expresses

namespace Exact

theorem pivotsNonzero_append {work : Working Int r w} {done rest : List (Fin r × Fin w)} :
    PivotsNonzero work (done ++ rest) ↔
      PivotsNonzero work done ∧ PivotsNonzero (pivotAll work done) rest := by
  induction done generalizing work with
  | nil => simp [PivotsNonzero, pivotAll]
  | cons p done ih =>
    rw [List.cons_append, PivotsNonzero, PivotsNonzero, ih, and_assoc]
    rfl

/-- From any integers over the denominator 1, pivots on entries that are not zero never divide with
a remainder, keep the denominator positive, and hold the fractions of the Gauss-Jordan pivots at the
same positions, after each of them. -/
theorem pivotAll_gaussJordan (g : Grid Int r w) (positions : List (Fin r × Fin w))
    (nonzero : PivotsNonzero ⟨g, 1⟩ positions) (done rest : List (Fin r × Fin w))
    (split : positions = done ++ rest) :
    let work := pivotAll ⟨g, 1⟩ done
    0 < work.denominator ∧ work.values = (Grid.map Int.cast g).gaussJordanAll done ∧
      ∀ i j later, rest = (i, j) :: later →
        DividesEvenly work i j ∧
          Scalar.pivotAt? ℚ work i j = some (pivotAll ⟨g, 1⟩ (done ++ [(i, j)])) := by
  intro work
  have start : (Working.mk g 1).values = Grid.map Int.cast g := by
    ext k l
    simp [Working.entry_values]
  rw [split] at nonzero
  obtain ⟨before, after⟩ := pivotsNonzero_append.mp nonzero
  obtain ⟨⟨B, expresses⟩, values⟩ := (Working.expresses_one g).pivotAll before
  refine ⟨expresses.positive, by rw [values, start], fun i j later next => ?_⟩
  subst next
  refine ⟨expresses.dividesEvenly after.1, ?_⟩
  rw [expresses.pivotAt?_eq_some, pivotAll, pivotAll, List.foldl_append]
  rfl

/-- Four pivots that take each row twice and the first column twice, the second of them on a
negative entry. After two of them the third divides evenly. -/
theorem pivotAll_gaussJordan_repeated :
    let g : Grid Int 2 3 := #v[#v[2, 1, 3], #v[4, -1, 5]]
    let done : List (Fin 2 × Fin 3) := [(0, 0), (1, 1)]
    let rest : List (Fin 2 × Fin 3) := [(0, 2), (1, 0)]
    PivotsNonzero ⟨g, 1⟩ (done ++ rest) ∧ (pivot ⟨g, 1⟩ 0 0).entries.entry 1 1 < 0 ∧
      0 < (pivotAll ⟨g, 1⟩ done).denominator ∧
      (pivotAll ⟨g, 1⟩ done).values = (Grid.map Int.cast g).gaussJordanAll done ∧
      DividesEvenly (pivotAll ⟨g, 1⟩ done) 0 2 := by
  intro g done rest
  have nonzero : PivotsNonzero ⟨g, 1⟩ (done ++ rest) :=
    ⟨by decide +kernel, by decide +kernel, by decide +kernel, by decide +kernel, trivial⟩
  obtain ⟨positive, values, next⟩ := pivotAll_gaussJordan g (done ++ rest) nonzero done rest rfl
  exact ⟨nonzero, by decide +kernel, positive, values, (next 0 2 _ rfl).1⟩

end Exact

end LexPivot
