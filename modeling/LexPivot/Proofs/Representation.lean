import Mathlib
import LexPivot.Proofs.BasisLookup
import LexPivot.Proofs.Elimination
import LexPivot.Proofs.ExactScalar
import LexPivot.Tableau.Pivot

/-!
# What an exact tableau stands for

The data of an exact tableau is scaled to integers, and its working matrix expresses these integers
in the basis. The scale cancels: read as fractions, the working matrix is the system reduced to the
basis.

`Tableau.Represents` is the invariant, with one lemma for each operation that changes a tableau.
-/
namespace LexPivot

open Matrix

variable {r c : Nat}

namespace Tableau

/-- The working matrix, read as fractions. -/
def values (t : Tableau ℚ r c) : Matrix (Fin r) (Fin (c + r + 1)) ℚ :=
  Matrix.of fun i j => (t.columnValues j).get i

theorem values_apply (t : Tableau ℚ r c) (i : Fin r) (j : Fin (c + r + 1)) :
    t.values i j =
      ((Grid.entry (α := ℤ) t.work.entries i j : ℤ) : ℚ) / (t.work.denominator : ℤ) := by
  simp only [values, Matrix.of_apply, columnValues, get_map]
  rfl

@[simp] theorem get_reducedColumn (t : Tableau ℚ r c) (j : Fin (c + r)) (i : Fin r) :
    (t.reducedColumn j).get i = t.values i j.castSucc := rfl

@[simp] theorem get_basicVector (t : Tableau ℚ r c) (i : Fin r) :
    t.basicVector.get i = t.values i (Fin.last (c + r)) := rfl

/-- The tableau after column `j` has become basic in row `i`. -/
def exchangeColumn (t : Tableau ℚ r c) (i : Fin r) (j : Fin (c + r)) : Tableau ℚ r c :=
  { t with
    work := Scalar.pivot (α := ℚ) t.work i j.castSucc
    basis := t.basis.install i (t.basis.labelAt j)
    pivots := t.pivots + 1
    sinceRefactor := t.sinceRefactor + 1 }

/-- Exact entries are never rebuilt. -/
theorem refactorWhenDue_eq_ok (t : Tableau ℚ r c) : t.refactorWhenDue = .ok t := rfl

/-- The basis is asked after the working matrix has been pivoted, and cannot refuse any more. -/
theorem pivot_eq_exchangeColumn {t : Tableau ℚ r c} {i : Fin r} {j : Fin (c + r)}
    (other : t.basis.rowLabel i ≠ t.basis.labelAt j)
    (absent : t.basis.isMember (t.basis.labelAt j) = false)
    (nonzero : ¬Scalar.isZeroEntry (α := ℚ) (t.work.entries.entry i j.castSucc) = true) :
    t.pivot i (t.basis.labelAt j) = ⟨.ok (t.basis.rowLabel i), t.exchangeColumn i j⟩ := by
  have installs := Basis.pivot_eq_install (Basis.isValid_iff.mpr ⟨j, rfl⟩) other absent
  simp [pivot, exchangeColumn, Basis.column?_labelAt, other, absent, nonzero, installs,
    refactorWhenDue_eq_ok]

/-- The columns of the basis at which the ratio test breaks ties. -/
def referenceColumns (t : Tableau ℚ r c) : Vector (Fin (c + r)) r := t.basis.columnsOf t.reference

theorem referenceColumns_eq {t origin : Tableau ℚ r c} (first : t.basis.first = origin.basis.first)
    (reference : t.reference = origin.basis.rows) : t.referenceColumns = origin.basis.columns := by
  rw [referenceColumns, reference, Basis.columnsOf_of_first first]
  rfl

@[simp] theorem first_exchangeColumn (t : Tableau ℚ r c) (i : Fin r) (j : Fin (c + r)) :
    (t.exchangeColumn i j).basis.first = t.basis.first :=
  t.basis.first_install i _

@[simp] theorem blocked_exchangeColumn (t : Tableau ℚ r c) (i : Fin r) (j : Fin (c + r)) :
    (t.exchangeColumn i j).basis.blocked = t.basis.blocked :=
  t.basis.blocked_install i _

theorem labelAt_exchangeColumn (t : Tableau ℚ r c) (i : Fin r) (j : Fin (c + r)) :
    (t.exchangeColumn i j).basis.labelAt = t.basis.labelAt :=
  Basis.labelAt_of_first (t.first_exchangeColumn i j)

@[simp] theorem referenceColumns_exchangeColumn (t : Tableau ℚ r c) (i : Fin r)
    (j : Fin (c + r)) : (t.exchangeColumn i j).referenceColumns = t.referenceColumns := by
  rw [referenceColumns, Basis.columnsOf_of_first (t.first_exchangeColumn i j)]
  rfl

@[simp] theorem columns_exchangeColumn (t : Tableau ℚ r c) (i : Fin r) (j : Fin (c + r)) :
    (t.exchangeColumn i j).basis.columns.get = Function.update t.basis.columns.get i j :=
  Basis.columns_install _ _ _

theorem rowLabel_exchangeColumn (t : Tableau ℚ r c) (i : Fin r) (j : Fin (c + r)) (k : Fin r) :
    (t.exchangeColumn i j).basis.rowLabel k =
      if k = i then t.basis.labelAt j else t.basis.rowLabel k :=
  t.basis.rowLabel_install i _ k

theorem rowLabel_exchangeColumn_self (t : Tableau ℚ r c) (i : Fin r) (j : Fin (c + r)) :
    (t.exchangeColumn i j).basis.rowLabel i = t.basis.labelAt j := by
  rw [rowLabel_exchangeColumn, if_pos rfl]

/-- The working matrix expresses the scaled system in the basis, whose records are consistent, and
ties are broken at a regular basis. -/
structure Represents (t : Tableau ℚ r c) (system : Matrix (Fin r) (Fin (c + r + 1)) ℚ) : Prop where
  scaled : ∃ scale : Nat, 0 < scale ∧
    ∀ i j, ((Grid.entry (α := ℤ) t.system i j : ℤ) : ℚ) = scale * system i j
  expresses : Working.Expresses t.work
    (basisMatrix (Grid.toMatrix (α := ℤ) t.system) t.basis.columns.get)
    (Grid.toMatrix (α := ℤ) t.system)
  consistent : t.basis.Consistent
  anchored : ∀ q, t.basis.isValid (t.reference.get q) = true
  reference : (basisMatrix system t.referenceColumns.get).det ≠ 0

theorem det_basisMatrix_ne_zero_iff {system : Matrix (Fin r) (Fin (c + r + 1)) ℚ}
    {integers : Matrix (Fin r) (Fin (c + r + 1)) ℤ} {scale : Nat} (positive : 0 < scale)
    (scaled : ∀ i j, (integers i j : ℚ) = scale * system i j) (columns : Fin r → Fin (c + r)) :
    (basisMatrix integers columns).det ≠ 0 ↔ (basisMatrix system columns).det ≠ 0 := by
  have basis : (basisMatrix integers columns).map (Int.cast : ℤ → ℚ) =
      (scale : ℚ) • basisMatrix system columns := by
    ext i k
    simpa using scaled i (columns k).castSucc
  -- Each row contributes one factor to the determinant.
  have det : ((basisMatrix integers columns).det : ℚ) =
      (scale : ℚ) ^ r * (basisMatrix system columns).det := by
    have mapped := (Int.castRingHom ℚ).map_det (basisMatrix integers columns)
    rw [RingHom.mapMatrix_apply] at mapped
    have cast : ((basisMatrix integers columns).det : ℚ) =
        ((basisMatrix integers columns).map (Int.cast : ℤ → ℚ)).det := mapped
    rw [cast, basis, Matrix.det_smul, Fintype.card_fin]
  have power : (scale : ℚ) ^ r ≠ 0 := pow_ne_zero _ (by exact_mod_cast positive.ne')
  rw [← Int.cast_ne_zero (α := ℚ), det]
  simp [power]

namespace Represents

variable {t : Tableau ℚ r c} {system : Matrix (Fin r) (Fin (c + r + 1)) ℚ}

theorem denominator_ne_zero (h : t.Represents system) : ((t.work.denominator : ℤ) : ℚ) ≠ 0 :=
  Int.cast_ne_zero.mpr h.expresses.positive.ne'

/-- Read as fractions, the working matrix is the system reduced to the basis. -/
theorem reduced (h : t.Represents system) : Reduced system t.basis.columns.get t.values := by
  obtain ⟨scale, positive, scaled⟩ := h.scaled
  refine ⟨(det_basisMatrix_ne_zero_iff positive scaled _).mp h.expresses.det_ne_zero, ?_⟩
  have scale_ne : (scale : ℚ) ≠ 0 := by exact_mod_cast positive.ne'
  have denominator_ne := h.denominator_ne_zero
  -- Both the scale of the data and the denominator cancel.
  ext i l
  have product := h.expresses.sum_mul_entry i l
  have cast : ∑ k, (scale : ℚ) * system i (t.basis.columns.get k).castSucc *
      ((Grid.entry (α := ℤ) t.work.entries k l : ℤ) : ℚ) =
      ((t.work.denominator : ℤ) : ℚ) * (scale * system i l) := by
    simp only [← scaled]
    exact_mod_cast product
  rw [Matrix.mul_apply]
  simp only [basisMatrix_apply, values_apply]
  apply mul_left_cancel₀ (mul_ne_zero denominator_ne scale_ne)
  rw [mul_assoc, mul_assoc, ← cast, Finset.mul_sum, Finset.mul_sum]
  refine Finset.sum_congr rfl fun k _ => ?_
  field_simp

theorem distinct (h : t.Represents system) : Function.Injective t.basis.columns.get :=
  h.reduced.injective

theorem regular (h : t.Represents system) :
    (basisMatrix (Grid.toMatrix (α := ℤ) t.system) t.basis.columns.get).det ≠ 0 :=
  h.expresses.det_ne_zero

theorem isZeroEntry_iff (h : t.Represents system) (i : Fin r) (j : Fin (c + r + 1)) :
    Scalar.isZeroEntry (α := ℚ) (t.work.entries.entry i j) = true ↔ t.values i j = 0 := by
  rw [values_apply, div_eq_zero_iff, or_iff_left h.denominator_ne_zero, Int.cast_eq_zero]
  exact beq_iff_eq (α := ℤ)

theorem refactor (h : t.Represents system) :
    ∃ rebuilt, t.refactor = .ok rebuilt ∧ rebuilt.Represents system ∧
      rebuilt.basis = t.basis ∧ rebuilt.reference = t.reference := by
  obtain ⟨work, run, expresses⟩ := t.refactor_eq_ok h.consistent h.regular
  exact ⟨_, run, { h with expresses := expresses }, rfl, rfl⟩

theorem setLexReference (h : t.Represents system) : t.setLexReference.Represents system :=
  { h with anchored := h.consistent.valid, reference := h.reduced.regular }

theorem setBlocked (h : t.Represents system) (l : Label) (value : Bool) :
    Represents { t with basis := t.basis.setBlocked l value } system := by
  have first := t.basis.first_setBlocked l value
  refine ⟨h.scaled, by simpa using h.expresses, h.consistent.setBlocked l value, fun q => ?_, ?_⟩
  · rw [Basis.isValid_of_first first]
    exact h.anchored q
  · rw [referenceColumns, Basis.columnsOf_of_first first]
    exact h.reference

theorem mark (h : t.Represents system) (l : Label) : (t.mark l).Represents system :=
  h.setBlocked l true

theorem unmark (h : t.Represents system) (l : Label) : (t.unmark l).Represents system :=
  h.setBlocked l false

/-- A column that does not vanish in a row is basic in no other row. -/
theorem alone_of_ne_zero (h : t.Represents system) {i : Fin r} {j : Fin (c + r)}
    (nonzero : t.values i j.castSucc ≠ 0) (k : Fin r) (held : t.basis.columns.get k = j) :
    k = i := by
  by_contra other
  rw [← held] at nonzero
  exact nonzero (h.reduced.apply_ne (Ne.symm other))

theorem exchangeColumn (h : t.Represents system) {i : Fin r} {j : Fin (c + r)}
    (nonzero : t.values i j.castSucc ≠ 0) : (t.exchangeColumn i j).Represents system := by
  have first := t.first_exchangeColumn i j
  have valid : t.basis.isValid (t.basis.labelAt j) = true := Basis.isValid_iff.mpr ⟨j, rfl⟩
  refine ⟨h.scaled, ?_, h.consistent.install valid fun k held => ?_, fun q => ?_, ?_⟩
  · have entry : Grid.entry (α := ℤ) t.work.entries i j.castSucc ≠ 0 := by
      intro zero
      rw [values_apply, zero, Int.cast_zero, zero_div] at nonzero
      exact nonzero rfl
    have pivot := h.expresses.pivot i j.castSucc entry
    rw [← basisMatrix_update, ← Basis.columns_install] at pivot
    exact pivot
  · exact h.alone_of_ne_zero nonzero k (h.consistent.rowLabel_eq_labelAt_iff.mp held)
  · rw [Basis.isValid_of_first first]
    exact h.anchored q
  · rw [referenceColumns_exchangeColumn]
    exact h.reference

/-- A column that is basic nowhere can be exchanged back, and the basis is as it was. -/
theorem basis_exchangeColumn_exchangeColumn (h : t.Represents system) (i : Fin r)
    {j : Fin (c + r)} (nonbasic : ∀ k, t.basis.columns.get k ≠ j) :
    ((t.exchangeColumn i j).exchangeColumn i (t.basis.columns.get i)).basis = t.basis := by
  have absent : t.basis.isMember (t.basis.labelAt j) = false := by
    rw [← Bool.not_eq_true, h.consistent.isMember_labelAt_iff, not_exists]
    exact nonbasic
  have label : (t.exchangeColumn i j).basis.labelAt (t.basis.columns.get i) =
      t.basis.rowLabel i := by
    rw [labelAt_exchangeColumn, h.consistent.rowLabel_eq]
  calc ((t.exchangeColumn i j).exchangeColumn i (t.basis.columns.get i)).basis
      = (t.basis.install i (t.basis.labelAt j)).install i
          ((t.exchangeColumn i j).basis.labelAt (t.basis.columns.get i)) := rfl
    _ = t.basis := by rw [label, h.consistent.install_install absent]

/-- An exchange is a Gauss-Jordan pivot on the values. -/
theorem values_exchangeColumn (h : t.Represents system) {i : Fin r} {j : Fin (c + r)}
    (nonzero : t.values i j.castSucc ≠ 0) :
    (t.exchangeColumn i j).values = pivoted t.values i j := by
  have expected := h.reduced.exchange i j nonzero
  rw [← Basis.columns_install] at expected
  exact (h.exchangeColumn nonzero).reduced.unique expected

/-- The column that left is not basic any more. -/
theorem nonbasic_exchangeColumn (h : t.Represents system) {i : Fin r} {j : Fin (c + r)}
    (nonbasic : ∀ k, t.basis.columns.get k ≠ j) (k : Fin r) :
    (t.exchangeColumn i j).basis.columns.get k ≠ t.basis.columns.get i := by
  rw [columns_exchangeColumn, Function.update_apply]
  split
  · exact (nonbasic i).symm
  next other => exact fun same => other (h.distinct same)

/-- What a request to pivot can come to. -/
theorem pivot_cases (h : t.Represents system) (row : Nat) (entering : Label) :
    (r ≤ row ∧ t.pivot row entering = ⟨.error (.rowOutside row), t⟩) ∨
    (∃ inside : row < r,
      ((∀ j, t.basis.labelAt j ≠ entering) ∧
        t.pivot row entering = ⟨.error (.undefinedLabel entering), t⟩) ∨
      ∃ j, t.basis.labelAt j = entering ∧
        ((∃ k, k ≠ ⟨row, inside⟩ ∧ t.basis.columns.get k = j ∧
          t.pivot row entering = ⟨.error (.undefinedLabel entering), t⟩) ∨
        (t.basis.columns.get ⟨row, inside⟩ = j ∧ t.pivot row entering = ⟨.ok entering, t⟩) ∨
        ((∀ k, t.basis.columns.get k ≠ j) ∧ t.values ⟨row, inside⟩ j.castSucc = 0 ∧
          t.pivot row entering = ⟨.error (.singularPivot row entering), t⟩) ∨
        ((∀ k, t.basis.columns.get k ≠ j) ∧ t.values ⟨row, inside⟩ j.castSucc ≠ 0 ∧
          t.pivot row entering =
            ⟨.ok (t.basis.rowLabel ⟨row, inside⟩), t.exchangeColumn ⟨row, inside⟩ j⟩))) := by
  by_cases inside : row < r
  · refine Or.inr ⟨inside, ?_⟩
    cases found : t.basis.column? entering with
    | none =>
      refine Or.inl ⟨fun j label => ?_, by simp [pivot, inside, found]⟩
      rw [← label, Basis.column?_labelAt] at found
      cases found
    | some j =>
      obtain rfl := Basis.labelAt_of_column? found
      refine Or.inr ⟨j, rfl, ?_⟩
      by_cases held : t.basis.rowLabel ⟨row, inside⟩ = t.basis.labelAt j
      · refine Or.inr (Or.inl ⟨h.consistent.rowLabel_eq_labelAt_iff.mp held, ?_⟩)
        simp [pivot, inside, found, held]
      · cases member : t.basis.isMember (t.basis.labelAt j) with
        | true =>
          obtain ⟨k, basic⟩ := h.consistent.isMember_labelAt_iff.mp member
          refine Or.inl ⟨k, ?_, basic, by simp [pivot, inside, found, held, member]⟩
          rintro rfl
          exact held (h.consistent.rowLabel_eq_labelAt_iff.mpr basic)
        | false =>
          have nonbasic (k : Fin r) : t.basis.columns.get k ≠ j := fun basic =>
            h.consistent.rowLabel_ne member k (h.consistent.rowLabel_eq_labelAt_iff.mpr basic)
          have zero := h.isZeroEntry_iff ⟨row, inside⟩ j.castSucc
          by_cases vanishes : t.values ⟨row, inside⟩ j.castSucc = 0
          · refine Or.inr (Or.inr (Or.inl ⟨nonbasic, vanishes, ?_⟩))
            simp [pivot, inside, found, held, member, zero.mpr vanishes]
          · refine Or.inr (Or.inr (Or.inr ⟨nonbasic, vanishes, ?_⟩))
            exact pivot_eq_exchangeColumn (i := ⟨row, inside⟩) held member (mt zero.mp vanishes)
  · exact Or.inl ⟨not_lt.mp inside, by simp [pivot, inside]⟩

/-- A column that is not basic enters in a row where it does not vanish. -/
theorem pivot_eq_ok (h : t.Represents system) {i : Fin r} {j : Fin (c + r)}
    (nonbasic : ∀ k, t.basis.columns.get k ≠ j) (nonzero : t.values i j.castSucc ≠ 0) :
    t.pivot i (t.basis.labelAt j) = ⟨.ok (t.basis.rowLabel i), t.exchangeColumn i j⟩ := by
  rcases h.pivot_cases i (t.basis.labelAt j) with
    ⟨outside, _⟩ | ⟨_, ⟨undefined, _⟩ | ⟨k, label, rest⟩⟩
  · exact absurd i.isLt (not_lt.mpr outside)
  · exact absurd rfl (undefined j)
  · obtain rfl := t.basis.labelAt_injective label
    rcases rest with ⟨q, _, held, _⟩ | ⟨held, _⟩ | ⟨_, zero, _⟩ | ⟨_, _, done⟩
    · exact absurd held (nonbasic q)
    · exact absurd held (nonbasic i)
    · exact absurd zero nonzero
    · exact done

theorem pivot_rowLabel (h : t.Represents system) (i : Fin r) :
    t.pivot i (t.basis.rowLabel i) = ⟨.ok (t.basis.rowLabel i), t⟩ := by
  rcases h.pivot_cases i (t.basis.rowLabel i) with
    ⟨outside, _⟩ | ⟨_, ⟨undefined, _⟩ | ⟨j, label, rest⟩⟩
  · exact absurd i.isLt (not_lt.mpr outside)
  · exact absurd (h.consistent.rowLabel_eq i).symm (undefined _)
  · have own := h.consistent.rowLabel_eq_labelAt_iff.mp label.symm
    rcases rest with ⟨k, ne, held, _⟩ | ⟨_, done⟩ | ⟨nonbasic, _, _⟩ | ⟨nonbasic, _, _⟩
    · exact absurd (h.distinct (held.trans own.symm)) ne
    · exact done
    · exact absurd own (nonbasic i)
    · exact absurd own (nonbasic i)

theorem pivot_state (h : t.Represents system) (row : Nat) (entering : Label) :
    (t.pivot row entering).state.Represents system := by
  rcases h.pivot_cases row entering with
    ⟨_, done⟩ | ⟨_, ⟨_, done⟩ |
      ⟨_, _, ⟨_, _, _, done⟩ | ⟨_, done⟩ | ⟨_, _, done⟩ | ⟨_, nonzero, done⟩⟩⟩
  all_goals rw [done]
  case inr.inr.inr.inr.inr => exact h.exchangeColumn nonzero
  all_goals exact h

end Represents

/-- The equations `A z - w = b`. -/
def systemMatrix (a : Grid ℚ r c) (b : Vector ℚ r) : Matrix (Fin r) (Fin (c + r + 1)) ℚ :=
  (augment a b).toMatrix

@[simp] theorem systemMatrix_structural (a : Grid ℚ r c) (b : Vector ℚ r) (i : Fin r) (k : Fin c) :
    systemMatrix a b i (Fin.castAdd r k).castSucc = a.entry i k := by
  rw [systemMatrix, Grid.toMatrix_apply, augment, Grid.entry_ofFn, Fin.lastCases_castSucc,
    Fin.addCases_left]

@[simp] theorem systemMatrix_slack (a : Grid ℚ r c) (b : Vector ℚ r) (i k : Fin r) :
    systemMatrix a b i (Fin.natAdd c k).castSucc = if k = i then -1 else 0 := by
  rw [systemMatrix, Grid.toMatrix_apply, augment, Grid.entry_ofFn, Fin.lastCases_castSucc,
    Fin.addCases_right]

@[simp] theorem systemMatrix_last (a : Grid ℚ r c) (b : Vector ℚ r) (i : Fin r) :
    systemMatrix a b i (Fin.last (c + r)) = b.get i := by
  rw [systemMatrix, Grid.toMatrix_apply, augment, Grid.entry_ofFn, Fin.lastCases_last]

theorem basisMatrix_slack (a : Grid ℚ r c) (b : Vector ℚ r) :
    basisMatrix (systemMatrix a b) (Fin.natAdd c) = -1 := by
  ext i k
  rw [basisMatrix_apply, systemMatrix_slack, Matrix.neg_apply, Matrix.one_apply]
  by_cases same : k = i
  · simp [same]
  · simp [same, Ne.symm same]

/-- At the slack basis the rows are those of the equations, negated. -/
theorem Represents.values_of_slack {t : Tableau ℚ r c} {a : Grid ℚ r c} {b : Vector ℚ r}
    {first : Nat} (h : t.Represents (systemMatrix a b)) (basis : t.basis = Basis.slack first) :
    t.values = -systemMatrix a b := by
  have columns (k : Fin r) : t.basis.columns.get k = Fin.natAdd c k := by
    rw [basis, Basis.get_columns_slack]
  have diagonal (i k : Fin r) (ne : k ≠ i) :
      systemMatrix a b i (t.basis.columns.get k).castSucc = 0 := by
    rw [columns, systemMatrix_slack, if_neg ne]
  ext i l
  have equation := h.reduced.mul_apply_of_diagonal diagonal i l
  rw [columns, systemMatrix_slack, if_pos rfl, neg_one_mul] at equation
  rw [Matrix.neg_apply, ← equation, neg_neg]

/-- A tableau starts at the slack basis. -/
theorem ofSystem_represents (a : Grid ℚ r c) (b : Vector ℚ r) (first : Nat) (some_column : 0 < c) :
    ∃ t, ofSystem a b first = .ok t ∧ t.Represents (systemMatrix a b) ∧
      t.basis = Basis.slack first ∧ t.reference = t.basis.rows := by
  let integers := Exact.toIntegers (augment a b)
  let start : Tableau ℚ r c := {
    system := integers
    work := ⟨integers, Scalar.unit (α := ℚ)⟩
    basis := Basis.slack first
    reference := (Basis.slack first : Basis r c).rows
    pivots := 0
    sinceRefactor := 0 }
  have positive := Exact.commonDenominator_pos (augment a b)
  have scaled (i : Fin r) (j : Fin (c + r + 1)) :
      ((integers.toMatrix i j : ℤ) : ℚ) =
        Exact.commonDenominator (augment a b) * systemMatrix a b i j :=
    Exact.cast_toIntegers _ i j
  have columns : (Basis.slack first : Basis r c).columns.get = Fin.natAdd c := by
    ext i
    simp
  have regular : (basisMatrix (systemMatrix a b) (Basis.slack first : Basis r c).columns.get).det ≠
      0 := by
    rw [columns, basisMatrix_slack, Matrix.det_neg, Matrix.det_one, mul_one]
    exact pow_ne_zero _ (by norm_num)
  have consistent : start.basis.Consistent := Basis.consistent_slack first
  obtain ⟨work, run, expresses⟩ := start.refactor_eq_ok consistent
    ((det_basisMatrix_ne_zero_iff positive scaled _).mpr regular)
  refine ⟨{ start with work := work, sinceRefactor := 0 }, ?_,
    ⟨⟨_, positive, scaled⟩, expresses, consistent, consistent.valid, regular⟩, rfl, rfl⟩
  rw [ofSystem, if_neg some_column.ne']
  exact run

end Tableau

end LexPivot
