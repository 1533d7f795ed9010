import Mathlib
import LexPivot.Proofs.TableauRun

/-!
# The basis determines the working matrix

The denominator of an exact working matrix is the magnitude of the determinant of its basis, and
over that denominator a regular basis leaves one matrix of integers that solves for the system. So
the working matrix keeps nothing of the pivots that led to a basis, neither their order nor their
signs. Rebuilding it changes nothing, and a pivot is undone by letting the label that left enter
again in the same row.
-/
namespace LexPivot

variable {r c : Nat}

/-- A basis leaves no choice for the working matrix. -/
theorem Working.Expresses.unique {w : Nat} {work work' : Working Int r w}
    {B : Matrix (Fin r) (Fin r) ℤ} {system : Matrix (Fin r) (Fin w) ℤ}
    (h : work.Expresses B system) (h' : work'.Expresses B system) : work' = work := by
  -- Both denominators are the magnitude of the determinant of `B`, so `B` has one product with both
  -- matrices and cancels.
  have denominator : work'.denominator = work.denominator := h'.magnitude.trans h.magnitude.symm
  have product : B * work'.entries.toMatrix = B * work.entries.toMatrix := by
    rw [h'.product, h.product, denominator]
  have matrix := eq_of_mul_eq_mul_left h.det_ne_zero product
  have entries : work'.entries = work.entries :=
    Grid.ext fun i j => congrFun (congrFun matrix i) j
  cases work
  cases work'
  simp only at denominator entries
  rw [denominator, entries]

namespace Basis

theorem columns_of_labels {b b' : Basis r c} (first : b'.first = b.first)
    (labels : b'.labels = b.labels) : b'.columns.get = b.columns.get := by
  have rows : b'.rows = b.rows :=
    ext_get fun i => List.map_inj_left.mp labels i (List.mem_finRange i)
  rw [columns, columns, rows, columnsOf_of_first first]

end Basis

namespace Tableau

namespace Represents

variable {t t' : Tableau ℚ r c} {system : Matrix (Fin r) (Fin (c + r + 1)) ℚ}

/-- Tableaus of the same integers with the same columns by row have the same working matrix. -/
theorem work_eq (h : t.Represents system) (h' : t'.Represents system)
    (integers : t'.system = t.system) (columns : t'.basis.columns.get = t.basis.columns.get) :
    t'.work = t.work := by
  have expresses := h'.expresses
  rw [integers, columns] at expresses
  exact h.expresses.unique expresses

/-- Rebuilding finds the working matrix that is there. -/
theorem refactor_eq (h : t.Represents system) :
    t.refactor = .ok { t with sinceRefactor := 0 } := by
  obtain ⟨work, run, expresses⟩ := t.refactor_eq_ok h.consistent h.regular
  rw [run, h.expresses.unique expresses]

/-- The column that left can be exchanged back, on the inverse of the pivot element. -/
theorem values_exchangeColumn_ne_zero (h : t.Represents system) {i : Fin r} {j : Fin (c + r)}
    (nonzero : t.values i j.castSucc ≠ 0) :
    (t.exchangeColumn i j).values i (t.basis.columns.get i).castSucc ≠ 0 := by
  rw [h.values_exchangeColumn nonzero, pivoted_self, h.reduced.apply_self]
  exact one_div_ne_zero nonzero

/-- Exchanging a column and exchanging it back changes nothing but the counts. -/
theorem exchangeColumn_exchangeColumn (h : t.Represents system) {i : Fin r} {j : Fin (c + r)}
    (nonbasic : ∀ k, t.basis.columns.get k ≠ j) (nonzero : t.values i j.castSucc ≠ 0) :
    (t.exchangeColumn i j).exchangeColumn i (t.basis.columns.get i) =
      { t with pivots := t.pivots + 2, sinceRefactor := t.sinceRefactor + 2 } := by
  let twice := (t.exchangeColumn i j).exchangeColumn i (t.basis.columns.get i)
  have inverse := h.values_exchangeColumn_ne_zero nonzero
  have basis : twice.basis = t.basis := h.basis_exchangeColumn_exchangeColumn i nonbasic
  -- The integers are not computed again: both pivots lead to the one matrix of this basis.
  have work : twice.work = t.work :=
    h.work_eq ((h.exchangeColumn nonzero).exchangeColumn inverse) rfl
      (congrArg (fun b => b.columns.get) basis)
  calc twice = { t with
        work := twice.work, basis := twice.basis
        pivots := t.pivots + 2, sinceRefactor := t.sinceRefactor + 2 } := rfl
    _ = { t with pivots := t.pivots + 2, sinceRefactor := t.sinceRefactor + 2 } := by
        rw [work, basis]

/-- A pivot that let a label in is undone by letting the label that left enter in the same row. -/
theorem pivot_pivot (h : t.Represents system) {row : Nat} {entering leaving : Label}
    {next : Tableau ℚ r c} (nonbasic : t.basis.isMember entering = false)
    (passed : t.pivot row entering = ⟨.ok leaving, next⟩) :
    next.pivot row leaving = ⟨.ok entering,
      { t with pivots := t.pivots + 2, sinceRefactor := t.sinceRefactor + 2 }⟩ := by
  rcases h.pivot_cases row entering with
    ⟨_, done⟩ | ⟨inside, ⟨_, done⟩ |
      ⟨j, rfl, ⟨_, _, _, done⟩ | ⟨held, _⟩ | ⟨_, _, done⟩ | ⟨free, nonzero, done⟩⟩⟩
  -- A label that no row holds is answered with a label in the last case only.
  case inr.inr.inr.inl =>
    have member := h.consistent.isMember_labelAt_iff.mpr ⟨_, held⟩
    rw [nonbasic] at member
    cases member
  all_goals
    rw [passed, Attempt.mk.injEq] at done
    obtain ⟨result, rfl⟩ := done
    cases result
  -- The label that left finds its column free and the pivot element not zero.
  have back := (h.exchangeColumn nonzero).pivot_eq_ok (h.nonbasic_exchangeColumn free)
    (h.values_exchangeColumn_ne_zero nonzero)
  rw [rowLabel_exchangeColumn_self, h.exchangeColumn_exchangeColumn free nonzero,
    labelAt_exchangeColumn, ← h.consistent.rowLabel_eq] at back
  exact back

end Represents

/-- After any run rebuilding succeeds and leaves everything as it is, but for the count of the
pivots since the last rebuilding. Runs that end with the same row labels end with the same working
matrix, entries and denominator. -/
theorem run_memoryless (a : Grid ℚ r c) (b : Vector ℚ r) (first : Nat) (some_column : 0 < c) :
    ∃ t, ofSystem a b first = .ok t ∧
      (∀ ops : List Operation,
        (t.run ops).refactor = .ok { t.run ops with sinceRefactor := 0 }) ∧
      ∀ ops ops' : List Operation, (t.run ops').basis.labels = (t.run ops).basis.labels →
        (t.run ops').work = (t.run ops).work := by
  obtain ⟨t, built, _, runs⟩ := ofSystem_run a b first some_column
  refine ⟨t, built, fun ops => (runs ops).1.refactor_eq, fun ops ops' labels => ?_⟩
  obtain ⟨represents, numbering⟩ := runs ops
  obtain ⟨represents', numbering'⟩ := runs ops'
  apply represents.work_eq represents'
  · rw [system_run, system_run]
  · exact Basis.columns_of_labels (numbering'.trans numbering.symm) labels

/-- Two pivots, and a way round over five, to the same two labels. -/
theorem run_memoryless_detour :
    let a : Grid ℚ 2 2 := #v[#v[1/2, 1/3], #v[-1/3, 1/2]]
    let b : Vector ℚ 2 := #v[1, -5/7]
    let direct : List Operation := [.pivot 0 (.structural 0), .pivot 1 (.structural 1)]
    let detour : List Operation := [.pivot 0 (.structural 1), .pivot 1 (.structural 0),
      .pivot 0 (.slack 2), .pivot 1 (.structural 1), .pivot 0 (.structural 0)]
    0 < 2 ∧ ∃ t, ofSystem a b 0 = .ok t ∧ (t.run direct).pivots = 2 ∧ (t.run detour).pivots = 5 ∧
      (t.run detour).basis.labels = (t.run direct).basis.labels ∧
      (t.run detour).work = (t.run direct).work ∧
      (t.run detour).refactor = .ok { t.run detour with sinceRefactor := 0 } := by
  intro a b direct detour
  obtain ⟨t, built, rebuilds, determines⟩ := run_memoryless a b 0 (by decide)
  have ends : (match ofSystem a b 0 with
      | .ok t => (t.run direct).pivots == 2 && (t.run detour).pivots == 5 &&
          (t.run detour).basis.labels == (t.run direct).basis.labels
      | .error _ => false) = true := by decide +kernel
  rw [built] at ends
  simp only [Bool.and_eq_true, beq_iff_eq] at ends
  obtain ⟨⟨two, five⟩, labels⟩ := ends
  exact ⟨by decide, t, built, two, five, labels, determines direct detour labels, rebuilds detour⟩

/-- After any run, a pivot that let a label in is undone by letting the label that left enter in
the same row: every array of the basis, the lookups included, and the working matrix are those from
before, and only the pivots were counted. -/
theorem run_pivot_undone (a : Grid ℚ r c) (b : Vector ℚ r) (first : Nat) (some_column : 0 < c) :
    ∃ t, ofSystem a b first = .ok t ∧
      ∀ (ops : List Operation) (row : Nat) (entering leaving : Label) (next : Tableau ℚ r c),
        let s := t.run ops
        s.basis.isMember entering = false → s.pivot row entering = ⟨.ok leaving, next⟩ →
        next.pivot row leaving = ⟨.ok entering,
          { s with pivots := s.pivots + 2, sinceRefactor := s.sinceRefactor + 2 }⟩ := by
  obtain ⟨t, built, _, runs⟩ := ofSystem_run a b first some_column
  refine ⟨t, built, fun ops row entering leaving next => ?_⟩
  intro s nonbasic passed
  exact (runs ops).1.pivot_pivot nonbasic passed

/-- The second pivot of a run, on a negative element, is undone by a third. -/
theorem run_pivot_undone_negative :
    let a : Grid ℚ 2 2 := #v[#v[1/2, 1/3], #v[-1/3, 1/2]]
    let b : Vector ℚ 2 := #v[1, -5/7]
    0 < 2 ∧ ∃ t next, ofSystem a b 0 = .ok t ∧
      let s := t.run [.pivot 0 (.structural 0)]
      s.basis.isMember (.structural 1) = false ∧ s.values 1 1 < 0 ∧
      s.pivot 1 (.structural 1) = ⟨.ok (.slack 2), next⟩ ∧
      next.pivot 1 (.slack 2) = ⟨.ok (.structural 1),
        { s with pivots := s.pivots + 2, sinceRefactor := s.sinceRefactor + 2 }⟩ := by
  intro a b
  obtain ⟨t, built, undone⟩ := run_pivot_undone a b 0 (by decide)
  have answer : (match ofSystem a b 0 with
      | .ok t =>
        let s := t.run [.pivot 0 (.structural 0)]
        !s.basis.isMember (.structural 1) && decide ((s.columnValues 1).get 1 < 0) &&
          (s.pivot 1 (.structural 1)).result == .ok (.slack 2)
      | .error _ => false) = true := by decide +kernel
  rw [built] at answer
  simp only [Bool.and_eq_true, beq_iff_eq, Bool.not_eq_true', decide_eq_true_eq] at answer
  obtain ⟨⟨nonbasic, negative⟩, passed⟩ := answer
  rcases pivot : (t.run [.pivot 0 (.structural 0)]).pivot 1 (.structural 1) with ⟨result, next⟩
  rw [pivot] at passed
  subst passed
  exact ⟨by decide, t, next, built, nonbasic, negative, pivot,
    undone _ 1 _ _ next nonbasic pivot⟩

end Tableau

end LexPivot
