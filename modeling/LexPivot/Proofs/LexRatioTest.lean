import Mathlib
import LexPivot.Proofs.Representation
import LexPivot.Tableau.RatioTest

/-!
# The lexicographic ratio test has one winner

Rows are compared column by column, along the columns that decide the ratio test. The staged
narrowing of the candidates keeps the rows that are least in that order, and since the rows of
`B⁻¹ B₀` are linearly independent, only one row is.

`IsLexExit` says which row that is; `Tableau.Represents.lexExitRow_cases` says that the ratio test
finds it.
-/
namespace LexPivot

open Matrix

/-! ### The lexicographic order along a list of columns -/

section LexPositive

variable {ι : Type} {f g : ι → ℚ} {js : List ι}

/-- Whether the first value along the columns that is not zero is positive. -/
def LexPositive (f : ι → ℚ) : List ι → Prop
  | [] => False
  | j :: js => 0 < f j ∨ (f j = 0 ∧ LexPositive f js)

theorem LexPositive.congr (h : LexPositive f js) (same : ∀ j ∈ js, f j = g j) :
    LexPositive g js := by
  induction js with
  | nil => exact h
  | cons j js ih =>
    have head := same j (by simp)
    rcases h with positive | ⟨zero, later⟩
    · exact Or.inl (head ▸ positive)
    · exact Or.inr ⟨head ▸ zero, ih later fun k member => same k (by simp [member])⟩

theorem LexPositive.add (hf : LexPositive f js) (hg : LexPositive g js) :
    LexPositive (f + g) js := by
  induction js with
  | nil => exact hf
  | cons j js ih =>
    rcases hf with positive | ⟨zero, later⟩
    · rcases hg with positive' | ⟨zero', _⟩
      · exact Or.inl (add_pos positive positive')
      · exact Or.inl (by rwa [Pi.add_apply, zero', add_zero])
    · rcases hg with positive' | ⟨zero', later'⟩
      · exact Or.inl (by rwa [Pi.add_apply, zero, zero_add])
      · exact Or.inr ⟨by rw [Pi.add_apply, zero, zero', add_zero], ih later later'⟩

theorem LexPositive.smul (h : LexPositive f js) {x : ℚ} (positive : 0 < x) :
    LexPositive (x • f) js := by
  induction js with
  | nil => exact h
  | cons j js ih =>
    rcases h with head | ⟨zero, later⟩
    · exact Or.inl (mul_pos positive head)
    · exact Or.inr ⟨by rw [Pi.smul_apply, zero, smul_zero], ih later⟩

theorem LexPositive.add_smul (hf : LexPositive f js) (hg : LexPositive g js) {x : ℚ}
    (nonneg : 0 ≤ x) : LexPositive (f + x • g) js := by
  rcases nonneg.eq_or_lt with rfl | positive
  · simpa using hf
  · exact hf.add (hg.smul positive)

theorem LexPositive.not_neg (h : LexPositive f js) : ¬LexPositive (-f) js := by
  induction js with
  | nil => exact fun absurd => absurd
  | cons j js ih =>
    rintro (negative | ⟨zero', later'⟩)
    · rcases h with positive | ⟨zero, _⟩
      · exact lt_asymm positive (neg_pos.mp negative)
      · exact negative.ne' (by rw [Pi.neg_apply, zero, neg_zero])
    · rcases h with positive | ⟨_, later⟩
      · exact positive.ne' (neg_eq_zero.mp zero')
      · exact ih later later'

theorem lexPositive_trichotomy (f : ι → ℚ) (js : List ι) :
    LexPositive f js ∨ LexPositive (-f) js ∨ ∀ j ∈ js, f j = 0 := by
  induction js with
  | nil => simp
  | cons j js ih =>
    rcases lt_trichotomy (f j) 0 with negative | zero | positive
    · exact Or.inr (Or.inl (Or.inl (neg_pos.mpr negative)))
    · rcases ih with later | later | later
      · exact Or.inl (Or.inr ⟨zero, later⟩)
      · exact Or.inr (Or.inl (Or.inr ⟨by rw [Pi.neg_apply, zero, neg_zero], later⟩))
      · exact Or.inr (Or.inr (by simpa [zero] using later))
    · exact Or.inl (Or.inl positive)

theorem LexPositive.head_nonneg {j : ι} (h : LexPositive f (j :: js)) : 0 ≤ f j := by
  rcases h with positive | ⟨zero, _⟩
  · exact positive.le
  · exact zero.ge

end LexPositive

/-! ### Narrowing the candidates -/

namespace Tableau

variable {r c : Nat}

/-- One stage keeps the rows with the least ratio. -/
theorem mem_narrow_iff {entering column : Vector ℚ r} {rows : List (Fin r)} {k : Fin r} :
    k ∈ narrow entering column rows ↔ k ∈ rows ∧
      ∀ s ∈ rows, column.get k / entering.get k ≤ column.get s / entering.get s := by
  let ratio (i : Fin r) : ℚ := column.get i / entering.get i
  by_cases empty : rows = []
  · subst empty
    simp [narrow, Scalar.least?]
  · have some_ratio : rows.map ratio ≠ [] := by simpa using empty
    obtain ⟨low, found, member, least⟩ := Scalar.least?_spec some_ratio
    have kept : narrow entering column rows =
        rows.filter fun i => !Scalar.definitelyLess low (ratio i) := by
      unfold narrow
      dsimp only
      split
      next none => cases found.symm.trans none
      next other some =>
        cases found.symm.trans some
        rfl
    rw [kept, List.mem_filter, Bool.not_eq_true', ← Bool.not_eq_true, Scalar.definitelyLess_iff,
      not_lt]
    refine and_congr_right fun listed => ⟨fun below s other => ?_, fun minimal => ?_⟩
    · exact below.trans (least _ (List.mem_map_of_mem other))
    · obtain ⟨s, other, rfl⟩ := List.mem_map.mp member
      exact minimal s other

theorem narrow_ne_nil {entering column : Vector ℚ r} {rows : List (Fin r)} (nonempty : rows ≠ []) :
    narrow entering column rows ≠ [] := by
  have some_ratio : rows.map (fun i => column.get i / entering.get i) ≠ [] := by
    simpa using nonempty
  obtain ⟨low, _, member, least⟩ := Scalar.least?_spec some_ratio
  obtain ⟨k, listed, rfl⟩ := List.mem_map.mp member
  exact List.ne_nil_of_mem (mem_narrow_iff.mpr
    ⟨listed, fun s other => least _ (List.mem_map_of_mem other)⟩)

/-- The stages together keep the rows whose ratios are least in the lexicographic order. -/
theorem mem_narrowBy_iff (t : Tableau ℚ r c) (entering : Vector ℚ r)
    (js : List (Fin (c + r + 1))) (rows : List (Fin r)) (k : Fin r) :
    k ∈ t.narrowBy entering (js.map some) rows ↔ k ∈ rows ∧ ∀ s ∈ rows,
      ¬LexPositive (fun l => t.values k l / entering.get k - t.values s l / entering.get s) js := by
  induction js generalizing rows with
  | nil => simp [narrowBy, LexPositive]
  | cons j js ih =>
    by_cases short : rows.length ≤ 1
    · -- With a single row left the test stops, and no row is below itself.
      rw [List.map_cons, narrowBy, if_pos short, iff_self_and]
      intro listed s other positive
      have same : k = s := by
        obtain ⟨_, rfl⟩ | rfl : (∃ x, rows = [x]) ∨ rows = [] := by
          rcases Nat.le_one_iff_eq_zero_or_eq_one.mp short with zero | one
          · exact Or.inr (List.eq_nil_of_length_eq_zero zero)
          · exact Or.inl (List.length_eq_one_iff.mp one)
        · rw [List.mem_singleton.mp listed, List.mem_singleton.mp other]
        · cases listed
      subst same
      have zero : (fun l => t.values k l / entering.get k - t.values k l / entering.get k) =
          -fun l => t.values k l / entering.get k - t.values k l / entering.get k := by
        ext l
        simp
      exact positive.not_neg (zero ▸ positive)
    · rw [List.map_cons, narrowBy, if_neg short, ih]
      simp only [mem_narrow_iff, LexPositive, and_imp, and_assoc, not_or, not_and, not_lt,
        sub_nonpos, sub_eq_zero]
      refine and_congr_right fun listed => ⟨?_, ?_⟩
      · -- A tie in this column leaves the decision to the later ones.
        rintro ⟨minimal, later⟩ s other
        refine ⟨minimal s other, fun tie => later s other fun q third => ?_⟩
        exact tie ▸ minimal q third
      · intro minimal
        refine ⟨fun s other => (minimal s other).1, fun s other least => ?_⟩
        exact (minimal s other).2 (le_antisymm (minimal s other).1 (least k listed))

theorem narrowBy_ne_nil (t : Tableau ℚ r c) (entering : Vector ℚ r)
    (js : List (Fin (c + r + 1))) (rows : List (Fin r)) (nonempty : rows ≠ []) :
    t.narrowBy entering (js.map some) rows ≠ [] := by
  induction js generalizing rows with
  | nil => exact nonempty
  | cons j js ih =>
    rw [List.map_cons, narrowBy]
    split
    · exact nonempty
    · exact ih _ (narrow_ne_nil nonempty)

/-- The columns that decide the ratio test, in order. -/
def lexColumns (t : Tableau ℚ r c) : List (Fin (c + r + 1)) :=
  Fin.last (c + r) :: t.referenceColumns.toList.map Fin.castSucc

theorem mem_lexColumns_iff {t : Tableau ℚ r c} {l : Fin (c + r + 1)} :
    l ∈ t.lexColumns ↔ l = Fin.last (c + r) ∨ ∃ q, (t.referenceColumns.get q).castSucc = l := by
  rw [lexColumns, List.mem_cons, List.mem_map]
  refine or_congr_right ⟨?_, ?_⟩
  · rintro ⟨column, member, rfl⟩
    obtain ⟨q, bound, rfl⟩ := List.getElem_of_mem member
    exact ⟨⟨q, by simpa using bound⟩, by simp [Vector.get]⟩
  · rintro ⟨q, rfl⟩
    exact ⟨_, by simp [Vector.get], rfl⟩

theorem mem_positiveRows_iff {column : Vector ℚ r} {i : Fin r} :
    i ∈ positiveRows column ↔ 0 < column.get i := by
  simp [positiveRows, Scalar.isStrictlyPositive_iff]

theorem lexExitRowChecked_eq_ok {t : Tableau ℚ r c} {entering : Vector ℚ r}
    {candidates : List (Fin r)} (defined : ∀ k ∈ candidates, entering.get k ≠ 0) :
    t.lexExitRowChecked entering candidates = .ok (t.lexExitRow entering candidates) := by
  have divisors : candidates.any (fun k => !Scalar.isDivisor (entering.get k)) = false := by
    rw [List.any_eq_false]
    intro k listed
    simp [Scalar.isDivisor_iff.mpr (defined k listed)]
  simp [lexExitRowChecked, divisors]

end Tableau

/-! ### The winner -/

variable {r n : Nat}

/-- Row `i` bounds an entering column before every other row, in the lexicographic order along
the columns `js`. -/
def IsLexExit (values : Matrix (Fin r) (Fin n) ℚ) (js : List (Fin n)) (entering : Fin r → ℚ)
    (i : Fin r) : Prop :=
  0 < entering i ∧ ∀ k, k ≠ i → 0 < entering k →
    LexPositive (fun l => values k l / entering k - values i l / entering i) js

theorem IsLexExit.unique {values : Matrix (Fin r) (Fin n) ℚ} {js : List (Fin n)}
    {entering : Fin r → ℚ} {i k : Fin r} (hi : IsLexExit values js entering i)
    (hk : IsLexExit values js entering k) : i = k := by
  by_contra ne
  have less := hi.2 k (Ne.symm ne) hk.1
  apply less.not_neg
  refine (hk.2 i ne hi.1).congr fun l _ => ?_
  simp

namespace Tableau.Represents

variable {c : Nat} {t : Tableau ℚ r c} {system : Matrix (Fin r) (Fin (c + r + 1)) ℚ}

/-- The labels of the reference have columns, so none of the stages is missing. -/
theorem lexStages_eq (h : t.Represents system) : t.lexStages = t.lexColumns.map some := by
  have column (q : Fin r) : t.basis.column? (t.reference.get q) = some (t.referenceColumns.get q) :=
    Basis.column?_eq_some_iff.mpr (Basis.labelAt_columnsOf (h.anchored q))
  have columns : t.reference.toList.map (fun l => (t.basis.column? l).map Fin.castSucc) =
      t.referenceColumns.toList.map fun j => some j.castSucc := by
    refine List.ext_getElem (by simp) fun q bound _ => ?_
    have found := column ⟨q, by simpa using bound⟩
    simp only [List.getElem_map, Vector.getElem_toList]
    exact congrArg (Option.map Fin.castSucc) found
  rw [lexStages, lexColumns, columns, List.map_cons, List.map_map]
  rfl

/-- The rows of `B⁻¹ B₀` are linearly independent. -/
theorem eq_zero_of_vecMul_reference (h : t.Represents system) {y : Fin r → ℚ}
    (zero : ∀ k, ∑ i, y i * t.values i (t.referenceColumns.get k).castSucc = 0) : y = 0 := by
  have product : basisMatrix system t.basis.columns.get *
      basisMatrix t.values t.referenceColumns.get =
        basisMatrix system t.referenceColumns.get := by
    ext i k
    exact h.reduced.sum_mul i (t.referenceColumns.get k).castSucc
  have regular : (basisMatrix t.values t.referenceColumns.get).det ≠ 0 := by
    intro singular
    apply h.reference
    rw [← product, Matrix.det_mul, singular, mul_zero]
  exact Matrix.eq_zero_of_vecMul_eq_zero regular (funext zero)

/-- Two rows never tie in all the columns that decide the ratio test. -/
theorem exists_ratio_ne (h : t.Represents system) {entering : Fin r → ℚ} {i k : Fin r}
    (ne : k ≠ i) (positive : 0 < entering i) :
    ¬∀ l ∈ t.lexColumns, t.values k l / entering k - t.values i l / entering i = 0 := by
  intro tie
  -- A tie would be a combination of two rows that vanishes at the reference.
  let y : Fin r → ℚ := Pi.single k (1 / entering k) - Pi.single i (1 / entering i)
  have dependent : y = 0 := by
    apply h.eq_zero_of_vecMul_reference
    intro q
    have equal := tie _ (mem_lexColumns_iff.mpr (Or.inr ⟨q, rfl⟩))
    simp only [y, Pi.sub_apply, sub_mul, Finset.sum_sub_distrib, Pi.single_apply, ite_mul, zero_mul,
      Finset.sum_ite_eq', Finset.mem_univ, if_true]
    rw [← equal]
    ring
  have entry := congrFun dependent i
  simp [y, Ne.symm ne, positive.ne'] at entry

/-- The ratio test among rows where a column is positive finds the one that bounds it before all
others. -/
theorem lexExitRow_eq_some (h : t.Represents system) {entering : Vector ℚ r}
    {candidates : List (Fin r)} (nonempty : candidates ≠ [])
    (positive : ∀ k ∈ candidates, 0 < entering.get k) :
    ∃ i ∈ candidates, t.lexExitRow entering candidates = some i ∧ ∀ k ∈ candidates, k ≠ i →
      LexPositive (fun l => t.values k l / entering.get k - t.values i l / entering.get i)
        t.lexColumns := by
  obtain ⟨i, rest, remaining⟩ :=
    List.exists_cons_of_ne_nil (t.narrowBy_ne_nil entering t.lexColumns _ nonempty)
  have member : i ∈ t.narrowBy entering (t.lexColumns.map some) candidates := by simp [remaining]
  obtain ⟨listed, minimal⟩ := (t.mem_narrowBy_iff _ _ _ _).mp member
  refine ⟨i, listed, by rw [lexExitRow, h.lexStages_eq, remaining, List.head?_cons],
    fun k other ne => ?_⟩
  -- No other row is below the first one kept, and none ties with it throughout.
  rcases lexPositive_trichotomy
    (fun l => t.values k l / entering.get k - t.values i l / entering.get i) t.lexColumns with
    greater | less | tie
  · exact greater
  · refine absurd (less.congr fun l _ => ?_) (minimal k other)
    simp
  · exact absurd tie (h.exists_ratio_ne ne (positive i listed))

/-- The ratio test among the rows where a column is positive finds the row that bounds it first,
unless there is no such row. -/
theorem lexExitRow_cases (h : t.Represents system) (entering : Vector ℚ r) :
    ((∀ i, entering.get i ≤ 0) ∧ positiveRows entering = [] ∧
      t.lexExitRow entering (positiveRows entering) = none) ∨
    ∃ i, positiveRows entering ≠ [] ∧ t.lexExitRow entering (positiveRows entering) = some i ∧
      IsLexExit t.values t.lexColumns entering.get i := by
  by_cases empty : positiveRows entering = []
  · left
    refine ⟨fun i => ?_, empty, ?_⟩
    · by_contra positive
      have member := mem_positiveRows_iff.mpr (not_le.mp positive)
      rw [empty] at member
      cases member
    · have none : t.narrowBy entering t.lexStages [] = [] := by simp [lexStages, narrowBy]
      rw [empty, lexExitRow, none, List.head?_nil]
  · right
    obtain ⟨i, listed, found, first⟩ :=
      h.lexExitRow_eq_some empty fun k member => mem_positiveRows_iff.mp member
    exact ⟨i, empty, found, mem_positiveRows_iff.mp listed,
      fun k ne positive => first k (mem_positiveRows_iff.mpr positive) ne⟩

end Tableau.Represents

end LexPivot
