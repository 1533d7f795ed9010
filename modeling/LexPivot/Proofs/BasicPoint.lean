import Mathlib
import LexPivot.Proofs.Representation

/-!
# Basic solutions as points

A tableau stands at a point: its basic columns have the values in the last column, all others are
zero. The point solves the system, and the basic solution of the tableau lists its coordinates that
are not zero.
-/
namespace LexPivot

open Matrix

/-! ### Basic solutions as maps -/

namespace BasicSolution

variable {α : Type}

private theorem lookup_entry (k : Label) (entry : Label × α) (rest : List (Label × α)) :
    (entry :: rest).lookup k = if k = entry.1 then some entry.2 else rest.lookup k := by
  obtain ⟨l, x⟩ := entry
  rw [List.lookup_cons]
  by_cases same : k = l
  · simp [same]
  · have differs : (k == l) = false := by simpa using same
    simp [same, differs]

theorem lookup_insertEntry (l k : Label) (x : α) (entries : List (Label × α)) :
    (insertEntry l x entries).lookup k = if k = l then some x else entries.lookup k := by
  induction entries with
  | nil => rw [insertEntry, lookup_entry]
  | cons entry rest ih =>
    -- The entry goes before the head, takes its place, or goes further down.
    unfold insertEntry
    by_cases before : l.precedes entry.1 = true
    · rw [if_pos before, lookup_entry]
    · rw [if_neg before]
      by_cases replaced : l = entry.1
      · rw [if_pos replaced, lookup_entry, lookup_entry, replaced]
        by_cases same : k = entry.1
        · simp only [same, if_true]
        · simp only [same, if_false]
      · rw [if_neg replaced, lookup_entry, lookup_entry, ih]
        by_cases own : k = entry.1
        · simp only [own, if_true, if_neg (Ne.symm replaced)]
        · simp only [own, if_false]

theorem mem_insertEntry {l : Label} {x : α} {entries : List (Label × α)} {entry : Label × α}
    (member : entry ∈ insertEntry l x entries) : entry = (l, x) ∨ entry ∈ entries := by
  induction entries with
  | nil => simpa [insertEntry] using member
  | cons head rest ih =>
    unfold insertEntry at member
    split at member
    · simpa using member
    · split at member
      · rcases List.mem_cons.mp member with first | later
        · exact Or.inl first
        · exact Or.inr (by simp [later])
      · rcases List.mem_cons.mp member with first | later
        · exact Or.inr (by simp [first])
        · rcases ih later with new | old
          · exact Or.inl new
          · exact Or.inr (by simp [old])

private theorem get?_foldl_of_not_mem {entries : List (Label × α)} {l : Label}
    (absent : l ∉ entries.map Prod.fst) (s : BasicSolution α) :
    (entries.foldl (fun s entry => s.insert entry.1 entry.2) s).get? l = s.get? l := by
  induction entries generalizing s with
  | nil => rfl
  | cons entry rest ih =>
    simp only [List.map_cons, List.mem_cons, not_or] at absent
    rw [List.foldl_cons, ih absent.2, get?, insert, lookup_insertEntry, if_neg absent.1]
    rfl

private theorem get?_foldl_of_mem {entries : List (Label × α)} {l : Label} {x : α}
    (distinct : (entries.map Prod.fst).Nodup) (member : (l, x) ∈ entries) (s : BasicSolution α) :
    (entries.foldl (fun s entry => s.insert entry.1 entry.2) s).get? l = some x := by
  induction entries generalizing s with
  | nil => cases member
  | cons entry rest ih =>
    rw [List.map_cons, List.nodup_cons] at distinct
    rw [List.foldl_cons]
    rcases List.mem_cons.mp member with rfl | later
    · -- The entries after this one have other labels and do not replace it.
      rw [get?_foldl_of_not_mem distinct.1, get?, insert, lookup_insertEntry, if_pos rfl]
    · exact ih distinct.2 later _

private theorem mem_entries_foldl {entries : List (Label × α)} {entry : Label × α}
    (s : BasicSolution α)
    (member : entry ∈ (entries.foldl (fun s entry => s.insert entry.1 entry.2) s).entries) :
    entry ∈ s.entries ∨ entry ∈ entries := by
  induction entries generalizing s with
  | nil => exact Or.inl member
  | cons head rest ih =>
    rcases ih _ member with earlier | later
    · rcases mem_insertEntry earlier with new | old
      · exact Or.inr (by simp [new])
      · exact Or.inl old
    · exact Or.inr (by simp [later])

theorem mem_of_mem_ofList {entries : List (Label × α)} {entry : Label × α}
    (member : entry ∈ (ofList entries).entries) : entry ∈ entries := by
  rcases mem_entries_foldl empty member with absurd | listed
  · cases absurd
  · exact listed

theorem get?_ofList_of_mem {entries : List (Label × α)} {l : Label} {x : α}
    (distinct : (entries.map Prod.fst).Nodup) (member : (l, x) ∈ entries) :
    (ofList entries).get? l = some x :=
  get?_foldl_of_mem distinct member empty

theorem mem_ofList_iff {entries : List (Label × α)} (distinct : (entries.map Prod.fst).Nodup)
    {entry : Label × α} : entry ∈ (ofList entries).entries ↔ entry ∈ entries := by
  refine ⟨mem_of_mem_ofList, fun listed => ?_⟩
  obtain ⟨before, after, found, _⟩ :=
    List.lookup_eq_some_iff.mp (get?_ofList_of_mem distinct listed)
  simp [found]

theorem get?_ofList_of_not_mem {entries : List (Label × α)} {l : Label}
    (absent : l ∉ entries.map Prod.fst) : (ofList entries).get? l = none :=
  get?_foldl_of_not_mem absent empty

theorem get?_filterLabels (p : Label → Bool) (s : BasicSolution α) {l : Label} (kept : p l = true) :
    (s.filterLabels p).get? l = s.get? l := by
  unfold filterLabels get?
  induction s.entries with
  | nil => rfl
  | cons entry rest ih =>
    by_cases listed : p entry.1 = true
    · simp only [List.filter_cons, listed, if_true, lookup_entry] at ih ⊢
      rw [ih]
    · have other : l ≠ entry.1 := fun own => listed (own ▸ kept)
      simp only [List.filter_cons, listed, lookup_entry, if_neg other] at ih ⊢
      exact ih

theorem isEmpty_eq_false_of_get? {s : BasicSolution α} {l : Label} {x : α}
    (found : s.get? l = some x) : s.isEmpty = false := by
  cases entries : s.entries with
  | nil => simp [get?, entries] at found
  | cons entry rest => simp [isEmpty, entries]

end BasicSolution

/-! ### The point of a basis and the rays from it -/

section BasicPoint

variable {r n : Nat} {system reduced : Matrix (Fin r) (Fin (n + 1)) ℚ} {columns : Fin r → Fin n}

/-- The values of the rows on their basic columns, and zero on all others. -/
def spread (columns : Fin r → Fin n) (x : Fin r → ℚ) (j : Fin n) : ℚ :=
  ∑ i, if columns i = j then x i else 0

theorem spread_basic (distinct : Function.Injective columns) (x : Fin r → ℚ) (i : Fin r) :
    spread columns x (columns i) = x i := by
  simp [spread, distinct.eq_iff]

theorem spread_nonbasic (x : Fin r → ℚ) {j : Fin n} (nonbasic : ∀ i, columns i ≠ j) :
    spread columns x j = 0 := by
  simp [spread, nonbasic]

theorem spread_nonneg {x : Fin r → ℚ} (nonneg : ∀ i, 0 ≤ x i) (j : Fin n) :
    0 ≤ spread columns x j := by
  refine Finset.sum_nonneg fun i _ => ?_
  split
  · exact nonneg i
  · exact le_rfl

theorem sum_mul_spread (f : Fin n → ℚ) (x : Fin r → ℚ) :
    ∑ j, f j * spread columns x j = ∑ i, f (columns i) * x i := by
  simp only [spread, Finset.mul_sum, mul_ite, mul_zero]
  -- Summed over the columns first, every row contributes at its own column only.
  rw [Finset.sum_comm]
  refine Finset.sum_congr rfl fun i _ => ?_
  rw [Finset.sum_ite_eq Finset.univ (columns i), if_pos (Finset.mem_univ _)]

/-- The solution in which every column that is not basic is zero. -/
def basicPoint (reduced : Matrix (Fin r) (Fin (n + 1)) ℚ) (columns : Fin r → Fin n) : Fin n → ℚ :=
  spread columns fun i => reduced i (Fin.last n)

/-- How the basic columns make up for a unit of column `j`. -/
def basicRay (reduced : Matrix (Fin r) (Fin (n + 1)) ℚ) (columns : Fin r → Fin n) (j : Fin n) :
    Fin n → ℚ :=
  Pi.single j 1 + spread columns fun i => -reduced i j.castSucc

/-- Whether a change of the columns keeps every equation. -/
def IsDirection (system : Matrix (Fin r) (Fin (n + 1)) ℚ) (d : Fin n → ℚ) : Prop :=
  ∀ i, ∑ j, system i j.castSucc * d j = 0

theorem Solves.add_direction {z d : Fin n → ℚ} (solves : Solves system z)
    (direction : IsDirection system d) (θ : ℚ) : Solves system (z + θ • d) := by
  intro i
  have term (j : Fin n) : system i j.castSucc * (z + θ • d) j =
      system i j.castSucc * z j + θ * (system i j.castSucc * d j) := by
    rw [Pi.add_apply, Pi.smul_apply, smul_eq_mul]
    ring
  rw [Finset.sum_congr rfl fun j _ => term j, Finset.sum_add_distrib, ← Finset.mul_sum, solves i,
    direction i, mul_zero, add_zero]

theorem sum_mul_basicRay (f : Fin n → ℚ) (j : Fin n) :
    ∑ l, f l * basicRay reduced columns j l = f j - ∑ i, f (columns i) * reduced i j.castSucc := by
  simp only [basicRay, Pi.add_apply, mul_add, Finset.sum_add_distrib, sum_mul_spread, mul_neg,
    Finset.sum_neg_distrib, ← sub_eq_add_neg]
  congr 1
  rw [Finset.sum_eq_single j]
  · rw [Pi.single_eq_same, mul_one]
  · intro l _ ne
    rw [Pi.single_eq_of_ne ne, mul_zero]
  · exact fun absent => absurd (Finset.mem_univ j) absent

theorem basicRay_nonneg {j : Fin n} (nonpos : ∀ i, reduced i j.castSucc ≤ 0) (l : Fin n) :
    0 ≤ basicRay reduced columns j l := by
  refine add_nonneg ?_ (spread_nonneg (fun i => neg_nonneg.mpr (nonpos i)) l)
  rw [Pi.single_apply]
  split <;> simp

theorem basicRay_self {j : Fin n} (nonbasic : ∀ i, columns i ≠ j) :
    basicRay reduced columns j j = 1 := by
  rw [basicRay, Pi.add_apply, Pi.single_eq_same, spread_nonbasic _ nonbasic, add_zero]

theorem eq_or_basic_of_basicRay_ne_zero {j l : Fin n}
    (nonzero : basicRay reduced columns j l ≠ 0) : l = j ∨ ∃ i, columns i = l := by
  by_contra absent
  rw [not_or, not_exists] at absent
  apply nonzero
  rw [basicRay, Pi.add_apply, Pi.single_eq_of_ne absent.1, spread_nonbasic _ absent.2, add_zero]

theorem basicRay_basic (distinct : Function.Injective columns) {j : Fin n} {i : Fin r}
    (ne : columns i ≠ j) : basicRay reduced columns j (columns i) = -reduced i j.castSucc := by
  rw [basicRay, Pi.add_apply, Pi.single_eq_of_ne ne, spread_basic distinct, zero_add]

namespace Reduced

theorem solves_basicPoint (h : Reduced system columns reduced) :
    Solves system (basicPoint reduced columns) := by
  intro i
  rw [basicPoint, sum_mul_spread fun j => system i j.castSucc]
  exact h.sum_mul i (Fin.last n)

theorem isDirection_basicRay (h : Reduced system columns reduced) (j : Fin n) :
    IsDirection system (basicRay reduced columns j) := by
  intro i
  rw [sum_mul_basicRay fun l => system i l.castSucc, h.sum_mul i j.castSucc, sub_self]

end Reduced

end BasicPoint

/-- A row of `[A | -I]` is a row of `A` less the slack of the row. -/
theorem sum_systemMatrix {r c : Nat} (a : Grid ℚ r c) (b : Vector ℚ r) (z : Fin (c + r) → ℚ)
    (i : Fin r) : ∑ j, Tableau.systemMatrix a b i j.castSucc * z j =
      ∑ k, a.entry i k * z (Fin.castAdd r k) - z (Fin.natAdd c i) := by
  rw [Fin.sum_univ_add]
  simp only [Tableau.systemMatrix_structural, Tableau.systemMatrix_slack, ite_mul, zero_mul,
    neg_one_mul, Finset.sum_ite_eq', Finset.mem_univ, if_true, sub_eq_add_neg]

namespace Tableau

variable {r c : Nat} {t : Tableau ℚ r c} {system : Matrix (Fin r) (Fin (c + r + 1)) ℚ}

/-- The point at which a tableau stands. -/
def point (t : Tableau ℚ r c) : Fin (c + r) → ℚ := basicPoint t.values t.basis.columns.get

theorem exists_row_of_point_ne_zero {j : Fin (c + r)} (nonzero : t.point j ≠ 0) :
    ∃ i, t.basis.columns.get i = j := by
  by_contra absent
  exact nonzero (spread_nonbasic _ fun i held => absent ⟨i, held⟩)

theorem Represents.point_basic (h : t.Represents system) (i : Fin r) :
    t.point (t.basis.columns.get i) = t.values i (Fin.last (c + r)) :=
  spread_basic h.distinct _ i

theorem Represents.solves_point (h : t.Represents system) : Solves system t.point :=
  h.reduced.solves_basicPoint

/-- The value of a label is the coordinate of its column, and where there is none it is zero. -/
theorem Represents.basicValue_cases (h : t.Represents system) (j : Fin (c + r)) :
    t.basicValue (t.basis.labelAt j) = .ok (t.point j) ∨
    (∃ e, t.basicValue (t.basis.labelAt j) = .error e) ∧ t.point j = 0 := by
  have row (i : Fin r) : t.basis.position? (t.basis.labelAt j) = some i ↔
      t.basis.columns.get i = j :=
    (h.consistent.position_iff _ i).trans h.consistent.rowLabel_eq_labelAt_iff
  cases position : t.basis.position? (t.basis.labelAt j) with
  | none =>
    refine Or.inr ⟨⟨_, by simp only [basicValue, Basis.find, position]; rfl⟩, ?_⟩
    by_contra nonzero
    obtain ⟨i, held⟩ := exists_row_of_point_ne_zero nonzero
    have found := (row i).mpr held
    rw [position] at found
    cases found
  | some i =>
    left
    have held := (row i).mp position
    rw [← held, h.point_basic, held]
    simp only [basicValue, Basis.find, position, get_basicVector]

private theorem mem_listed {l : Label} {x : ℚ} :
    (l, x) ∈ ((List.finRange r).filterMap fun i =>
      let l := t.basis.rowLabel i
      if l.isStructural && !Scalar.isNegligible (t.basicVector.get i) then
        some (l, t.basicVector.get i) else none) ↔
    ∃ i, t.basis.rowLabel i = l ∧ l.isStructural = true ∧ t.values i (Fin.last (c + r)) = x ∧
      x ≠ 0 := by
  simp only [List.mem_filterMap, List.mem_finRange, true_and]
  refine exists_congr fun i => ?_
  have negligible : (!Scalar.isNegligible (t.values i (Fin.last (c + r)))) = true ↔
      t.values i (Fin.last (c + r)) ≠ 0 := by
    rw [Bool.not_eq_true', ← Bool.not_eq_true, Scalar.isNegligible_iff]
  rw [ite_eq_iff]
  simp only [get_basicVector, Bool.and_eq_true, negligible, reduceCtorEq, and_false, or_false,
    Option.some.injEq, Prod.mk.injEq]
  constructor
  · rintro ⟨⟨structural, nonzero⟩, rfl, rfl⟩
    exact ⟨rfl, structural, rfl, nonzero⟩
  · rintro ⟨rfl, structural, rfl, nonzero⟩
    exact ⟨⟨structural, nonzero⟩, rfl, rfl⟩

private theorem nodup_listed (consistent : t.basis.Consistent) :
    (((List.finRange r).filterMap fun i =>
      let l := t.basis.rowLabel i
      if l.isStructural && !Scalar.isNegligible (t.basicVector.get i) then
        some (l, t.basicVector.get i) else none).map Prod.fst).Nodup := by
  rw [List.map_filterMap]
  refine (List.nodup_finRange r).filterMap fun i k l hi hk => ?_
  have label {q : Fin r} (listed : l ∈ Option.map Prod.fst
      (if (t.basis.rowLabel q).isStructural && !Scalar.isNegligible (t.basicVector.get q) then
        some (t.basis.rowLabel q, t.basicVector.get q) else none)) : t.basis.rowLabel q = l := by
    split at listed
    · simpa using listed
    · simp at listed
  exact consistent.rowLabel_injective ((label hi).trans (label hk).symm)

/-- The basic solution lists the coordinates of the structural labels that are not zero. -/
theorem mem_basicSolution_iff (consistent : t.basis.Consistent) {l : Label}
    {x : ℚ} : (l, x) ∈ t.basicSolution.entries ↔
      ∃ j, t.basis.labelAt j = l ∧ l.isStructural = true ∧ t.point j = x ∧ x ≠ 0 := by
  have value (i : Fin r) : t.point (t.basis.columns.get i) = t.values i (Fin.last (c + r)) :=
    spread_basic consistent.distinct _ i
  rw [basicSolution, BasicSolution.mem_ofList_iff (nodup_listed consistent), mem_listed]
  constructor
  · rintro ⟨i, label, structural, rfl, nonzero⟩
    exact ⟨_, (consistent.rowLabel_eq i).symm.trans label, structural, value i, nonzero⟩
  · rintro ⟨j, label, structural, rfl, nonzero⟩
    obtain ⟨i, rfl⟩ := exists_row_of_point_ne_zero nonzero
    exact ⟨i, (consistent.rowLabel_eq i).trans label, structural, (value i).symm, nonzero⟩

private theorem get?_basicSolution_of_nonzero (consistent : t.basis.Consistent)
    {i : Fin r} {k : Nat} (label : t.basis.rowLabel i = .structural k)
    (nonzero : t.values i (Fin.last (c + r)) ≠ 0) :
    t.basicSolution.get? (.structural k) = some (t.values i (Fin.last (c + r))) :=
  BasicSolution.get?_ofList_of_mem (nodup_listed consistent)
    (mem_listed.mpr ⟨i, label, rfl, rfl, nonzero⟩)

/-- A part of the basic solution has the coordinates of the point. -/
theorem get_filterLabels_basicSolution (consistent : t.basis.Consistent)
    {p : Label → Bool} {j : Fin (c + r)} {k : Nat} (label : t.basis.labelAt j = .structural k)
    (kept : p (.structural k) = true) :
    (t.basicSolution.filterLabels p).get (.structural k) = t.point j := by
  rw [BasicSolution.get, BasicSolution.get?_filterLabels p _ kept]
  -- A coordinate that is zero is not listed, whether or not its column is basic.
  by_cases listed : ∃ i, t.basis.columns.get i = j ∧ t.values i (Fin.last (c + r)) ≠ 0
  · obtain ⟨i, rfl, nonzero⟩ := listed
    rw [← consistent.rowLabel_eq] at label
    rw [get?_basicSolution_of_nonzero consistent label nonzero, point, basicPoint,
      spread_basic consistent.distinct]
    rfl
  · have absent : t.basicSolution.get? (.structural k) = none := by
      apply BasicSolution.get?_ofList_of_not_mem
      intro member
      obtain ⟨⟨l, x⟩, entry, rfl⟩ := List.mem_map.mp member
      obtain ⟨i, row, _, rfl, nonzero⟩ := mem_listed.mp entry
      exact listed ⟨i, consistent.rowLabel_eq_labelAt_iff.mp (row.trans label.symm), nonzero⟩
    have zero : t.point j = 0 := by
      by_cases basic : ∃ i, t.basis.columns.get i = j
      · obtain ⟨i, rfl⟩ := basic
        by_contra nonzero
        rw [point, basicPoint, spread_basic consistent.distinct] at nonzero
        exact listed ⟨i, rfl, nonzero⟩
      · exact spread_nonbasic _ fun i held => basic ⟨i, held⟩
    rw [absent, zero]
    rfl

/-- A part of the basic solution is empty when the point is zero on the labels kept. -/
theorem isEmpty_filterLabels_basicSolution (consistent : t.basis.Consistent)
    (p : Label → Bool) :
    (t.basicSolution.filterLabels p).isEmpty = false ↔
      ∃ i, (t.basis.rowLabel i).isStructural = true ∧ p (t.basis.rowLabel i) = true ∧
        t.values i (Fin.last (c + r)) ≠ 0 := by
  constructor
  · intro nonempty
    rw [BasicSolution.isEmpty, List.isEmpty_eq_false_iff_exists_mem] at nonempty
    obtain ⟨⟨l, x⟩, member⟩ := nonempty
    obtain ⟨member, kept⟩ := List.mem_filter.mp member
    obtain ⟨i, rfl, structural, rfl, nonzero⟩ :=
      mem_listed.mp (BasicSolution.mem_of_mem_ofList member)
    exact ⟨i, structural, kept, nonzero⟩
  · rintro ⟨i, structural, kept, nonzero⟩
    cases label : t.basis.rowLabel i with
    | structural k =>
      rw [label] at kept
      apply BasicSolution.isEmpty_eq_false_of_get? (l := .structural k)
      rw [BasicSolution.get?_filterLabels p _ kept]
      exact get?_basicSolution_of_nonzero consistent label nonzero
    | slack k =>
      rw [label] at structural
      cases structural

end Tableau

end LexPivot
