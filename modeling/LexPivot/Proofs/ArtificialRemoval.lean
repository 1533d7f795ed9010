import Mathlib
import LexPivot.Proofs.SimplexStart

/-!
# Removing the artificial columns

An artificial column that is basic at zero is exchanged for any column that can take its row. Since
its value is zero, the point does not move, whatever the sign of the pivot. If no column that is not
blocked can take the row, they all vanish in it, and later pivots leave the row alone.
-/
namespace LexPivot

open Matrix SimplexTableau

namespace Tableau

variable {r c : Nat} {t : Tableau ℚ r c} {system : Matrix (Fin r) (Fin (c + r + 1)) ℚ}

/-- A tableau while the labels of a list are still to be removed: every row with a blocked column
has the value zero, and is sealed unless its label is pending. -/
structure Removing (system : Matrix (Fin r) (Fin (c + r + 1)) ℚ) (pending : List Label)
    (t : Tableau ℚ r c) : Prop where
  represents : t.Represents system
  nonneg : ∀ i, 0 ≤ t.values i (Fin.last (c + r))
  stuck : ∀ i, t.basis.blocked.get (t.basis.columns.get i) = true →
    t.values i (Fin.last (c + r)) = 0
  settled : ∀ i, t.basis.blocked.get (t.basis.columns.get i) = true →
    t.basis.rowLabel i ∉ pending → ∀ j, t.basis.blocked.get j = false → t.values i j.castSucc = 0
  blocked : ∀ j, t.basis.labelAt j ∈ pending → t.basis.blocked.get j = true

namespace Removing

variable {l : Label} {pending : List Label}

theorem sealed (h : Removing system [] t) : t.Sealed :=
  fun i held => ⟨h.stuck i held, h.settled i held List.not_mem_nil⟩

/-- A label is done with when the row that holds it, if any, is sealed. -/
theorem tail (h : Removing system (l :: pending) t)
    (settled : ∀ i, t.basis.rowLabel i = l → t.basis.blocked.get (t.basis.columns.get i) = true →
      ∀ j, t.basis.blocked.get j = false → t.values i j.castSucc = 0) :
    Removing system pending t where
  represents := h.represents
  nonneg := h.nonneg
  stuck := h.stuck
  settled i held absent := by
    by_cases label : t.basis.rowLabel i = l
    · exact settled i label held
    · exact h.settled i held (by simp [label, absent])
  blocked j listed := h.blocked j (List.mem_cons_of_mem l listed)

theorem values_last_exchangeColumn (h : t.Represents system) {i : Fin r} {j : Fin (c + r)}
    (zero : t.values i (Fin.last (c + r)) = 0) (nonzero : t.values i j.castSucc ≠ 0) (k : Fin r) :
    (t.exchangeColumn i j).values k (Fin.last (c + r)) = t.values k (Fin.last (c + r)) := by
  rw [h.values_exchangeColumn nonzero]
  by_cases same : k = i
  · rw [same, pivoted_self, zero, zero_div]
  · rw [pivoted_ne _ _ _ same, zero, zero_div, mul_zero, sub_zero]

theorem point_exchangeColumn (h : t.Represents system) {i : Fin r} {j : Fin (c + r)}
    (zero : t.values i (Fin.last (c + r)) = 0) (nonzero : t.values i j.castSucc ≠ 0) :
    (t.exchangeColumn i j).point = t.point := by
  ext q
  simp only [point, basicPoint, spread]
  refine Finset.sum_congr rfl fun k _ => ?_
  rw [values_last_exchangeColumn h zero nonzero, columns_exchangeColumn]
  by_cases same : k = i
  · simp [same, zero]
  · rw [Function.update_of_ne same]

/-- Removing a label from a row in which another column can take its place. -/
theorem exchangeColumn (h : Removing system (l :: pending) t) {i : Fin r} {j : Fin (c + r)}
    (label : t.basis.rowLabel i = l) (free : t.basis.blocked.get j = false)
    (nonzero : t.values i j.castSucc ≠ 0) :
    Removing system pending (t.exchangeColumn i j) ∧ (t.exchangeColumn i j).point = t.point := by
  have held : t.basis.blocked.get (t.basis.columns.get i) = true :=
    h.blocked _ (by rw [← h.represents.consistent.rowLabel_eq, label]; exact List.mem_cons_self)
  have zero := h.stuck i held
  have last := values_last_exchangeColumn h.represents zero nonzero
  refine ⟨⟨h.represents.exchangeColumn nonzero, fun k => ?_, fun k held => ?_,
    fun k held absent q free' => ?_, fun q listed => ?_⟩,
    point_exchangeColumn h.represents zero nonzero⟩
  · rw [last]
    exact h.nonneg k
  · rw [last]
    exact h.stuck k (blocked_stays_exchangeColumn free held).2.1
  · obtain ⟨ne, before, _⟩ := blocked_stays_exchangeColumn free held
    rw [blocked_exchangeColumn] at free'
    have other : t.basis.rowLabel k ∉ l :: pending := by
      rw [rowLabel_exchangeColumn, if_neg ne] at absent
      rw [List.mem_cons, not_or, ← label]
      exact ⟨fun equal => ne (h.represents.consistent.rowLabel_injective equal), absent⟩
    -- A sealed row vanishes in the entering column, so the pivot leaves it alone.
    rw [h.represents.values_exchangeColumn nonzero, pivoted_ne _ _ _ ne,
      h.settled k before other j free, zero_mul, sub_zero]
    exact h.settled k before other q free'
  · rw [labelAt_exchangeColumn] at listed
    rw [blocked_exchangeColumn]
    exact h.blocked q (List.mem_cons_of_mem l listed)

end Removing

/-- `t'` is `t` with some of the labels removed. A row that held none of them keeps its column, and
a column that took a row is not blocked. -/
structure Removed (labels : List Label) (t t' : Tableau ℚ r c) : Prop where
  point : t'.point = t.point
  first : t'.basis.first = t.basis.first
  blocked : t'.basis.blocked = t.basis.blocked
  columns : ∀ i, t'.basis.columns.get i = t.basis.columns.get i ∨
    t.basis.labelAt (t.basis.columns.get i) ∈ labels ∧
      t.basis.blocked.get (t'.basis.columns.get i) = false

namespace Removed

theorem refl (labels : List Label) (t : Tableau ℚ r c) : Removed labels t t :=
  ⟨rfl, rfl, rfl, fun _ => Or.inl rfl⟩

theorem cons {l : Label} {labels : List Label} {t t₁ t' : Tableau ℚ r c} (h : Removed [l] t t₁)
    (h' : Removed labels t₁ t') : Removed (l :: labels) t t' := by
  refine ⟨h'.point.trans h.point, h'.first.trans h.first, h'.blocked.trans h.blocked, fun i => ?_⟩
  rcases h'.columns i with same | ⟨listed, free⟩
  · rw [same]
    exact (h.columns i).imp_right fun ⟨label, free⟩ =>
      ⟨List.mem_cons.mpr (Or.inl (List.mem_singleton.mp label)), free⟩
  · -- The row got a new column last, whether or not it had been given one before.
    rw [h.blocked] at free
    refine Or.inr ⟨?_, free⟩
    rcases h.columns i with before | ⟨label, _⟩
    · rw [before, Basis.labelAt_of_first h.first] at listed
      exact List.mem_cons_of_mem l listed
    · exact List.mem_cons.mpr (Or.inl (List.mem_singleton.mp label))

end Removed

end Tableau

namespace SimplexTableau

open Tableau

variable {r v a : Nat} {t : Tableau ℚ r (v + a)}
  {system : Matrix (Fin r) (Fin (v + a + r + 1)) ℚ}

/-- A column that may enter in a row, and when there is none, the row is sealed. -/
theorem replacement?_cases (costs : Vector ℚ (v + a)) (h : t.Represents system) (i : Fin r) :
    (∃ j, replacement? ⟨a, t, costs⟩ i = some j ∧ (∀ k, t.basis.columns.get k ≠ j) ∧
      t.basis.blocked.get j = false ∧ t.values i j.castSucc ≠ 0) ∨
    (replacement? ⟨a, t, costs⟩ i = none ∧
      (t.basis.blocked.get (t.basis.columns.get i) = true →
        ∀ j, t.basis.blocked.get j = false → t.values i j.castSucc = 0)) := by
  have condition (j : Fin (v + a + r)) : (mayEnter ⟨a, t, costs⟩ j &&
      !Scalar.isNegligible ((t.reducedColumn j).get i)) = true ↔
      ((∀ k, t.basis.columns.get k ≠ j) ∧ t.basis.blocked.get j = false) ∧
        t.values i j.castSucc ≠ 0 := by
    rw [Bool.and_eq_true, Bool.not_eq_true', ← Bool.not_eq_true, Scalar.isNegligible_iff]
    exact and_congr_left fun _ => mayEnter_iff (s := ⟨a, t, costs⟩) h.consistent
  cases found : replacement? ⟨a, t, costs⟩ i with
  | some j =>
    have accepted := List.find?_some found
    obtain ⟨⟨nonbasic, free⟩, nonzero⟩ := (condition j).mp accepted
    exact Or.inl ⟨j, rfl, nonbasic, free, nonzero⟩
  | none =>
    refine Or.inr ⟨rfl, fun held j free => ?_⟩
    have refused := List.find?_eq_none.mp found j (List.mem_finRange j)
    -- A basic column that is not blocked sits in another row.
    by_cases basic : ∃ k, t.basis.columns.get k = j
    · obtain ⟨k, rfl⟩ := basic
      apply h.reduced.apply_ne
      rintro rfl
      rw [held] at free
      cases free
    · by_contra nonzero
      exact refused ((condition j).mpr ⟨⟨fun k column => basic ⟨k, column⟩, free⟩, nonzero⟩)

/-- What removing one label comes to: the row that holds it, if any, is sealed, or a column that is
not blocked takes the row. -/
theorem removeArtificial_cases (costs : Vector ℚ (v + a)) (h : t.Represents system) (l : Label) :
    (removeArtificial ⟨a, t, costs⟩ l = ⟨.ok (), ⟨a, t, costs⟩⟩ ∧
      ∀ i, t.basis.rowLabel i = l → t.basis.blocked.get (t.basis.columns.get i) = true →
        ∀ j, t.basis.blocked.get j = false → t.values i j.castSucc = 0) ∨
    ∃ i j, t.basis.rowLabel i = l ∧ t.basis.blocked.get j = false ∧ t.values i j.castSucc ≠ 0 ∧
      removeArtificial ⟨a, t, costs⟩ l = ⟨.ok (), ⟨a, t.exchangeColumn i j, costs⟩⟩ := by
  cases position : t.basis.position? l with
  | none =>
    refine Or.inl ⟨by simp only [removeArtificial, position], fun i label => ?_⟩
    rw [← h.consistent.position_iff, position] at label
    cases label
  | some i =>
    have label := (h.consistent.position_iff l i).mp position
    rcases replacement?_cases costs h i with ⟨j, found, nonbasic, free, nonzero⟩ | ⟨none, zeros⟩
    · refine Or.inr ⟨i, j, label, free, nonzero, ?_⟩
      have pivots := h.pivot_eq_ok nonbasic nonzero
      simp only [removeArtificial, position, found, pivots]
    · refine Or.inl ⟨by simp only [removeArtificial, position, none], fun k same => ?_⟩
      have row : k = i := h.consistent.rowLabel_injective (same.trans label.symm)
      exact row ▸ zeros

theorem removeArtificial_eq_ok (costs : Vector ℚ (v + a)) {l : Label} {pending : List Label}
    (h : Removing system (l :: pending) t) :
    ∃ t', removeArtificial ⟨a, t, costs⟩ l = ⟨.ok (), ⟨a, t', costs⟩⟩ ∧
      Removing system pending t' ∧ Removed [l] t t' := by
  rcases removeArtificial_cases costs h.represents l with
    ⟨same, settled⟩ | ⟨i, j, label, free, nonzero, done⟩
  · exact ⟨t, same, h.tail settled, .refl [l] t⟩
  · obtain ⟨removing, point⟩ := h.exchangeColumn label free nonzero
    refine ⟨t.exchangeColumn i j, done, removing, point, t.first_exchangeColumn i j,
      t.blocked_exchangeColumn i j, fun k => ?_⟩
    rw [columns_exchangeColumn, Function.update_apply]
    split
    next here =>
      rw [here, ← h.represents.consistent.rowLabel_eq, label]
      exact Or.inr ⟨List.mem_singleton_self l, free⟩
    next => exact Or.inl rfl

/-- Removing all labels seals the tableau where it stands. -/
theorem removeEach_eq_ok (costs : Vector ℚ (v + a)) {labels : List Label}
    (h : Removing system labels t) :
    ∃ t', removeEach labels ⟨a, t, costs⟩ = ⟨.ok (), ⟨a, t', costs⟩⟩ ∧
      Removing system [] t' ∧ Removed labels t t' := by
  induction labels generalizing t with
  | nil => exact ⟨t, rfl, h, .refl [] t⟩
  | cons l labels ih =>
    obtain ⟨next, done, removing, removed⟩ := removeArtificial_eq_ok costs h
    obtain ⟨final, rest, finished, removed'⟩ := ih removing
    exact ⟨final, by simp only [removeEach, done, rest], finished, removed.cons removed'⟩

theorem labelAt_mem_artificialLabels {costs : Vector ℚ (v + a)} (first : t.basis.first = 1)
    (l : Fin (v + a + r)) :
    t.basis.labelAt l ∈ artificialLabels ⟨a, t, costs⟩ ↔ ∃ q, l = artificialColumn q := by
  simp only [artificialLabels, List.mem_map, List.mem_range'_1]
  constructor
  · rintro ⟨k, ⟨low, high⟩, label⟩
    obtain ⟨q, rfl⟩ := Nat.exists_eq_add_of_le low
    refine ⟨⟨q, by omega⟩, t.basis.labelAt_injective ?_⟩
    rw [labelAt_artificial first, label]
  · rintro ⟨q, rfl⟩
    exact ⟨v + 1 + q, ⟨by omega, by omega⟩, (labelAt_artificial first q).symm⟩

/-- Where all artificial columns are zero, they can be removed without moving the point. -/
theorem removeArtificials_eq_ok (costs : Vector ℚ (v + a)) (represents : t.Represents system)
    (first : t.basis.first = 1) (nonneg : ∀ i, 0 ≤ t.values i (Fin.last (v + a + r)))
    (sealed : t.Sealed) (zero : ∀ q, t.point (artificialColumn q) = 0) :
    ∃ t', removeArtificials ⟨a, t, costs⟩ = ⟨.ok (), ⟨a, t', costs⟩⟩ ∧ t'.Represents system ∧
      t'.basis.first = 1 ∧ (∀ i, 0 ≤ t'.values i (Fin.last (v + a + r))) ∧ t'.Sealed ∧
      t'.point = t.point ∧
      (∀ l, t'.basis.blocked.get l = true ↔
        t.basis.blocked.get l = true ∨ ∃ q, l = artificialColumn q) ∧
      ∀ i, t'.basis.columns.get i = t.basis.columns.get i ∨
        (∃ q, t.basis.columns.get i = artificialColumn q) ∧
          t'.basis.blocked.get (t'.basis.columns.get i) = false := by
  let labels := artificialLabels ⟨a, t, costs⟩
  let marks := labels.foldl (fun t l => t.mark l) t
  have marked : Marked labels t marks := marked_foldl labels t
  have label : marks.basis.labelAt = t.basis.labelAt := by
    ext l
    rw [Basis.labelAt, Basis.labelAt, marked.first]
  have blocked (l : Fin (v + a + r)) : marks.basis.blocked.get l = true ↔
      t.basis.blocked.get l = true ∨ ∃ q, l = artificialColumn q := by
    rw [marked.blocked, labelAt_mem_artificialLabels first]
  -- Blocked before means sealed, and blocked just now means pending at zero.
  have removing : Removing system labels marks := by
    refine ⟨marked.represents _ represents, fun i => ?_, fun i held => ?_,
      fun i held absent j free => ?_, fun j listed => ?_⟩
    · rw [marked.values]
      exact nonneg i
    · rw [marked.values]
      rw [marked.columns, blocked] at held
      rcases held with before | ⟨q, artificial⟩
      · exact (sealed i before).1
      · rw [← represents.point_basic, artificial]
        exact zero q
    · rw [(marked.represents _ represents).consistent.rowLabel_eq, label, marked.columns] at absent
      rw [marked.values]
      rw [marked.columns, blocked] at held
      rw [← Bool.not_eq_true, blocked, not_or, Bool.not_eq_true] at free
      refine (sealed i (held.resolve_right fun artificial => absent ?_)).2 j free.1
      exact (labelAt_mem_artificialLabels first _).mpr artificial
    · rw [label, labelAt_mem_artificialLabels first] at listed
      exact (blocked j).mpr (Or.inr listed)
  obtain ⟨t', run, finished, removed⟩ := removeEach_eq_ok costs removing
  refine ⟨t', run, finished.represents, (removed.first.trans marked.first).trans first,
    finished.nonneg, finished.sealed, removed.point.trans ?_,
    fun l => by rw [removed.blocked, blocked], fun i => ?_⟩
  · rw [Tableau.point, Tableau.point, marked.values, marked.columns]
  · have rows := removed.columns i
    rw [label, marked.columns, labelAt_mem_artificialLabels first] at rows
    rwa [removed.blocked]

theorem artificialIsPositive_iff {costs : Vector ℚ (v + a)} (represents : t.Represents system)
    (first : t.basis.first = 1) :
    artificialIsPositive ⟨a, t, costs⟩ = true ↔ ∃ q, 0 < t.point (artificialColumn q) := by
  simp only [artificialIsPositive, artificialLabels, List.any_map, List.any_eq_true,
    List.mem_range'_1, Function.comp_apply]
  constructor
  · rintro ⟨k, ⟨low, high⟩, positive⟩
    obtain ⟨q, rfl⟩ := Nat.exists_eq_add_of_le low
    have label := labelAt_artificial first (⟨q, by omega⟩ : Fin a)
    refine ⟨⟨q, by omega⟩, ?_⟩
    rcases represents.basicValue_cases (artificialColumn ⟨q, by omega⟩) with value | ⟨⟨e, none⟩, _⟩
    · rw [label] at value
      simp only [value] at positive
      exact Scalar.isStrictlyPositive_iff.mp positive
    · rw [label] at none
      simp only [none] at positive
      cases positive
  · rintro ⟨q, positive⟩
    refine ⟨v + 1 + q, ⟨by omega, by omega⟩, ?_⟩
    rcases represents.basicValue_cases (artificialColumn q) with value | ⟨_, zero⟩
    · rw [labelAt_artificial first] at value
      simp only [value]
      exact Scalar.isStrictlyPositive_iff.mpr positive
    · exact absurd zero positive.ne'

end SimplexTableau

end LexPivot
