import Mathlib
import LexPivot.Proofs.ConstraintSystem

/-!
# The first basis of a program

From the slack basis the artificial columns are installed one after the other, each in its own row.
All along every basic column lives in its own row only, so the pivots succeed and the values can be
read off the data: in the rows with an artificial column the magnitude of the bound, and in the
others the bound negated, which is not positive.
-/
namespace LexPivot

open Matrix SimplexTableau

namespace Constraints

variable {r v : Nat} {k : Constraints ℚ r v} {rows : List (Fin r)}

theorem mem_artificialRows {i : Fin r} :
    i ∈ k.artificialRows ↔ k.isEquality i = true ∨ 0 < k.bound.get i := by
  simp only [artificialRows, List.mem_filter, List.mem_finRange, true_and, Bool.or_eq_true,
    Scalar.isStrictlyPositive_iff]

theorem nodup_artificialRows : k.artificialRows.Nodup := (List.nodup_finRange r).filter _

theorem artificialEntry_ne_zero (i : Fin r) : k.artificialEntry i ≠ 0 := by
  unfold artificialEntry
  split
  · exact neg_ne_zero.mpr one_ne_zero
  · exact one_ne_zero

/-- The artificial entry has the sign of the bound, so their ratio is not negative. -/
theorem nonneg_of_artificialEntry_mul {i : Fin r} {x : ℚ}
    (equation : k.artificialEntry i * x = k.bound.get i) : 0 ≤ x := by
  unfold artificialEntry at equation
  split at equation
  next negative =>
    have below := Scalar.isNegative_iff.mp negative
    linarith
  next nonneg =>
    have above := not_lt.mp (mt Scalar.isNegative_iff.mpr nonneg)
    linarith

/-- The first `p` artificial columns are basic, each in its own row, and in every other row the
slack. -/
structure Installed (k : Constraints ℚ r v) (rows : List (Fin r)) (p : Nat)
    (t : Tableau ℚ r (v + rows.length)) : Prop where
  represents : t.Represents (k.system rows)
  first : t.basis.first = 1
  free : ∀ l, t.basis.blocked.get l = false
  done : ∀ q : Fin rows.length, q.val < p → t.basis.columns.get (rows.get q) = artificialColumn q
  rest : ∀ i, (∀ q : Fin rows.length, q.val < p → rows.get q ≠ i) →
    t.basis.columns.get i = slackColumn i

namespace Installed

variable {p : Nat} {t : Tableau ℚ r (v + rows.length)}

theorem row_cases (h : k.Installed rows p t) (i : Fin r) :
    (∃ q : Fin rows.length, q.val < p ∧ rows.get q = i ∧
      t.basis.columns.get i = artificialColumn q) ∨
    ((∀ q : Fin rows.length, q.val < p → rows.get q ≠ i) ∧
      t.basis.columns.get i = slackColumn i) := by
  by_cases installed : ∃ q : Fin rows.length, q.val < p ∧ rows.get q = i
  · obtain ⟨q, below, rfl⟩ := installed
    exact Or.inl ⟨q, below, rfl, h.done q below⟩
  · have absent : ∀ q : Fin rows.length, q.val < p → rows.get q ≠ i :=
      fun q below same => installed ⟨q, below, same⟩
    exact Or.inr ⟨absent, h.rest i absent⟩

theorem diagonal (h : k.Installed rows p t) (i q : Fin r) (ne : q ≠ i) :
    k.system rows i (t.basis.columns.get q).castSucc = 0 := by
  rcases h.row_cases q with ⟨s, _, row, column⟩ | ⟨_, column⟩
  · rw [column, system_artificial, row, if_neg ne]
  · rw [column, system_slack, if_neg ne]

theorem mul_values (h : k.Installed rows p t) (i : Fin r) (l : Fin (v + rows.length + r + 1)) :
    k.system rows i (t.basis.columns.get i).castSucc * t.values i l = k.system rows i l :=
  h.represents.reduced.mul_apply_of_diagonal h.diagonal i l

theorem pivot (h : k.Installed rows p t) (distinct : rows.Nodup) (q : Fin rows.length)
    (next : q.val = p) :
    ∃ t', (t.pivot (rows.get q) (.structural (v + 1 + p))).stateOrError = .ok t' ∧
      k.Installed rows (p + 1) t' := by
  subst next
  -- The entry to pivot on is the artificial entry over the basic entry of the row.
  have nonzero : t.values (rows.get q) (artificialColumn q).castSucc ≠ 0 := by
    intro zero
    have entry := h.mul_values (rows.get q) (artificialColumn q).castSucc
    rw [zero, mul_zero, system_artificial, if_pos rfl] at entry
    exact artificialEntry_ne_zero _ entry.symm
  have nonbasic (i : Fin r) : t.basis.columns.get i ≠ artificialColumn q := by
    rcases h.row_cases i with ⟨s, below, _, column⟩ | ⟨_, column⟩
    · rw [column]
      intro same
      exact below.ne (congrArg Fin.val (artificialColumn_injective same))
    · rw [column]
      exact (artificialColumn_ne_slackColumn q i).symm
  have pivots := h.represents.pivot_eq_ok nonbasic nonzero
  rw [labelAt_artificial h.first] at pivots
  refine ⟨t.exchangeColumn (rows.get q) (artificialColumn q), by rw [pivots]; rfl,
    h.represents.exchangeColumn nonzero, (t.first_exchangeColumn _ _).trans h.first, fun l => ?_,
    fun s below => ?_, fun i absent => ?_⟩
  · rw [Tableau.blocked_exchangeColumn, h.free]
  · rw [Tableau.columns_exchangeColumn]
    rcases Nat.lt_succ_iff_lt_or_eq.mp below with earlier | same
    · have ne : rows.get s ≠ rows.get q :=
        fun equal => earlier.ne (congrArg Fin.val (distinct.injective_get equal))
      rw [Function.update_of_ne ne, h.done s earlier]
    · rw [Fin.ext same, Function.update_self]
  · have ne : i ≠ rows.get q := fun same => absent q (Nat.lt_succ_self _) same.symm
    rw [Tableau.columns_exchangeColumn, Function.update_of_ne ne]
    exact h.rest i fun s below => absent s (Nat.lt_succ_of_lt below)

theorem installInto (h : k.Installed rows p t) (distinct : rows.Nodup) {rest : List (Fin r)}
    (left : rows.drop p = rest) :
    ∃ t', t.installInto (v + 1 + p) rest = .ok t' ∧ k.Installed rows rows.length t' := by
  induction rest generalizing p t with
  | nil =>
    have all : rows.length ≤ p := List.drop_eq_nil_iff.mp left
    refine ⟨t, rfl, h.represents, h.first, h.free, fun q below => h.done q (below.trans_le all),
      fun i absent => h.rest i fun q _ => absent q q.isLt⟩
  | cons i rest ih =>
    have below : p < rows.length := by
      by_contra past
      rw [List.drop_eq_nil_of_le (not_lt.mp past)] at left
      cases left
    rw [List.drop_eq_getElem_cons below, List.cons.injEq] at left
    obtain ⟨rfl, left⟩ := left
    obtain ⟨t', pivots, installed⟩ := h.pivot distinct ⟨p, below⟩ rfl
    obtain ⟨final, done, complete⟩ := ih installed left
    refine ⟨final, ?_, complete⟩
    rw [Tableau.installInto]
    rw [List.get_eq_getElem] at pivots
    simp only [pivots]
    exact done

end Installed

theorem installed_zero (k : Constraints ℚ r v) (rows : List (Fin r))
    (some_column : 0 < v + rows.length) :
    ∃ t, Tableau.ofSystem (k.extended rows) k.bound 1 = .ok t ∧ k.Installed rows 0 t := by
  obtain ⟨t, built, represents, basis, _⟩ :=
    Tableau.ofSystem_represents (k.extended rows) k.bound 1 some_column
  refine ⟨t, built, represents, by rw [basis]; rfl, fun l => ?_, fun q below => (nomatch below),
    fun i _ => ?_⟩
  · rw [basis, Basis.blocked_slack]
  · rw [basis, Basis.get_columns_slack]
    rfl

theorem Installed.nonneg {t : Tableau ℚ r (v + k.artificialRows.length)}
    (h : k.Installed k.artificialRows k.artificialRows.length t) (i : Fin r) :
    0 ≤ t.values i (Fin.last (v + k.artificialRows.length + r)) := by
  have equation := h.mul_values i (Fin.last _)
  rw [system_last] at equation
  rcases h.row_cases i with ⟨q, _, rfl, column⟩ | ⟨absent, column⟩
  · rw [column, system_artificial, if_pos rfl] at equation
    exact nonneg_of_artificialEntry_mul equation
  · rw [column, system_slack, if_pos rfl] at equation
    have bound : k.bound.get i ≤ 0 := by
      by_contra positive
      obtain ⟨q, row⟩ := List.get_of_mem (mem_artificialRows.mpr (Or.inr (not_le.mp positive)))
      exact absent q q.isLt row
    linarith

end Constraints

/-- The columns that the first phase may not let enter. -/
def Constraints.BlocksEqualities {r v a : Nat} (k : Constraints ℚ r v)
    (t : Tableau ℚ r (v + a)) : Prop :=
  ∀ l, t.basis.blocked.get l = true ↔ ∃ i, k.isEquality i = true ∧ l = slackColumn i

/-- A tableau without columns is refused. -/
theorem SimplexTableau.columns_pos_of_ofConstraints {r v : Nat} {k : Constraints ℚ r v}
    {fresh : SimplexTableau ℚ r v} (built : ofConstraints k = .ok fresh) :
    0 < v + k.artificialRows.length := by
  by_contra none
  have refused : Tableau.ofSystem (k.extended k.artificialRows) k.bound 1 =
      .error (.dimensionMismatch .constraintColumns 1 0) := by
    rw [Tableau.ofSystem, if_pos (Nat.eq_zero_of_not_pos none)]
  simp [ofConstraints, refused] at built

open Constraints in
/-- The tableau of the constraints starts at a feasible basis without a blocked column. -/
theorem SimplexTableau.ofConstraints_eq_ok {r v : Nat} (k : Constraints ℚ r v)
    (some_column : 0 < v + k.artificialRows.length) :
    ∃ t : Tableau ℚ r (v + k.artificialRows.length),
      ofConstraints k = .ok ⟨k.artificialRows.length, t, Vector.replicate _ 0⟩ ∧
      t.Represents (k.system k.artificialRows) ∧ t.basis.first = 1 ∧
      (∀ i, 0 ≤ t.values i (Fin.last (v + k.artificialRows.length + r))) ∧
      k.BlocksEqualities t ∧ ∀ i, t.basis.blocked.get (t.basis.columns.get i) = false := by
  obtain ⟨fresh, built, slack⟩ := installed_zero k k.artificialRows some_column
  obtain ⟨t, installs, installed⟩ := slack.installInto nodup_artificialRows List.drop_zero
  let labels := ((List.finRange r).filter k.isEquality).map fun i => Label.slack (i.val + 1)
  have marked := Tableau.marked_foldl labels t
  have blocks : k.BlocksEqualities (labels.foldl (fun t l => t.mark l) t) := by
    intro l
    rw [marked.blocked, installed.free]
    simp only [labels, Bool.false_eq_true, false_or, List.mem_map, List.mem_filter,
      List.mem_finRange, true_and]
    refine exists_congr fun i => and_congr_right fun _ => ?_
    rw [← labelAt_slackColumn t.basis i, t.basis.labelAt_injective.eq_iff, eq_comm]
  refine ⟨labels.foldl (fun t l => t.mark l) t, ?_, marked.represents _ installed.represents,
    marked.first.trans installed.first, fun i => ?_, blocks, fun i => ?_⟩
  · rw [Nat.add_zero] at installs
    rw [List.foldl_map, ofConstraints]
    simp only [built, installs]
  · rw [marked.values]
    exact installed.nonneg i
  · rw [← Bool.not_eq_true, blocks, marked.columns]
    rintro ⟨q, equality, column⟩
    rcases installed.row_cases i with ⟨s, _, _, held⟩ | ⟨absent, held⟩
    · exact artificialColumn_ne_slackColumn s q (held.symm.trans column)
    · -- An equality row holds its artificial column and not its slack.
      obtain rfl := slackColumn_injective (held.symm.trans column)
      obtain ⟨s, row⟩ := List.get_of_mem (mem_artificialRows.mpr (Or.inl equality))
      exact absent s s.isLt row

end LexPivot
