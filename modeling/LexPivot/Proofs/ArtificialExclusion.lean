import Mathlib
import LexPivot.Proofs.ProgramStatus
import LexPivot.Proofs.SimplexCalls

/-!
# Artificial labels stay out

Removing the artificial labels blocks their columns. A column that leaves can then never come back,
and one that no other column could replace is sealed: its row vanishes on every column that may
enter, so no later pivot moves it away from zero. From then on the variables satisfy the
constraints, whatever costs are set.
-/
namespace LexPivot

open Matrix SimplexTableau Tableau

variable {r v : Nat}

theorem Tableau.Represents.basicValue_eq_ok_iff {c : Nat} {t : Tableau ℚ r c}
    {system : Matrix (Fin r) (Fin (c + r + 1)) ℚ} (h : t.Represents system) {l : Label} {x : ℚ} :
    t.basicValue l = .ok x ↔
      ∃ i, t.basis.rowLabel i = l ∧ t.values i (Fin.last (c + r)) = x := by
  simp only [basicValue, Basis.find]
  cases position : t.basis.position? l with
  | none =>
    simp only [reduceCtorEq, false_iff, not_exists, not_and]
    intro i label
    rw [← h.consistent.position_iff, position] at label
    cases label
  | some i =>
    have label := (h.consistent.position_iff l i).mp position
    simp only [Except.ok.injEq, get_basicVector]
    constructor
    · intro value
      exact ⟨i, label, value⟩
    · rintro ⟨k, same, value⟩
      rwa [h.consistent.rowLabel_injective (label.trans same.symm)]

theorem SimplexTableau.isArtificial_labelAt {a : Nat} {t : Tableau ℚ r (v + a)}
    {costs : Vector ℚ (v + a)} (first : t.basis.first = 1) (j : Fin (v + a + r)) :
    isArtificial ⟨a, t, costs⟩ (t.basis.labelAt j) = true ↔ ∃ q, j = artificialColumn q := by
  rcases column_cases j with ⟨k, rfl⟩ | ⟨q, rfl⟩ | ⟨i, rfl⟩
  · rw [labelAt_variable first]
    have among : ¬v < k + 1 := Nat.not_lt.mpr k.isLt
    simp only [isArtificial, decide_eq_true_eq, among, false_iff]
    rintro ⟨q, same⟩
    exact variableColumn_ne_artificialColumn k q same
  · rw [labelAt_artificial first]
    simp only [isArtificial, decide_eq_true_eq]
    exact iff_of_true (by omega) ⟨q, rfl⟩
  · rw [labelAt_slackColumn]
    simp only [isArtificial, Bool.false_eq_true, false_iff]
    rintro ⟨q, same⟩
    exact artificialColumn_ne_slackColumn q i same.symm

namespace Constraints

variable {k : Constraints ℚ r v}

/-- No basic value is negative, and no slack of an equality row is basic. -/
structure KeepsRows (k : Constraints ℚ r v) (s : SimplexTableau ℚ r v) : Prop where
  nonneg : ∀ i, 0 ≤ s.tableau.basicVector.get i
  slacks : ∀ i, k.isEquality i = true → s.tableau.basis.isMember (.slack (i + 1)) = false

/-- `s'` has the basic values of `s` on all labels that are not artificial. Labels that came in are
zero, and no artificial label came in. -/
structure KeepsValues (s s' : SimplexTableau ℚ r v) : Prop where
  same : ∀ l x, s.isArtificial l = false → s.tableau.basicValue l = .ok x →
    s'.tableau.basicValue l = .ok x
  entered : ∀ l, s.tableau.basis.isMember l = false → s'.tableau.basis.isMember l = true →
    s'.tableau.basicValue l = .ok 0 ∧ s.isArtificial l = false

/-- The artificial labels that are basic are zero, those that are not stay out at the next call, and
the variables satisfy the constraints. -/
structure KeepsOut (k : Constraints ℚ r v) (s : SimplexTableau ℚ r v) : Prop where
  zero : ∀ l, s.isArtificial l = true → s.tableau.basis.isMember l = true →
    s.tableau.basicValue l = .ok 0
  out : ∀ l call, s.isArtificial l = true → s.tableau.basis.isMember l = false →
    (s.perform call).tableau.basis.isMember l = false
  feasible : k.Feasible s.primal.get

namespace Standing

variable {t t' : Tableau ℚ r (v + k.artificialRows.length)}

theorem keepsRows (h : k.Standing t) (costs : Vector ℚ (v + k.artificialRows.length)) :
    k.KeepsRows ⟨_, t, costs⟩ where
  nonneg i := h.nonneg i
  slacks i equality := by
    rw [← Bool.not_eq_true, ← labelAt_slackColumn t.basis i,
      h.represents.consistent.isMember_labelAt_iff]
    rintro ⟨q, column⟩
    exact h.outside q i equality column

/-! ### Removing the artificial labels -/

theorem keepsValues_removeArtificials (h : k.Standing t)
    (costs : Vector ℚ (v + k.artificialRows.length))
    (none : artificialIsPositive ⟨_, t, costs⟩ = false) :
    ∃ t', SimplexTableau.removeArtificials ⟨_, t, costs⟩ = ⟨.ok (), ⟨_, t', costs⟩⟩ ∧
      k.Standing t' ∧ (∀ q, t'.basis.blocked.get (artificialColumn q) = true) ∧
      KeepsValues (⟨_, t, costs⟩ : SimplexTableau ℚ r v) ⟨_, t', costs⟩ := by
  obtain ⟨t', run, standing, respects, point, blocked, columns⟩ := h.removeArtificials costs none
  have labels : t'.basis.labelAt = t.basis.labelAt :=
    Basis.labelAt_of_first (standing.first.trans h.first.symm)
  have label (i : Fin r) : t'.basis.rowLabel i = t.basis.labelAt (t'.basis.columns.get i) := by
    rw [standing.represents.consistent.rowLabel_eq, labels]
  refine ⟨t', run, standing, blocked, fun l x proper value => ?_, fun l absent member => ?_⟩
  · -- The row of a label that is not artificial keeps its column, and the point has not moved.
    obtain ⟨i, rfl, rfl⟩ := h.represents.basicValue_eq_ok_iff.mp value
    have before := h.represents.consistent.rowLabel_eq i
    rw [← Bool.not_eq_true, before, isArtificial_labelAt h.first] at proper
    have kept := (columns i).resolve_right fun moved => proper moved.1
    refine standing.represents.basicValue_eq_ok_iff.mpr ⟨i, ?_, ?_⟩
    · rw [label, kept, before]
    · rw [← standing.represents.point_basic, ← h.represents.point_basic, kept, point]
  · obtain ⟨i, rfl⟩ := standing.represents.consistent.isMember_iff.mp member
    rw [label, ← Bool.not_eq_true, h.represents.consistent.isMember_labelAt_iff] at absent
    have moved := (columns i).resolve_left fun kept => absent ⟨i, kept.symm⟩
    constructor
    · refine standing.represents.basicValue_eq_ok_iff.mpr ⟨i, rfl, ?_⟩
      rw [← standing.represents.point_basic, point]
      by_contra nonzero
      exact absent (exists_row_of_point_ne_zero nonzero)
    · rw [label, ← Bool.not_eq_true, isArtificial_labelAt h.first]
      rintro ⟨q, column⟩
      have free := moved.2
      rw [column, blocked] at free
      cases free

/-! ### After the removal -/

/-- Blocked, an artificial column is zero. -/
theorem artificialIsPositive_eq_false (h : k.Standing t)
    (blocked : ∀ q, t.basis.blocked.get (artificialColumn q) = true)
    (costs : Vector ℚ (v + k.artificialRows.length)) :
    artificialIsPositive ⟨_, t, costs⟩ = false := by
  rw [← Bool.not_eq_true, artificialIsPositive_iff h.represents h.first]
  rintro ⟨q, positive⟩
  exact positive.ne' (h.admissible.zero _ (blocked q))

/-- Once the artificial columns are blocked, any call is allowed. -/
theorem permits (h : k.Standing t)
    (blocked : ∀ q, t.basis.blocked.get (artificialColumn q) = true)
    (costs : Vector ℚ (v + k.artificialRows.length)) (calls : List Call) :
    SimplexTableau.permits ⟨_, t, costs⟩ calls = true := by
  induction calls generalizing t costs with
  | nil => rfl
  | cons call calls ih =>
    have none := h.artificialIsPositive_eq_false blocked costs
    obtain ⟨next, costs', done, standing, respects⟩ := h.perform costs call fun _ => none
    rw [SimplexTableau.permits, none, done]
    simpa using ih standing (fun q => respects.blocked _ (blocked q)) costs'

theorem keepsOut (h : k.Standing t)
    (blocked : ∀ q, t.basis.blocked.get (artificialColumn q) = true)
    (costs : Vector ℚ (v + k.artificialRows.length)) : k.KeepsOut ⟨_, t, costs⟩ where
  zero l artificial member := by
    obtain ⟨i, rfl⟩ := h.represents.consistent.isMember_iff.mp member
    rw [h.represents.consistent.rowLabel_eq, isArtificial_labelAt h.first] at artificial
    obtain ⟨q, column⟩ := artificial
    exact h.represents.basicValue_eq_ok_iff.mpr
      ⟨i, rfl, (h.sealed i (by rw [column, blocked])).1⟩
  out l call artificial absent := by
    obtain ⟨next, costs', done, standing, respects⟩ :=
      h.perform costs call fun _ => h.artificialIsPositive_eq_false blocked costs
    have labels : next.basis.labelAt = t.basis.labelAt :=
      Basis.labelAt_of_first (standing.first.trans h.first.symm)
    rw [done]
    rw [← Bool.not_eq_true, h.represents.consistent.isMember_iff] at absent
    rw [← Bool.not_eq_true, standing.represents.consistent.isMember_iff]
    rintro ⟨i, rfl⟩
    have label := standing.represents.consistent.rowLabel_eq i
    rw [label, labels, isArtificial_labelAt h.first] at artificial
    obtain ⟨q, column⟩ := artificial
    -- A blocked column that is basic now was basic before, in the same row.
    have kept := respects.held i (by rw [column, blocked])
    exact absent ⟨i, by rw [label, labels, kept, h.represents.consistent.rowLabel_eq]⟩
  feasible := by
    have point : (SimplexTableau.primal ⟨_, t, costs⟩).get = fun j => t.point (variableColumn j) :=
      funext (get_primal costs h.represents h.first)
    rw [point]
    exact feasible_of_admissible h.admissible h.slacks fun q => h.admissible.zero _ (blocked q)

end Standing

end Constraints

namespace SimplexTableau

/-- Under any costs, the basic values stay nonnegative and the slacks of equality rows out of the
basis. Removing the artificial labels where none is positive keeps the values of all others, and
from then on, whatever is called, the artificial labels that are out stay out, those that are basic
are zero, and the variables satisfy the constraints. -/
theorem performAll_keepsOut (k : Constraints ℚ r v) {fresh : SimplexTableau ℚ r v}
    (built : ofConstraints k = .ok fresh) (calls : List Call)
    (permitted : fresh.permits calls = true) :
    let s := fresh.performAll calls
    k.KeepsRows s ∧
      (s.artificialIsPositive = false → ∃ cleared, s.removeArtificials = ⟨.ok (), cleared⟩ ∧
        Constraints.KeepsValues s cleared ∧
        ∀ later : List Call, k.KeepsRows (cleared.performAll later) ∧
          k.KeepsOut (cleared.performAll later)) := by
  intro s
  obtain ⟨t, costs, reached, standing⟩ := Constraints.standing_performAll built permitted
  simp only [s, reached]
  refine ⟨standing.keepsRows costs, fun none => ?_⟩
  obtain ⟨t', run, standing', blocked, values⟩ := standing.keepsValues_removeArtificials costs none
  refine ⟨_, run, values, fun later => ?_⟩
  -- Any call is allowed by now, and none releases the artificial columns.
  obtain ⟨final, costs', run', standing'', respects⟩ :=
    standing'.performAll costs (standing'.permits blocked costs later)
  rw [run']
  exact ⟨standing''.keepsRows costs',
    standing''.keepsOut (fun q => respects.blocked _ (blocked q)) costs'⟩

/-- One equation is stated twice, so that an artificial label stays basic, and the costs of the
second optimisation would let the artificial labels grow. -/
theorem performAll_keepsOut_redundant :
    let k : Constraints ℚ 4 2 := {
      matrix := #v[#v[-1, 0], #v[0, -1], #v[1, 1], #v[2, 2]]
      bound := #v[-1/2, -3, 1, 2]
      equalities := 2
      equalities_le := by decide }
    let calls : List Call := [.setCosts #[0, 0, -1, -1], .optimize]
    let later : List Call := [.setCosts #[3, 1, 5, 7], .optimize, .removeArtificials]
    ∃ fresh cleared, ofConstraints k = .ok fresh ∧ fresh.permits calls = true ∧
      (fresh.performAll calls).artificialIsPositive = false ∧
      (fresh.performAll calls).removeArtificials = ⟨.ok (), cleared⟩ ∧
      cleared.artificialLabels.any cleared.tableau.basis.isMember = true ∧
      Constraints.KeepsValues (fresh.performAll calls) cleared ∧
      k.KeepsOut (cleared.performAll later) := by
  intro k calls later
  have found : (match ofConstraints k with
      | .error _ => false
      | .ok fresh =>
        let s := fresh.performAll calls
        let cleared := s.removeArtificials.state
        fresh.permits calls && !s.artificialIsPositive &&
          cleared.artificialLabels.any cleared.tableau.basis.isMember) = true := by
    decide +kernel
  cases built : ofConstraints k with
  | error e =>
    rw [built] at found
    cases found
  | ok fresh =>
    simp only [built, Bool.and_eq_true, Bool.not_eq_true'] at found
    obtain ⟨⟨permitted, none⟩, basic⟩ := found
    obtain ⟨_, removal⟩ := performAll_keepsOut k built calls permitted
    obtain ⟨cleared, removes, values, keeps⟩ := removal none
    rw [removes] at basic
    exact ⟨fresh, cleared, rfl, permitted, none, removes, basic, values, (keeps later).2⟩

end SimplexTableau

end LexPivot
