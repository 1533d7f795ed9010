import Mathlib
import LexPivot.Proofs.ArtificialRemoval

/-!
# Calls on a simplex tableau

Costs are set, the objective is optimised and the artificial labels are removed, in any order, but
for one rule: no artificial label is removed while one of them is positive. Under that rule every
call leaves a feasible basis behind, keeps what is blocked, and lets no blocked column enter. The
slacks of equality rows are blocked from the start, so none of them is ever basic.
-/
namespace LexPivot

open Matrix SimplexTableau Tableau

variable {r v : Nat}

namespace SimplexTableau

/-- What can be asked of a simplex tableau. An optimisation may be cut short after a number of
pivots, so that what holds after every call holds all through an optimisation. -/
inductive Call where
  | setCosts (costs : Array ℚ)
  | optimize
  | optimizeWithin (pivots : Nat)
  | removeArtificials
deriving DecidableEq

/-- The state a call leaves behind. Costs that do not fit are refused. -/
def perform (s : SimplexTableau ℚ r v) : Call → SimplexTableau ℚ r v
  | .setCosts costs =>
    match s.setCosts costs with
    | .ok next => next
    | .error _ => s
  | .optimize => s.optimize.state
  | .optimizeWithin pivots =>
    (SimplexTableau.optimizeWithin pivots { s with tableau := s.tableau.setLexReference }).state
  | .removeArtificials => s.removeArtificials.state

def performAll (s : SimplexTableau ℚ r v) (calls : List Call) : SimplexTableau ℚ r v :=
  calls.foldl perform s

/-- Whether no artificial label is positive at any call that removes them. -/
def permits (s : SimplexTableau ℚ r v) : List Call → Bool
  | [] => true
  | call :: rest =>
    (decide (call ≠ .removeArtificials) || !s.artificialIsPositive) && (s.perform call).permits rest

end SimplexTableau

/-! ### What calls respect -/

/-- From `t` to `t'` no blocked column was let in, and none was released. -/
structure Tableau.Respects {c : Nat} (t t' : Tableau ℚ r c) : Prop where
  blocked : ∀ l, t.basis.blocked.get l = true → t'.basis.blocked.get l = true
  held : ∀ i, t.basis.blocked.get (t'.basis.columns.get i) = true →
    t'.basis.columns.get i = t.basis.columns.get i

namespace Tableau.Respects

variable {c : Nat} {t t' t'' : Tableau ℚ r c}

theorem refl (t : Tableau ℚ r c) : t.Respects t := ⟨fun _ => id, fun _ _ => rfl⟩

theorem trans (h : t.Respects t') (h' : t'.Respects t'') : t.Respects t'' where
  blocked l held := h'.blocked l (h.blocked l held)
  held i held := by
    have later := h'.held i (h.blocked _ held)
    rw [later] at held ⊢
    exact h.held i held

end Tableau.Respects

theorem Tableau.SimplexState.respects {c : Nat} {system : Matrix (Fin r) (Fin (c + r + 1)) ℚ}
    {t t' : Tableau ℚ r c} (state : SimplexState system t.setLexReference t') : t.Respects t' where
  blocked l held := by
    rw [state.blocked]
    exact held
  held i held := state.held i (by rw [state.blocked]; exact held)

namespace Constraints

/-- The tableaus of the constraints between calls: feasible, with the slacks of the equality rows
blocked and out of the basis. -/
structure Standing (k : Constraints ℚ r v) (t : Tableau ℚ r (v + k.artificialRows.length)) :
    Prop where
  represents : t.Represents (k.system k.artificialRows)
  first : t.basis.first = 1
  nonneg : ∀ i, 0 ≤ t.values i (Fin.last (v + k.artificialRows.length + r))
  sealed : t.Sealed
  slacks : ∀ i, k.isEquality i = true → t.basis.blocked.get (slackColumn i) = true
  outside : ∀ i q, k.isEquality q = true → t.basis.columns.get i ≠ slackColumn q

variable {k : Constraints ℚ r v}

/-- A fresh tableau stands. -/
theorem standing_of_ofConstraints {fresh : SimplexTableau ℚ r v}
    (built : ofConstraints k = .ok fresh) :
    ∃ t costs, fresh = ⟨k.artificialRows.length, t, costs⟩ ∧ k.Standing t := by
  obtain ⟨t, built', represents, first, nonneg, equalities, unblocked⟩ :=
    ofConstraints_eq_ok k (columns_pos_of_ofConstraints built)
  cases built.symm.trans built'
  refine ⟨t, _, rfl, represents, first, nonneg, fun i held => ?_, fun i equality => ?_,
    fun i q equality column => ?_⟩
  · rw [unblocked] at held
    cases held
  · exact (equalities _).mpr ⟨i, equality, rfl⟩
  · have free := unblocked i
    rw [column, (equalities _).mpr ⟨q, equality, rfl⟩] at free
    cases free

namespace Standing

variable {t t' : Tableau ℚ r (v + k.artificialRows.length)}

theorem admissible (h : k.Standing t) :
    Admissible (k.system k.artificialRows) t.basis.blocked.get t.point :=
  (SimplexState.start h.represents h.nonneg h.sealed).admissible

/-- A slack of an equality row cannot come in, for it is blocked. -/
theorem outside_of_respects (h : k.Standing t) (respects : t.Respects t') (i q : Fin r)
    (equality : k.isEquality q = true) : t'.basis.columns.get i ≠ slackColumn q := by
  intro column
  have held := respects.held i (by rw [column]; exact h.slacks q equality)
  exact h.outside i q equality (held.symm.trans column)

/-! ### One call -/

/-- However many pivots an optimisation makes, it leaves a standing tableau. -/
theorem optimizeWithin (h : k.Standing t) (costs : Vector ℚ (v + k.artificialRows.length))
    (budget : Nat) :
    ∃ t', (SimplexTableau.optimizeWithin budget ⟨_, t.setLexReference, costs⟩).state =
      ⟨_, t', costs⟩ ∧ k.Standing t' ∧ t.Respects t' := by
  obtain ⟨t', run, state⟩ := optimizeWithin_state costs
    (SimplexState.start h.represents h.nonneg h.sealed) h.first budget
  have respects := state.respects
  exact ⟨t', run, ⟨state.represents, state.first.trans h.first, fun i => state.feasible.nonneg i,
    state.sealed, fun i equality => respects.blocked _ (h.slacks i equality),
    h.outside_of_respects respects⟩, respects⟩

theorem artificials_eq_zero (h : k.Standing t) {costs : Vector ℚ (v + k.artificialRows.length)}
    (none : artificialIsPositive ⟨_, t, costs⟩ = false) (q : Fin k.artificialRows.length) :
    t.point (artificialColumn q) = 0 := by
  refine le_antisymm (not_lt.mp fun positive => ?_) (h.admissible.nonneg _)
  rw [(artificialIsPositive_iff h.represents h.first).mpr ⟨q, positive⟩] at none
  cases none

/-- Removing the artificial labels where none is positive does not move the point. It blocks all
artificial columns, and only these leave, for columns that are not blocked. -/
theorem removeArtificials (h : k.Standing t) (costs : Vector ℚ (v + k.artificialRows.length))
    (none : artificialIsPositive ⟨_, t, costs⟩ = false) :
    ∃ t', SimplexTableau.removeArtificials ⟨_, t, costs⟩ = ⟨.ok (), ⟨_, t', costs⟩⟩ ∧
      k.Standing t' ∧ t.Respects t' ∧ t'.point = t.point ∧
      (∀ q, t'.basis.blocked.get (artificialColumn q) = true) ∧
      ∀ i, t'.basis.columns.get i = t.basis.columns.get i ∨
        (∃ q, t.basis.columns.get i = artificialColumn q) ∧
          t'.basis.blocked.get (t'.basis.columns.get i) = false := by
  have zero := h.artificials_eq_zero none
  obtain ⟨t', run, represents, first, nonneg, sealed, point, blocked, columns⟩ :=
    removeArtificials_eq_ok costs h.represents h.first h.nonneg h.sealed zero
  have respects : t.Respects t' := by
    refine ⟨fun l held => (blocked l).mpr (Or.inl held), fun i held => ?_⟩
    -- What came in is not blocked after the removal, so it was not blocked before.
    refine (columns i).resolve_right fun moved => ?_
    have free := moved.2
    rw [(blocked _).mpr (Or.inl held)] at free
    cases free
  exact ⟨t', run, ⟨represents, first, nonneg, sealed,
    fun i equality => respects.blocked _ (h.slacks i equality), h.outside_of_respects respects⟩,
    respects, point, fun q => (blocked _).mpr (Or.inr ⟨q, rfl⟩), columns⟩

/-- A call leaves a standing tableau. -/
theorem perform (h : k.Standing t) (costs : Vector ℚ (v + k.artificialRows.length)) (call : Call)
    (allowed : call = .removeArtificials → artificialIsPositive ⟨_, t, costs⟩ = false) :
    ∃ t' costs', SimplexTableau.perform ⟨_, t, costs⟩ call = ⟨_, t', costs'⟩ ∧ k.Standing t' ∧
      t.Respects t' := by
  cases call with
  | setCosts given =>
    by_cases fits : given.size = v + k.artificialRows.length
    · exact ⟨t, ⟨given, fits⟩, by simp [SimplexTableau.perform, SimplexTableau.setCosts, fits], h,
        .refl t⟩
    · exact ⟨t, costs, by simp [SimplexTableau.perform, SimplexTableau.setCosts, fits], h, .refl t⟩
  | optimize =>
    obtain ⟨t', run, rest⟩ := h.optimizeWithin costs t.pivotBudget
    exact ⟨t', costs, run, rest⟩
  | optimizeWithin pivots =>
    obtain ⟨t', run, rest⟩ := h.optimizeWithin costs pivots
    exact ⟨t', costs, run, rest⟩
  | removeArtificials =>
    obtain ⟨t', run, standing, respects, _⟩ := h.removeArtificials costs (allowed rfl)
    exact ⟨t', costs, by rw [SimplexTableau.perform, run], standing, respects⟩

/-- Calls under the rule leave a standing tableau. -/
theorem performAll (h : k.Standing t) (costs : Vector ℚ (v + k.artificialRows.length))
    {calls : List Call} (permitted : permits ⟨_, t, costs⟩ calls = true) :
    ∃ t' costs', SimplexTableau.performAll ⟨_, t, costs⟩ calls = ⟨_, t', costs'⟩ ∧
      k.Standing t' ∧ t.Respects t' := by
  induction calls generalizing t costs with
  | nil => exact ⟨t, costs, rfl, h, .refl t⟩
  | cons call calls ih =>
    simp only [permits, Bool.and_eq_true, Bool.or_eq_true, decide_eq_true_eq,
      Bool.not_eq_true'] at permitted
    obtain ⟨rule, later⟩ := permitted
    obtain ⟨next, costs', done, standing, respects⟩ :=
      h.perform costs call fun removes => rule.resolve_left (not_not.mpr removes)
    rw [done] at later
    obtain ⟨final, costs'', run, standing', respects'⟩ := ih standing costs' later
    refine ⟨final, costs'', ?_, standing', respects.trans respects'⟩
    rw [SimplexTableau.performAll, List.foldl_cons, done]
    exact run

end Standing

/-- Calls under the rule, from a fresh tableau, leave a standing tableau. -/
theorem standing_performAll {fresh : SimplexTableau ℚ r v} (built : ofConstraints k = .ok fresh)
    {calls : List Call} (permitted : fresh.permits calls = true) :
    ∃ t costs, fresh.performAll calls = ⟨k.artificialRows.length, t, costs⟩ ∧ k.Standing t := by
  obtain ⟨t, costs, rfl, standing⟩ := standing_of_ofConstraints built
  obtain ⟨t', costs', run, standing', _⟩ := standing.performAll costs permitted
  exact ⟨t', costs', run, standing'⟩

end Constraints

end LexPivot
