import Mathlib
import LexPivot.LinearProgram.Simplex
import LexPivot.Proofs.ObjectiveRow

/-!
# Runs of the simplex method

A simplex pivot keeps the basis lexicographically feasible, lets no blocked column enter, and leaves
the rows alone in which a blocked column is stuck at zero. The row of the objective grows with every
pivot, so there are ever fewer bases ahead and the method ends: at an optimum over all admissible
points, or at a ray on which the objective grows.
-/
namespace LexPivot

open Matrix

theorem not_lexPositive_zero {ι : Type} (js : List ι) : ¬LexPositive (0 : ι → ℚ) js := by
  intro positive
  exact positive.not_neg (by rwa [neg_zero])

namespace Tableau

variable {r c : Nat} {t origin : Tableau ℚ r c} {system : Matrix (Fin r) (Fin (c + r + 1)) ℚ}

/-! ### States of a run -/

/-- A blocked column that is basic is zero, and no other column can change that. -/
def Sealed (t : Tableau ℚ r c) : Prop :=
  ∀ i, t.basis.blocked.get (t.basis.columns.get i) = true →
    t.values i (Fin.last (c + r)) = 0 ∧
      ∀ j, t.basis.blocked.get j = false → t.values i j.castSucc = 0

/-- The tableaus of a run that starts at `origin`. -/
structure SimplexState (system : Matrix (Fin r) (Fin (c + r + 1)) ℚ) (origin t : Tableau ℚ r c) :
    Prop extends FeasibleFrom system origin t where
  sealed : t.Sealed
  blocked : t.basis.blocked = origin.basis.blocked
  held : ∀ i, t.basis.blocked.get (t.basis.columns.get i) = true →
    t.basis.columns.get i = origin.basis.columns.get i

theorem SimplexState.start (represents : t.Represents system)
    (nonneg : ∀ i, 0 ≤ t.values i (Fin.last (c + r))) (sealed : t.Sealed) :
    SimplexState system t.setLexReference t.setLexReference where
  represents := represents.setLexReference
  feasible := represents.setLexReference.lexFeasible_of_reference rfl nonneg
  reference := rfl
  first := rfl
  sealed := sealed
  blocked := rfl
  held _ _ := rfl

namespace SimplexState

theorem admissible (h : SimplexState system origin t) :
    Admissible system t.basis.blocked.get t.point where
  solves := h.represents.solves_point
  nonneg := spread_nonneg fun i => h.feasible.nonneg i
  zero j held := by
    by_contra nonzero
    obtain ⟨i, rfl⟩ := exists_row_of_point_ne_zero nonzero
    rw [h.represents.point_basic] at nonzero
    exact nonzero (h.sealed i held).1

/-- A pivot that lets a column enter that is not blocked keeps the invariant. -/
theorem exchangeColumn (h : SimplexState system origin t) {i : Fin r} {j : Fin (c + r)}
    (free : t.basis.blocked.get j = false)
    (exit : IsLexExit t.values t.lexColumns (t.values.col j.castSucc) i) :
    SimplexState system origin (t.exchangeColumn i j) := by
  have nonzero : t.values i j.castSucc ≠ 0 := ne_of_gt exit.1
  have unchanged := t.blocked_exchangeColumn i j
  refine ⟨h.toFeasibleFrom.exchangeColumn exit, fun k stuck => ?_, unchanged.trans h.blocked,
    fun k stuck => ?_⟩
  · obtain ⟨ne, before, _⟩ := blocked_stays_exchangeColumn free stuck
    obtain ⟨value, zeros⟩ := h.sealed k before
    -- The pivot subtracts nothing from a row in which the entering column vanishes.
    have same (l : Fin (c + r + 1)) : (t.exchangeColumn i j).values k l = t.values k l := by
      rw [h.represents.values_exchangeColumn nonzero, pivoted_ne _ _ _ ne, zeros j free, zero_mul,
        sub_zero]
    rw [unchanged]
    exact ⟨(same _).trans value, fun q free' => (same _).trans (zeros q free')⟩
  · obtain ⟨_, before, kept⟩ := blocked_stays_exchangeColumn free stuck
    rw [kept]
    exact h.held k before

theorem recedes (h : SimplexState system origin t) {j : Fin (c + r)}
    (free : t.basis.blocked.get j = false) (nonpos : ∀ i, t.values i j.castSucc ≤ 0) :
    Recedes system t.basis.blocked.get (basicRay t.values t.basis.columns.get j) where
  direction := h.represents.reduced.isDirection_basicRay j
  nonneg := basicRay_nonneg nonpos
  zero q held := by
    have other : q ≠ j := by
      rintro rfl
      rw [free] at held
      cases held
    rw [basicRay, Pi.add_apply, Pi.single_eq_of_ne other, zero_add]
    by_cases basic : ∃ i, t.basis.columns.get i = q
    · obtain ⟨i, rfl⟩ := basic
      rw [spread_basic h.represents.distinct, (h.sealed i held).2 j free, neg_zero]
    · exact spread_nonbasic _ fun i same => basic ⟨i, same⟩

end SimplexState

/-! ### Blocking labels -/

/-- `t'` is `t` with some labels blocked. -/
structure Marked (labels : List Label) (t t' : Tableau ℚ r c) : Prop where
  represents : ∀ system, t.Represents system → t'.Represents system
  values : t'.values = t.values
  columns : t'.basis.columns = t.basis.columns
  first : t'.basis.first = t.basis.first
  blocked : ∀ j, t'.basis.blocked.get j = true ↔
    t.basis.blocked.get j = true ∨ t.basis.labelAt j ∈ labels

theorem marked_foldl (labels : List Label) (t : Tableau ℚ r c) :
    Marked labels t (labels.foldl (fun t l => t.mark l) t) := by
  induction labels generalizing t with
  | nil => exact ⟨fun _ => id, rfl, rfl, rfl, by simp⟩
  | cons l labels ih =>
    have rest := ih (t.mark l)
    have columns : (t.mark l).basis.columns = t.basis.columns := Basis.columns_setBlocked _ _ _
    have first : (t.mark l).basis.first = t.basis.first := Basis.first_setBlocked _ _ _
    refine ⟨fun _ represents => rest.represents _ (represents.mark l), rest.values,
      rest.columns.trans columns, rest.first.trans first, fun j => ?_⟩
    have label : (t.mark l).basis.labelAt j = t.basis.labelAt j := by
      rw [Basis.labelAt, Basis.labelAt, first]
    rw [List.foldl_cons, rest.blocked, label, List.mem_cons, ← or_assoc]
    exact or_congr_left Basis.blocked_mark_iff

/-! ### Bases ahead -/

/-- The bases at which the row of the objective is greater. -/
def ahead (system : Matrix (Fin r) (Fin (c + r + 1)) ℚ) (w : Fin (c + r) → ℚ)
    (t : Tableau ℚ r c) : Set (Fin r → Fin (c + r)) :=
  {columns | ∃ t' : Tableau ℚ r c, t'.Represents system ∧ t'.basis.columns.get = columns ∧
    LexPositive (objectiveRow w t'.values columns - objectiveRow w t.values t.basis.columns.get)
      t.lexColumns}

/-- A pivot on a column that gains leaves fewer bases ahead. -/
theorem SimplexState.ahead_exchangeColumn (h : SimplexState system origin t)
    {w : Fin (c + r) → ℚ} {i : Fin r} {j : Fin (c + r)}
    (exit : IsLexExit t.values t.lexColumns (t.values.col j.castSucc) i)
    (gains : objectiveRow w t.values t.basis.columns.get j.castSucc < 0) :
    (ahead system w (t.exchangeColumn i j)).ncard < (ahead system w t).ncard := by
  have pivot : 0 < t.values i j.castSucc := exit.1
  have represents := h.represents.exchangeColumn pivot.ne'
  let next := t.exchangeColumn i j
  -- The row of the objective gains a positive multiple of the pivot row.
  have grows : LexPositive (objectiveRow w next.values next.basis.columns.get -
      objectiveRow w t.values t.basis.columns.get) t.lexColumns := by
    have factor : 0 < -objectiveRow w t.values t.basis.columns.get j.castSucc /
        t.values i j.castSucc := div_pos (neg_pos.mpr gains) pivot
    refine ((h.feasible i).smul factor).congr fun l _ => ?_
    rw [Pi.sub_apply, h.represents.values_exchangeColumn pivot.ne', columns_exchangeColumn,
      objectiveRow_pivoted pivot.ne', Pi.smul_apply, smul_eq_mul]
    ring
  apply Set.ncard_lt_ncard _ (Set.toFinite _)
  constructor
  · rintro columns ⟨t', represents', same, greater⟩
    rw [lexColumns_exchangeColumn] at greater
    refine ⟨t', represents', same, (greater.add grows).congr fun l _ => ?_⟩
    simp only [Pi.add_apply, Pi.sub_apply]
    ring
  · intro subset
    obtain ⟨t', represents', same, greater⟩ := subset ⟨next, represents, rfl, grows⟩
    -- The basis alone decides the row of the objective, which is not greater than itself.
    have reduced := represents'.reduced
    rw [same] at reduced
    rw [reduced.unique represents.reduced, sub_self] at greater
    exact not_lexPositive_zero _ greater

theorem ncard_ahead_lt (some_column : 0 < c + r) (w : Fin (c + r) → ℚ) :
    (ahead system w t).ncard < t.pivotBudget := by
  have bound := Set.ncard_le_ncard (Set.subset_univ (ahead system w t)) (Set.toFinite _)
  rw [Set.ncard_univ, Nat.card_eq_fintype_card, Fintype.card_fun, Fintype.card_fin,
    Fintype.card_fin] at bound
  have power : (c + r) ^ r ≤ (c + r) ^ (r + 1) := Nat.pow_le_pow_right some_column (Nat.le_succ r)
  exact Nat.lt_succ_of_le (bound.trans power)

end Tableau

namespace SimplexTableau

variable {v : Nat}

/-! ### The entering column -/

/-- The costs of all columns, those of the slacks being zero. -/
def columnCosts {r c : Nat} (costs : Vector ℚ c) : Fin (c + r) → ℚ :=
  Fin.addCases costs.get fun _ => 0

theorem cost_labelAt {r : Nat} {s : SimplexTableau ℚ r v} (first : s.tableau.basis.first = 1)
    (j : Fin (v + s.artificials + r)) :
    s.cost (s.tableau.basis.labelAt j) = columnCosts s.costs j := by
  refine Fin.addCases (fun k => ?_) (fun i => ?_) j
  · rw [Basis.labelAt_castAdd, first, columnCosts, Fin.addCases_left]
    simp [cost]
  · rw [Basis.labelAt_natAdd, columnCosts, Fin.addCases_right]
    rfl

theorem reducedCostAt_eq {r : Nat} {s : SimplexTableau ℚ r v}
    (consistent : s.tableau.basis.Consistent) (first : s.tableau.basis.first = 1)
    (j : Fin (v + s.artificials + r)) :
    s.reducedCostAt j = objectiveRow (columnCosts s.costs) s.tableau.values
      s.tableau.basis.columns.get j.castSucc := by
  rw [reducedCostAt, Scalar.dot_eq, cost_labelAt first, objectiveRow_castSucc]
  simp only [basicCosts, get_ofFn, consistent.rowLabel_eq, cost_labelAt first,
    Tableau.get_reducedColumn]

theorem mayEnter_iff {r : Nat} {s : SimplexTableau ℚ r v}
    (consistent : s.tableau.basis.Consistent) {j : Fin (v + s.artificials + r)} :
    s.mayEnter j = true ↔ (∀ i, s.tableau.basis.columns.get i ≠ j) ∧
      s.tableau.basis.blocked.get j = false := by
  rw [mayEnter, Bool.and_eq_true, Option.isNone_iff_eq_none, consistent.rowOf?_eq_none_iff,
    Bool.not_eq_true']

section Entering

variable {r : Nat} {s : SimplexTableau ℚ r v}

/-- A candidate to enter: a column that gains, with its reduced cost. -/
private def Gains (s : SimplexTableau ℚ r v) (p : Fin (v + s.artificials + r) × ℚ) : Prop :=
  s.mayEnter p.1 = true ∧ s.reducedCostAt p.1 = p.2 ∧ p.2 < 0

private theorem improve_cases {best : Option (Fin (v + s.artificials + r) × ℚ)}
    (sound : ∀ p, best = some p → s.Gains p) (j : Fin (v + s.artificials + r)) :
    (s.improve best j = best ∧ (best = none → s.mayEnter j = true → 0 ≤ s.reducedCostAt j)) ∨
    (s.improve best j = some (j, s.reducedCostAt j) ∧ s.Gains (j, s.reducedCostAt j)) := by
  by_cases may : s.mayEnter j = true
  · cases best with
    | none =>
      by_cases negative : Scalar.isStrictlyNegative (s.reducedCostAt j) = true
      · right
        exact ⟨by simp [improve, may, negative], may, rfl,
          Scalar.isStrictlyNegative_iff.mp negative⟩
      · left
        refine ⟨by simp [improve, may, negative], fun _ _ => ?_⟩
        exact not_lt.mp (mt Scalar.isStrictlyNegative_iff.mpr negative)
    | some p =>
      by_cases less : Scalar.definitelyLess (s.reducedCostAt j) p.2 = true
      · right
        have below := Scalar.definitelyLess_iff.mp less
        exact ⟨by simp [improve, may, less], may, rfl, below.trans (sound p rfl).2.2⟩
      · left
        exact ⟨by simp [improve, may, less], nofun⟩
  · left
    exact ⟨by simp [improve, may], fun _ enters => absurd enters may⟩

private theorem foldl_improve_spec (js : List (Fin (v + s.artificials + r)))
    (best : Option (Fin (v + s.artificials + r) × ℚ)) (sound : ∀ p, best = some p → s.Gains p) :
    (∀ p, js.foldl s.improve best = some p → s.Gains p) ∧
    (js.foldl s.improve best = none →
      best = none ∧ ∀ j ∈ js, s.mayEnter j = true → 0 ≤ s.reducedCostAt j) := by
  induction js generalizing best with
  | nil => exact ⟨sound, fun none => ⟨none, nofun⟩⟩
  | cons j js ih =>
    rw [List.foldl_cons]
    rcases improve_cases sound j with ⟨same, passes⟩ | ⟨better, gains⟩
    · rw [same]
      obtain ⟨sound', complete⟩ := ih best sound
      refine ⟨sound', fun none => ?_⟩
      obtain ⟨empty, rest⟩ := complete none
      exact ⟨empty, List.forall_mem_cons.mpr ⟨passes empty, rest⟩⟩
    · rw [better]
      obtain ⟨sound', complete⟩ := ih (some (j, s.reducedCostAt j)) (by rintro p ⟨⟩; exact gains)
      exact ⟨sound', fun none => nomatch (complete none).1⟩

/-- The entering column gains, and when there is none, no column does. -/
theorem enteringColumn?_cases (s : SimplexTableau ℚ r v) :
    (s.enteringColumn? = none ∧ ∀ j, s.mayEnter j = true → 0 ≤ s.reducedCostAt j) ∨
    ∃ j, s.enteringColumn? = some j ∧ s.mayEnter j = true ∧ s.reducedCostAt j < 0 := by
  obtain ⟨sound, complete⟩ := foldl_improve_spec (s := s) (List.finRange _) none nofun
  unfold enteringColumn?
  cases found : (List.finRange (v + s.artificials + r)).foldl s.improve none with
  | none => exact Or.inl ⟨rfl, fun j => (complete found).2 j (List.mem_finRange j)⟩
  | some p =>
    obtain ⟨may, value, negative⟩ := sound p found
    exact Or.inr ⟨p.1, rfl, may, value ▸ negative⟩

end Entering

/-! ### Ends of a run -/

section Run

variable {r a : Nat} {costs : Vector ℚ (v + a)} {origin t : Tableau ℚ r (v + a)}
  {system : Matrix (Fin r) (Fin (v + a + r + 1)) ℚ}

/-- How a run ends: no column that is not blocked gains, or one gains that no row bounds. -/
inductive Ends (costs : Vector ℚ (v + a)) (t : Tableau ℚ r (v + a)) : PhaseOutcome → Prop
  | optimal
    (optimal : ∀ j, t.basis.blocked.get j = false →
      0 ≤ objectiveRow (columnCosts costs) t.values t.basis.columns.get j.castSucc) :
    Ends costs t .optimal
  | unbounded (j : Fin (v + a + r)) (free : t.basis.blocked.get j = false)
    (gains : objectiveRow (columnCosts costs) t.values t.basis.columns.get j.castSucc < 0)
    (nonpos : ∀ i, t.values i j.castSucc ≤ 0) : Ends costs t (.unbounded (t.basis.labelAt j))

/-- What one round of the simplex method can come to. -/
theorem optimizeWithin_succ_cases (state : Tableau.SimplexState system origin t)
    (first : origin.basis.first = 1) (budget : Nat) :
    (∃ outcome, optimizeWithin (budget + 1) ⟨a, t, costs⟩ = ⟨.ok outcome, ⟨a, t, costs⟩⟩ ∧
      Ends costs t outcome) ∨
    ∃ i j, t.basis.blocked.get j = false ∧
      objectiveRow (columnCosts costs) t.values t.basis.columns.get j.castSucc < 0 ∧
      IsLexExit t.values t.lexColumns (t.values.col j.castSucc) i ∧
      optimizeWithin (budget + 1) ⟨a, t, costs⟩ =
        optimizeWithin budget ⟨a, t.exchangeColumn i j, costs⟩ := by
  have first' : t.basis.first = 1 := state.first.trans first
  have consistent := state.represents.consistent
  have reducedCost := reducedCostAt_eq (s := ⟨a, t, costs⟩) consistent first'
  have enters (j : Fin (v + a + r)) := mayEnter_iff (s := ⟨a, t, costs⟩) consistent (j := j)
  rcases enteringColumn?_cases ⟨a, t, costs⟩ with ⟨none, passes⟩ | ⟨j, found, may, gains⟩
  · refine Or.inl ⟨.optimal, by simp only [optimizeWithin, none], Ends.optimal fun j free => ?_⟩
    -- A basic column neither gains nor loses.
    by_cases basic : ∃ i, t.basis.columns.get i = j
    · obtain ⟨i, rfl⟩ := basic
      exact (objectiveRow_basic state.represents.reduced i).ge
    · rw [← reducedCost]
      exact passes j ((enters j).mpr ⟨fun i held => basic ⟨i, held⟩, free⟩)
  · obtain ⟨nonbasic, free⟩ := (enters j).mp may
    rw [reducedCost] at gains
    rcases state.represents.lexExitRow_cases (t.reducedColumn j) with
      ⟨nonpos, _, stops⟩ | ⟨i, _, exits, exit⟩
    · refine Or.inl ⟨.unbounded (t.basis.labelAt j), ?_, Ends.unbounded j free gains nonpos⟩
      simp only [optimizeWithin, found, stops]
    · refine Or.inr ⟨i, j, free, gains, exit, ?_⟩
      have pivots := state.represents.pivot_eq_ok nonbasic (ne_of_gt exit.1)
      simp only [optimizeWithin, found, exits, pivots]

/-- However many pivots a run is given, it leaves a state of the run. -/
theorem optimizeWithin_state (costs : Vector ℚ (v + a))
    (state : Tableau.SimplexState system origin t) (first : origin.basis.first = 1)
    (budget : Nat) :
    ∃ t', (optimizeWithin budget ⟨a, t, costs⟩).state = ⟨a, t', costs⟩ ∧
      Tableau.SimplexState system origin t' := by
  induction budget generalizing t with
  | zero => exact ⟨t, rfl, state⟩
  | succ budget ih =>
    rcases optimizeWithin_succ_cases state first budget with
      ⟨outcome, done, _⟩ | ⟨i, j, free, _, exit, continues⟩
    · exact ⟨t, by rw [done], state⟩
    · rw [continues]
      exact ih (state.exchangeColumn free exit)

/-- A run with enough budget for the bases ahead comes to its end. -/
theorem optimizeWithin_ends (state : Tableau.SimplexState system origin t)
    (first : origin.basis.first = 1) {budget : Nat}
    (enough : (Tableau.ahead system (columnCosts costs) t).ncard < budget) :
    ∃ outcome t', optimizeWithin budget ⟨a, t, costs⟩ = ⟨.ok outcome, ⟨a, t', costs⟩⟩ ∧
      Tableau.SimplexState system origin t' ∧ Ends costs t' outcome := by
  induction budget generalizing t with
  | zero => exact absurd enough (Nat.not_lt_zero _)
  | succ budget ih =>
    rcases optimizeWithin_succ_cases state first budget with
      ⟨outcome, done, ends⟩ | ⟨i, j, free, gains, exit, continues⟩
    · exact ⟨outcome, t, done, state, ends⟩
    · rw [continues]
      have fewer := state.ahead_exchangeColumn exit gains
      exact ih (state.exchangeColumn free exit) (by omega)

/-- From a basis with nonnegative values the simplex method comes to its end. -/
theorem optimize_ends (costs : Vector ℚ (v + a)) (represents : t.Represents system)
    (first : t.basis.first = 1) (nonneg : ∀ i, 0 ≤ t.values i (Fin.last (v + a + r)))
    (sealed : t.Sealed) (some_column : 0 < v + a + r) :
    ∃ outcome t', optimize ⟨a, t, costs⟩ = ⟨.ok outcome, ⟨a, t', costs⟩⟩ ∧
      Tableau.SimplexState system t.setLexReference t' ∧ Ends costs t' outcome :=
  optimizeWithin_ends (Tableau.SimplexState.start represents nonneg sealed) first
    (Tableau.ncard_ahead_lt some_column _)

end Run

end SimplexTableau

end LexPivot
