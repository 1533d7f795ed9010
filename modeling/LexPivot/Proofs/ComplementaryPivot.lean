import Mathlib
import LexPivot.Complementary.Path
import LexPivot.Proofs.LexFeasible

/-!
# Complementary pivots

What letting a label enter can come to, said once, and what follows for every tableau that is
reached by letting labels enter and by following paths: it represents the same system, ties are
broken at the same reference, and it stays lexicographically feasible.
-/
namespace LexPivot.Tableau

open Matrix

variable {r c : Nat} {t : Tableau ℚ r c} {system : Matrix (Fin r) (Fin (c + r + 1)) ℚ}

theorem solveColumn_labelAt (t : Tableau ℚ r c) (j : Fin (c + r)) :
    t.solveColumn (t.basis.labelAt j) = .ok (t.reducedColumn j) := by
  rw [solveColumn, Basis.column?_labelAt]

theorem isComplementary_iff (consistent : t.basis.Consistent) : t.isComplementary = true ↔
    ∀ i, t.basis.rowLabel i = .artificial ∨
      ∀ k, t.basis.rowLabel k ≠ (t.basis.rowLabel i).complement := by
  simp only [isComplementary, Basis.labels, List.all_map, List.all_eq_true, List.mem_finRange,
    true_imp_iff, Function.comp_apply, Bool.or_eq_true, Bool.not_eq_true', ← Bool.not_eq_true,
    consistent.isMember_iff, not_exists]
  exact forall_congr' fun i => or_congr_left beq_iff_eq

private theorem exitRow_of_nonpos (h : t.Represents system) {j : Fin (c + r)}
    (empty : positiveRows (t.reducedColumn j) = []) :
    (∃ i, t.basis.rowLabel i = .artificial ∧ t.values i j.castSucc = 0 ∧
      t.exitRow (t.basis.labelAt j) = .ok i) ∨
    ((∀ i, t.basis.rowLabel i = .artificial → t.values i j.castSucc ≠ 0) ∧
      t.exitRow (t.basis.labelAt j) = .error (.noExitRow (t.basis.labelAt j))) := by
  cases artificial : t.basis.position? .artificial with
  | none =>
    right
    constructor
    · intro i label
      rw [← h.consistent.position_iff, artificial] at label
      cases label
    · simp only [exitRow, solveColumn_labelAt, empty, artificial]
  | some i =>
    have label := (h.consistent.position_iff _ i).mp artificial
    -- The artificial label leaves without a pivot only where the column vanishes.
    by_cases zero : t.values i j.castSucc = 0
    · left
      refine ⟨i, label, zero, ?_⟩
      have negligible : Scalar.isNegligible ((t.reducedColumn j).get i) = true :=
        Scalar.isNegligible_iff.mpr zero
      simp only [exitRow, solveColumn_labelAt, empty, artificial, negligible, if_true]
    · right
      constructor
      · intro k other
        rw [← h.consistent.position_iff, artificial] at other
        exact Option.some.inj other ▸ zero
      · have negligible : ¬Scalar.isNegligible ((t.reducedColumn j).get i) = true :=
          mt Scalar.isNegligible_iff.mp zero
        simp only [exitRow, solveColumn_labelAt, empty, artificial, if_neg negligible]

private theorem exitRow_of_found {i : Fin r} {j : Fin (c + r)}
    (nonempty : positiveRows (t.reducedColumn j) ≠ [])
    (found : t.lexExitRow (t.reducedColumn j) (positiveRows (t.reducedColumn j)) = some i) :
    t.exitRow (t.basis.labelAt j) = .ok i := by
  unfold exitRow
  rw [solveColumn_labelAt]
  dsimp only
  split
  next empty => exact absurd empty nonempty
  · rw [found]

theorem vanishesAtArtificial_iff {i : Fin r} {j : Fin (c + r)} :
    t.vanishesAtArtificial i (t.basis.labelAt j) = true ↔
      t.basis.rowLabel i = .artificial ∧ t.values i j.castSucc = 0 := by
  rw [vanishesAtArtificial, solveColumn_labelAt, Bool.and_eq_true]
  exact and_congr beq_iff_eq Scalar.isNegligible_iff

namespace Represents

/-- What letting a label enter can come to. -/
theorem pivotIn_cases (h : t.Represents system) (entering : Label) :
    ((∀ j, t.basis.labelAt j ≠ entering) ∧
      t.pivotIn entering = ⟨.error (.undefinedLabel entering), t⟩) ∨
    ∃ j, t.basis.labelAt j = entering ∧
      (((∀ k, t.values k j.castSucc ≤ 0) ∧
        ((∃ i, t.basis.rowLabel i = .artificial ∧ t.values i j.castSucc = 0 ∧
          t.pivotIn entering = ⟨.ok .artificial, t⟩) ∨
        ((∀ i, t.basis.rowLabel i = .artificial → t.values i j.castSucc ≠ 0) ∧
          t.pivotIn entering = ⟨.error (.noExitRow entering), t⟩))) ∨
      ∃ i, IsLexExit t.values t.lexColumns (t.values.col j.castSucc) i ∧
        ((t.basis.columns.get i = j ∧ t.pivotIn entering = ⟨.ok entering, t⟩) ∨
        ((∀ k, t.basis.columns.get k ≠ j) ∧
          t.pivotIn entering = ⟨.ok (t.basis.rowLabel i), t.exchangeColumn i j⟩))) := by
  by_cases defined : ∃ j, t.basis.labelAt j = entering
  · right
    obtain ⟨j, rfl⟩ := defined
    refine ⟨j, rfl, ?_⟩
    rcases h.lexExitRow_cases (t.reducedColumn j) with
      ⟨nonpos, empty, _⟩ | ⟨i, nonempty, found, exit⟩
    · left
      refine ⟨nonpos, ?_⟩
      rcases exitRow_of_nonpos h empty with ⟨i, label, zero, row⟩ | ⟨nonzero, row⟩
      · refine Or.inl ⟨i, label, zero, ?_⟩
        rw [pivotIn, row]
        simp only [vanishesAtArtificial_iff.mpr ⟨label, zero⟩, if_true]
      · refine Or.inr ⟨nonzero, ?_⟩
        rw [pivotIn, row]
    · right
      refine ⟨i, exit, ?_⟩
      have positive : 0 < t.values i j.castSucc := exit.1
      have pivots : ¬t.vanishesAtArtificial i (t.basis.labelAt j) = true := by
        rw [vanishesAtArtificial_iff]
        exact fun vanishes => positive.ne' vanishes.2
      have request : t.pivotIn (t.basis.labelAt j) = t.pivot i (t.basis.labelAt j) := by
        rw [pivotIn, exitRow_of_found nonempty found]
        simp only [if_neg pivots]
      by_cases basic : ∃ k, t.basis.columns.get k = j
      · -- A basic column is positive in its own row only.
        obtain ⟨k, rfl⟩ := basic
        left
        have own : k = i := by
          by_contra ne
          exact positive.ne' (h.reduced.apply_ne (Ne.symm ne))
        subst own
        have stays := h.pivot_rowLabel k
        rw [h.consistent.rowLabel_eq] at stays
        exact ⟨rfl, request.trans stays⟩
      · right
        have nonbasic (k : Fin r) : t.basis.columns.get k ≠ j := fun held => basic ⟨k, held⟩
        exact ⟨nonbasic, request.trans (h.pivot_eq_ok nonbasic positive.ne')⟩
  · left
    have undefined (j : Fin (c + r)) : t.basis.labelAt j ≠ entering :=
      fun label => defined ⟨j, label⟩
    refine ⟨undefined, ?_⟩
    have column : t.basis.column? entering = none := by
      cases found : t.basis.column? entering with
      | none => rfl
      | some j => exact absurd (Basis.labelAt_of_column? found) (undefined j)
    simp only [pivotIn, exitRow, solveColumn, column]

/-- Letting a label enter keeps the system and the labels, also when it fails. -/
theorem pivotIn_state (h : t.Represents system) (entering : Label) :
    (t.pivotIn entering).state.Represents system ∧
      (t.pivotIn entering).state.basis.first = t.basis.first := by
  rcases h.pivotIn_cases entering with
    ⟨_, done⟩ | ⟨_, _, ⟨_, ⟨_, _, _, done⟩ | ⟨_, done⟩⟩ | ⟨i, exit, ⟨_, done⟩ | ⟨_, done⟩⟩⟩
  all_goals rw [done]
  case inr.inr.inr => exact ⟨h.exchangeColumn (ne_of_gt exit.1), t.first_exchangeColumn i _⟩
  all_goals exact ⟨h, rfl⟩

end Represents

namespace FeasibleFrom

variable {origin : Tableau ℚ r c}

/-- Letting a label enter keeps the invariant, also when it fails. -/
theorem pivotIn_state (h : FeasibleFrom system origin t) (entering : Label) :
    FeasibleFrom system origin (t.pivotIn entering).state := by
  rcases h.represents.pivotIn_cases entering with
    ⟨_, done⟩ | ⟨_, _, ⟨_, ⟨_, _, _, done⟩ | ⟨_, done⟩⟩ | ⟨i, exit, ⟨_, done⟩ | ⟨_, done⟩⟩⟩
  all_goals rw [done]
  case inr.inr.inr => exact h.exchangeColumn exit
  all_goals exact h

end FeasibleFrom

/-- What single pivots keep, a path keeps, also when it fails part-way. -/
theorem follow_state {P : Tableau ℚ r c → Prop}
    (step : ∀ t entering, P t → P (t.pivotIn entering).state) (start : Label) (budget : Nat)
    (entering : Label) (t : Tableau ℚ r c) (initial : P t) :
    P (follow start budget entering t).state := by
  induction budget generalizing entering t with
  | zero => exact initial
  | succ budget ih =>
    have next := step t entering initial
    unfold follow
    split
    next failed => rwa [failed] at next
    next passed =>
      rw [passed] at next
      split
      · exact next
      · exact ih _ _ next

theorem lemkePath_state {P : Tableau ℚ r c → Prop}
    (step : ∀ t entering, P t → P (t.pivotIn entering).state) (start : Label)
    (t : Tableau ℚ r c) (initial : P t) : P (t.lemkePath start).state := by
  unfold lemkePath
  split
  · exact initial
  · split
    · exact initial
    · exact follow_state step _ _ _ _ initial

/-- What can be asked of a tableau that is driven by complementary pivots. -/
inductive Move where
  | pivotIn (entering : Label)
  | lemkePath (start : Label)
deriving DecidableEq, Repr

def move (t : Tableau ℚ r c) : Move → Tableau ℚ r c
  | .pivotIn entering => (t.pivotIn entering).state
  | .lemkePath start => (t.lemkePath start).state

def moves (t : Tableau ℚ r c) (ms : List Move) : Tableau ℚ r c := ms.foldl move t

theorem FeasibleFrom.moves {origin : Tableau ℚ r c} (h : FeasibleFrom system origin t)
    (ms : List Move) : FeasibleFrom system origin (t.moves ms) := by
  induction ms generalizing t with
  | nil => exact h
  | cons m ms ih =>
    apply ih
    cases m with
    | pivotIn entering => exact h.pivotIn_state entering
    | lemkePath start =>
      exact lemkePath_state (P := FeasibleFrom system origin)
        (fun _ entering kept => kept.pivotIn_state entering) start t h

theorem FeasibleFrom.of_lemkePath {origin next : Tableau ℚ r c} {start : Label}
    (h : FeasibleFrom system origin t) (path : t.lemkePath start = ⟨.ok (), next⟩) :
    FeasibleFrom system origin next := by
  have kept := h.moves [.lemkePath start]
  have state : t.moves [.lemkePath start] = next := congrArg Attempt.state path
  rwa [state] at kept

end LexPivot.Tableau
