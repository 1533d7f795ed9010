import Mathlib
import LexPivot.Proofs.NondegenerateGame
import LexPivot.Proofs.PathTermination

/-!
# Paths of games are involutions

In the tableau of a game one label of every pair is basic, so a path starts with the other one,
whichever of the two names it. The path of the same pair from its end undoes the pivots in the
reverse order, each in its row. What a tableau says of its system depends on the columns by row
alone, so it then says what it said before.
-/
namespace LexPivot

namespace Tableau

variable {r c : Nat} {system : Matrix (Fin r) (Fin (c + r + 1)) ℚ} {t t' : Tableau ℚ r c}

/-- Two tableaus say the same of their system: the label of every row, the column of every label,
the basic values by row, and the solution. -/
structure SaysSame (t t' : Tableau ℚ r c) : Prop where
  labels : t'.basis.labels = t.basis.labels
  solveColumn : ∀ l, t'.solveColumn l = t.solveColumn l
  basicVector : t'.basicVector = t.basicVector
  complementarySolution : t'.complementarySolution = t.complementarySolution

/-- The columns by row determine what a tableau says. -/
theorem Represents.saysSame (h : t.Represents system) (h' : t'.Represents system)
    (first : t'.basis.first = t.basis.first)
    (columns : t'.basis.columns.get = t.basis.columns.get) : SaysSame t t' := by
  have labels := h.consistent.rowLabel_of_columns h'.consistent first columns
  -- The working entries may differ by a common factor, the values they stand for do not.
  have values : t'.values = t.values := h.values_of_order h' (σ := Equiv.refl _) columns
  have column (j : Fin (c + r)) : t'.reducedColumn j = t.reducedColumn j :=
    ext_get fun i => by rw [get_reducedColumn, get_reducedColumn, values]
  have vector : t'.basicVector = t.basicVector :=
    ext_get fun i => by rw [get_basicVector, get_basicVector, values]
  refine ⟨?_, fun l => ?_, vector, ?_⟩
  · rw [Basis.labels, Basis.labels, labels]
  · simp only [Tableau.solveColumn, Basis.column?_of_first first, column]
  · simp only [Tableau.complementarySolution, basicSolution, vector, labels]

end Tableau

namespace GameTableau

open Tableau

variable {m n : Nat} {payoff₁ payoff₂ : Grid ℚ m n} {origin t : GameTableau ℚ m n}

namespace BetweenPaths

variable {start : Label}

/-- Both labels of a pair name the path that starts with the label that is not basic. -/
theorem enteringFirst_complement (h : BetweenPaths payoff₁ payoff₂ origin t)
    (valid : ∃ j, t.basis.labelAt j = start) (proper : start ≠ .artificial) :
    t.enteringFirst start.complement = t.enteringFirst start := by
  have consistent := h.feasible.represents.consistent
  have defined : start ≠ .slack 0 := Basis.ne_slack_zero_of_labelAt valid
  have apart : t.basis.Holds start → ¬t.basis.Holds start.complement :=
    (isComplementary_iff_holds consistent).mp h.complementary start proper
  rw [enteringFirst, enteringFirst]
  rcases holds_or_holds_complement h.feasible.represents h.basis_first h.complementary valid proper
    with own | across
  · rw [if_neg (mt consistent.isMember_iff_holds.mp (apart own)),
      if_pos (consistent.isMember_iff_holds.mpr own)]
  · have absent : ¬t.basis.Holds start := fun own => apart own across
    rw [if_pos (consistent.isMember_iff_holds.mpr across),
      if_neg (mt consistent.isMember_iff_holds.mp absent), Label.complement_complement defined]

/-- The path of one label of a pair goes through the states of the path of the other. -/
theorem pathRun_complement (h : BetweenPaths payoff₁ payoff₂ origin t)
    {visited : List (Label × GameTableau ℚ m n)} {next : GameTableau ℚ m n}
    (run : PathRun t start visited ⟨.ok (), next⟩) :
    PathRun t start.complement visited ⟨.ok (), next⟩ := by
  cases run with
  | path proper valid complementary loop =>
    have defined : start ≠ .slack 0 := Basis.ne_slack_zero_of_labelAt valid
    rw [← h.enteringFirst_complement valid proper] at loop
    exact .path (Label.complement_ne_artificial defined proper)
      (ComplementarityProblem.exists_complement h.basis_first valid proper) complementary
      (loop.complement defined)

end BetweenPaths

/-- After any paths from the fresh tableau of a game, the path of a strategy, followed twice in a
row, leads back to where it started: the tableau says the same as before. The path named by the
slack of the strategy goes through the same states. -/
theorem lemkePath_involutive (payoff₁ payoff₂ : Grid ℚ m n) (some_row : 0 < m)
    (some_column : 0 < n) :
    ∃ fresh : GameTableau ℚ m n, ofPayoffs payoff₁ payoff₂ = .ok fresh ∧
      ∀ (starts : List Label) (k : Nat), 1 ≤ k → k ≤ m + n →
        let t := fresh.moves (starts.map .lemkePath)
        ∃ next back visited, t.lemkePath (.structural k) = ⟨.ok (), next⟩ ∧
          next.lemkePath (.structural k) = ⟨.ok (), back⟩ ∧ SaysSame t back ∧
          PathRun t (.structural k) visited ⟨.ok (), next⟩ ∧
          PathRun t (.slack k) visited ⟨.ok (), next⟩ ∧
          t.lemkePath (.slack k) = ⟨.ok (), next⟩ := by
  obtain ⟨fresh, built, initial, _⟩ :=
    ofPayoffs_betweenPaths payoff₁ payoff₂ some_row some_column
  refine ⟨fresh, built, fun starts k low high => ?_⟩
  intro t
  have between : BetweenPaths payoff₁ payoff₂ fresh t :=
    initial.moves_lemkePath some_row some_column starts
  obtain ⟨valid, proper⟩ := exists_labelAt between.basis_first low high (Or.inl rfl)
  obtain ⟨next, back, path, ends, _, path', restored⟩ :=
    between.lemkePath_lemkePath some_row some_column valid proper
  -- The end of the second path has the columns of the start by row, and the same labels.
  have returned := ends.lemkePath_state some_row some_column (.structural k)
  rw [path'] at returned
  have same : SaysSame t back := between.feasible.represents.saysSame returned.feasible.represents
    (returned.basis_first.trans between.basis_first.symm) restored
  obtain ⟨visited, run, _⟩ := between.feasible.exists_pathRun (.structural k)
  rw [path] at run
  -- The other label of the pair of a strategy is its slack.
  have slack : (Label.structural k).complement = .slack k := by
    obtain ⟨k, rfl⟩ := Nat.exists_eq_add_of_le' low
    rfl
  have run' := between.pathRun_complement run
  have path'' := between.lemkePath_complement valid proper
  rw [slack] at run' path''
  exact ⟨next, back, visited, path, path', same, run, run', path''.trans path⟩

/-- In a game where every payoff is zero all rows tie, and paths lead back all the same. -/
theorem lemkePath_involutive_zero :
    let payoff : Grid ℚ 2 3 := Grid.ofFn fun _ _ => 0
    ∃ fresh : GameTableau ℚ 2 3, ofPayoffs payoff payoff = .ok fresh ∧
      let t := fresh.moves [.lemkePath (.structural 1)]
      ∃ next back, t.lemkePath (.structural 4) = ⟨.ok (), next⟩ ∧
        next.lemkePath (.structural 4) = ⟨.ok (), back⟩ ∧ SaysSame t back ∧
        t.lemkePath (.slack 4) = ⟨.ok (), next⟩ := by
  intro payoff
  obtain ⟨fresh, built, involutive⟩ := lemkePath_involutive payoff payoff (by decide) (by decide)
  obtain ⟨next, back, _, path, path', same, _, _, path''⟩ :=
    involutive [.structural 1] 4 (by decide) (by decide)
  exact ⟨fresh, built, next, back, path, path', same, path''⟩

end GameTableau

end LexPivot
