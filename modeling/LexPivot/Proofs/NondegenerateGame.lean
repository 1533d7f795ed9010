import Mathlib
import LexPivot.Proofs.EquilibriumSearch

/-!
# Games without degenerate bases

When no basis that pivots reach has a value of zero, the basic columns are the columns where the
point of the tableau is not zero. A complementary basis has one label of every pair, so the weights
alone say which columns are basic. The solution then determines where the paths lead: from two
tableaus with the same solution they make the same pivots.
-/
namespace LexPivot

open Matrix

namespace Tableau

variable {r c : Nat} {system : Matrix (Fin r) (Fin (c + r + 1)) ℚ} {t : Tableau ℚ r c}

/-- No basis that pivots lead to has a value of zero. -/
def Nondegenerate (t : Tableau ℚ r c) : Prop :=
  ∀ (entering : List Label) (i : Fin r), (t.moves (entering.map .pivotIn)).basicVector.get i ≠ 0

theorem moves_append (t : Tableau ℚ r c) (first second : List Move) :
    t.moves (first ++ second) = (t.moves first).moves second :=
  List.foldl_append

/-- Whatever moves lead to, pivots alone lead to. -/
theorem exists_pivotIns (t : Tableau ℚ r c) (ms : List Move) :
    ∃ entering : List Label, t.moves (entering.map .pivotIn) = t.moves ms := by
  have step (t' : Tableau ℚ r c) (l : Label)
      (reached : ∃ entering : List Label, t.moves (entering.map .pivotIn) = t') :
      ∃ entering : List Label, t.moves (entering.map .pivotIn) = (t'.pivotIn l).state := by
    obtain ⟨entering, rfl⟩ := reached
    exact ⟨entering ++ [l], by rw [List.map_append, moves_append]; rfl⟩
  induction ms using List.reverseRecOn with
  | nil => exact ⟨[], rfl⟩
  | append_singleton ms m ih =>
    rw [moves_append]
    cases m with
    | pivotIn l => exact step _ l ih
    | lemkePath start =>
      exact lemkePath_state
        (P := fun t' => ∃ entering : List Label, t.moves (entering.map .pivotIn) = t')
        step start _ ih

theorem Nondegenerate.value_ne_zero (h : t.Nondegenerate) (ms : List Move) (i : Fin r) :
    (t.moves ms).values i (Fin.last (c + r)) ≠ 0 := by
  obtain ⟨entering, reached⟩ := t.exists_pivotIns ms
  rw [← get_basicVector, ← reached]
  exact h entering i

/-- Where no basic value is zero, the basic columns are those where the point is not zero. -/
theorem Represents.point_ne_zero_iff (h : t.Represents system)
    (nonzero : ∀ i, t.values i (Fin.last (c + r)) ≠ 0) {j : Fin (c + r)} :
    t.point j ≠ 0 ↔ j ∈ Set.range t.basis.columns.get := by
  refine ⟨exists_row_of_point_ne_zero, ?_⟩
  rintro ⟨i, rfl⟩
  rw [h.point_basic]
  exact nonzero i

/-- If no solution of the system has fewer coordinates that are not zero than there are rows, then
no basis is degenerate. -/
theorem nondegenerate_of_support (h : FeasibleFrom system t t)
    (support : ∀ z, Solves system z → r ≤ (Finset.univ.filter fun j => z j ≠ 0).card) :
    t.Nondegenerate := by
  intro entering i zero
  have represents := (h.moves (entering.map .pivotIn)).represents
  rw [get_basicVector] at zero
  -- The columns that are not zero are basic in the other rows.
  have rows : (Finset.univ.filter fun j => (t.moves (entering.map .pivotIn)).point j ≠ 0) ⊆
      (Finset.univ.erase i).image (t.moves (entering.map .pivotIn)).basis.columns.get := by
    intro j member
    have nonzero := (Finset.mem_filter.mp member).2
    obtain ⟨k, rfl⟩ := exists_row_of_point_ne_zero nonzero
    refine Finset.mem_image_of_mem _ (Finset.mem_erase.mpr ⟨?_, Finset.mem_univ k⟩)
    rintro rfl
    exact nonzero (represents.point_basic k ▸ zero)
  have most := (Finset.card_le_card rows).trans Finset.card_image_le
  rw [Finset.card_erase_of_mem (Finset.mem_univ i), Finset.card_univ, Fintype.card_fin] at most
  have least := support _ represents.solves_point
  have := i.isLt
  omega

end Tableau

namespace GameTableau

open Tableau

variable {m n : Nat} {payoff₁ payoff₂ : Grid ℚ m n} {origin fresh t t' : GameTableau ℚ m n}

namespace BetweenPaths

variable {start : Label}

/-- A path may be named by either label of its pair. -/
theorem lemkePath_complement (h : BetweenPaths payoff₁ payoff₂ origin t)
    (valid : ∃ j, t.basis.labelAt j = start) (proper : start ≠ .artificial) :
    t.lemkePath start.complement = t.lemkePath start := by
  have defined : start ≠ .slack 0 := Basis.ne_slack_zero_of_labelAt valid
  obtain ⟨entering, almost, index, _, path⟩ := h.exists_entering valid proper
  have lacks : t.Lacks start.complement entering :=
    ⟨index.trans (Label.index_complement start).symm, almost.nonbasic⟩
  rw [path, h.lemkePath_eq_follow
    (ComplementarityProblem.exists_complement h.basis_first valid proper)
    (Label.complement_ne_artificial defined proper) lacks, follow_complement defined]

/-- Paths of one label from the same basic columns lead to the same solution. -/
theorem lemkePath_congr (h : BetweenPaths payoff₁ payoff₂ origin t)
    (h' : BetweenPaths payoff₁ payoff₂ origin t') (some_row : 0 < m) (some_column : 0 < n)
    (same : Set.range t'.basis.columns.get = Set.range t.basis.columns.get)
    (valid : ∃ j, t.basis.labelAt j = start) (proper : start ≠ .artificial) :
    ∃ next next', t.lemkePath start = ⟨.ok (), next⟩ ∧ t'.lemkePath start = ⟨.ok (), next'⟩ ∧
      next'.complementarySolution = next.complementarySolution := by
  have valid' : ∃ j, t'.basis.labelAt j = start := by
    rwa [h'.feasible.labelAt, ← h.feasible.labelAt]
  obtain ⟨entering, steps, leaving, next, trace, affordable, first, last, between, _⟩ :=
    h.exists_trace some_row some_column valid proper
  -- The rows differ in their order only, so the pivots of one path are those of the other.
  obtain ⟨σ, order, _⟩ := h.feasible.represents.exists_perm h'.feasible.represents same
  obtain ⟨next', trace', order'⟩ := trace.reorder h.feasible h'.feasible order
  have stops := last.stopsAt (Basis.ne_slack_zero_of_labelAt valid) proper
  have first' : t'.Lacks start entering :=
    ⟨first.1, mt (h.feasible.holds_iff_of_range h'.feasible same entering).mp first.2⟩
  have path' := h'.lemkePath_of_trace valid' proper trace' affordable first' stops
  have between' := h'.lemkePath_state some_row some_column start
  rw [path'] at between'
  refine ⟨next, next', h.lemkePath_of_trace valid proper trace affordable first stops, path', ?_⟩
  refine between.complementarySolution_of_range between' ?_
  rw [order', σ.surjective.range_comp]

theorem slack_mem_range_iff (h : BetweenPaths payoff₁ payoff₂ origin t) (k : Fin (m + n)) :
    slackColumn k ∈ Set.range t.basis.columns.get ↔
      weightColumn k ∉ Set.range t.basis.columns.get := by
  have consistent := h.feasible.represents.consistent
  rw [← consistent.holds_labelAt_iff, ← consistent.holds_labelAt_iff, labelAt_slack,
    labelAt_weight h.basis_first]
  exact xor_iff_iff_not.mp (holds_xor h.feasible.represents h.basis_first h.complementary k).symm

/-- The solution determines the basic columns where no basic value is zero. -/
theorem range_of_complementarySolution (h : BetweenPaths payoff₁ payoff₂ origin t)
    (h' : BetweenPaths payoff₁ payoff₂ origin t')
    (nonzero : ∀ i, t.values i (Fin.last _) ≠ 0) (nonzero' : ∀ i, t'.values i (Fin.last _) ≠ 0)
    (same : t'.complementarySolution = t.complementarySolution) :
    Set.range t'.basis.columns.get = Set.range t.basis.columns.get := by
  have represents := h.feasible.represents
  have represents' := h'.feasible.represents
  have weight (k : Fin (m + n)) : weightColumn k ∈ Set.range t'.basis.columns.get ↔
      weightColumn k ∈ Set.range t.basis.columns.get := by
    rw [← represents.point_ne_zero_iff nonzero, ← represents'.point_ne_zero_iff nonzero',
      ← get_complementarySolution represents h.basis_first,
      ← get_complementarySolution represents' h'.basis_first, same]
  ext j
  rcases column_cases j with rfl | ⟨k, rfl⟩ | ⟨k, rfl⟩
  · exact iff_of_false (fun ⟨i, held⟩ => cover_nonbasic represents' i held)
      fun ⟨i, held⟩ => cover_nonbasic represents i held
  · exact weight k
  · -- A slack is basic when the weight of its pair is not.
    rw [h.slack_mem_range_iff, h'.slack_mem_range_iff, weight]

end BetweenPaths

/-! ### Chains of paths -/

/-- A tableau at the end of a chain of paths from the fresh one. -/
structure Reached (payoff₁ payoff₂ : Grid ℚ m n) (fresh t : GameTableau ℚ m n) : Prop where
  between : BetweenPaths payoff₁ payoff₂ fresh t
  chain : ∃ starts : List Label, fresh.moves (starts.map .lemkePath) = t

namespace Reached

theorem moves (initial : BetweenPaths payoff₁ payoff₂ fresh fresh) (some_row : 0 < m)
    (some_column : 0 < n) (starts : List Label) :
    Reached payoff₁ payoff₂ fresh (fresh.moves (starts.map .lemkePath)) :=
  ⟨initial.moves_lemkePath some_row some_column starts, starts, rfl⟩

theorem lemkePath_state (h : Reached payoff₁ payoff₂ fresh t) (some_row : 0 < m)
    (some_column : 0 < n) (start : Label) :
    Reached payoff₁ payoff₂ fresh (t.lemkePath start).state := by
  refine ⟨h.between.lemkePath_state some_row some_column start, ?_⟩
  obtain ⟨starts, rfl⟩ := h.chain
  exact ⟨starts ++ [start], by rw [List.map_append, moves_append]; rfl⟩

theorem value_ne_zero (h : Reached payoff₁ payoff₂ fresh t) (nondegenerate : fresh.Nondegenerate)
    (i : Fin (m + n)) : t.values i (Fin.last _) ≠ 0 := by
  obtain ⟨starts, rfl⟩ := h.chain
  exact nondegenerate.value_ne_zero _ i

theorem range_of_complementarySolution (h : Reached payoff₁ payoff₂ fresh t)
    (h' : Reached payoff₁ payoff₂ fresh t') (nondegenerate : fresh.Nondegenerate)
    (same : t'.complementarySolution = t.complementarySolution) :
    Set.range t'.basis.columns.get = Set.range t.basis.columns.get :=
  h.between.range_of_complementarySolution h'.between (h.value_ne_zero nondegenerate)
    (h'.value_ne_zero nondegenerate) same

/-- A path leads from a reached tableau to another one, and back to the same solution. -/
theorem lemkePath_lemkePath (h : Reached payoff₁ payoff₂ fresh t) (some_row : 0 < m)
    (some_column : 0 < n) {start : Label} (valid : ∃ j, t.basis.labelAt j = start)
    (proper : start ≠ .artificial) :
    ∃ next back, t.lemkePath start = ⟨.ok (), next⟩ ∧ Reached payoff₁ payoff₂ fresh next ∧
      Set.range next.basis.columns.get ≠ Set.range t.basis.columns.get ∧
      next.lemkePath start = ⟨.ok (), back⟩ ∧
      back.complementarySolution = t.complementarySolution := by
  obtain ⟨next, back, path, between, differs, path', restored⟩ :=
    h.between.lemkePath_lemkePath some_row some_column valid proper
  have reached := h.lemkePath_state some_row some_column start
  rw [path] at reached
  have returned := between.lemkePath_state some_row some_column start
  rw [path'] at returned
  exact ⟨next, back, path, reached, differs, path',
    h.between.complementarySolution_of_range returned (congrArg Set.range restored)⟩

end Reached

/-! ### A game of coordination -/

theorem sum_columns (f : Fin (m + n + 1 + (m + n)) → Nat) :
    ∑ j, f j = f coverColumn +
      ((∑ i, f (weightColumn (Fin.castAdd n i)) + ∑ j, f (slackColumn (Fin.natAdd m j))) +
        (∑ j, f (weightColumn (Fin.natAdd m j)) + ∑ i, f (slackColumn (Fin.castAdd n i)))) := by
  rw [Fin.sum_univ_add, Fin.sum_univ_succ, Fin.sum_univ_add, Fin.sum_univ_add]
  simp only [coverColumn, weightColumn, slackColumn]
  omega

/-- Of two weights and the slacks of the two strategies against them at most two are zero. -/
private theorem two_le_nonzero {w s : Fin 2 → ℚ} (slack₀ : s 0 = 1 - (3 * w 0 + 1 * w 1))
    (slack₁ : s 1 = 1 - (1 * w 0 + 2 * w 1)) :
    2 ≤ ∑ i, (if w i ≠ 0 then 1 else 0) + ∑ i, (if s i ≠ 0 then 1 else 0) := by
  simp only [Fin.sum_univ_two]
  grind

/-- The game in which both players want to agree, and rather on their first strategy, has no
degenerate basis. -/
theorem nondegenerate_coordination :
    let payoff : Grid ℚ 2 2 := #v[#v[2, 0], #v[0, 1]]
    ∀ fresh : GameTableau ℚ 2 2, ofPayoffs payoff payoff = .ok fresh → fresh.Nondegenerate := by
  intro payoff fresh built
  obtain ⟨_, built', feasible, _⟩ := ofPayoffs_represents payoff payoff (by decide) (by decide)
  cases built.symm.trans built'
  refine nondegenerate_of_support feasible fun z solves => ?_
  have shifted : payoff.entry 0 0 - shift payoff = 3 ∧ payoff.entry 0 1 - shift payoff = 1 ∧
      payoff.entry 1 0 - shift payoff = 1 ∧ payoff.entry 1 1 - shift payoff = 2 := by
    decide +kernel
  obtain ⟨first, second⟩ := slack_of_solves solves
  simp only [Fin.forall_fin_two, Fin.sum_univ_two, shifted] at first second
  have weights₂ := two_le_nonzero (w := fun j => z (weightColumn (Fin.natAdd 2 j)))
    (s := fun i => z (slackColumn (Fin.castAdd 2 i))) first.1 first.2
  have weights₁ := two_le_nonzero (w := fun i => z (weightColumn (Fin.castAdd 2 i)))
    (s := fun j => z (slackColumn (Fin.natAdd 2 j))) second.1 second.2
  rw [Finset.card_filter, sum_columns]
  omega

end GameTableau

end LexPivot
