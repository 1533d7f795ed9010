import Mathlib
import LexPivot.Game.Equilibrium
import LexPivot.Proofs.LemkeHowsonPath
import LexPivot.Proofs.NashSoundness
import LexPivot.Proofs.SearchRun

/-!
# The search for equilibria of a game

Every path in the tableau of a game succeeds, and the basis determines the solution, so a search
comes to its end and gives up no path. Each solution it reports gives weight to both players, since
only the starting one is empty. Two solutions with the same probabilities would have the same
weights: a strategy that is played meets its payoff of one against the weights of the other player,
which fixes their scale. So no equilibrium is reported twice.
-/
namespace LexPivot

open Matrix Tableau

variable {m n : Nat}

/-! ### Games of doubles -/

/-- Finite payoffs are fractions. -/
theorem convertPayoff_eq_ok {payoff : Grid Float m n}
    (finite : ∀ x ∈ Grid.entries payoff, x.isFinite = true) :
    ∃ converted, convertPayoff ℚ payoff = .ok converted := by
  have fractions : ((Grid.entries payoff).find? fun x =>
      (Scalar.ofFloat? (α := ℚ) x).isNone) = none := by
    rw [List.find?_eq_none]
    intro x member
    have value : (Scalar.ofFloat? (α := ℚ) x).isSome = true :=
      Binary64.isSome_toRat? (finite x member)
    rw [Option.isNone_eq_false_iff.mpr value]
    exact Bool.false_ne_true
  unfold convertPayoff
  rw [fractions]
  exact ⟨_, rfl⟩

namespace BimatrixGame

/-- The payoffs of a game are those it was built from, and they are finite. -/
theorem finite_of_ofPayoffs {payoff₁ payoff₂ : Grid Float m n} {g : BimatrixGame m n}
    (built : ofPayoffs payoff₁ payoff₂ = .ok g) :
    (∀ x ∈ Grid.entries g.payoff₁, x.isFinite = true) ∧
      ∀ x ∈ Grid.entries g.payoff₂, x.isFinite = true := by
  unfold ofPayoffs at built
  split at built
  · cases built
  · split at built
    · cases built
    next finite =>
      cases built
      rw [List.find?_eq_none] at finite
      exact ⟨fun x member => by simpa using finite x (by simp [member]),
        fun x member => by simpa using finite x (by simp [member])⟩

/-- A game of finite payoffs has the tableau of two matrices of fractions. -/
theorem tableau_eq_ok {payoff₁ payoff₂ : Grid Float m n} {g : BimatrixGame m n}
    (built : ofPayoffs payoff₁ payoff₂ = .ok g) (some_row : 0 < m) (some_column : 0 < n) :
    ∃ converted₁ converted₂ fresh, convertPayoff ℚ g.payoff₁ = .ok converted₁ ∧
      convertPayoff ℚ g.payoff₂ = .ok converted₂ ∧
      GameTableau.ofPayoffs converted₁ converted₂ = .ok fresh ∧ g.tableau ℚ = .ok fresh := by
  obtain ⟨finite₁, finite₂⟩ := finite_of_ofPayoffs built
  obtain ⟨converted₁, converts₁⟩ := convertPayoff_eq_ok finite₁
  obtain ⟨converted₂, converts₂⟩ := convertPayoff_eq_ok finite₂
  obtain ⟨fresh, started, _⟩ :=
    GameTableau.ofPayoffs_represents converted₁ converted₂ some_row some_column
  refine ⟨converted₁, converted₂, fresh, converts₁, converts₂, started, ?_⟩
  simp only [tableau, converts₁, converts₂, started]

end BimatrixGame

namespace GameTableau

/-! ### Weights and probabilities -/

/-- The weights of both players divided by their sums. -/
def profile (m n : Nat) (s : BasicSolution ℚ) : (Fin m → ℚ) × (Fin n → ℚ) :=
  let weights := split m n s
  (fun i => weights.1.get i / ∑ k, weights.1.get k, fun j => weights.2.get j / ∑ k, weights.2.get k)

/-- Weights with the same probabilities are the same, if some combination of both is one. -/
theorem eq_of_div_total_eq {k : Nat} {f z z' : Fin k → ℚ} (total : 0 < ∑ i, z i)
    (total' : 0 < ∑ i, z' i) (same : ∀ i, z i / ∑ q, z q = z' i / ∑ q, z' q)
    (one : ∑ i, f i * z i = 1) (one' : ∑ i, f i * z' i = 1) : z = z' := by
  have scales : 1 / ∑ i, z i = 1 / ∑ i, z' i := by
    calc 1 / ∑ i, z i = ∑ i, f i * (z i / ∑ q, z q) := by
          rw [BestWeights.sum_div_total, one]
      _ = ∑ i, f i * (z' i / ∑ q, z' q) := by simp only [same]
      _ = 1 / ∑ i, z' i := by rw [BestWeights.sum_div_total, one']
  have scale : ∑ i, z i = ∑ i, z' i := by
    rw [div_eq_div_iff total.ne' total'.ne', one_mul, one_mul] at scales
    exact scales.symm
  ext i
  have equal := same i
  rwa [scale, div_left_inj' total'.ne'] at equal

/-- What has some probability has weight on both scales. -/
theorem exists_pos_of_div_total_eq {k : Nat} {z z' : Fin k → ℚ} (total : 0 < ∑ i, z i)
    (total' : 0 < ∑ i, z' i) (same : ∀ i, z i / ∑ q, z q = z' i / ∑ q, z' q) :
    ∃ i, 0 < z i ∧ 0 < z' i := by
  obtain ⟨i, _, positive⟩ := Finset.exists_lt_of_sum_lt (f := fun _ => (0 : ℚ))
    (s := Finset.univ) (g := z) (by simpa using total)
  refine ⟨i, positive, ?_⟩
  rw [← div_pos_iff_of_pos_right total', ← same i]
  exact div_pos positive total

/-- The game fixes the scale of the weights. -/
theorem BestWeights.eq_of_profile_eq {payoff₁ payoff₂ : Grid ℚ m n} {x x' : Fin m → ℚ}
    {y y' : Fin n → ℚ} (h : BestWeights payoff₁ payoff₂ x y)
    (h' : BestWeights payoff₁ payoff₂ x' y')
    (totals : 0 < ∑ i, x i ∧ 0 < ∑ j, y j) (totals' : 0 < ∑ i, x' i ∧ 0 < ∑ j, y' j)
    (first : ∀ i, x i / ∑ k, x k = x' i / ∑ k, x' k)
    (second : ∀ j, y j / ∑ k, y k = y' j / ∑ k, y' k) : x = x' ∧ y = y' := by
  obtain ⟨i, plays₁, plays₁'⟩ := exists_pos_of_div_total_eq totals.1 totals'.1 first
  obtain ⟨j, plays₂, plays₂'⟩ := exists_pos_of_div_total_eq totals.2 totals'.2 second
  exact ⟨eq_of_div_total_eq totals.1 totals'.1 first (h.tight₂ j plays₂) (h'.tight₂ j plays₂'),
    eq_of_div_total_eq totals.2 totals'.2 second (h.tight₁ i plays₁) (h'.tight₁ i plays₁')⟩

/-! ### Solutions between paths -/

namespace BetweenPaths

variable {payoff₁ payoff₂ : Grid ℚ m n} {origin t t' : GameTableau ℚ m n}

theorem bestWeights (h : BetweenPaths payoff₁ payoff₂ origin t) :
    BestWeights payoff₁ payoff₂ (split m n t.complementarySolution).1.get
      (split m n t.complementarySolution).2.get := by
  obtain ⟨weights₁, weights₂⟩ := get_split h.feasible.represents h.basis_first
  rw [funext weights₁, funext weights₂]
  exact GameTableau.bestWeights h.feasible h.basis_first h.complementary

theorem totals_pos (h : BetweenPaths payoff₁ payoff₂ origin t)
    (nonempty : t.complementarySolution.isEmpty = false) :
    0 < ∑ i, (split m n t.complementarySolution).1.get i ∧
      0 < ∑ j, (split m n t.complementarySolution).2.get j := by
  obtain ⟨weights₁, weights₂⟩ := get_split h.feasible.represents h.basis_first
  apply h.bestWeights.totals_pos
  simp only [weights₁, weights₂]
  exact exists_weight h.feasible nonempty

theorem exists_isNash (h : BetweenPaths payoff₁ payoff₂ origin t)
    (nonempty : t.complementarySolution.isEmpty = false) :
    ∃ x y, normalize? (split m n t.complementarySolution).1 = some x ∧
      normalize? (split m n t.complementarySolution).2 = some y ∧ IsNash payoff₁ payoff₂ x y := by
  obtain ⟨total₁, total₂⟩ := h.totals_pos nonempty
  obtain ⟨x, normal₁, value₁⟩ := normalize?_eq_some total₁
  obtain ⟨y, normal₂, value₂⟩ := normalize?_eq_some total₂
  exact ⟨x, y, normal₁, normal₂, h.bestWeights.isNash total₁ total₂ value₁ value₂⟩

theorem complementarySolution_congr (h : BetweenPaths payoff₁ payoff₂ origin t)
    (h' : BetweenPaths payoff₁ payoff₂ origin t')
    (same : ∀ k, t.point (weightColumn k) = t'.point (weightColumn k)) :
    t.complementarySolution = t'.complementarySolution := by
  refine filterLabels_basicSolution_congr h.feasible.represents.consistent
    h'.feasible.represents.consistent (h.feasible.labelAt.trans h'.feasible.labelAt.symm)
    fun j structural kept => ?_
  rcases column_cases j with rfl | ⟨k, rfl⟩ | ⟨k, rfl⟩
  · rw [labelAt_cover h.basis_first] at kept
    cases kept
  · exact same k
  · rw [labelAt_slack] at structural
    cases structural

theorem complementarySolution_of_range (h : BetweenPaths payoff₁ payoff₂ origin t)
    (h' : BetweenPaths payoff₁ payoff₂ origin t')
    (same : Set.range t'.basis.columns.get = Set.range t.basis.columns.get) :
    t'.complementarySolution = t.complementarySolution :=
  h.feasible.represents.complementarySolution_of_range h'.feasible.represents
    (h'.feasible.first.trans h.feasible.first.symm) same

/-- Solutions with the same probabilities are the same. -/
theorem complementarySolution_eq_of_profile_eq (h : BetweenPaths payoff₁ payoff₂ origin t)
    (h' : BetweenPaths payoff₁ payoff₂ origin t')
    (nonempty : t.complementarySolution.isEmpty = false)
    (nonempty' : t'.complementarySolution.isEmpty = false)
    (same : profile m n t.complementarySolution = profile m n t'.complementarySolution) :
    t.complementarySolution = t'.complementarySolution := by
  obtain ⟨probabilities₁, probabilities₂⟩ := Prod.mk.inj same
  obtain ⟨equal₁, equal₂⟩ := h.bestWeights.eq_of_profile_eq h'.bestWeights (h.totals_pos nonempty)
    (h'.totals_pos nonempty') (congrFun probabilities₁) (congrFun probabilities₂)
  obtain ⟨weights₁, weights₂⟩ := get_split h.feasible.represents h.basis_first
  obtain ⟨weights₁', weights₂'⟩ := get_split h'.feasible.represents h'.basis_first
  refine h.complementarySolution_congr h' fun k => ?_
  refine Fin.addCases (fun i => ?_) (fun j => ?_) k
  · rw [← weights₁, ← weights₁', equal₁]
  · rw [← weights₂, ← weights₂', equal₂]

end BetweenPaths

theorem mem_searchLabels {t : GameTableau ℚ m n} (first : t.basis.first = 0) {l : Label} :
    l ∈ t.searchLabels ↔ ∃ k, 1 ≤ k ∧ k ≤ m + n ∧ l = .structural k := by
  simp only [searchLabels, Basis.lastLabel, first, List.mem_map, List.mem_range'_1]
  constructor
  · rintro ⟨k, ⟨low, high⟩, rfl⟩
    exact ⟨k, by omega, by omega, rfl⟩
  · rintro ⟨k, low, high, rfl⟩
    exact ⟨k, ⟨by omega, by omega⟩, rfl⟩

/-- A search of a game gives up no path and reports no solution twice. -/
theorem searchWith_sound (payoff₁ payoff₂ : Grid ℚ m n) (some_row : 0 < m) (some_column : 0 < n) :
    ∃ fresh : GameTableau ℚ m n, ofPayoffs payoff₁ payoff₂ = .ok fresh ∧
      fresh.complementarySolution.isEmpty = true ∧
      ∀ {σ : Type} (o : Observer σ ℚ) (state : σ) (bounds : SearchBounds),
        Search.Sound (BetweenPaths payoff₁ payoff₂ fresh) fresh.complementarySolution
          (fresh.searchWith o state bounds).1 := by
  obtain ⟨fresh, built, initial, columns⟩ :=
    ofPayoffs_betweenPaths payoff₁ payoff₂ some_row some_column
  refine ⟨fresh, built, ?_, fun o state bounds => ?_⟩
  · rw [← Bool.not_eq_false, complementarySolution,
      isEmpty_filterLabels_basicSolution initial.feasible.represents.consistent]
    rintro ⟨i, structural, _⟩
    rw [initial.feasible.represents.consistent.rowLabel_eq, columns, labelAt_slack] at structural
    cases structural
  · refine Tableau.searchWith_sound initial initial.complementary (fun t between l listed => ?_)
      (fun solutions distinct found => ?_) o state bounds
    · obtain ⟨k, low, high, rfl⟩ := (mem_searchLabels initial.first).mp listed
      obtain ⟨valid, proper⟩ := exists_labelAt between.basis_first low high (Or.inl rfl)
      obtain ⟨next, path, ends, _⟩ := between.lemkePath_eq_ok some_row some_column valid proper
      exact ⟨next, path, ends⟩
    · refine fresh.length_le_pivotBudget (system payoff₁ payoff₂) distinct fun s listed => ?_
      obtain ⟨t, between, solution⟩ := found s listed
      exact ⟨t, between.feasible.represents, between.feasible.first, solution⟩

/-! ### Strategies -/

theorem strategyOf_eq_ok {s : BasicSolution ℚ} (total₁ : 0 < ∑ i, (split m n s).1.get i)
    (total₂ : 0 < ∑ j, (split m n s).2.get j) : ∃ strategy, strategyOf m n s = .ok strategy := by
  obtain ⟨x, normal₁, _⟩ := normalize?_eq_some total₁
  obtain ⟨y, normal₂, _⟩ := normalize?_eq_some total₂
  exact ⟨_, by simp only [strategyOf, Strategy.ofWeights?, normal₁, normal₂]; rfl⟩

theorem strategiesOf_eq_ok {solutions : List (BasicSolution ℚ)}
    (each : ∀ s ∈ solutions, ∃ strategy, strategyOf m n s = .ok strategy) :
    ∃ strategies, strategiesOf m n solutions = .ok strategies ∧
      List.Forall₂ (fun s strategy => strategyOf m n s = .ok strategy) solutions strategies := by
  induction solutions with
  | nil => exact ⟨[], rfl, .nil⟩
  | cons s rest ih =>
    obtain ⟨⟨strategy, first⟩, others⟩ := List.forall_mem_cons.mp each
    obtain ⟨strategies, later, matched⟩ := ih others
    exact ⟨strategy :: strategies, by simp only [strategiesOf, first, later], .cons first matched⟩

/-! ### Reports -/

/-- A report without errors, on solutions that give weight to both players and that differ even as
probabilities. -/
structure IsClean (m n : Nat) (report : SearchReport ℚ) : Prop where
  errors : report.errors = []
  totals : ∀ s ∈ report.equilibria,
    0 < ∑ i, (split m n s).1.get i ∧ 0 < ∑ j, (split m n s).2.get j
  distinct : report.equilibria.Pairwise fun s s' => profile m n s ≠ profile m n s'

theorem isClean_of_sound {payoff₁ payoff₂ : Grid ℚ m n} {origin : GameTableau ℚ m n}
    {start : BasicSolution ℚ} {report : SearchReport ℚ}
    (sound : Search.Sound (BetweenPaths payoff₁ payoff₂ origin) start report)
    (empty : start.isEmpty = true) : IsClean m n report := by
  obtain ⟨fresh, distinct⟩ := List.nodup_cons.mp sound.distinct
  -- Only the starting solution is empty, and it is not reported.
  have reported (s : BasicSolution ℚ) (listed : s ∈ report.equilibria) :
      ∃ t, BetweenPaths payoff₁ payoff₂ origin t ∧ t.complementarySolution = s ∧
        t.complementarySolution.isEmpty = false := by
    obtain ⟨t, between, rfl⟩ := sound.found s (List.mem_cons_of_mem _ listed)
    refine ⟨t, between, rfl, ?_⟩
    rw [← Bool.not_eq_true]
    intro empty'
    apply fresh
    rwa [BasicSolution.eq_empty_of_isEmpty empty, ← BasicSolution.eq_empty_of_isEmpty empty']
  refine ⟨sound.clean, fun s listed => ?_, ?_⟩
  · obtain ⟨t, between, rfl, nonempty⟩ := reported s listed
    exact between.totals_pos nonempty
  · refine distinct.imp_of_mem fun {s s'} listed listed' ne same => ne ?_
    obtain ⟨t, between, rfl, nonempty⟩ := reported s listed
    obtain ⟨t', between', rfl, nonempty'⟩ := reported s' listed'
    exact between.complementarySolution_eq_of_profile_eq between' nonempty nonempty' same

theorem exists_fresh_isClean (payoff₁ payoff₂ : Grid ℚ m n) (some_row : 0 < m)
    (some_column : 0 < n) :
    ∃ fresh : GameTableau ℚ m n, ofPayoffs payoff₁ payoff₂ = .ok fresh ∧
      ∀ {σ : Type} (o : Observer σ ℚ) (state : σ) (bounds : SearchBounds),
        IsClean m n (fresh.searchWith o state bounds).1 := by
  obtain ⟨fresh, built, empty, sound⟩ := searchWith_sound payoff₁ payoff₂ some_row some_column
  exact ⟨fresh, built, fun o state bounds => isClean_of_sound (sound o state bounds) empty⟩

/-- Where the report of a search is clean, every solution in it has a strategy. -/
theorem allEquilibria_eq_ok {g : BimatrixGame m n} {t : GameTableau ℚ m n}
    (tableau : g.tableau ℚ = .ok t) {σ : Type} {o : Observer σ ℚ} {state : σ}
    {bounds : SearchBounds} (clean : IsClean m n (t.searchWith o state bounds).1) :
    ∃ e, g.allEquilibria ℚ o state bounds = .ok e ∧ e.report = (t.searchWith o state bounds).1 ∧
      List.Forall₂ (fun s strategy => strategyOf m n s = .ok strategy) e.report.equilibria
        e.strategies := by
  obtain ⟨strategies, all, matched⟩ := strategiesOf_eq_ok fun s listed =>
    strategyOf_eq_ok (clean.totals s listed).1 (clean.totals s listed).2
  refine ⟨⟨strategies, (t.searchWith o state bounds).1⟩, ?_, rfl, matched⟩
  simp only [BimatrixGame.allEquilibria, tableau, all]

/-- For all payoffs, every search ends with a clean report. So the search for all equilibria of a
game succeeds, and turns every solution it finds into a strategy. -/
theorem search_isClean (some_row : 0 < m) (some_column : 0 < n) :
    (∀ payoff₁ payoff₂ : Grid ℚ m n,
      ∃ fresh : GameTableau ℚ m n, ofPayoffs payoff₁ payoff₂ = .ok fresh ∧
        ∀ {σ : Type} (o : Observer σ ℚ) (state : σ) (bounds : SearchBounds),
          IsClean m n (fresh.searchWith o state bounds).1) ∧
    ∀ payoff₁ payoff₂ : Grid Float m n, ∀ g, BimatrixGame.ofPayoffs payoff₁ payoff₂ = .ok g →
      ∃ t, g.tableau ℚ = .ok t ∧
        ∀ {σ : Type} (o : Observer σ ℚ) (state : σ) (bounds : SearchBounds),
          ∃ e, g.allEquilibria ℚ o state bounds = .ok e ∧
            e.report = (t.searchWith o state bounds).1 ∧ IsClean m n e.report ∧
            List.Forall₂ (fun s strategy => strategyOf m n s = .ok strategy) e.report.equilibria
              e.strategies := by
  refine ⟨fun payoff₁ payoff₂ => exists_fresh_isClean payoff₁ payoff₂ some_row some_column,
    fun payoff₁ payoff₂ g built => ?_⟩
  obtain ⟨converted₁, converted₂, t, _, _, started, tableau⟩ :=
    BimatrixGame.tableau_eq_ok built some_row some_column
  obtain ⟨_, started', clean⟩ := exists_fresh_isClean converted₁ converted₂ some_row some_column
  cases started.symm.trans started'
  refine ⟨t, tableau, fun o state bounds => ?_⟩
  obtain ⟨e, done, report, matched⟩ := allEquilibria_eq_ok tableau (clean o state bounds)
  exact ⟨e, done, report, report ▸ clean o state bounds, matched⟩

/-- A game of coordination has three equilibria, and a search finds all of them, in fractions and in
doubles. -/
theorem search_isClean_coordination :
    let payoff : Grid ℚ 2 2 := #v[#v[2, 0], #v[0, 1]]
    let rounded : Grid Float 2 2 := #v[#v[2, 0], #v[0, 1]]
    (∃ fresh : GameTableau ℚ 2 2, ofPayoffs payoff payoff = .ok fresh ∧
      (fresh.search .unbounded).equilibria.length = 3 ∧ IsClean 2 2 (fresh.search .unbounded)) ∧
    ∃ g e, BimatrixGame.ofPayoffs rounded rounded = .ok g ∧
      g.allEquilibria ℚ (.silent ℚ) () .unbounded = .ok e ∧ e.strategies.length = 3 := by
  intro payoff rounded
  obtain ⟨searches, finds⟩ := search_isClean (m := 2) (n := 2) (by decide) (by decide)
  constructor
  · obtain ⟨fresh, built, clean⟩ := searches payoff payoff
    have count : (match ofPayoffs payoff payoff with
        | .ok t => (t.search .unbounded).equilibria.length
        | .error _ => 0) = 3 := by decide +kernel
    rw [built] at count
    exact ⟨fresh, built, count, clean _ _ _⟩
  · have count : (match BimatrixGame.ofPayoffs rounded rounded with
        | .ok g =>
          match g.tableau ℚ with
          | .ok t => (t.search .unbounded).equilibria.length
          | .error _ => 0
        | .error _ => 0) = 3 := by decide +kernel
    cases game : BimatrixGame.ofPayoffs rounded rounded with
    | error e =>
      rw [game] at count
      cases count
    | ok g =>
      obtain ⟨t, tableau, all⟩ := finds _ _ g game
      obtain ⟨e, done, report, _, matched⟩ := all (.silent ℚ) () .unbounded
      simp only [game, tableau] at count
      exact ⟨g, e, rfl, done, by rw [← matched.length_eq, report, ← count]; rfl⟩

end GameTableau

end LexPivot
