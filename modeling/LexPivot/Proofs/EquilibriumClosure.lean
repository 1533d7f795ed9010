import Mathlib
import LexPivot.Proofs.NondegenerateGame
import LexPivot.Proofs.SearchClosure

/-!
# The equilibria that a search finds are closed under paths

Paths in the tableau of a game lead back, so a search that is neither bounded nor cancelled has
seen the end of every path from its tableaus. The first path of any label ends at one of its
equilibria. Without degenerate bases the solution alone decides where paths lead, and then the
search has seen the end of every chain of paths.
-/
namespace LexPivot

namespace GameTableau

open Tableau

variable {m n : Nat} {payoff₁ payoff₂ : Grid ℚ m n} {fresh t t' : GameTableau ℚ m n}

theorem structural_mem_searchLabels (first : t.basis.first = 0) {k : Nat} (low : 1 ≤ k)
    (high : k ≤ m + n) : .structural k ∈ t.searchLabels :=
  (mem_searchLabels first).mpr ⟨k, low, high, rfl⟩

theorem searchWith_closed (initial : BetweenPaths payoff₁ payoff₂ fresh fresh) (some_row : 0 < m)
    (some_column : 0 < n) {σ : Type} (o : Observer σ ℚ) (state : σ) (bounds : SearchBounds)
    (complete : (fresh.searchWith o state bounds).1.isComplete = true) :
    Search.Closed (Reached payoff₁ payoff₂ fresh) fresh.searchLabels fresh
      (fresh.searchWith o state bounds).1 := by
  refine Tableau.searchWith_closed (Reached.moves initial some_row some_column [])
    initial.complementary (fun t reached l listed => ?_) o state bounds complete
  obtain ⟨k, low, high, rfl⟩ := (mem_searchLabels initial.first).mp listed
  obtain ⟨valid, proper⟩ := exists_labelAt reached.between.basis_first low high (Or.inl rfl)
  obtain ⟨next, back, path, reached', _, path', solution⟩ :=
    reached.lemkePath_lemkePath some_row some_column valid proper
  exact ⟨next, back, path, reached', path', solution⟩

/-- Without degenerate bases, the paths from tableaus with the same solution lead to the same
solutions. -/
theorem Reached.leadsInto_congr (h : Reached payoff₁ payoff₂ fresh t)
    (h' : Reached payoff₁ payoff₂ fresh t') (some_row : 0 < m) (some_column : 0 < n)
    (nondegenerate : fresh.Nondegenerate)
    (same : t'.complementarySolution = t.complementarySolution) {start : Label}
    (valid : ∃ j, t.basis.labelAt j = start) (proper : start ≠ .artificial)
    {solutions : List (BasicSolution ℚ)} (leads : Search.LeadsInto solutions t start) :
    Search.LeadsInto solutions t' start := by
  obtain ⟨next, path, member⟩ := leads
  obtain ⟨_, next', path', path'', solution⟩ := h.between.lemkePath_congr h'.between some_row
    some_column (h.range_of_complementarySolution h' nondegenerate same) valid proper
  cases path.symm.trans path'
  exact ⟨next', path'', solution ▸ member⟩

theorem exists_structural (first : t.basis.first = 0) {start : Label}
    (valid : ∃ j, t.basis.labelAt j = start) (proper : start ≠ .artificial) :
    ∃ k, 1 ≤ k ∧ k ≤ m + n ∧ (start = .structural k ∨ start = (Label.structural k).complement) := by
  obtain ⟨j, rfl⟩ := valid
  rcases column_cases j with rfl | ⟨k, rfl⟩ | ⟨k, rfl⟩
  · exact absurd (labelAt_cover first) proper
  · exact ⟨k + 1, Nat.succ_pos k, k.isLt, Or.inl (labelAt_weight first k)⟩
  · exact ⟨k + 1, Nat.succ_pos k, k.isLt, Or.inr (labelAt_slack t k)⟩

/-- Without degenerate bases, a search that is closed has seen the ends of all chains of paths. -/
theorem chain_mem_seen (initial : BetweenPaths payoff₁ payoff₂ fresh fresh) (some_row : 0 < m)
    (some_column : 0 < n) (nondegenerate : fresh.Nondegenerate) {report : SearchReport ℚ}
    (closed : Search.Closed (Reached payoff₁ payoff₂ fresh) fresh.searchLabels fresh report)
    (starts : List Label) :
    (fresh.moves (starts.map .lemkePath)).complementarySolution ∈ Search.seen fresh report := by
  induction starts using List.reverseRecOn with
  | nil => exact List.mem_cons_self
  | append_singleton starts start ih =>
    have reached := Reached.moves initial some_row some_column starts
    rw [List.map_append, moves_append]
    generalize fresh.moves (starts.map .lemkePath) = t at ih reached
    change (t.lemkePath start).state.complementarySolution ∈ Search.seen fresh report
    by_cases defined : (∃ j, t.basis.labelAt j = start) ∧ start ≠ .artificial
    · have first := reached.between.basis_first
      obtain ⟨k, low, high, pair⟩ := exists_structural first defined.1 defined.2
      obtain ⟨valid, proper⟩ := exists_labelAt first low high (Or.inl rfl)
      -- Both labels of a pair name the same path.
      have path : t.lemkePath start = t.lemkePath (.structural k) := by
        rcases pair with rfl | rfl
        · rfl
        · exact reached.between.lemkePath_complement valid proper
      -- The search may know the solution from another tableau, whose paths lead to the same ends.
      obtain ⟨t', reached', solution, _, leads⟩ := closed _ ih
      have valid' : ∃ j, t'.basis.labelAt j = .structural k := by
        rwa [reached'.between.feasible.labelAt, ← reached.between.feasible.labelAt]
      obtain ⟨next, path', member⟩ := reached'.leadsInto_congr reached some_row some_column
        nondegenerate solution.symm valid' proper
        (leads _ (structural_mem_searchLabels initial.first low high))
      rw [path, path']
      exact member
    · -- A label that names no path leaves the tableau as it is.
      rw [lemkePath_state_of_undefined defined]
      exact ih

/-- The solutions that a search has seen belong to tableaus at the ends of chains of paths, the
starting one to the fresh tableau, from which all paths lead to solutions seen. -/
structure ClosedUnderPaths (fresh : GameTableau ℚ m n) (report : SearchReport ℚ) : Prop where
  closed : ∀ s ∈ Search.seen fresh report, ∃ t, t.complementarySolution = s ∧
    (∃ starts : List Label, fresh.moves (starts.map .lemkePath) = t) ∧
    (s = fresh.complementarySolution → t = fresh) ∧
    ∀ k, 1 ≤ k → k ≤ m + n → Search.LeadsInto (Search.seen fresh report) t (.structural k)
  -- The first path of any label leads to a solution that is reported.
  first : ∀ k, 1 ≤ k → k ≤ m + n → Search.LeadsInto report.equilibria fresh (.structural k)
  chains : fresh.Nondegenerate → ∀ starts : List Label,
    (fresh.moves (starts.map .lemkePath)).complementarySolution ∈ Search.seen fresh report

theorem closedUnderPaths (initial : BetweenPaths payoff₁ payoff₂ fresh fresh) (some_row : 0 < m)
    (some_column : 0 < n) (slacks : fresh.basis.columns.get = slackColumn)
    (empty : fresh.complementarySolution.isEmpty = true) {report : SearchReport ℚ}
    (closed : Search.Closed (Reached payoff₁ payoff₂ fresh) fresh.searchLabels fresh report) :
    ClosedUnderPaths fresh report where
  closed s member := by
    obtain ⟨t, reached, solution, own, leads⟩ := closed s member
    exact ⟨t, solution, reached.chain, own, fun k low high =>
      leads _ (structural_mem_searchLabels initial.first low high)⟩
  first k low high := by
    obtain ⟨t, _, _, own, leads⟩ := closed _ List.mem_cons_self
    obtain rfl := own rfl
    obtain ⟨next, path, member⟩ := leads _ (structural_mem_searchLabels initial.first low high)
    obtain ⟨valid, proper⟩ := exists_labelAt initial.basis_first low high (Or.inl rfl)
    obtain ⟨_, path', _, nonempty⟩ :=
      initial.lemkePath_nonempty some_row some_column slacks valid proper
    cases path.symm.trans path'
    -- The starting solution is empty, and this one is not.
    refine ⟨next, path, (List.mem_cons.mp member).resolve_left fun same => ?_⟩
    rw [same, empty] at nonempty
    cases nonempty
  chains nondegenerate starts :=
    chain_mem_seen initial some_row some_column nondegenerate closed starts

theorem exists_fresh_closed (payoff₁ payoff₂ : Grid ℚ m n) (some_row : 0 < m)
    (some_column : 0 < n) :
    ∃ fresh : GameTableau ℚ m n, ofPayoffs payoff₁ payoff₂ = .ok fresh ∧
      ∀ {σ : Type} (o : Observer σ ℚ) (state : σ) (bounds : SearchBounds),
        IsClean m n (fresh.searchWith o state bounds).1 ∧
        ((fresh.searchWith o state bounds).1.isComplete = true →
          ClosedUnderPaths fresh (fresh.searchWith o state bounds).1) := by
  obtain ⟨fresh, built, initial, slacks⟩ :=
    ofPayoffs_betweenPaths payoff₁ payoff₂ some_row some_column
  obtain ⟨_, built', empty, sound⟩ := searchWith_sound payoff₁ payoff₂ some_row some_column
  cases built.symm.trans built'
  exact ⟨fresh, built, fun o state bounds => ⟨isClean_of_sound (sound o state bounds) empty,
    fun complete => closedUnderPaths initial some_row some_column slacks empty
      (searchWith_closed initial some_row some_column o state bounds complete)⟩⟩

theorem isComplete_of_cancelled_eq_false {report : SearchReport ℚ} (clean : IsClean m n report)
    (truncated : report.truncated = false) (cancelled : report.cancelled = false) :
    report.isComplete = true := by
  simp [SearchReport.isComplete, truncated, cancelled, clean.errors]

/-! ### Strategies -/

theorem exists_strategy_of_mem {solutions : List (BasicSolution ℚ)}
    {strategies : List (Strategy m n)}
    (matched : List.Forall₂ (fun s strategy => strategyOf m n s = .ok strategy) solutions
      strategies) {s : BasicSolution ℚ} (listed : s ∈ solutions) :
    ∃ strategy ∈ strategies, strategyOf m n s = .ok strategy := by
  induction matched with
  | nil => cases listed
  | cons first _ ih =>
    rcases List.mem_cons.mp listed with rfl | later
    · exact ⟨_, List.mem_cons_self, first⟩
    · obtain ⟨strategy, member, same⟩ := ih later
      exact ⟨strategy, List.mem_cons_of_mem _ member, same⟩

/-- Following one path gives the strategy of the solution it leads to. -/
theorem lemkeHowsonFrom_mem {g : BimatrixGame m n} (tableau : g.tableau ℚ = .ok fresh)
    {solutions : List (BasicSolution ℚ)} {strategies : List (Strategy m n)}
    (matched : List.Forall₂ (fun s strategy => strategyOf m n s = .ok strategy) solutions
      strategies) {k : Nat} (leads : Search.LeadsInto solutions fresh (.structural k)) :
    ∃ strategy ∈ strategies, g.lemkeHowsonFrom ℚ k = .ok strategy := by
  obtain ⟨next, path, member⟩ := leads
  obtain ⟨strategy, listed, same⟩ := exists_strategy_of_mem matched member
  refine ⟨strategy, listed, ?_⟩
  simp only [BimatrixGame.lemkeHowsonFrom, tableau, path, Attempt.stateOrError, same]

/-- A search without bounds that is not cancelled is complete and closed under paths. So each
strategy that is found by following one path is among those that the search for all equilibria
finds. -/
theorem search_closed (some_row : 0 < m) (some_column : 0 < n) :
    (∀ payoff₁ payoff₂ : Grid ℚ m n,
      ∃ fresh : GameTableau ℚ m n, ofPayoffs payoff₁ payoff₂ = .ok fresh ∧
        ∀ {σ : Type} (o : Observer σ ℚ) (state : σ),
          let report := (fresh.searchWith o state .unbounded).1
          ((∀ s, o.cancelled s = false) → report.cancelled = false) ∧
          (report.cancelled = false → report.isComplete = true ∧ ClosedUnderPaths fresh report)) ∧
    ∀ payoff₁ payoff₂ : Grid Float m n, ∀ g, BimatrixGame.ofPayoffs payoff₁ payoff₂ = .ok g →
      ∀ {σ : Type} (o : Observer σ ℚ) (state : σ),
        ∃ e, g.allEquilibria ℚ o state .unbounded = .ok e ∧
          ((∀ s, o.cancelled s = false) → e.report.cancelled = false) ∧
          (e.report.cancelled = false → ∀ k, 1 ≤ k → k ≤ m + n →
            ∃ strategy ∈ e.strategies, g.lemkeHowsonFrom ℚ k = .ok strategy) := by
  constructor
  · intro payoff₁ payoff₂
    obtain ⟨fresh, built, closed⟩ := exists_fresh_closed payoff₁ payoff₂ some_row some_column
    refine ⟨fresh, built, fun o state => ⟨fun never => ?_, fun cancelled => ?_⟩⟩
    · exact fresh.cancelled_searchWith never state .unbounded
    · obtain ⟨clean, closes⟩ := closed o state .unbounded
      have complete := isComplete_of_cancelled_eq_false clean (fresh.truncated_searchWith o state)
        cancelled
      exact ⟨complete, closes complete⟩
  · intro payoff₁ payoff₂ g game σ o state
    obtain ⟨converted₁, converted₂, fresh, _, _, built, tableau⟩ :=
      BimatrixGame.tableau_eq_ok game some_row some_column
    obtain ⟨_, built', closed⟩ := exists_fresh_closed converted₁ converted₂ some_row some_column
    cases built.symm.trans built'
    obtain ⟨clean, closes⟩ := closed o state .unbounded
    obtain ⟨e, done, report, matched⟩ := allEquilibria_eq_ok tableau clean
    refine ⟨e, done, fun never => ?_, fun cancelled k low high => ?_⟩
    · rw [report]
      exact fresh.cancelled_searchWith never state .unbounded
    · rw [report] at matched cancelled
      have complete := isComplete_of_cancelled_eq_false clean (fresh.truncated_searchWith o state)
        cancelled
      exact lemkeHowsonFrom_mem tableau matched ((closes complete).first k low high)

/-- In the game of coordination every chain of paths ends at a solution that the search has seen,
and in doubles the path of the third label ends at a strategy that the search has found. -/
theorem search_closed_coordination :
    let payoff : Grid ℚ 2 2 := #v[#v[2, 0], #v[0, 1]]
    let rounded : Grid Float 2 2 := #v[#v[2, 0], #v[0, 1]]
    (∃ fresh : GameTableau ℚ 2 2, ofPayoffs payoff payoff = .ok fresh ∧ fresh.Nondegenerate ∧
      (fresh.search .unbounded).isComplete = true ∧
      ∀ starts : List Label, (fresh.moves (starts.map .lemkePath)).complementarySolution ∈
        Search.seen fresh (fresh.search .unbounded)) ∧
    ∃ g e strategy, BimatrixGame.ofPayoffs rounded rounded = .ok g ∧
      g.allEquilibria ℚ (.silent ℚ) () .unbounded = .ok e ∧ strategy ∈ e.strategies ∧
      g.lemkeHowsonFrom ℚ 3 = .ok strategy := by
  intro payoff rounded
  obtain ⟨closed, found⟩ := search_closed (m := 2) (n := 2) (by decide) (by decide)
  constructor
  · obtain ⟨fresh, built, closes⟩ := closed payoff payoff
    have nondegenerate := nondegenerate_coordination fresh built
    obtain ⟨uncancelled, closure⟩ := closes (.silent ℚ) ()
    obtain ⟨complete, paths⟩ := closure (uncancelled fun _ => rfl)
    exact ⟨fresh, built, nondegenerate, complete, paths.chains nondegenerate⟩
  · have finite : (BimatrixGame.ofPayoffs rounded rounded).isOk = true := by decide +kernel
    cases game : BimatrixGame.ofPayoffs rounded rounded with
    | error e =>
      rw [game] at finite
      cases finite
    | ok g =>
      obtain ⟨e, done, uncancelled, among⟩ := found _ _ g game (.silent ℚ) ()
      obtain ⟨strategy, listed, path⟩ :=
        among (uncancelled fun _ => rfl) 3 (by decide) (by decide)
      exact ⟨g, e, strategy, rfl, done, listed, path⟩

end GameTableau

end LexPivot
