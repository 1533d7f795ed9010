import Mathlib
import LexPivot.Search.Run
import LexPivot.Proofs.SolutionOrder

/-!
# Runs of a search

Every round of a search explores one node and queues one for each solution it adds. So the nodes
explored and pending are as many as the solutions seen, and when there are not more solutions than
the budget, the search comes to its end, and the errors it reports are those of the paths it gave
up. Where every path succeeds, it reports none.
-/
namespace LexPivot

namespace Search

variable {σ : Type} {r c : Nat} {o : Observer σ ℚ} {bounds : SearchBounds}
  {start : BasicSolution ℚ} {labels : List Label} {node : Node ℚ r c} {p : Progress σ ℚ r c}

/-! ### Steps -/

/-- What following the path of a label can come to. -/
theorem followLabel_cases (o : Observer σ ℚ) (start : BasicSolution ℚ) (node : Node ℚ r c)
    (p : Progress σ ℚ r c) (label : Label) :
    (∃ e left, node.tableau.lemkePath label = ⟨.error e, left⟩ ∧
      followLabel o start node p label = p.addError e) ∨
    ∃ next, node.tableau.lemkePath label = ⟨.ok (), next⟩ ∧
      ((next.complementarySolution ∈ start :: p.report.equilibria ∧
        followLabel o start node p label = p) ∨
      (next.complementarySolution ∉ start :: p.report.equilibria ∧
        followLabel o start node p label =
          p.addSolution o next.complementarySolution ⟨next, some label, node.depth + 1⟩)) := by
  rcases path : node.tableau.lemkePath label with ⟨e | _, next⟩
  · exact Or.inl ⟨e, next, rfl, by simp only [followLabel, path]⟩
  · refine Or.inr ⟨next, rfl, ?_⟩
    have known : ((start :: p.report.equilibria).any fun seen =>
        seen.approxEq next.complementarySolution) = true ↔
          next.complementarySolution ∈ start :: p.report.equilibria := by
      simp only [List.any_eq_true, BasicSolution.approxEq_iff, exists_eq_right]
    by_cases seen : next.complementarySolution ∈ start :: p.report.equilibria
    · exact Or.inl ⟨seen, by simp only [followLabel, path, if_pos (known.mpr seen)]⟩
    · exact Or.inr ⟨seen, by simp only [followLabel, path, if_neg (mt known.mp seen)]⟩

/-- A visit passes over the label, ends the search, or follows the path of the label. -/
theorem visit_guards (o : Observer σ ℚ) (bounds : SearchBounds) (start : BasicSolution ℚ)
    (node : Node ℚ r c) (p : Progress σ ℚ r c) (label : Label) :
    ((p.halted = true ∨ node.arrivedBy = some label) ∧ visit o bounds start node p label = p) ∨
    (o.cancelled p.observer = true ∧ visit o bounds start node p label = p.cancel) ∨
    (bounds.countReached p.report.equilibria.length = true ∧
      visit o bounds start node p label = p.truncate.halt) ∨
    (p.halted = false ∧ node.arrivedBy ≠ some label ∧ o.cancelled p.observer = false ∧
      bounds.countReached p.report.equilibria.length = false ∧
      visit o bounds start node p label = followLabel o start node p label) := by
  unfold visit
  split
  next passed =>
    rw [Bool.or_eq_true, beq_iff_eq] at passed
    exact Or.inl ⟨passed, rfl⟩
  next going =>
    rw [Bool.or_eq_true, beq_iff_eq, not_or, Bool.not_eq_true] at going
    split
    next cancelled => exact Or.inr (Or.inl ⟨cancelled, rfl⟩)
    next watching =>
      split
      next reached => exact Or.inr (Or.inr (Or.inl ⟨reached, rfl⟩))
      next below =>
        exact Or.inr (Or.inr (Or.inr ⟨going.1, going.2, Bool.eq_false_of_not_eq_true watching,
          Bool.eq_false_of_not_eq_true below, rfl⟩))

/-- What dealing with one label can come to. -/
theorem visit_cases (o : Observer σ ℚ) (bounds : SearchBounds) (start : BasicSolution ℚ)
    (node : Node ℚ r c) (p : Progress σ ℚ r c) (label : Label) :
    ((p.halted = true ∨ node.arrivedBy = some label) ∧ visit o bounds start node p label = p) ∨
    (o.cancelled p.observer = true ∧ visit o bounds start node p label = p.cancel) ∨
    (bounds.countReached p.report.equilibria.length = true ∧
      visit o bounds start node p label = p.truncate.halt) ∨
    (∃ e left, node.tableau.lemkePath label = ⟨.error e, left⟩ ∧
      visit o bounds start node p label = p.addError e) ∨
    ∃ next, node.tableau.lemkePath label = ⟨.ok (), next⟩ ∧
      ((next.complementarySolution ∈ start :: p.report.equilibria ∧
        visit o bounds start node p label = p) ∨
      (next.complementarySolution ∉ start :: p.report.equilibria ∧
        visit o bounds start node p label =
          p.addSolution o next.complementarySolution ⟨next, some label, node.depth + 1⟩)) := by
  rcases visit_guards o bounds start node p label with passed | cancelled | reached | follows
  · exact Or.inl passed
  · exact Or.inr (Or.inl cancelled)
  · exact Or.inr (Or.inr (Or.inl reached))
  · obtain ⟨_, _, _, _, same⟩ := follows
    rw [same]
    exact Or.inr (Or.inr (Or.inr (followLabel_cases o start node p label)))

/-! ### Invariants -/

/-- What visits keep, and what passing over a node that lies too deep keeps, an expansion keeps. -/
theorem expand_induction {I : Progress σ ℚ r c → Prop}
    (deep : bounds.depthExceeded node.depth = true → I p → I p.truncate)
    (visit : bounds.depthExceeded node.depth = false → ∀ p, ∀ l ∈ labels, I p →
      I (visit o bounds start node p l))
    (initial : I p) : I (expand o bounds start labels node p) := by
  unfold expand
  split
  next exceeded => exact deep exceeded initial
  next within =>
    exact List.foldlRecOn labels _ initial fun q kept l listed =>
      visit (Bool.eq_false_of_not_eq_true within) q l listed kept

/-- An invariant `I` of a search and its budget, with what `N` says of the nodes explored. It holds
where the search comes to its end, and where the budget is spent before that. -/
theorem explore_induction (o : Observer σ ℚ) (bounds : SearchBounds) (start : BasicSolution ℚ)
    (labels : List Label) {N : Node ℚ r c → Prop} {I : Nat → Progress σ ℚ r c → Prop}
    (pop : ∀ budget p node rest, p.pending = node :: rest → I (budget + 1) p →
      N node ∧ I budget { p with pending := rest })
    (deep : ∀ budget p (node : Node ℚ r c), bounds.depthExceeded node.depth = true → I budget p →
      I budget p.truncate)
    (visit : ∀ budget p node, N node → bounds.depthExceeded node.depth = false →
      ∀ l ∈ labels, I budget p → I budget (visit o bounds start node p l))
    {budget : Nat} (initial : I budget p) :
    (∃ left, I left (explore o bounds start labels budget p)) ∨
    ∃ last, I 0 last ∧ last.pending ≠ [] ∧
      explore o bounds start labels budget p = last.addError .cycling := by
  induction budget generalizing p with
  | zero =>
    unfold explore
    split
    · exact Or.inl ⟨0, initial⟩
    next going =>
      refine Or.inr ⟨p, initial, fun spent => going ?_, rfl⟩
      rw [spent, List.isEmpty_nil, Bool.or_true]
  | succ budget ih =>
    unfold explore
    split
    · exact Or.inl ⟨_, initial⟩
    · split
      · exact Or.inl ⟨_, initial⟩
      next node rest pending =>
        obtain ⟨holds, popped⟩ := pop budget p node rest pending initial
        exact ih (expand_induction (deep budget _ node)
          (fun within p l listed => visit budget p node holds within l listed) popped)

/-! ### What a search finds -/

/-- A report on different solutions of nodes in `N`, and on paths given up at such nodes. -/
structure Charts (N : Node ℚ r c → Prop) (labels : List Label) (start : BasicSolution ℚ)
    (report : SearchReport ℚ) : Prop where
  failed : ∀ e ∈ report.errors, ∃ node, N node ∧ ∃ l ∈ labels, ∃ left,
    node.tableau.lemkePath l = ⟨.error e, left⟩
  found : ∀ s ∈ start :: report.equilibria, ∃ node, N node ∧ node.tableau.complementarySolution = s
  distinct : (start :: report.equilibria).Nodup

/-- A search under way with a budget for the nodes still to come, of at most `bound` in all. -/
structure Searching (N : Node ℚ r c → Prop) (labels : List Label) (start : BasicSolution ℚ)
    (bound budget : Nat) (p : Progress σ ℚ r c) : Prop extends Charts N labels start p.report where
  nodes : ∀ node ∈ p.pending, N node
  affordable : p.pending.length + bound ≤ budget + (start :: p.report.equilibria).length

namespace Searching

variable {N : Node ℚ r c → Prop} {bound budget : Nat}

section Step

variable (h : Searching N labels start bound budget p)

include h

theorem cancel : Searching N labels start bound budget p.cancel :=
  ⟨⟨h.failed, h.found, h.distinct⟩, h.nodes, h.affordable⟩

theorem truncate : Searching N labels start bound budget p.truncate :=
  ⟨⟨h.failed, h.found, h.distinct⟩, h.nodes, h.affordable⟩

theorem halt : Searching N labels start bound budget p.halt :=
  ⟨⟨h.failed, h.found, h.distinct⟩, h.nodes, h.affordable⟩

theorem addError {e : PivotError} (failed : ∃ node, N node ∧ ∃ l ∈ labels, ∃ left,
    node.tableau.lemkePath l = ⟨.error e, left⟩) :
    Searching N labels start bound budget (p.addError e) := by
  refine ⟨⟨fun e' listed => ?_, h.found, h.distinct⟩, h.nodes, h.affordable⟩
  rcases List.mem_append.mp listed with earlier | last
  · exact h.failed e' earlier
  · rwa [List.mem_singleton.mp last]

theorem addSolution (o : Observer σ ℚ) (node : Node ℚ r c) (holds : N node)
    (new : node.tableau.complementarySolution ∉ start :: p.report.equilibria) :
    Searching N labels start bound budget
      (p.addSolution o node.tableau.complementarySolution node) := by
  have affordable := h.affordable
  refine ⟨⟨h.failed, fun s seen => ?_, ?_⟩, fun other queued => ?_, ?_⟩
  · simp only [Progress.addSolution, ← List.cons_append, List.mem_append, List.mem_singleton]
      at seen
    rcases seen with seen | rfl
    · exact h.found s seen
    · exact ⟨node, holds, rfl⟩
  · simp only [Progress.addSolution, ← List.cons_append]
    exact h.distinct.append (List.nodup_singleton _) (by simpa using new)
  · rcases List.mem_cons.mp queued with rfl | queued
    · exact holds
    · exact h.nodes other queued
  · simp only [Progress.addSolution, List.length_cons, List.length_append] at affordable ⊢
    omega

theorem visit (holds : N node) {l : Label} (listed : l ∈ labels)
    (step : ∀ next, node.tableau.lemkePath l = ⟨.ok (), next⟩ → N ⟨next, some l, node.depth + 1⟩) :
    Searching N labels start bound budget (visit o bounds start node p l) := by
  rcases visit_cases o bounds start node p l with
    ⟨_, same⟩ | ⟨_, same⟩ | ⟨_, same⟩ | ⟨e, left, path, same⟩ |
    ⟨next, path, ⟨_, same⟩ | ⟨new, same⟩⟩
  · rw [same]
    exact h
  · rw [same]
    exact h.cancel
  · rw [same]
    exact h.truncate.halt
  · rw [same]
    exact h.addError ⟨node, holds, l, listed, left, path⟩
  · rw [same]
    exact h
  · rw [same]
    exact h.addSolution o ⟨next, some l, node.depth + 1⟩ (step next path) new

end Step

theorem pop {rest : List (Node ℚ r c)} (h : Searching N labels start bound (budget + 1) p)
    (pending : p.pending = node :: rest) :
    N node ∧ Searching N labels start bound budget { p with pending := rest } := by
  have nodes := h.nodes
  have affordable := h.affordable
  rw [pending] at nodes affordable
  obtain ⟨holds, others⟩ := List.forall_mem_cons.mp nodes
  exact ⟨holds, h.toCharts, others, by simp only [List.length_cons] at affordable ⊢; omega⟩

/-- A search reports what it has found, and it runs out of budget only after more than `bound`
solutions. -/
theorem explore (h : Searching N labels start bound budget p)
    (step : ∀ node, N node → bounds.depthExceeded node.depth = false → ∀ l ∈ labels,
      ∀ next, node.tableau.lemkePath l = ⟨.ok (), next⟩ → N ⟨next, some l, node.depth + 1⟩) :
    ∃ report, Charts N labels start report ∧
      ((explore o bounds start labels budget p).report = report ∨
        bound < (start :: report.equilibria).length ∧
          (explore o bounds start labels budget p).report =
            { report with errors := report.errors ++ [.cycling] }) := by
  rcases explore_induction o bounds start labels (I := Searching N labels start bound)
      (fun _ _ _ _ pending searching => searching.pop pending)
      (fun _ _ _ _ searching => searching.truncate)
      (fun _ _ node holds within l listed searching =>
        searching.visit holds listed (step node holds within l listed)) h with
    ⟨_, ended⟩ | ⟨last, spent, going, exhausted⟩
  · exact ⟨_, ended.toCharts, Or.inl rfl⟩
  · refine ⟨last.report, spent.toCharts, Or.inr ⟨?_, by rw [exhausted]; rfl⟩⟩
    have affordable := spent.affordable
    have queued := List.length_pos_iff.mpr going
    omega

end Searching

/-- A report without errors, on different solutions of tableaus that satisfy `P`. -/
structure Sound (P : Tableau ℚ r c → Prop) (start : BasicSolution ℚ) (report : SearchReport ℚ) :
    Prop where
  clean : report.errors = []
  found : ∀ s ∈ start :: report.equilibria, ∃ t, P t ∧ t.complementarySolution = s
  distinct : (start :: report.equilibria).Nodup

end Search

namespace Tableau

variable {σ : Type} {r c : Nat} {t : Tableau ℚ r c}

theorem searchWith_charts {N : Search.Node ℚ r c → Prop} (holds : N ⟨t, none, 0⟩)
    (complementary : t.isComplementary = true) (o : Observer σ ℚ) (state : σ)
    (bounds : SearchBounds)
    (step : ∀ node, N node → bounds.depthExceeded node.depth = false → ∀ l ∈ t.searchLabels,
      ∀ next, node.tableau.lemkePath l = ⟨.ok (), next⟩ → N ⟨next, some l, node.depth + 1⟩) :
    ∃ report, Search.Charts N t.searchLabels t.complementarySolution report ∧
      ((t.searchWith o state bounds).1 = report ∨
        t.pivotBudget < (t.complementarySolution :: report.equilibria).length ∧
          (t.searchWith o state bounds).1 =
            { report with errors := report.errors ++ [.cycling] }) := by
  have initial : Search.Searching N t.searchLabels t.complementarySolution t.pivotBudget
      t.pivotBudget
      { report := {}, pending := [⟨t, none, 0⟩], observer := state, halted := false } :=
    ⟨⟨nofun, by simpa using ⟨_, holds, rfl⟩, List.nodup_singleton _⟩, by simpa using holds,
      (Nat.add_comm _ _).le⟩
  rw [searchWith, complementary]
  exact initial.explore step

/-- A search from a tableau at which all paths succeed reports different solutions only, and gives
up no path. -/
theorem searchWith_sound {P : Tableau ℚ r c → Prop} (holds : P t)
    (complementary : t.isComplementary = true)
    (succeeds : ∀ t', P t' → ∀ l ∈ t.searchLabels, ∃ next, t'.lemkePath l = ⟨.ok (), next⟩ ∧ P next)
    (few : ∀ solutions : List (BasicSolution ℚ), solutions.Nodup →
      (∀ s ∈ solutions, ∃ t', P t' ∧ t'.complementarySolution = s) →
      solutions.length ≤ t.pivotBudget)
    (o : Observer σ ℚ) (state : σ) (bounds : SearchBounds) :
    Search.Sound P t.complementarySolution (t.searchWith o state bounds).1 := by
  obtain ⟨report, charts, ends⟩ := searchWith_charts (N := fun node => P node.tableau) holds
    complementary o state bounds fun node holds _ l listed next path => by
      obtain ⟨_, path', reached⟩ := succeeds _ holds l listed
      cases path.symm.trans path'
      exact reached
  have found (s : BasicSolution ℚ) (listed : s ∈ t.complementarySolution :: report.equilibria) :
      ∃ t', P t' ∧ t'.complementarySolution = s := by
    obtain ⟨node, holds, solution⟩ := charts.found s listed
    exact ⟨node.tableau, holds, solution⟩
  rcases ends with same | ⟨spent, _⟩
  · rw [same]
    refine ⟨List.eq_nil_iff_forall_not_mem.mpr fun e listed => ?_, found, charts.distinct⟩
    obtain ⟨node, holds, l, member, _, failed⟩ := charts.failed e listed
    obtain ⟨_, path, _⟩ := succeeds _ holds l member
    cases failed.symm.trans path
  · exact absurd (few _ charts.distinct found) (not_le.mpr spent)

end Tableau

end LexPivot
