import Mathlib
import LexPivot.Proofs.GameSystem
import LexPivot.Proofs.PathBudget
import LexPivot.Proofs.SearchClosure

/-!
# Bounded searches

Bounds and observers only cut a search short. As long as nothing is cut off, a search runs in step
with the one that nobody watches and that may report any number of solutions. Where it is cancelled
or has reported enough, it stops before it follows another path, so it has reported the first
solutions of the other search, and its observer has been told of each of them once. A search that
nothing was cut from is in step with the unbounded one to its end.

A node lies as deep as the number of paths that lead to it, so a bound on the depth is a bound on
the paths to what is reported.

A path is given up as one that goes round only if it has no end. So where all paths end, the budgets
of the search and of its paths are never spent.
-/
namespace LexPivot

/-- The observer cancels once `limit` solutions are found, and never if there is no limit. -/
def Observer.CancelsAt {σ : Type} (o : Observer σ ℚ) (state : σ) (limit : Option Nat) : Prop :=
  ∀ told : List (BasicSolution ℚ),
    o.cancelled (told.foldl o.notice state) = limit.any fun n => n ≤ told.length

theorem Observer.counting_cancelsAt (limit : Option Nat) :
    (Observer.counting ℚ limit).CancelsAt 0 limit := by
  intro told
  have count (state : Nat) : told.foldl (Observer.counting ℚ limit).notice state =
      state + told.length := by
    induction told generalizing state with
    | nil => rfl
    | cons s told ih =>
      rw [List.foldl_cons, ih, List.length_cons]
      change state + 1 + told.length = _
      omega
  rw [count, Nat.zero_add]
  rfl

namespace Search

variable {σ : Type} {r c : Nat} {o : Observer σ ℚ} {state : σ} {bounds : SearchBounds}
  {start : BasicSolution ℚ} {labels : List Label} {node : Node ℚ r c} {p : Progress σ ℚ r c}

/-! ### Where a search stops -/

/-- After these solutions the search is cancelled or has reported enough. -/
def StopsAfter (o : Observer σ ℚ) (state : σ) (bounds : SearchBounds)
    (told : List (BasicSolution ℚ)) : Prop :=
  o.cancelled (told.foldl o.notice state) = true ∨ bounds.countReached told.length = true

/-- A search whose observer has been told of the solutions reported, and which has stopped nowhere
but where it must. -/
structure Paced (o : Observer σ ℚ) (state : σ) (bounds : SearchBounds) (p : Progress σ ℚ r c) :
    Prop where
  told : p.observer = p.report.equilibria.foldl o.notice state
  passed : ∀ told, told <+: p.report.equilibria → told ≠ p.report.equilibria →
    ¬StopsAfter o state bounds told
  stopped : p.halted = true → StopsAfter o state bounds p.report.equilibria

namespace Paced

variable (h : Paced o state bounds p)

include h

theorem followLabel (running : p.halted = false)
    (goes : ¬StopsAfter o state bounds p.report.equilibria) (label : Label) :
    Paced o state bounds (followLabel o start node p label) := by
  rcases followLabel_cases o start node p label with
    ⟨e, _, _, same⟩ | ⟨next, _, ⟨_, same⟩ | ⟨_, same⟩⟩
  · rw [same]
    exact ⟨h.told, h.passed, h.stopped⟩
  · rw [same]
    exact h
  · rw [same]
    refine ⟨?_, fun told earlier proper => ?_, fun halted => ?_⟩
    · simp only [Progress.addSolution, List.foldl_append, List.foldl_cons, List.foldl_nil, h.told]
    · -- Before the new solution there was no reason to stop.
      rcases List.prefix_concat_iff.mp earlier with whole | earlier
      · exact absurd whole proper
      · by_cases last : told = p.report.equilibria
        · rwa [last]
        · exact h.passed told earlier last
    · rw [Progress.addSolution, running] at halted
      cases halted

theorem visit (label : Label) : Paced o state bounds (visit o bounds start node p label) := by
  rcases visit_guards o bounds start node p label with
    ⟨_, same⟩ | ⟨cancelled, same⟩ | ⟨reached, same⟩ | ⟨running, _, watching, below, same⟩
  · rw [same]
    exact h
  · rw [same]
    exact ⟨h.told, h.passed, fun _ => Or.inl (h.told ▸ cancelled)⟩
  · rw [same]
    exact ⟨h.told, h.passed, fun _ => Or.inr reached⟩
  · rw [same]
    -- The path is followed only after both reasons to stop were looked for.
    refine h.followLabel running ?_ label
    rw [StopsAfter, ← h.told, watching, below]
    simp

theorem explore (budget : Nat) :
    Paced o state bounds (explore o bounds start labels budget p) := by
  rcases explore_induction o bounds start labels (N := fun _ => True)
      (I := fun _ => Paced o state bounds)
      (fun _ _ _ _ _ paced => ⟨trivial, paced.told, paced.passed, paced.stopped⟩)
      (fun _ _ _ _ paced => ⟨paced.told, paced.passed, paced.stopped⟩)
      (fun _ _ _ _ _ label _ paced => paced.visit label) h with
    ⟨_, paced⟩ | ⟨last, paced, _, exhausted⟩
  · exact paced
  · rw [exhausted]
    exact ⟨paced.told, paced.passed, paced.stopped⟩

end Paced

/-! ### Two searches -/

/-- Two searches under way with the same solutions and errors so far, and the same nodes ahead. -/
structure InStep (p : Progress σ ℚ r c) (q : Progress Unit ℚ r c) : Prop where
  equilibria : p.report.equilibria = q.report.equilibria
  errors : p.report.errors = q.report.errors
  pending : p.pending = q.pending
  running : p.halted = false ∧ q.halted = false

/-- A search compared with one of depth `depth` that nothing else bounds: they are in step, or the
first one has lost something that it says it has. With the same depth it has come to a halt, and
has reported no more than the other. -/
inductive Compares (bounds : SearchBounds) (depth : Nat) (p : Progress σ ℚ r c)
    (q : Progress Unit ℚ r c) : Prop where
  | inStep (same : InStep p q)
  | cut (flagged : p.report.truncated = true ∨ p.report.cancelled = true)
      (behind : depth = bounds.maxDepth →
        p.halted = true ∧ p.report.equilibria <+: q.report.equilibria)

theorem kept_flagged (o : Observer σ ℚ) (bounds : SearchBounds) :
    Kept o bounds fun report => report.truncated = true ∨ report.cancelled = true where
  cancel _ _ _ := Or.inr rfl
  truncate _ _ _ := Or.inl rfl
  addError _ _ kept := kept
  addSolution _ _ kept := kept

theorem kept_found (o : Observer σ ℚ) (bounds : SearchBounds) (found : List (BasicSolution ℚ)) :
    Kept o bounds fun report => found <+: report.equilibria where
  cancel _ _ kept := kept
  truncate _ _ kept := kept
  addError _ _ kept := kept
  addSolution _ _ kept := kept.trans (List.prefix_append _ _)

theorem visit_of_halted (halted : p.halted = true) (label : Label) :
    visit o bounds start node p label = p := by
  rw [visit, halted, Bool.true_or, if_pos rfl]

theorem explore_of_halted (halted : p.halted = true) (budget : Nat) :
    explore o bounds start labels budget p = p := by
  cases budget with
  | zero => rw [explore, halted, Bool.true_or, if_pos rfl]
  | succ budget => rw [explore, if_pos halted]

section Unwatched

variable {depth : Nat} {q : Progress Unit ℚ r c}

theorem InStep.addError (h : InStep p q) (e : PivotError) :
    InStep (p.addError e) (q.addError e) :=
  ⟨h.equilibria, congrArg (· ++ [e]) h.errors, h.pending, h.running⟩

theorem InStep.followLabel (h : InStep p q) (label : Label) :
    InStep (followLabel o start node p label)
      (followLabel (.silent ℚ) start node q label) := by
  unfold Search.followLabel
  rcases node.tableau.lemkePath label with ⟨e | _, next⟩
  · exact h.addError e
  · simp only [h.equilibria]
    split
    · exact h
    · exact ⟨congrArg (· ++ [next.complementarySolution]) h.equilibria, h.errors,
        congrArg (_ :: ·) h.pending, h.running⟩

/-- Without an observer and a bound on their number, a visit follows its path. -/
theorem visit_silent (running : q.halted = false) {label : Label}
    (other : node.arrivedBy ≠ some label) :
    visit (.silent ℚ) ⟨0, depth⟩ start node q label =
      followLabel (.silent ℚ) start node q label := by
  rcases visit_guards (.silent ℚ) ⟨0, depth⟩ start node q label with
    ⟨halted | arrived, _⟩ | ⟨cancelled, _⟩ | ⟨reached, _⟩ | ⟨_, _, _, _, same⟩
  · rw [running] at halted
    cases halted
  · exact absurd arrived other
  · cases cancelled
  · cases reached
  · exact same

namespace Compares

theorem visit (h : Compares bounds depth p q) (label : Label) :
    Compares bounds depth (visit o bounds start node p label)
      (visit (.silent ℚ) ⟨0, depth⟩ start node q label) := by
  have grows (found : List (BasicSolution ℚ)) (before : found <+: q.report.equilibria) :
      found <+: (Search.visit (.silent ℚ) ⟨0, depth⟩ start node q label).report.equilibria :=
    (kept_found (.silent ℚ) ⟨0, depth⟩ found).visit before label
  cases h with
  | inStep same =>
    have before := grows p.report.equilibria (same.equilibria ▸ List.prefix_rfl)
    rcases visit_guards o bounds start node p label with
      ⟨halted | arrived, stays⟩ | ⟨_, ends⟩ | ⟨_, ends⟩ | ⟨_, other, _, _, follows⟩
    · rw [same.running.1] at halted
      cases halted
    · rw [stays, Search.visit, arrived, beq_self_eq_true, Bool.or_true, if_pos rfl]
      exact .inStep same
    · -- The search has ended here, and the other one goes on.
      rw [ends]
      exact .cut (Or.inr rfl) fun _ => ⟨rfl, before⟩
    · rw [ends]
      exact .cut (Or.inl rfl) fun _ => ⟨rfl, before⟩
    · rw [follows, visit_silent same.running.2 other]
      exact .inStep (same.followLabel label)
  | cut flagged behind =>
    refine .cut ((kept_flagged o bounds).visit flagged label) fun equal => ?_
    obtain ⟨halted, before⟩ := behind equal
    rw [visit_of_halted halted]
    exact ⟨halted, grows _ before⟩

theorem foldl_visit (h : Compares bounds depth p q) (rest : List Label) :
    Compares bounds depth (rest.foldl (Search.visit o bounds start node) p)
      (rest.foldl (Search.visit (.silent ℚ) ⟨0, depth⟩ start node) q) := by
  induction rest generalizing p q with
  | nil => exact h
  | cons label rest ih => exact ih (h.visit label)

end Compares

theorem InStep.expand (same : InStep p q) (looser : depth = 0 ∨ depth = bounds.maxDepth) :
    Compares bounds depth (expand o bounds start labels node p)
      (expand (.silent ℚ) ⟨0, depth⟩ start labels node q) := by
  unfold Search.expand
  rcases looser with rfl | rfl
  · rw [if_neg (show ¬SearchBounds.depthExceeded ⟨0, 0⟩ node.depth = true from nofun)]
    split
    next exceeded =>
      refine .cut (Or.inl rfl) fun equal => ?_
      -- With the same depth there would be no bound to exceed.
      rw [SearchBounds.depthExceeded, ← equal] at exceeded
      cases exceeded
    · exact Compares.foldl_visit (.inStep same) labels
  · -- Both searches pass over the same nodes.
    have both : SearchBounds.depthExceeded ⟨0, bounds.maxDepth⟩ node.depth =
        bounds.depthExceeded node.depth := rfl
    rw [both]
    split
    · exact .inStep ⟨same.equilibria, same.errors, same.pending, same.running⟩
    · exact Compares.foldl_visit (.inStep same) labels

namespace Compares

/-- Once cut off, the searches need not explore the same nodes: the one stays as it is, and what
the other has reported only grows. -/
theorem explore_cut (flagged : p.report.truncated = true ∨ p.report.cancelled = true)
    (behind : depth = bounds.maxDepth →
      p.halted = true ∧ p.report.equilibria <+: q.report.equilibria) (budget : Nat) :
    Compares bounds depth (Search.explore o bounds start labels budget p)
      (Search.explore (.silent ℚ) ⟨0, depth⟩ start labels budget q) := by
  refine .cut ((kept_flagged o bounds).explore flagged budget) fun equal => ?_
  obtain ⟨halted, before⟩ := behind equal
  rw [explore_of_halted halted]
  exact ⟨halted, (kept_found (.silent ℚ) ⟨0, depth⟩ _).explore before budget⟩

theorem explore (h : Compares bounds depth p q) (looser : depth = 0 ∨ depth = bounds.maxDepth)
    (budget : Nat) :
    Compares bounds depth (explore o bounds start labels budget p)
      (explore (.silent ℚ) ⟨0, depth⟩ start labels budget q) := by
  induction budget generalizing p q with
  | zero =>
    cases h with
    | inStep same =>
      simp only [Search.explore, same.running, same.pending]
      split
      · exact .inStep same
      · exact .inStep (same.addError .cycling)
    | cut flagged behind => exact explore_cut flagged behind 0
  | succ budget ih =>
    cases h with
    | inStep same =>
      simp only [Search.explore, same.running, same.pending, Bool.false_eq_true, if_false]
      split
      · exact .inStep same
      next node rest _ =>
        have popped : InStep { p with pending := rest, halted := false }
            { q with pending := rest, halted := false } :=
          ⟨same.equilibria, same.errors, rfl, rfl, rfl⟩
        exact ih (popped.expand looser)
    | cut flagged behind => exact explore_cut flagged behind (budget + 1)

end Compares

end Unwatched

/-- Where a search must stop after `m` solutions, it has reported the first `m` of the other. -/
theorem Paced.eq_take {q : Progress Unit ℚ r c} {m : Nat} (h : Paced o state bounds p)
    (compares : Compares bounds bounds.maxDepth p q)
    (stops : ∀ told : List (BasicSolution ℚ), told.length < q.report.equilibria.length →
      (StopsAfter o state bounds told ↔ m ≤ told.length)) :
    p.report.equilibria = q.report.equilibria.take m := by
  have before : p.report.equilibria <+: q.report.equilibria := by
    cases compares with
    | inStep same => exact same.equilibria ▸ List.prefix_rfl
    | cut _ behind => exact (behind rfl).2
  -- With more than `m` solutions, the search would have gone on after the first `m` of them.
  have below : p.report.equilibria.length ≤ m := by
    by_contra beyond
    have length : (p.report.equilibria.take m).length = m := by
      rw [List.length_take]
      omega
    have proper : p.report.equilibria.take m ≠ p.report.equilibria := by
      intro whole
      rw [whole] at length
      omega
    have most := before.length_le
    exact h.passed _ (List.take_prefix m _) proper
      ((stops _ (by omega)).mpr length.ge)
  rcases before.length_le.eq_or_lt with whole | fewer
  · rw [before.eq_of_length whole] at below ⊢
    exact (List.take_of_length_le below).symm
  · cases compares with
    | inStep same =>
      rw [same.equilibria] at fewer
      exact absurd fewer (lt_irrefl _)
    | cut _ behind =>
      have enough := (stops _ fewer).mp (h.stopped (behind rfl).1)
      rw [List.prefix_iff_eq_take.mp before, below.antisymm enough]

/-- The number of solutions at which a search stops, if there are more than that. -/
theorem stopsAfter_iff {limit : Option Nat} (cancels : o.CancelsAt state limit)
    (told : List (BasicSolution ℚ)) {total : Nat} (fewer : told.length < total) :
    StopsAfter o state bounds told ↔
      min (if bounds.stopAfter = 0 then total else bounds.stopAfter) (limit.getD total) ≤
        told.length := by
  have observer : limit.any (fun n => n ≤ told.length) = true ↔ limit.getD total ≤ told.length := by
    cases limit with
    | none => simpa using fewer
    | some n => simp
  have count : bounds.countReached told.length = true ↔
      (if bounds.stopAfter = 0 then total else bounds.stopAfter) ≤ told.length := by
    rw [SearchBounds.countReached, Bool.and_eq_true, bne_iff_ne, decide_eq_true_eq]
    split <;> omega
  rw [StopsAfter, cancels told, observer, count, min_le_iff, or_comm]

/-! ### Chains of paths -/

/-- A tableau to which `k` successful paths in a row lead. -/
inductive Chain (origin : Tableau ℚ r c) : Nat → Tableau ℚ r c → Prop where
  | start : Chain origin 0 origin
  | path {k : Nat} {t next : Tableau ℚ r c} {l : Label} (before : Chain origin k t)
      (succeeds : t.lemkePath l = ⟨.ok (), next⟩) : Chain origin (k + 1) next

theorem Chain.represents {origin t : Tableau ℚ r c} {k : Nat}
    {system : Matrix (Fin r) (Fin (c + r + 1)) ℚ} (chain : Chain origin k t)
    (initial : origin.Represents system) :
    t.Represents system ∧ t.basis.first = origin.basis.first := by
  induction chain with
  | start => exact ⟨initial, rfl⟩
  | @path k t next l before succeeds ih =>
    have kept := Tableau.lemkePath_state
      (P := fun t => t.Represents system ∧ t.basis.first = origin.basis.first)
      (fun t entering represents =>
        have ⟨later, labels⟩ := represents.1.pivotIn_state entering
        ⟨later, labels.trans represents.2⟩) l t ih
    rwa [succeeds] at kept

theorem Chain.feasibleFrom {origin t base : Tableau ℚ r c} {k : Nat}
    {system : Matrix (Fin r) (Fin (c + r + 1)) ℚ} (chain : Chain origin k t)
    (initial : Tableau.FeasibleFrom system base origin) :
    Tableau.FeasibleFrom system base t := by
  induction chain with
  | start => exact initial
  | path _ succeeds ih => exact ih.of_lemkePath succeeds

/-- A node at the end of as many paths as it lies deep, and not beyond the reach of the bounds. -/
structure Reached (origin : Tableau ℚ r c) (bounds : SearchBounds) (node : Node ℚ r c) : Prop where
  chain : Chain origin node.depth node.tableau
  depth_le : 1 ≤ bounds.maxDepth → node.depth ≤ bounds.maxDepth + 1

theorem Reached.path {origin next : Tableau ℚ r c} {l : Label} (h : Reached origin bounds node)
    (within : bounds.depthExceeded node.depth = false)
    (succeeds : node.tableau.lemkePath l = ⟨.ok (), next⟩) :
    Reached origin bounds ⟨next, some l, node.depth + 1⟩ where
  chain := h.chain.path succeeds
  depth_le bounded := by
    simp only [SearchBounds.depthExceeded, Bool.and_eq_false_iff, bne_eq_false_iff_eq,
      decide_eq_false_iff_not] at within
    dsimp only
    omega

/-! ### Whole searches -/

/-- A search before its first round. -/
def opening (t : Tableau ℚ r c) (state : σ) : Progress σ ℚ r c :=
  { report := {}, pending := [⟨t, none, 0⟩], observer := state, halted := false }

/-- A search after its last round. -/
def final (t : Tableau ℚ r c) (o : Observer σ ℚ) (state : σ) (bounds : SearchBounds) :
    Progress σ ℚ r c :=
  explore o bounds t.complementarySolution t.searchLabels t.pivotBudget (opening t state)

theorem paced_final (t : Tableau ℚ r c) (o : Observer σ ℚ) (state : σ) (bounds : SearchBounds) :
    Paced o state bounds (final t o state bounds) := by
  have initial : Paced o state bounds (opening t state) :=
    ⟨rfl, fun _ earlier proper => absurd (List.prefix_nil.mp earlier) proper, nofun⟩
  exact initial.explore t.pivotBudget

theorem compares_final (t : Tableau ℚ r c) (o : Observer σ ℚ) (state : σ) (bounds : SearchBounds)
    {depth : Nat} (looser : depth = 0 ∨ depth = bounds.maxDepth) :
    Compares bounds depth (final t o state bounds) (final t (.silent ℚ) () ⟨0, depth⟩) := by
  have initial : InStep (opening t state) (opening t ()) := ⟨rfl, rfl, rfl, rfl, rfl⟩
  exact Compares.explore (.inStep initial) looser t.pivotBudget

end Search

namespace Tableau

variable {σ : Type} {r c : Nat} {t : Tableau ℚ r c}

theorem searchWith_eq (complementary : t.isComplementary = true) (o : Observer σ ℚ) (state : σ)
    (bounds : SearchBounds) : t.searchWith o state bounds =
      ((Search.final t o state bounds).report, (Search.final t o state bounds).observer) := by
  rw [searchWith, complementary]
  rfl

theorem searchWith_of_not_isComplementary (refused : t.isComplementary = false)
    (o : Observer σ ℚ) (state : σ) (bounds : SearchBounds) :
    t.searchWith o state bounds = ({ errors := [.notComplementary] }, state) := by
  rw [searchWith, refused]
  rfl

/-- A search reports the first solutions of the one that is not stopped. -/
theorem equilibria_searchWith (t : Tableau ℚ r c) {o : Observer σ ℚ} {state : σ}
    {limit : Option Nat} (cancels : o.CancelsAt state limit) (bounds : SearchBounds) :
    let full := (t.search { bounds with stopAfter := 0 }).equilibria
    (t.searchWith o state bounds).1.equilibria = full.take
      (min (if bounds.stopAfter = 0 then full.length else bounds.stopAfter)
        (limit.getD full.length)) := by
  cases complementary : t.isComplementary with
  | false => simp [search, searchWith_of_not_isComplementary complementary]
  | true =>
    simp only [search, searchWith_eq complementary]
    have compares := Search.compares_final t o state bounds (Or.inr rfl)
    exact (Search.paced_final t o state bounds).eq_take compares fun told fewer =>
      Search.stopsAfter_iff cancels told fewer

/-- The observer is told of every solution that is reported, in that order. -/
theorem observer_searchWith (t : Tableau ℚ r c) (o : Observer σ ℚ) (state : σ)
    (bounds : SearchBounds) :
    (t.searchWith o state bounds).2 =
      (t.searchWith o state bounds).1.equilibria.foldl o.notice state := by
  cases complementary : t.isComplementary with
  | false => rw [searchWith_of_not_isComplementary complementary, List.foldl_nil]
  | true =>
    rw [searchWith_eq complementary]
    exact (Search.paced_final t o state bounds).told

/-- A search that has lost nothing reports what the unbounded one does. -/
theorem searchWith_of_uncut {o : Observer σ ℚ} {state : σ} {bounds : SearchBounds}
    (whole : (t.searchWith o state bounds).1.truncated = false)
    (free : (t.searchWith o state bounds).1.cancelled = false) :
    (t.searchWith o state bounds).1.equilibria = (t.search .unbounded).equilibria ∧
      (t.searchWith o state bounds).1.errors = (t.search .unbounded).errors := by
  cases complementary : t.isComplementary with
  | false => simp only [search, searchWith_of_not_isComplementary complementary, and_self]
  | true =>
    rw [searchWith_eq complementary] at whole free ⊢
    rw [search, searchWith_eq complementary]
    cases Search.compares_final t o state bounds (Or.inl rfl) with
    | inStep same => exact ⟨same.equilibria, same.errors⟩
    | cut flagged _ =>
      rw [whole, free] at flagged
      simp at flagged

/-- Solutions are reported at the end of chains of paths, and the errors are those of paths from
the ends of such chains. -/
theorem charts_searchWith (complementary : t.isComplementary = true) (o : Observer σ ℚ) (state : σ)
    (bounds : SearchBounds) :
    (∀ s ∈ (t.searchWith o state bounds).1.equilibria, ∃ node, Search.Reached t bounds node ∧
      node.tableau.complementarySolution = s) ∧
    ∀ system, t.Represents system → ∀ e ∈ (t.searchWith o state bounds).1.errors,
      ∃ node, Search.Reached t bounds node ∧ ∃ l ∈ t.searchLabels, ∃ left,
        node.tableau.lemkePath l = ⟨.error e, left⟩ := by
  have initial : Search.Reached t bounds ⟨t, none, 0⟩ := ⟨.start, fun _ => Nat.zero_le _⟩
  obtain ⟨report, charts, ends⟩ := searchWith_charts initial complementary o state bounds
    fun node reached within l _ next succeeds => reached.path within succeeds
  rcases ends with same | ⟨spent, exhausted⟩
  · rw [same]
    exact ⟨fun s listed => charts.found s (List.mem_cons_of_mem _ listed), fun _ _ => charts.failed⟩
  · rw [exhausted]
    refine ⟨fun s listed => charts.found s (List.mem_cons_of_mem _ listed),
      fun system represents => ?_⟩
    -- A system has not so many solutions.
    refine absurd (t.length_le_pivotBudget system charts.distinct fun s listed => ?_)
      (not_le.mpr spent)
    obtain ⟨node, reached, solution⟩ := charts.found s listed
    obtain ⟨later, labels⟩ := reached.chain.represents represents
    exact ⟨node.tableau, later, labels, solution⟩

/-- The errors are those of paths from the ends of chains, and no path that ends is given up as one
that goes round. -/
theorem errors_searchWith (complementary : t.isComplementary = true)
    {system : Matrix (Fin r) (Fin (c + r + 1)) ℚ} (represents : t.Represents system)
    {o : Observer σ ℚ} {state : σ} {bounds : SearchBounds} {e : PivotError}
    (listed : e ∈ (t.searchWith o state bounds).1.errors) :
    ∃ k t', Search.Chain t k t' ∧ ∃ l ∈ t.searchLabels, ∃ left,
      t'.lemkePath l = ⟨.error e, left⟩ ∧ (e = .cycling → ¬t'.PathEnds l) := by
  obtain ⟨node, reached, l, member, left, failed⟩ :=
    (charts_searchWith complementary o state bounds).2 system represents e listed
  refine ⟨node.depth, node.tableau, reached.chain, l, member, left, failed, ?_⟩
  rintro rfl
  exact (reached.chain.represents represents).1.lemkePath_cycling_iff.mp (by rw [failed])

/-- Bounds and observers only cut a search: it reports the first of the solutions that it would
report otherwise, and tells its observer of each of them once, in order. A report from which
nothing was cut is that of the unbounded search. A bound on the depth bounds the number of paths to
every solution. The errors are those of paths, and where all paths end, none of them is given up as
one that goes round. -/
theorem searchWith_cut (t : Tableau ℚ r c) (o : Observer σ ℚ) (state : σ) (bounds : SearchBounds) :
    let report := (t.searchWith o state bounds).1
    let full := (t.search { bounds with stopAfter := 0 }).equilibria
    (∀ limit, o.CancelsAt state limit → report.equilibria = full.take
      (min (if bounds.stopAfter = 0 then full.length else bounds.stopAfter)
        (limit.getD full.length))) ∧
    (t.searchWith o state bounds).2 = report.equilibria.foldl o.notice state ∧
    (report.truncated = false → report.cancelled = false →
      report.equilibria = (t.search .unbounded).equilibria ∧
        report.errors = (t.search .unbounded).errors) ∧
    (1 ≤ bounds.maxDepth → ∀ s ∈ report.equilibria, ∃ k t', k ≤ bounds.maxDepth + 1 ∧
      Search.Chain t k t' ∧ t'.complementarySolution = s) ∧
    ∀ system, t.Represents system →
      (t.isComplementary = true → ∀ e ∈ report.errors, ∃ k t', Search.Chain t k t' ∧
        ∃ l ∈ t.searchLabels, ∃ left, t'.lemkePath l = ⟨.error e, left⟩ ∧
          (e = .cycling → ¬t'.PathEnds l)) ∧
      ((∀ k t', Search.Chain t k t' → ∀ l ∈ t.searchLabels, t'.PathEnds l) →
        .cycling ∉ report.errors) := by
  refine ⟨fun limit cancels => t.equilibria_searchWith cancels bounds,
    t.observer_searchWith o state bounds, searchWith_of_uncut, fun bounded s listed => ?_,
    fun system represents => ⟨fun complementary e listed => ?_, fun ends listed => ?_⟩⟩
  · cases complementary : t.isComplementary with
    | false =>
      simp only [searchWith_of_not_isComplementary complementary, List.not_mem_nil] at listed
    | true =>
      obtain ⟨node, reached, solution⟩ :=
        (charts_searchWith complementary o state bounds).1 s listed
      exact ⟨node.depth, node.tableau, reached.depth_le bounded, reached.chain, solution⟩
  · exact errors_searchWith complementary represents listed
  · cases complementary : t.isComplementary with
    | false => simp [searchWith_of_not_isComplementary complementary] at listed
    | true =>
      obtain ⟨k, t', chain, l, member, _, _, endless⟩ :=
        errors_searchWith complementary represents listed
      exact endless rfl (ends k t' chain l member)

/-- A game of coordination with three equilibria. The observer cancels at the first of them, before
the bound of two is reached. With room for four, and for chains of three paths, nothing is cut. -/
theorem searchWith_cut_coordination :
    let payoff : Grid ℚ 2 2 := #v[#v[2, 0], #v[0, 1]]
    let o := Observer.counting ℚ (some 1)
    ∃ fresh : GameTableau ℚ 2 2, GameTableau.ofPayoffs payoff payoff = .ok fresh ∧
      o.CancelsAt 0 (some 1) ∧ (fresh.search ⟨0, 1⟩).equilibria.length = 3 ∧
      (fresh.searchWith o 0 ⟨2, 1⟩).1.equilibria = (fresh.search ⟨0, 1⟩).equilibria.take 1 ∧
      (fresh.search ⟨4, 2⟩).truncated = false ∧ (fresh.search ⟨4, 2⟩).cancelled = false ∧
      (fresh.search ⟨4, 2⟩).equilibria = (fresh.search .unbounded).equilibria ∧
      (∀ k t', Search.Chain fresh k t' → ∀ l ∈ fresh.searchLabels, t'.PathEnds l) ∧
      .cycling ∉ (fresh.search ⟨4, 2⟩).errors := by
  intro payoff o
  obtain ⟨fresh, built, feasible, _⟩ :=
    GameTableau.ofPayoffs_represents payoff payoff (by decide) (by decide)
  have runs : (match GameTableau.ofPayoffs payoff payoff with
      | .ok t => (t.search ⟨0, 1⟩).equilibria.length == 3 && !(t.search ⟨4, 2⟩).truncated &&
          !(t.search ⟨4, 2⟩).cancelled
      | .error _ => false) = true := by decide +kernel
  simp only [built, Bool.and_eq_true, beq_iff_eq, Bool.not_eq_true'] at runs
  obtain ⟨⟨three, whole⟩, free⟩ := runs
  have cancels := Observer.counting_cancelsAt (some 1)
  have cut := (searchWith_cut fresh o 0 ⟨2, 1⟩).1 (some 1) cancels
  obtain ⟨_, _, uncut, _, errors⟩ := searchWith_cut fresh (.silent ℚ) () ⟨4, 2⟩
  have ends (k : Nat) (t' : GameTableau ℚ 2 2) (chain : Search.Chain fresh k t') (l : Label)
      (_ : l ∈ fresh.searchLabels) : t'.PathEnds l := by
    obtain ⟨visited, run, _⟩ := (chain.feasibleFrom feasible).exists_pathRun l
    exact ⟨visited, _, run⟩
  exact ⟨fresh, built, cancels, three, cut, whole, free, (uncut whole free).1, ends,
    (errors _ feasible.represents).2 ends⟩

end Tableau

end LexPivot
