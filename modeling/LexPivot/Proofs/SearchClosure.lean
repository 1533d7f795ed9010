import Mathlib
import LexPivot.Proofs.SearchRun

/-!
# Searches are closed under paths

At any time a solution that a search has seen belongs to a node still to be explored, or to one
from which all paths lead to solutions seen. The label by which a node was reached is not followed
again, but its path is known: it leads back to the node before. So when nothing is left to explore,
all paths from the nodes of a search lead to solutions it has seen.
-/
namespace LexPivot

namespace Search

variable {σ : Type} {r c : Nat} {o : Observer σ ℚ} {bounds : SearchBounds}
  {start : BasicSolution ℚ} {labels : List Label} {node : Node ℚ r c} {p : Progress σ ℚ r c}

/-! ### What a search keeps of its report -/

/-- A property of reports that survives whatever a search does to its report. -/
structure Kept (o : Observer σ ℚ) (bounds : SearchBounds) (Q : SearchReport ℚ → Prop) : Prop where
  cancel : (∃ state, o.cancelled state = true) → ∀ report, Q report →
    Q { report with cancelled := true }
  truncate : bounds ≠ .unbounded → ∀ report, Q report → Q { report with truncated := true }
  addError : ∀ report e, Q report → Q { report with errors := report.errors ++ [e] }
  addSolution : ∀ report s, Q report → Q { report with equilibria := report.equilibria ++ [s] }

namespace Kept

variable {Q : SearchReport ℚ → Prop} (h : Kept o bounds Q) (initial : Q p.report)

include h initial

theorem visit (label : Label) : Q (visit o bounds start node p label).report := by
  rcases visit_cases o bounds start node p label with
    ⟨_, same⟩ | ⟨cancelled, same⟩ | ⟨reached, same⟩ | ⟨e, left, _, same⟩ |
    ⟨next, _, ⟨_, same⟩ | ⟨_, same⟩⟩
  · rwa [same]
  · rw [same]
    exact h.cancel ⟨_, cancelled⟩ _ initial
  · rw [same]
    refine h.truncate ?_ _ initial
    rintro rfl
    cases reached
  · rw [same]
    exact h.addError _ e initial
  · rwa [same]
  · rw [same]
    exact h.addSolution _ _ initial

theorem foldl_visit (rest : List Label) :
    Q (rest.foldl (Search.visit o bounds start node) p).report := by
  induction rest generalizing p with
  | nil => exact initial
  | cons label rest ih => exact ih (h.visit initial label)

theorem explore (budget : Nat) : Q (explore o bounds start labels budget p).report := by
  rcases explore_induction o bounds start labels (N := fun _ => True)
      (I := fun _ p => Q p.report) (fun _ _ _ _ _ kept => ⟨trivial, kept⟩)
      (fun _ _ _ exceeded kept => h.truncate (by rintro rfl; cases exceeded) _ kept)
      (fun _ _ _ _ _ label _ kept => h.visit kept label) initial with
    ⟨_, kept⟩ | ⟨last, kept, _, exhausted⟩
  · exact kept
  · rw [exhausted]
    exact h.addError _ _ kept

end Kept

theorem kept_truncated (o : Observer σ ℚ) :
    Kept o .unbounded fun report => report.truncated = false where
  cancel _ _ kept := kept
  truncate bounded := absurd rfl bounded
  addError _ _ kept := kept
  addSolution _ _ kept := kept

theorem kept_cancelled (never : ∀ state, o.cancelled state = false) :
    Kept o bounds fun report => report.cancelled = false where
  cancel := fun ⟨state, cancelled⟩ => by
    rw [never state] at cancelled
    cases cancelled
  truncate _ _ kept := kept
  addError _ _ kept := kept
  addSolution _ _ kept := kept

/-- A report that is complete in the end was complete all along. -/
theorem kept_isComplete (o : Observer σ ℚ) (bounds : SearchBounds) (report : SearchReport ℚ) :
    Kept o bounds fun later => later.isComplete = true → report.isComplete = true where
  cancel _ _ _ complete := by simp [SearchReport.isComplete] at complete
  truncate _ _ _ complete := by simp [SearchReport.isComplete] at complete
  addError _ _ _ complete := by simp [SearchReport.isComplete] at complete
  addSolution _ _ kept := kept

/-! ### What a search has seen -/

variable {P : Tableau ℚ r c → Prop} {origin t : Tableau ℚ r c} {l : Label}

/-- The starting solution and those reported. -/
def seen (origin : Tableau ℚ r c) (report : SearchReport ℚ) : List (BasicSolution ℚ) :=
  origin.complementarySolution :: report.equilibria

/-- The path of a label leads to one of the solutions. -/
def LeadsInto (solutions : List (BasicSolution ℚ)) (t : Tableau ℚ r c) (l : Label) : Prop :=
  ∃ next, t.lemkePath l = ⟨.ok (), next⟩ ∧ next.complementarySolution ∈ solutions

theorem LeadsInto.mono {solutions more : List (BasicSolution ℚ)} (leads : LeadsInto solutions t l)
    (subset : solutions ⊆ more) : LeadsInto more t l := by
  obtain ⟨next, path, member⟩ := leads
  exact ⟨next, path, subset member⟩

/-- Every solution seen belongs to a tableau from which all paths lead to solutions seen. The
starting solution belongs to the tableau at which the search started. -/
def Closed (P : Tableau ℚ r c → Prop) (labels : List Label) (origin : Tableau ℚ r c)
    (report : SearchReport ℚ) : Prop :=
  ∀ s ∈ seen origin report, ∃ t, P t ∧ t.complementarySolution = s ∧
    (s = origin.complementarySolution → t = origin) ∧
    ∀ l ∈ labels, LeadsInto (seen origin report) t l

/-- A node to be explored. -/
structure Queued (P : Tableau ℚ r c → Prop) (origin : Tableau ℚ r c) (report : SearchReport ℚ)
    (node : Node ℚ r c) : Prop where
  holds : P node.tableau
  known : node.tableau.complementarySolution ∈ seen origin report
  -- The path by which the node was reached leads back.
  back : ∀ l, node.arrivedBy = some l → LeadsInto (seen origin report) node.tableau l

theorem Queued.mono {report report' : SearchReport ℚ} (h : Queued P origin report node)
    (grows : seen origin report ⊆ seen origin report') : Queued P origin report' node :=
  ⟨h.holds, grows h.known, fun l arrived => (h.back l arrived).mono grows⟩

/-- A search under way that nothing has cut short, where the nodes still to be explored are those
in `active` and those pending. -/
structure Covers (P : Tableau ℚ r c → Prop) (labels : List Label) (origin : Tableau ℚ r c)
    (active : List (Node ℚ r c)) (p : Progress σ ℚ r c) : Prop where
  running : p.halted = false
  nodes : ∀ node ∈ active ++ p.pending, Queued P origin p.report node
  found : ∀ s ∈ seen origin p.report, ∃ t, P t ∧ t.complementarySolution = s ∧
    (s = origin.complementarySolution → t = origin) ∧
    ((∃ node ∈ active ++ p.pending, node.tableau = t) ∨
      ∀ l ∈ labels, LeadsInto (seen origin p.report) t l)

/-- A search that explores a node and has followed the labels in `followed`. -/
structure Exploring (P : Tableau ℚ r c → Prop) (labels : List Label) (origin : Tableau ℚ r c)
    (node : Node ℚ r c) (followed : List Label) (p : Progress σ ℚ r c) : Prop
    extends Covers P labels origin [node] p where
  leads : ∀ l ∈ followed, LeadsInto (seen origin p.report) node.tableau l

namespace Exploring

variable {followed : List Label} (h : Exploring P labels origin node followed p)

include h

theorem active : Queued P origin p.report node := h.nodes node List.mem_cons_self

theorem follow (leads : LeadsInto (seen origin p.report) node.tableau l) :
    Exploring P labels origin node (followed ++ [l]) p where
  toCovers := h.toCovers
  leads := by
    intro l' member
    rcases List.mem_append.mp member with earlier | last
    · exact h.leads l' earlier
    · rwa [List.mem_singleton.mp last]

/-- A new solution is seen from now on, and its node is queued. -/
theorem addSolution (o : Observer σ ℚ) (new : Node ℚ r c) (holds : P new.tableau)
    (unseen : new.tableau.complementarySolution ∉ seen origin p.report)
    (back : ∀ l, new.arrivedBy = some l → LeadsInto (seen origin p.report) new.tableau l) :
    Exploring P labels origin node followed
      (p.addSolution o new.tableau.complementarySolution new) := by
  have grows : seen origin p.report ⊆
      seen origin (p.addSolution o new.tableau.complementarySolution new).report :=
    List.subset_append_left (seen origin p.report) [new.tableau.complementarySolution]
  have last : new.tableau.complementarySolution ∈
      seen origin (p.addSolution o new.tableau.complementarySolution new).report :=
    List.mem_append_right (seen origin p.report) (List.mem_singleton_self _)
  have queue (other : Node ℚ r c) :
      other ∈ [node] ++ (p.addSolution o new.tableau.complementarySolution new).pending ↔
        other = new ∨ other ∈ [node] ++ p.pending := by
    simp only [Progress.addSolution, List.mem_append, List.mem_cons]
    tauto
  refine ⟨⟨h.running, fun other queued => ?_, fun s member => ?_⟩,
    fun l member => (h.leads l member).mono grows⟩
  · rcases (queue other).mp queued with rfl | queued
    · exact ⟨holds, last, fun l arrived => (back l arrived).mono grows⟩
    · exact (h.nodes other queued).mono grows
  · rcases List.mem_append.mp (show s ∈ seen origin p.report ++ _ from member) with earlier | new'
    · obtain ⟨t, holds, solution, own, ends⟩ := h.found s earlier
      refine ⟨t, holds, solution, own, ?_⟩
      rcases ends with ⟨other, queued, rfl⟩ | closed
      · exact Or.inl ⟨other, (queue other).mpr (Or.inr queued), rfl⟩
      · exact Or.inr fun l listed => (closed l listed).mono grows
    · obtain rfl := List.mem_singleton.mp new'
      refine ⟨new.tableau, holds, rfl, fun same => ?_,
        Or.inl ⟨new, (queue new).mpr (Or.inl rfl), rfl⟩⟩
      -- The starting solution has been seen.
      rw [same] at unseen
      exact absurd List.mem_cons_self unseen

end Exploring

/-- A node from which all labels have been followed is explored. -/
theorem Exploring.finish (h : Exploring P labels origin node labels p) :
    Covers P labels origin [] p where
  running := h.running
  nodes other queued := h.nodes other (List.mem_cons_of_mem _ queued)
  found s member := by
    obtain ⟨t, holds, solution, own, ends⟩ := h.found s member
    refine ⟨t, holds, solution, own, ?_⟩
    rcases ends with ⟨other, queued, rfl⟩ | closed
    · rcases List.mem_cons.mp queued with rfl | queued
      · exact Or.inr h.leads
      · exact Or.inl ⟨other, queued, rfl⟩
    · exact Or.inr closed

theorem Covers.pop {rest : List (Node ℚ r c)} (h : Covers P labels origin [] p)
    (pending : p.pending = node :: rest) :
    Covers P labels origin [node] { p with pending := rest } := by
  have queue : [] ++ p.pending = [node] ++ rest := pending
  obtain ⟨running, nodes, found⟩ := h
  rw [queue] at nodes
  simp only [queue] at found
  exact ⟨running, nodes, found⟩

/-- When nothing is pending, all paths lead to solutions seen. -/
theorem Covers.closed (h : Covers P labels origin [] p) (done : p.pending = []) :
    Closed P labels origin p.report := by
  intro s member
  obtain ⟨t, holds, solution, own, ends⟩ := h.found s member
  refine ⟨t, holds, solution, own, ?_⟩
  rcases ends with ⟨_, queued, _⟩ | closed
  · rw [done] at queued
    cases queued
  · exact closed

section Step

variable (succeeds : ∀ t, P t → ∀ l ∈ labels, ∃ next back, t.lemkePath l = ⟨.ok (), next⟩ ∧ P next ∧
  next.lemkePath l = ⟨.ok (), back⟩ ∧ back.complementarySolution = t.complementarySolution)

include succeeds

theorem Exploring.visit {followed : List Label} (h : Exploring P labels origin node followed p)
    (listed : l ∈ labels)
    (complete : (visit o bounds origin.complementarySolution node p l).report.isComplete = true) :
    Exploring P labels origin node (followed ++ [l])
      (visit o bounds origin.complementarySolution node p l) := by
  rcases visit_cases o bounds origin.complementarySolution node p l with
    ⟨passed, same⟩ | ⟨_, same⟩ | ⟨_, same⟩ | ⟨e, left, failed, _⟩ |
    ⟨next, path, ⟨known, same⟩ | ⟨unseen, same⟩⟩
  · rw [same]
    rcases passed with halted | arrived
    · rw [h.running] at halted
      cases halted
    · exact h.follow (h.active.back l arrived)
  · rw [same] at complete
    simp [SearchReport.isComplete, Progress.cancel] at complete
  · rw [same] at complete
    simp [SearchReport.isComplete, Progress.truncate, Progress.halt] at complete
  · obtain ⟨_, _, path, _⟩ := succeeds _ h.active.holds l listed
    cases failed.symm.trans path
  · rw [same]
    exact h.follow ⟨next, path, known⟩
  · obtain ⟨_, back, path', holds, path_back, solution⟩ := succeeds _ h.active.holds l listed
    cases path.symm.trans path'
    -- The path of the same label leads back to the node that is being explored.
    have returns : LeadsInto (seen origin p.report) next l :=
      ⟨back, path_back, solution ▸ h.active.known⟩
    have last : next.complementarySolution ∈ seen origin p.report ++ [next.complementarySolution] :=
      List.mem_append_right _ (List.mem_singleton_self _)
    rw [same]
    exact (h.addSolution o ⟨next, some l, node.depth + 1⟩ holds unseen fun l' arrived =>
      Option.some.inj arrived ▸ returns).follow ⟨next, path, last⟩

theorem Exploring.foldl_visit {followed rest : List Label}
    (h : Exploring P labels origin node followed p) (subset : ∀ l ∈ rest, l ∈ labels)
    (complete : (rest.foldl (Search.visit o bounds origin.complementarySolution node)
      p).report.isComplete = true) :
    Exploring P labels origin node (followed ++ rest)
      (rest.foldl (Search.visit o bounds origin.complementarySolution node) p) := by
  induction rest generalizing followed p with
  | nil =>
    rw [List.append_nil]
    exact h
  | cons l rest ih =>
    obtain ⟨listed, others⟩ := List.forall_mem_cons.mp subset
    have next := h.visit succeeds listed
      ((kept_isComplete o bounds _).foldl_visit id rest complete)
    rw [List.append_cons]
    exact ih next others complete

theorem Covers.expand (h : Covers P labels origin [node] p)
    (complete : (expand o bounds origin.complementarySolution labels node p).report.isComplete =
      true) :
    Covers P labels origin [] (expand o bounds origin.complementarySolution labels node p) := by
  unfold Search.expand at complete ⊢
  split at complete
  · simp [SearchReport.isComplete, Progress.truncate] at complete
  next within =>
    rw [if_neg within]
    have initial : Exploring P labels origin node [] p := ⟨h, fun l absurd => nomatch absurd⟩
    exact (initial.foldl_visit succeeds (fun _ listed => listed) complete).finish

/-- A search that is complete in the end has explored every node. -/
theorem Covers.explore {budget : Nat} (h : Covers P labels origin [] p)
    (complete : (explore o bounds origin.complementarySolution labels budget p).report.isComplete =
      true) :
    Closed P labels origin
      (explore o bounds origin.complementarySolution labels budget p).report := by
  have running : ¬p.halted = true := by simp [h.running]
  induction budget generalizing p with
  | zero =>
    unfold Search.explore at complete ⊢
    rw [Bool.eq_false_of_not_eq_true running, Bool.false_or] at complete ⊢
    split at complete
    next empty =>
      rw [if_pos empty]
      exact h.closed (List.isEmpty_iff.mp empty)
    · -- A search that runs out of budget reports an error.
      simp [SearchReport.isComplete, Progress.addError] at complete
  | succ budget ih =>
    unfold Search.explore at complete ⊢
    rw [if_neg running] at complete ⊢
    cases pending : p.pending with
    | nil => exact h.closed pending
    | cons node rest =>
      simp only [pending] at complete ⊢
      have next := (h.pop pending).expand succeeds
        ((kept_isComplete o bounds _).explore id budget complete)
      exact ih next complete (by simp [next.running])

end Step

end Search

namespace Tableau

variable {σ : Type} {r c : Nat} {P : Tableau ℚ r c → Prop} {t : Tableau ℚ r c}

theorem truncated_searchWith (t : Tableau ℚ r c) (o : Observer σ ℚ) (state : σ) :
    (t.searchWith o state .unbounded).1.truncated = false := by
  unfold searchWith
  split
  · rfl
  · exact (Search.kept_truncated o).explore (p := ⟨{}, _, state, false⟩) rfl _

theorem cancelled_searchWith (t : Tableau ℚ r c) {o : Observer σ ℚ}
    (never : ∀ state, o.cancelled state = false) (state : σ) (bounds : SearchBounds) :
    (t.searchWith o state bounds).1.cancelled = false := by
  unfold searchWith
  split
  · rfl
  · exact (Search.kept_cancelled never).explore (p := ⟨{}, _, state, false⟩) rfl _

/-- A complete search has seen where the paths from its nodes lead. -/
theorem searchWith_closed (holds : P t) (complementary : t.isComplementary = true)
    (succeeds : ∀ t', P t' → ∀ l ∈ t.searchLabels, ∃ next back,
      t'.lemkePath l = ⟨.ok (), next⟩ ∧ P next ∧ next.lemkePath l = ⟨.ok (), back⟩ ∧
        back.complementarySolution = t'.complementarySolution)
    (o : Observer σ ℚ) (state : σ) (bounds : SearchBounds)
    (complete : (t.searchWith o state bounds).1.isComplete = true) :
    Search.Closed P t.searchLabels t (t.searchWith o state bounds).1 := by
  have initial : Search.Covers P t.searchLabels t []
      { report := {}, pending := [⟨t, none, 0⟩], observer := state, halted := false } := by
    refine ⟨rfl, fun node queued => ?_, fun s member => ?_⟩
    · obtain rfl := List.mem_singleton.mp queued
      exact ⟨holds, List.mem_cons_self, nofun⟩
    · obtain rfl := List.mem_singleton.mp member
      exact ⟨t, holds, rfl, fun _ => rfl, Or.inl ⟨_, List.mem_singleton_self _, rfl⟩⟩
  rw [searchWith, complementary] at complete ⊢
  exact initial.explore succeeds complete

end Tableau

end LexPivot
