import LexPivot.Complementary.Path
import LexPivot.Search.Bounds

/-!
# Searching for complementary solutions

The solutions that complementary paths connect to a starting one. Every solution found is a node;
from each node one path is followed for every label, except for the label of the path that led to
the node, which leads back. The node found last is explored first. A solution that counts as equal
to the starting one, or to one found before, is not reported again.

In exact arithmetic a solution is determined by the basic columns by row, so there are fewer nodes
than `Tableau.pivotBudget`.
-/
namespace LexPivot

/-- Someone who is told of each solution when it is found, and who may cancel the search. -/
structure Observer (σ α : Type) where
  notice : σ → BasicSolution α → σ
  cancelled : σ → Bool

namespace Observer

/-- The observer who does nothing. -/
def silent (α : Type) : Observer Unit α := ⟨fun _ _ => (), fun _ => false⟩

/-- The observer who counts the solutions, and cancels once `limit` of them are found. -/
def counting (α : Type) (limit : Option Nat) : Observer Nat α :=
  ⟨fun count _ => count + 1, fun count => limit.any fun n => n ≤ count⟩

end Observer

/-- What a search reports. -/
structure SearchReport (α : Type) where
  /-- The solutions in the order in which they were found, without the starting one. -/
  equilibria : List (BasicSolution α) := []
  /-- Whether a bound ended the search or kept a node from being explored. -/
  truncated : Bool := false
  cancelled : Bool := false
  /-- Why paths were given up. -/
  errors : List PivotError := []

def SearchReport.isComplete {α : Type} (report : SearchReport α) : Bool :=
  !report.truncated && !report.cancelled && report.errors.isEmpty

namespace Search

variable {σ α : Type} [Scalar α] {r c : Nat}

/-- A solution to be explored. -/
structure Node (α : Type) [Scalar α] (r c : Nat) where
  tableau : Tableau α r c
  /-- The label of the path that led here. -/
  arrivedBy : Option Label
  depth : Nat

/-- A search under way. -/
structure Progress (σ α : Type) [Scalar α] (r c : Nat) where
  report : SearchReport α
  /-- The nodes still to be explored, the next one first. -/
  pending : List (Node α r c)
  observer : σ
  halted : Bool

namespace Progress

/-- Ends the search on behalf of the observer. -/
def cancel (p : Progress σ α r c) : Progress σ α r c :=
  { p with report := { p.report with cancelled := true }, halted := true }

/-- Records that a bound cut something off. -/
def truncate (p : Progress σ α r c) : Progress σ α r c :=
  { p with report := { p.report with truncated := true } }

def halt (p : Progress σ α r c) : Progress σ α r c := { p with halted := true }

def addError (p : Progress σ α r c) (e : PivotError) : Progress σ α r c :=
  { p with report := { p.report with errors := p.report.errors ++ [e] } }

/-- Reports a solution, tells the observer, and queues its node. -/
def addSolution (o : Observer σ α) (p : Progress σ α r c) (s : BasicSolution α)
    (node : Node α r c) : Progress σ α r c :=
  { p with
    report := { p.report with equilibria := p.report.equilibria ++ [s] }
    pending := node :: p.pending
    observer := o.notice p.observer s }

end Progress

/-- Follows the path of one label from a node. -/
def followLabel (o : Observer σ α) (start : BasicSolution α) (node : Node α r c)
    (p : Progress σ α r c) (label : Label) : Progress σ α r c :=
  match node.tableau.lemkePath label with
  | ⟨.error e, _⟩ => p.addError e
  | ⟨.ok (), next⟩ =>
    let s := next.complementarySolution
    -- The starting solution and those reported are all the solutions seen so far.
    if (start :: p.report.equilibria).any fun seen => seen.approxEq s then p
    else p.addSolution o s ⟨next, some label, node.depth + 1⟩

/-- Deals with one label at a node, unless the search has ended. -/
def visit (o : Observer σ α) (bounds : SearchBounds) (start : BasicSolution α) (node : Node α r c)
    (p : Progress σ α r c) (label : Label) : Progress σ α r c :=
  if p.halted || node.arrivedBy == some label then p
  else if o.cancelled p.observer then p.cancel
  else if bounds.countReached p.report.equilibria.length then p.truncate.halt
  else followLabel o start node p label

/-- Explores a node, unless it lies too deep. -/
def expand (o : Observer σ α) (bounds : SearchBounds) (start : BasicSolution α)
    (labels : List Label) (node : Node α r c) (p : Progress σ α r c) : Progress σ α r c :=
  if bounds.depthExceeded node.depth then p.truncate
  else labels.foldl (visit o bounds start node) p

/-- Explores the pending nodes, at most `budget` of them. -/
def explore (o : Observer σ α) (bounds : SearchBounds) (start : BasicSolution α)
    (labels : List Label) : Nat → Progress σ α r c → Progress σ α r c
  | 0, p => if p.halted || p.pending.isEmpty then p else p.addError .cycling
  | budget + 1, p =>
    if p.halted then p
    else
      match p.pending with
      | [] => p
      | node :: rest =>
        explore o bounds start labels budget
          (expand o bounds start labels node { p with pending := rest })

end Search

namespace Tableau

variable {σ α : Type} [Scalar α] {r c : Nat}

/-- The labels whose paths a search follows. -/
def searchLabels (t : Tableau α r c) : List Label :=
  let first := max t.basis.first 1
  (List.range' first (t.basis.lastLabel + 1 - first)).map .structural

/-- Searches from a complementary tableau, under the eyes of an observer. -/
def searchWith (t : Tableau α r c) (o : Observer σ α) (state : σ) (bounds : SearchBounds) :
    SearchReport α × σ :=
  if !t.isComplementary then ({ errors := [.notComplementary] }, state)
  else
    let done := Search.explore o bounds t.complementarySolution t.searchLabels t.pivotBudget
      { report := {}, pending := [⟨t, none, 0⟩], observer := state, halted := false }
    (done.report, done.observer)

def search (t : Tableau α r c) (bounds : SearchBounds) : SearchReport α :=
  (t.searchWith (.silent α) () bounds).1

end Tableau

end LexPivot
