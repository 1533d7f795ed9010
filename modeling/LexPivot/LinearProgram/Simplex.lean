import LexPivot.LinearProgram.Constraints
import LexPivot.Tableau.Pivot
import LexPivot.Tableau.RatioTest

/-!
# The simplex method

The tableau of the constraints has one artificial column for each row whose slack cannot be basic
at the start: the rows with a positive bound and the equality rows. The labels `1 … v` are the
variables, and the artificial columns carry the labels after them. The slacks of equality rows are
blocked. The objective gives a cost to every structural label and is maximised: the label with the
most negative reduced cost enters, and the lexicographic ratio test says which one leaves.

In exact arithmetic a pivot depends on the basic columns by row only, so an optimisation that makes
more pivots than `Tableau.pivotBudget` never ends.
-/
namespace LexPivot

structure SimplexTableau (α : Type) [Scalar α] (r v : Nat) where
  /-- The number of artificial columns. -/
  artificials : Nat
  tableau : Tableau α r (v + artificials)
  costs : Vector α (v + artificials)

/-- How an optimisation ends. -/
inductive PhaseOutcome where
  | optimal
  /-- The objective grows without bound as this label enters. -/
  | unbounded (label : Label)
deriving DecidableEq, Repr

namespace Constraints

variable {α : Type} [Scalar α] {r v : Nat}

/-- The rows that need an artificial column. -/
def artificialRows (k : Constraints α r v) : List (Fin r) :=
  (List.finRange r).filter fun i => k.isEquality i || Scalar.isStrictlyPositive (k.bound.get i)

/-- The entry of an artificial column in its row has the sign of the bound there. -/
def artificialEntry (k : Constraints α r v) (i : Fin r) : α :=
  if Scalar.isNegative (k.bound.get i) then -1 else 1

/-- The constraint columns followed by one artificial column for each of the given rows. -/
def extended (k : Constraints α r v) (rows : List (Fin r)) : Grid α r (v + rows.length) :=
  Grid.ofFn fun i j =>
    Fin.addCases (fun l => k.matrix.entry i l)
      (fun l => if rows.get l = i then k.artificialEntry i else 0) j

end Constraints

namespace Tableau

variable {α : Type} [Scalar α] {r c : Nat}

/-- Makes the structural labels from `label` on basic in the rows of a list. -/
def installInto : Nat → List (Fin r) → Tableau α r c → Except PivotError (Tableau α r c)
  | _, [], t => .ok t
  | label, i :: rest, t =>
    match (t.pivot i (.structural label)).stateOrError with
    | .error e => .error e
    | .ok next => installInto (label + 1) rest next

end Tableau

namespace SimplexTableau

variable {α : Type} [Scalar α] {r v : Nat}

/-- The tableau of the constraints, at the feasible basis with every artificial column basic, and
with no costs. -/
def ofConstraints (k : Constraints α r v) : Except PivotError (SimplexTableau α r v) :=
  let rows := k.artificialRows
  match Tableau.ofSystem (k.extended rows) k.bound 1 with
  | .error e => .error e
  | .ok t =>
    match t.installInto (v + 1) rows with
    | .error e => .error e
    | .ok t =>
      let equalityRows := (List.finRange r).filter k.isEquality
      .ok {
        artificials := rows.length
        tableau := equalityRows.foldl (fun t (i : Fin r) => t.mark (.slack (i.val + 1))) t
        costs := Vector.replicate _ 0 }

/-- Whether a label is numbered after the variables. -/
def isArtificial (_ : SimplexTableau α r v) : Label → Bool
  | .structural k => v < k
  | .slack _ => false

def artificialLabels (s : SimplexTableau α r v) : List Label :=
  (List.range' (v + 1) s.artificials).map .structural

/-- Replaces the costs. -/
def setCosts (s : SimplexTableau α r v) (costs : Array α) :
    Except PivotError (SimplexTableau α r v) :=
  if h : costs.size = v + s.artificials then .ok { s with costs := ⟨costs, h⟩ }
  else .error (.dimensionMismatch .objective (v + s.artificials) costs.size)

/-- The cost of a label, zero for a slack. -/
def cost (s : SimplexTableau α r v) : Label → α
  | .structural k =>
    if h : k - 1 < v + s.artificials ∧ k ≠ 0 then s.costs.get ⟨k - 1, h.1⟩ else 0
  | .slack _ => 0

/-- The costs of the basic labels, by row. -/
def basicCosts (s : SimplexTableau α r v) : Vector α r :=
  Vector.ofFn fun i => s.cost (s.tableau.basis.rowLabel i)

/-- What the objective loses per unit of a column. -/
def reducedCostAt (s : SimplexTableau α r v) (j : Fin (v + s.artificials + r)) : α :=
  Scalar.dot s.basicCosts (s.tableau.reducedColumn j) - s.cost (s.tableau.basis.labelAt j)

def reducedCost (s : SimplexTableau α r v) (l : Label) : Except PivotError α :=
  match s.tableau.basis.column? l with
  | some j => .ok (s.reducedCostAt j)
  | none => .error (.undefinedLabel l)

/-- Whether a column may enter: it is neither basic nor blocked. -/
def mayEnter (s : SimplexTableau α r v) (j : Fin (v + s.artificials + r)) : Bool :=
  (s.tableau.basis.rowOf? j).isNone && !s.tableau.basis.blocked.get j

/-- The better of the best column so far and another one. -/
def improve (s : SimplexTableau α r v) (best : Option (Fin (v + s.artificials + r) × α))
    (j : Fin (v + s.artificials + r)) : Option (Fin (v + s.artificials + r) × α) :=
  if s.mayEnter j then
    let reduced := s.reducedCostAt j
    match best with
    | some (_, current) => if Scalar.definitelyLess reduced current then some (j, reduced) else best
    | none => if Scalar.isStrictlyNegative reduced then some (j, reduced) else none
  else best

/-- The column with the most negative reduced cost, none at an optimum. -/
def enteringColumn? (s : SimplexTableau α r v) : Option (Fin (v + s.artificials + r)) :=
  ((List.finRange (v + s.artificials + r)).foldl s.improve none).map Prod.fst

def enteringLabel? (s : SimplexTableau α r v) : Option Label :=
  s.enteringColumn?.map s.tableau.basis.labelAt

/-- Makes at most `budget` simplex pivots. -/
def optimizeWithin : Nat → SimplexTableau α r v → Attempt (SimplexTableau α r v) PhaseOutcome
  | 0, s => ⟨.error .cycling, s⟩
  | budget + 1, s =>
    match s.enteringColumn? with
    | none => ⟨.ok .optimal, s⟩
    | some j =>
      let column := s.tableau.reducedColumn j
      let entering := s.tableau.basis.labelAt j
      match s.tableau.lexExitRow column (Tableau.positiveRows column) with
      | none => ⟨.ok (.unbounded entering), s⟩
      | some i =>
        match s.tableau.pivot i entering with
        | ⟨.error e, left⟩ => ⟨.error e, { s with tableau := left }⟩
        | ⟨.ok _, next⟩ => optimizeWithin budget { s with tableau := next }

/-- Pivots from a feasible basis until the objective cannot grow any more. -/
def optimize (s : SimplexTableau α r v) : Attempt (SimplexTableau α r v) PhaseOutcome :=
  optimizeWithin s.tableau.pivotBudget { s with tableau := s.tableau.setLexReference }

def objectiveValue (s : SimplexTableau α r v) : α :=
  Scalar.dot s.basicCosts s.tableau.basicVector

/-- Whether some artificial label is basic at a positive value. -/
def artificialIsPositive (s : SimplexTableau α r v) : Bool :=
  s.artificialLabels.any fun l =>
    match s.tableau.basicValue l with
    | .ok x => Scalar.isStrictlyPositive x
    | .error _ => false

/-- The first column that may enter in a row. -/
def replacement? (s : SimplexTableau α r v) (i : Fin r) : Option (Fin (v + s.artificials + r)) :=
  (List.finRange (v + s.artificials + r)).find? fun j =>
    s.mayEnter j && !Scalar.isNegligible ((s.tableau.reducedColumn j).get i)

/-- Pivots an artificial label out of the basis if some other label can take its row. -/
def removeArtificial (s : SimplexTableau α r v) (l : Label) : Attempt (SimplexTableau α r v) Unit :=
  match s.tableau.basis.position? l with
  | none => ⟨.ok (), s⟩
  | some i =>
    match s.replacement? i with
    | none => ⟨.ok (), s⟩
    | some j =>
      match s.tableau.pivot i (s.tableau.basis.labelAt j) with
      | ⟨.error e, left⟩ => ⟨.error e, { s with tableau := left }⟩
      | ⟨.ok _, next⟩ => ⟨.ok (), { s with tableau := next }⟩

def removeEach : List Label → SimplexTableau α r v → Attempt (SimplexTableau α r v) Unit
  | [], s => ⟨.ok (), s⟩
  | l :: rest, s =>
    match s.removeArtificial l with
    | ⟨.error e, left⟩ => ⟨.error e, left⟩
    | ⟨.ok (), next⟩ => removeEach rest next

/-- Blocks the artificial labels and pivots those that are basic, all at zero, out of the basis
where some other label can take their row. The rows where none can are redundant. -/
def removeArtificials (s : SimplexTableau α r v) : Attempt (SimplexTableau α r v) Unit :=
  removeEach s.artificialLabels
    { s with tableau := s.artificialLabels.foldl (fun t l => t.mark l) s.tableau }

/-- The nonzero variables. -/
def primalSolution (s : SimplexTableau α r v) : BasicSolution α :=
  s.tableau.basicSolution.filterLabels fun l => !s.isArtificial l

/-- The values of the variables. -/
def primal (s : SimplexTableau α r v) : Vector α v :=
  let x := s.primalSolution
  Vector.ofFn fun k => x.get (.structural (k + 1))

/-- The shadow prices of the rows. -/
def dualValues (s : SimplexTableau α r v) : Vector α r :=
  let costs := s.basicCosts
  Vector.ofFn fun i => -Scalar.dot costs (s.tableau.reducedColumn (Fin.natAdd _ i))

end SimplexTableau

end LexPivot
