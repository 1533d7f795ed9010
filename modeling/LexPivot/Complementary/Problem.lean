import LexPivot.Complementary.Path

/-!
# Linear complementarity problems

To find `z ≥ 0` with `w = q + M z ≥ 0` and `zᵢ wᵢ = 0` for every `i`. The covering column of ones
carries the artificial label. Lemke's algorithm brings it into the basis, at which point all values
are nonnegative, and follows the complementary path until it leaves again.
-/
namespace LexPivot

/-- How Lemke's algorithm ends. -/
inductive LemkeOutcome (α : Type) where
  | solved (z : BasicSolution α)
  /-- The path ended on a secondary ray. -/
  | ray

namespace Tableau

variable {α : Type} [Scalar α] {r c : Nat}

/-- Whether the artificial label is basic at a value that is not zero. -/
def artificialRemains (t : Tableau α r c) : Bool :=
  match t.basicValue .artificial with
  | .ok x => !Scalar.isNegligible x
  | .error _ => false

/-- Follows the path on which `entering` enters next until the artificial label leaves. -/
def lemkeFrom : Nat → Label → Tableau α r c → Attempt (Tableau α r c) (LemkeOutcome α)
  | 0, _, t => ⟨.error .cycling, t⟩
  | budget + 1, entering, t =>
    match t.pivotIn entering with
    -- Nothing bounds the entering label, so the path runs off to infinity.
    | ⟨.error (.noExitRow _), left⟩ => ⟨.ok .ray, left⟩
    | ⟨.error e, left⟩ => ⟨.error e, left⟩
    | ⟨.ok leaving, next⟩ =>
      if leaving.isArtificial then
        ⟨.ok (if next.artificialRemains then .ray else .solved next.complementarySolution), next⟩
      else lemkeFrom budget leaving.complement next

/-- The rows with a negative value. -/
def negativeRows (t : Tableau α r c) : List (Fin r) :=
  let x := t.basicVector
  (List.finRange r).filter fun i => Scalar.isStrictlyNegative (x.get i)

/-- The row where the artificial label enters: the most negative one relative to the covering
column, ties broken by the ratio test. -/
def coverRow (t : Tableau α r c) : Except PivotError (Fin r) :=
  match t.solveColumn .artificial with
  | .error e => .error e
  | .ok column =>
    match t.lexExitRowChecked (column.map fun x => -x) t.negativeRows with
    | .error e => .error e
    | .ok none => .error (.noExitRow .artificial)
    | .ok (some i) => .ok i

/-- Lemke's algorithm. A basis without a negative value is a solution already. -/
def lemke (t : Tableau α r c) : Attempt (Tableau α r c) (LemkeOutcome α) :=
  if t.negativeRows.isEmpty then ⟨.ok (.solved t.complementarySolution), t⟩
  else
    match t.coverRow with
    | .error e => ⟨.error e, t⟩
    | .ok i =>
      match t.pivot i .artificial with
      | ⟨.error e, left⟩ => ⟨.error e, left⟩
      | ⟨.ok leaving, next⟩ => lemkeFrom next.pivotBudget leaving.complement next

end Tableau

/-- The problem `w = q + M z`, `w, z ≥ 0`, `wᵢ zᵢ = 0`. -/
structure ComplementarityProblem (α : Type) (n : Nat) where
  matrix : Grid α n n
  offset : Vector α n

namespace ComplementarityProblem

variable {α : Type} [Scalar α] {n : Nat}

/-- The problem of a matrix and an offset of any shape, if they fit. -/
def ofParts {r c : Nat} (matrix : Grid α r c) (offset : Array α) :
    Except PivotError (ComplementarityProblem α offset.size) :=
  match Grid.ofShape? matrix with
  | some square => .ok ⟨square, ⟨offset, rfl⟩⟩
  | none =>
    .error (.dimensionMismatch .lcpMatrix offset.size (if r = offset.size then c else r))

/-- The constraint columns: the covering column of ones and the matrix. -/
def columns (p : ComplementarityProblem α n) : Grid α n (n + 1) :=
  Grid.ofFn fun i j => Fin.cases 1 (fun k => p.matrix.entry i k) j

def tableau (p : ComplementarityProblem α n) : Except PivotError (Tableau α n (n + 1)) :=
  Tableau.ofSystem p.columns (p.offset.map fun x => -x) 0

def solve (p : ComplementarityProblem α n) : Except PivotError (LemkeOutcome α) :=
  match p.tableau with
  | .error e => .error e
  | .ok t => t.lemke.result

end ComplementarityProblem

end LexPivot
