import LexPivot.Tableau.Pivot
import LexPivot.Tableau.RatioTest

/-!
# Complementary paths

Tableaus whose first column carries the artificial label 0. The structural label `k` and the slack
of row `k` form a complementary pair. A path starts at a basis that holds no complementary pair,
lets one label enter, and from then on lets the complement of the label that left enter, until the
pair it started from is reached again, or the artificial label leaves.

In exact arithmetic a pivot depends on the basic columns by row and on the entering label only, so
a path that makes more pivots than `Tableau.pivotBudget` never ends.
-/
namespace LexPivot.Tableau

variable {α : Type} [Scalar α] {r c : Nat}

/-- Whether no complementary pair is basic. -/
def isComplementary (t : Tableau α r c) : Bool :=
  t.basis.labels.all fun l => l.isArtificial || !t.basis.isMember l.complement

/-- The row that leaves when `entering` enters: the ratio test decides among the rows where the
entering column is positive. When there is none, the row of the artificial label leaves if the
entering column vanishes in it. -/
def exitRow (t : Tableau α r c) (entering : Label) : Except PivotError (Fin r) :=
  match t.solveColumn entering with
  | .error e => .error e
  | .ok column =>
    match positiveRows column with
    | [] =>
      match t.basis.position? .artificial with
      | some i => if Scalar.isNegligible (column.get i) then .ok i else .error (.noExitRow entering)
      | none => .error (.noExitRow entering)
    | candidates =>
      match t.lexExitRow column candidates with
      | some i => .ok i
      | none => .error (.noExitRow entering)

/-- Whether the entering column vanishes in a row that holds the artificial label. -/
def vanishesAtArtificial (t : Tableau α r c) (i : Fin r) (entering : Label) : Bool :=
  (t.basis.rowLabel i).isArtificial &&
    match t.solveColumn entering with
    | .ok column => Scalar.isNegligible (column.get i)
    | .error _ => false

/-- Lets `entering` enter and gives the label that leaves. When the exit row holds the artificial
label and the entering column vanishes in it, no pivot is made. -/
def pivotIn (t : Tableau α r c) (entering : Label) : Attempt (Tableau α r c) Label :=
  match t.exitRow entering with
  | .error e => ⟨.error e, t⟩
  | .ok i =>
    if t.vanishesAtArtificial i entering then ⟨.ok .artificial, t⟩ else t.pivot i entering

/-- Follows the path on which `entering` enters next, until a label of the pair of `start` or the
artificial label leaves. -/
def follow (start : Label) : Nat → Label → Tableau α r c → Attempt (Tableau α r c) Unit
  | 0, _, t => ⟨.error .cycling, t⟩
  | budget + 1, entering, t =>
    match t.pivotIn entering with
    | ⟨.error e, left⟩ => ⟨.error e, left⟩
    | ⟨.ok leaving, next⟩ =>
      if leaving = start || leaving = start.complement || leaving.isArtificial then ⟨.ok (), next⟩
      else follow start budget leaving.complement next

/-- Follows the path that drops `start`, from one complementary basis to another. -/
def lemkePath (t : Tableau α r c) (start : Label) : Attempt (Tableau α r c) Unit :=
  if start.isArtificial || !t.basis.isValid start then ⟨.error (.undefinedLabel start), t⟩
  else if !t.isComplementary then ⟨.error .notComplementary, t⟩
  else
    let entering := if t.basis.isMember start then start.complement else start
    follow start t.pivotBudget entering t

/-- The basic solution without the artificial label. -/
def complementarySolution (t : Tableau α r c) : BasicSolution α :=
  t.basicSolution.filterLabels fun l => !l.isArtificial

end LexPivot.Tableau
