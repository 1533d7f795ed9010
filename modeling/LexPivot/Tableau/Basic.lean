import LexPivot.Basis
import LexPivot.BasicSolution

/-!
# Tableaus

The row-reduced system `A z - w = b` relative to a basis. The slack of row `i` has the column
`-eᵢ`. The working matrix stands for `B⁻¹ [A | -I | b]`, where `B` collects the basic columns of
`[A | -I]`, so a basic column reads as the unit column of its row, and the last column is the basic
solution. The system itself is kept, so that the working matrix can be rebuilt from it.
-/
namespace LexPivot

open Scalar (Entry)

structure Tableau (α : Type) [Scalar α] (r c : Nat) where
  system : Grid (Entry α) r (c + r + 1)
  work : Working (Entry α) r (c + r + 1)
  basis : Basis r c
  /-- The row labels of the basis at which the ratio test breaks ties. -/
  reference : Vector Label r
  /-- The pivots made since the tableau was built. -/
  pivots : Nat
  /-- The pivots made since the working matrix was last rebuilt. -/
  sinceRefactor : Nat

namespace Tableau

variable {α : Type} [Scalar α] {r c : Nat}

/-- The columns of a tableau are those of the constraints, those of the slacks and the right-hand
side. -/
def augment (a : Grid α r c) (b : Vector α r) : Grid α r (c + r + 1) :=
  Grid.ofFn fun i j =>
    Fin.lastCases (b.get i)
      (fun j => Fin.addCases (fun k => a.entry i k) (fun k => if k = i then -1 else 0) j) j

/-- The values of a column of the working matrix. -/
def columnValues (t : Tableau α r c) (j : Fin (c + r + 1)) : Vector α r :=
  Vector.map (fun row => Scalar.value (row.get j) t.work.denominator) t.work.entries

/-- The vector `B⁻¹ a` for the column `a` numbered `j`. -/
def reducedColumn (t : Tableau α r c) (j : Fin (c + r)) : Vector α r :=
  t.columnValues j.castSucc

/-- The basic solution `B⁻¹ b`, by row. -/
def basicVector (t : Tableau α r c) : Vector α r := t.columnValues (Fin.last (c + r))

/-- The vector `B⁻¹ a` for the column `a` of a label. -/
def solveColumn (t : Tableau α r c) (l : Label) : Except PivotError (Vector α r) :=
  match t.basis.column? l with
  | some j => .ok (t.reducedColumn j)
  | none => .error (.undefinedLabel l)

/-- The value of a basic label. -/
def basicValue (t : Tableau α r c) (l : Label) : Except PivotError α :=
  match t.basis.find l with
  | .ok i => .ok (t.basicVector.get i)
  | .error e => .error e

/-- Whether no basic value is negative. -/
def isFeasible (t : Tableau α r c) : Bool :=
  t.basicVector.all fun x => !Scalar.isStrictlyNegative x

/-- The nonzero values of the basic structural labels. -/
def basicSolution (t : Tableau α r c) : BasicSolution α :=
  let x := t.basicVector
  BasicSolution.ofList <| (List.finRange r).filterMap fun i =>
    let l := t.basis.rowLabel i
    if l.isStructural && !Scalar.isNegligible (x.get i) then some (l, x.get i) else none

def mark (t : Tableau α r c) (l : Label) : Tableau α r c := { t with basis := t.basis.mark l }

def unmark (t : Tableau α r c) (l : Label) : Tableau α r c := { t with basis := t.basis.unmark l }

/-- Breaks later ties of the ratio test at the current basis. -/
def setLexReference (t : Tableau α r c) : Tableau α r c :=
  { t with reference := t.basis.rows }

/-- More than the number of pairs of an assignment of columns to rows and an entering column: a
rule that picks each pivot from such a pair, and has not come to its end after this many pivots,
goes round in a circle. -/
def pivotBudget (_ : Tableau α r c) : Nat := Nat.pow (c + r) (r + 1) + 1

end Tableau

end LexPivot
