import LexPivot.Tableau.Basic

/-!
# Rebuilding the working matrix

The basic columns are eliminated from the system one after the other, in the order of the rows they
are basic in. Each is eliminated on the row with the entry of largest magnitude among the rows not
yet used, and in the end the rows are put back in the order of the basis.
-/
namespace LexPivot

open Scalar (Entry)

/-- An elimination under way: the rows used so far, in the order of the columns eliminated. -/
structure Elimination (ε : Type) (r w : Nat) where
  work : Working ε r w
  used : List (Fin r)

namespace Elimination

variable {ε : Type} {r w : Nat}

/-- The elimination of nothing yet. -/
def start (system : Grid ε r w) (unit : ε) : Elimination ε r w :=
  ⟨⟨system, unit⟩, []⟩

/-- The later of two rows unless the earlier has the larger entry. -/
def larger (α : Type) [Scalar α] (work : Working (Entry α) r w) (j : Fin w) (i k : Fin r) : Fin r :=
  match Scalar.compareMagnitude (α := α) (work.entries.entry i j) (work.entries.entry k j) with
  | .gt => i
  | _ => k

/-- The unused row with the entry of largest magnitude in column `j`, the last of equals. -/
def pivotRow? (α : Type) [Scalar α] (e : Elimination (Entry α) r w) (j : Fin w) :
    Option (Fin r) :=
  let rows := (List.finRange r).filter fun i =>
    !e.used.contains i && !Scalar.isZeroEntry (α := α) (e.work.entries.entry i j)
  match rows with
  | [] => none
  | i :: rest => some (rest.foldl (larger α e.work j) i)

/-- Eliminates column `j` on row `i`. -/
def eliminate (α : Type) [Scalar α] (e : Elimination (Entry α) r w) (i : Fin r) (j : Fin w) :
    Elimination (Entry α) r w :=
  ⟨Scalar.pivot (α := α) e.work i j, e.used ++ [i]⟩

/-- The working matrix with the rows in the order in which they were used. -/
def inOrder (e : Elimination ε r w) : Working ε r w :=
  { e.work with entries := Vector.ofFn fun i => e.work.entries.get ((e.used[i.val]?).getD i) }

end Elimination

namespace Tableau

variable {α : Type} [Scalar α] {r c : Nat}

/-- Eliminates the basic columns of the given rows. -/
def eliminateRows (basis : Basis r c) :
    List (Fin r) → Elimination (Entry α) r (c + r + 1) →
      Except PivotError (Elimination (Entry α) r (c + r + 1))
  | [], e => .ok e
  | i :: rest, e =>
    match basis.column? (basis.rowLabel i) with
    | none => .error (.undefinedLabel (basis.rowLabel i))
    | some j =>
      match e.pivotRow? α j.castSucc with
      | none => .error (.singularPivot i (basis.rowLabel i))
      | some k => eliminateRows basis rest (e.eliminate α k j.castSucc)

/-- Rebuilds the working matrix from the system, for the current basis. -/
def refactor (t : Tableau α r c) : Except PivotError (Tableau α r c) :=
  match eliminateRows t.basis (List.finRange r) (.start t.system (Scalar.unit (α := α))) with
  | .error e => .error e
  | .ok e => .ok { t with work := e.inOrder, sinceRefactor := 0 }

/-- The tableau of `A z - w = b` at the slack basis, with the labels of the columns of `A` from
`first` on. -/
def ofSystem (a : Grid α r c) (b : Vector α r) (first : Nat) : Except PivotError (Tableau α r c) :=
  if c = 0 then .error (.dimensionMismatch .constraintColumns 1 0)
  else
    let system := Scalar.toEntries (augment a b)
    let basis : Basis r c := Basis.slack first
    refactor {
      system := system
      work := ⟨system, Scalar.unit (α := α)⟩
      basis := basis
      reference := basis.rows
      pivots := 0
      sinceRefactor := 0 }

/-- The tableau of a system whose right-hand side need not fit. -/
def ofParts (a : Grid α r c) (b : Array α) (first : Nat) : Except PivotError (Tableau α r c) :=
  if h : b.size = r then ofSystem a ⟨b, h⟩ first
  else .error (.dimensionMismatch .rightHandSide r b.size)

end Tableau

end LexPivot
