import LexPivot.Tableau.Refactor

/-!
# Pivoting

A pivot replaces the label that is basic in a row by another one. It is refused, with the tableau
unchanged, when there is no such row or label, when the label is basic in another row, or when the
pivot element is zero.
-/
namespace LexPivot.Tableau

variable {α : Type} [Scalar α] {r c : Nat}

/-- Rebuilds the working matrix when the interval of the scalar is over. -/
def refactorWhenDue (t : Tableau α r c) : Except PivotError (Tableau α r c) :=
  match Scalar.refactorInterval α with
  | none => .ok t
  | some interval => if interval ≤ t.sinceRefactor then t.refactor else .ok t

/-- Makes `entering` basic in `row` and gives the label that leaves. The working matrix is pivoted
before the basis, and when the rebuilding that follows the pivot fails, the pivot itself stands. -/
def pivot (t : Tableau α r c) (row : Nat) (entering : Label) : Attempt (Tableau α r c) Label :=
  if h : row < r then
    match t.basis.column? entering with
    | none => ⟨.error (.undefinedLabel entering), t⟩
    | some j =>
      if t.basis.rowLabel ⟨row, h⟩ = entering then ⟨.ok entering, t⟩
      else if t.basis.isMember entering then ⟨.error (.undefinedLabel entering), t⟩
      else if Scalar.isZeroEntry (α := α) (t.work.entries.entry ⟨row, h⟩ j.castSucc) then
        ⟨.error (.singularPivot row entering), t⟩
      else
        let work := Scalar.pivot (α := α) t.work ⟨row, h⟩ j.castSucc
        match t.basis.pivot row entering with
        | ⟨.error e, basis⟩ => ⟨.error e, { t with work := work, basis := basis }⟩
        | ⟨.ok leaving, basis⟩ =>
          let pivoted := { t with
            work := work
            basis := basis
            pivots := t.pivots + 1
            sinceRefactor := t.sinceRefactor + 1 }
          match pivoted.refactorWhenDue with
          | .error e => ⟨.error e, pivoted⟩
          | .ok rebuilt => ⟨.ok leaving, rebuilt⟩
  else ⟨.error (.rowOutside row), t⟩

end LexPivot.Tableau
