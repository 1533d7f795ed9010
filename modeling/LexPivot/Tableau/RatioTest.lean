import LexPivot.Tableau.Basic

/-!
# The lexicographic ratio test

Which of several rows bounds an entering column first. The ratios of the basic solution to the
entering column decide; while rows tie, the ratios of the columns of `B⁻¹ B₀` decide, one column
after the other, where `B₀` is the reference basis. The rows of `B⁻¹ B₀` are linearly independent,
so in exact arithmetic one row is left.
-/
namespace LexPivot.Tableau

variable {α : Type} [Scalar α] {r c : Nat}

/-- The rows among `rows` with the least ratio of `column` to `entering`. -/
def narrow (entering column : Vector α r) (rows : List (Fin r)) : List (Fin r) :=
  let ratio (i : Fin r) := column.get i / entering.get i
  match Scalar.least? (rows.map ratio) with
  | none => []
  | some low => rows.filter fun i => !Scalar.definitelyLess low (ratio i)

/-- Narrows the rows by one column after the other, until at most one row is left. A column that
does not exist leaves no row. -/
def narrowBy (t : Tableau α r c) (entering : Vector α r) :
    List (Option (Fin (c + r + 1))) → List (Fin r) → List (Fin r)
  | [], rows => rows
  | stage :: rest, rows =>
    if rows.length ≤ 1 then rows
    else
      match stage with
      | none => []
      | some j => narrowBy t entering rest (narrow entering (t.columnValues j) rows)

/-- The columns that decide the ratio test, in order: the basic solution and the columns of the
reference labels. -/
def lexStages (t : Tableau α r c) : List (Option (Fin (c + r + 1))) :=
  some (Fin.last (c + r)) ::
    t.reference.toList.map fun l => (t.basis.column? l).map Fin.castSucc

/-- The row among `candidates` that the ratio test selects. -/
def lexExitRow (t : Tableau α r c) (entering : Vector α r) (candidates : List (Fin r)) :
    Option (Fin r) :=
  (t.narrowBy entering t.lexStages candidates).head?

/-- The ratio test among rows whose ratios need not exist. A single candidate is selected without
a ratio. -/
def lexExitRowChecked (t : Tableau α r c) (entering : Vector α r) (candidates : List (Fin r)) :
    Except PivotError (Option (Fin r)) :=
  if 1 < candidates.length && candidates.any (fun i => !Scalar.isDivisor (entering.get i)) then
    .error .undefinedRatio
  else .ok (t.lexExitRow entering candidates)

/-- The ratio test for a column of any length among rows given by number. -/
def lexExitRowAt (t : Tableau α r c) (entering : Array α) (candidates : List Nat) :
    Except PivotError (Option Nat) :=
  match candidates with
  | [] => .ok none
  | [row] => .ok (some row)
  | _ =>
    if candidates.all (fun row => row < r && row < entering.size) then
      -- All candidates are rows here, so none is lost.
      let rows := candidates.filterMap fun row => if h : row < r then some ⟨row, h⟩ else none
      match t.lexExitRowChecked (Vector.ofFn fun i => entering.getD i 0) rows with
      | .error e => .error e
      | .ok row => .ok (row.map Fin.val)
    else .error .undefinedRatio

/-- The rows where a column is positive. -/
def positiveRows (column : Vector α r) : List (Fin r) :=
  (List.finRange r).filter fun i => Scalar.isStrictlyPositive (column.get i)

end LexPivot.Tableau
