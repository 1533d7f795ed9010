import LexPivot.Complementary.Path

/-!
# Tableaus of two-player games

With `m` strategies of the first player and `n` of the second, the labels `1 … m` are the
strategies of the first player and `m + 1 … m + n` those of the second. Row `i < m` is the
best-response constraint of strategy `i` of the first player against the mix of the second, and row
`m + j` that of strategy `j` of the second player. At the slack basis nobody plays anything.
-/
namespace LexPivot

abbrev GameTableau (α : Type) [Scalar α] (m n : Nat) := Tableau α (m + n) (m + n + 1)

namespace GameTableau

variable {α : Type} [Scalar α] {m n : Nat}

/-- One less than the smallest payoff. -/
def shift (payoff : Grid α m n) : α := (Scalar.least? (Grid.entries payoff)).getD 0 - 1

/-- The negated payoffs, shifted so that each is at most `-1`. -/
def negativeBlock (payoff : Grid α m n) : Grid α m n :=
  let s := shift payoff
  Grid.map (fun p => s - p) payoff

/-- The constraint columns: a covering column of zeros, then the payoffs of each player against the
strategies of the other. -/
def columns (payoff₁ payoff₂ : Grid α m n) : Grid α (m + n) (m + n + 1) :=
  let block₁ := negativeBlock payoff₁
  let block₂ := negativeBlock payoff₂
  Grid.ofFn fun row column =>
    Fin.cases 0
      (fun k =>
        Fin.addCases
          (fun i => Fin.addCases (fun _ => 0) (fun j => block₁.entry i j) k)
          (fun j => Fin.addCases (fun i => block₂.entry i j) (fun _ => 0) k) row)
      column

/-- The tableau of a game at the slack basis. -/
def ofPayoffs (payoff₁ payoff₂ : Grid α m n) : Except PivotError (GameTableau α m n) :=
  if m = 0 || n = 0 then .error (.dimensionMismatch .strategies 1 0)
  else Tableau.ofSystem (columns payoff₁ payoff₂) (Vector.replicate (m + n) (-1)) 0

/-- The tableau of two payoff matrices whose shapes need not agree. -/
def ofParts {m' n' : Nat} (payoff₁ : Grid α m n) (payoff₂ : Grid α m' n') :
    Except PivotError (GameTableau α m n) :=
  match Grid.ofShape? payoff₂ with
  | some payoff₂ => ofPayoffs payoff₁ payoff₂
  | none => .error (.dimensionMismatch .payoffMatrices (m * n) (m' * n'))

/-- The weights that a solution gives to the strategies of the players. -/
def split (m n : Nat) (s : BasicSolution α) : Vector α m × Vector α n :=
  (Vector.ofFn fun i => s.get (.structural (i + 1)),
    Vector.ofFn fun j => s.get (.structural (m + j + 1)))

end GameTableau

end LexPivot
