import LexPivot.Game.Equilibrium
import LexPivot.LinearProgram.Solve

/-!
# Zero-sum games

With the payoffs of the first player shifted so that each is at least 1, the first player's optimal
mix is `p / ∑ p` for the `p ≥ 0` of least sum with `A'ᵀ p ≥ 1`, the value of the game is `1 / ∑ p`
shifted back, and the second player's mix comes from the shadow prices of the same program.
-/
namespace LexPivot

/-- The weights of optimal mixes and the value of the game. -/
structure Minimax (α : Type) (m n : Nat) where
  first : Vector α m
  second : Vector α n
  value : α

namespace Minimax

variable {α : Type} [Scalar α] {m n : Nat}

/-- The program of a payoff matrix from which `shift` is subtracted. -/
def program (payoff : Grid α m n) (shift : α) : LinearProgram α n m where
  matrix := Grid.map (fun p => p - shift) (Grid.transpose payoff)
  bound := Vector.replicate n 1
  equalities := 0
  equalities_le := Nat.zero_le n
  objective := Vector.replicate m (-1)

/-- The weights and the value that an optimum of the program stands for. -/
def ofOptimum (shift : α) (p : Vector α m) (u : Vector α n) : Except GameError (Minimax α m n) :=
  let total := Scalar.sum p.toList
  if Scalar.isStrictlyPositive total then .ok ⟨p, u.map fun x => -x, 1 / total + shift⟩
  else .error .infeasible

/-- Optimal weights of the zero-sum game of a payoff matrix. -/
def solve (payoff : Grid α m n) : Except GameError (Minimax α m n) :=
  match Scalar.least? (Grid.entries payoff) with
  | none => .error .emptyGame
  | some low =>
    let shift := low - 1
    match (program payoff shift).solve with
    | .error e => .error (.pivoting e)
    | .ok solved =>
      match solved.optimum?, solved.dualValues? with
      | some p, some u => ofOptimum shift p u
      | _, _ => .error .infeasible

end Minimax

/-- Optimal strategies of a zero-sum game and its value to the first player. -/
structure ZeroSumSolution (m n : Nat) where
  strategy : Strategy m n
  value : Float

/-- Solves the zero-sum game of the first player's payoffs. -/
def BimatrixGame.solveZeroSum (α : Type) [Scalar α] {m n : Nat} (g : BimatrixGame m n) :
    Except GameError (ZeroSumSolution m n) :=
  match convertPayoff α g.payoff₁ with
  | .error e => .error e
  | .ok payoff =>
    match Minimax.solve payoff with
    | .error e => .error e
    | .ok optimum =>
      match Strategy.ofWeights? optimum.first optimum.second with
      | some strategy => .ok ⟨strategy, Scalar.toFloat optimum.value⟩
      | none => .error .infeasible

end LexPivot
