import LexPivot.Game.Error
import LexPivot.Game.Strategy

/-!
# Two-player games

A game in normal form: row `i`, column `j` of the two payoff matrices is the outcome when the first
player plays `i` and the second one `j`. Expected payoffs are sums of doubles, and the order of the
additions is part of the result.
-/
namespace LexPivot

/-- A game of `m` by `n` strategies. -/
structure BimatrixGame (m n : Nat) where
  payoff₁ : Grid Float m n
  payoff₂ : Grid Float m n

/-- The sum of products in eight lanes: every full block of eight products adds one to each lane,
the lanes four apart are then added in pairs, and the rest follows one by one. -/
def laneSum (p₀ p₁ p₂ p₃ p₄ p₅ p₆ p₇ : Float) : List Float → Float
  | a₀ :: a₁ :: a₂ :: a₃ :: a₄ :: a₅ :: a₆ :: a₇ :: rest =>
    laneSum (p₀ + a₀) (p₁ + a₁) (p₂ + a₂) (p₃ + a₃) (p₄ + a₄) (p₅ + a₅) (p₆ + a₆) (p₇ + a₇) rest
  | rest =>
    let lanes := 0 + (p₀ + p₄) + (p₁ + p₅) + (p₂ + p₆) + (p₃ + p₇)
    rest.foldl (· + ·) lanes

/-- The inner product, summed in lanes. -/
def laneDot {k : Nat} (u v : Vector Float k) : Float :=
  laneSum 0 0 0 0 0 0 0 0 (Vector.zipWith (· * ·) u v).toList

/-- The inner product, summed from left to right. -/
def plainDot {k : Nat} (u v : Vector Float k) : Float :=
  (Vector.zipWith (· * ·) u v).toList.foldl (· + ·) 0

/-- The larger of two doubles, the first on a tie, and the other one when one is not a number. -/
def largerOf (a b : Float) : Float := if a.isNaN || a < b then b else a

namespace BimatrixGame

variable {m n : Nat}

/-- The game of two payoff matrices of one shape, not empty, with finite payoffs. -/
def ofPayoffs (payoff₁ payoff₂ : Grid Float m n) : Except GameError (BimatrixGame m n) :=
  if m = 0 || n = 0 then .error .emptyGame
  else
    match (Grid.entries payoff₁ ++ Grid.entries payoff₂).find? fun x => !x.isFinite with
    | some x => .error (.nonFinitePayoff x)
    | none => .ok ⟨payoff₁, payoff₂⟩

/-- The game of two payoff matrices whose shapes need not agree. -/
def ofParts {m' n' : Nat} (payoff₁ : Grid Float m n) (payoff₂ : Grid Float m' n') :
    Except GameError (BimatrixGame m n) :=
  match Grid.ofShape? payoff₂ with
  | some payoff₂ => ofPayoffs payoff₁ payoff₂
  | none => .error (.shapeMismatch m n m' n')

/-- The game in which the second player gets the opposite of the first. -/
def zeroSum (payoff : Grid Float m n) : Except GameError (BimatrixGame m n) :=
  ofPayoffs payoff (Grid.map (fun x => -x) payoff)

/-- The number of strategies of a player, the first one numbered 0. -/
def strategyCount? (_ : BimatrixGame m n) : Nat → Option Nat
  | 0 => some m
  | 1 => some n
  | _ => none

/-- The payoffs of the first player for number 0, of the second one otherwise. -/
def payoffs (g : BimatrixGame m n) (player : Nat) : Grid Float m n :=
  if player = 0 then g.payoff₁ else g.payoff₂

/-- Whether the payoffs of the players are opposite, up to a tolerance. -/
def isZeroSum (g : BimatrixGame m n) : Bool :=
  allWithinTolerance 1e-9 (Grid.entries g.payoff₁) ((Grid.entries g.payoff₂).map fun x => -x)

/-- What each strategy of the first player is worth, by a payoff matrix, against a mix of the
second one. -/
def rowValues (payoff : Grid Float m n) (y : Vector Float n) : Vector Float m :=
  Vector.map (fun row => laneDot row y) payoff

/-- What each strategy of the second player is worth, by a payoff matrix, against a mix of the
first one. A single column is summed in lanes, several are summed from left to right. -/
def columnValues (payoff : Grid Float m n) (x : Vector Float m) : Vector Float n :=
  Vector.ofFn fun j =>
    if n = 1 then laneDot (Grid.column payoff j) x else plainDot (Grid.column payoff j) x

/-- The expected payoffs of the players. -/
def expectedPayoffs (g : BimatrixGame m n) (s : Strategy m n) : Float × Float :=
  (laneDot (rowValues g.payoff₁ s.second) s.first, laneDot (rowValues g.payoff₂ s.second) s.first)

/-- What a player gains at most by another choice. -/
def gain (values : List Float) (payoff : Float) : Float :=
  values.foldl largerOf (-1.0 / 0.0) - payoff

/-- What each player gains by switching to a best response. -/
def regret (g : BimatrixGame m n) (s : Strategy m n) : Float × Float :=
  let payoffs := g.expectedPayoffs s
  (gain (rowValues g.payoff₁ s.second).toList payoffs.1,
    gain (columnValues g.payoff₂ s.first).toList payoffs.2)

/-- Whether no player gains more than a tolerance by switching. -/
def isEquilibrium (g : BimatrixGame m n) (s : Strategy m n) : Bool :=
  let gains := g.regret s
  gains.1 < Strategy.tolerance && gains.2 < Strategy.tolerance

end BimatrixGame

end LexPivot
