import LexPivot.Complementary.Bimatrix
import LexPivot.Game.Payoff
import LexPivot.Search.Run

/-!
# Equilibria of two-player games

The end of a complementary path in the tableau of a game gives each strategy a weight, and the
weights divided by their sums are an equilibrium.
-/
namespace LexPivot

/-- The payoffs as scalars. -/
def convertPayoff (α : Type) [Scalar α] {m n : Nat} (payoff : Grid Float m n) :
    Except GameError (Grid α m n) :=
  match (Grid.entries payoff).find? fun x => (Scalar.ofFloat? (α := α) x).isNone with
  | some x => .error (.nonFinitePayoff x)
  | none => .ok (Grid.map (fun x => (Scalar.ofFloat? x).getD 0) payoff)

/-- The equilibria that a search found, with its report. -/
structure Equilibria (α : Type) (m n : Nat) where
  strategies : List (Strategy m n)
  report : SearchReport α

namespace GameTableau

variable {α : Type} [Scalar α]

/-- The probabilities of a solution. -/
def strategyOf (m n : Nat) (s : BasicSolution α) : Except GameError (Strategy m n) :=
  let weights := split m n s
  match Strategy.ofWeights? weights.1 weights.2 with
  | some strategy => .ok strategy
  | none => .error .noEquilibrium

/-- The probabilities of each solution of a list. -/
def strategiesOf (m n : Nat) : List (BasicSolution α) → Except GameError (List (Strategy m n))
  | [] => .ok []
  | s :: rest =>
    match strategyOf m n s with
    | .error e => .error e
    | .ok strategy =>
      match strategiesOf m n rest with
      | .error e => .error e
      | .ok strategies => .ok (strategy :: strategies)

end GameTableau

namespace BimatrixGame

variable {m n : Nat}

/-- The tableau of a game in a scalar. -/
def tableau (α : Type) [Scalar α] (g : BimatrixGame m n) : Except GameError (GameTableau α m n) :=
  match convertPayoff α g.payoff₁, convertPayoff α g.payoff₂ with
  | .error e, _ => .error e
  | _, .error e => .error e
  | .ok payoff₁, .ok payoff₂ =>
    match GameTableau.ofPayoffs payoff₁ payoff₂ with
    | .error e => .error (.pivoting e)
    | .ok t => .ok t

/-- The equilibrium at the end of the path that drops a label of the slack basis. -/
def lemkeHowsonFrom (α : Type) [Scalar α] (g : BimatrixGame m n) (label : Nat) :
    Except GameError (Strategy m n) :=
  match g.tableau α with
  | .error e => .error e
  | .ok t =>
    match (t.lemkePath (.structural label)).stateOrError with
    | .error e => .error (.pivoting e)
    | .ok t => GameTableau.strategyOf m n t.complementarySolution

/-- The equilibrium at the end of the path that drops the first strategy of the first player. -/
def lemkeHowson (α : Type) [Scalar α] (g : BimatrixGame m n) : Except GameError (Strategy m n) :=
  g.lemkeHowsonFrom α 1

/-- The equilibria that paths connect to the slack basis. A solution without an equilibrium makes
the whole search fail. -/
def allEquilibria {σ : Type} (α : Type) [Scalar α] (g : BimatrixGame m n) (o : Observer σ α)
    (state : σ) (bounds : SearchBounds) : Except GameError (Equilibria α m n) :=
  match g.tableau α with
  | .error e => .error e
  | .ok t =>
    let report := (t.searchWith o state bounds).1
    match GameTableau.strategiesOf m n report.equilibria with
    | .error e => .error e
    | .ok strategies => .ok ⟨strategies, report⟩

end BimatrixGame

end LexPivot
