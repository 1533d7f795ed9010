import LexPivot.PivotError

/-!
# Why a game has no answer
-/
namespace LexPivot

inductive GameError where
  | shapeMismatch (rows₁ columns₁ rows₂ columns₂ : Nat)
  | emptyGame
  | nonFinitePayoff (payoff : Float)
  /-- A tableau of the game could not be built or pivoted. -/
  | pivoting (cause : PivotError)
  | noEquilibrium
  | infeasible

namespace GameError

/-- The name of a double that is not finite. -/
def nonFiniteName (x : Float) : String :=
  if x.isNaN then "NaN" else if x < 0 then "-inf" else "inf"

def message : GameError → String
  | .shapeMismatch r₁ c₁ r₂ c₂ =>
    s!"Payoff matrices have different shapes: ({r₁}, {c₁}) and ({r₂}, {c₂})"
  | .emptyGame => "Every player needs at least one strategy"
  | .nonFinitePayoff x => s!"Payoff {nonFiniteName x} is not a finite number"
  | .pivoting cause => cause.message
  | .noEquilibrium => "The complementary path did not end at an equilibrium"
  | .infeasible => "The game linear program has no optimal solution"

end GameError

end LexPivot
