import LexPivot.Scalar.Basic

/-!
# Mixed strategies

A profile gives every player a vector of probabilities. Solvers find weights, which are turned into
probabilities by the scalar they are found in, and then rounded.
-/
namespace LexPivot

/-- A profile of mixed strategies of two players. -/
structure Strategy (m n : Nat) where
  first : Vector Float m
  second : Vector Float n

/-- Whether two doubles are at most `tolerance` apart. An infinite one is near to none, itself
included. -/
def withinTolerance (tolerance p q : Float) : Bool := (p - q).abs ≤ tolerance

/-- Whether two lists have the same length and members that agree within a tolerance. -/
def allWithinTolerance (tolerance : Float) (ps qs : List Float) : Bool :=
  ps.length == qs.length && (ps.zip qs).all fun (p, q) => withinTolerance tolerance p q

/-- The weights divided by their sum, if that is positive. -/
def normalize? {α : Type} [Scalar α] {k : Nat} (weights : Vector α k) : Option (Vector α k) :=
  let total := Scalar.sum weights.toList
  if Scalar.isStrictlyPositive total then some (weights.map (· / total)) else none

namespace Strategy

variable {m n : Nat}

/-- The profile of two arrays, if they have the right lengths. -/
def ofArrays? (first second : Array Float) : Option (Strategy m n) :=
  if h : first.size = m ∧ second.size = n then some ⟨⟨first, h.1⟩, ⟨second, h.2⟩⟩ else none

/-- The probabilities of weights, if both players have some weight. -/
def ofWeights? {α : Type} [Scalar α] (first : Vector α m) (second : Vector α n) :
    Option (Strategy m n) :=
  match normalize? first, normalize? second with
  | some x, some y => some ⟨x.map Scalar.toFloat, y.map Scalar.toFloat⟩
  | _, _ => none

/-- Probabilities are taken for equal up to this difference. -/
def tolerance : Float := 1e-5

/-- Whether two profiles, perhaps of different games, agree within the tolerance. -/
def approxEq {m' n' : Nat} (s : Strategy m n) (t : Strategy m' n') : Bool :=
  allWithinTolerance tolerance s.first.toList t.first.toList &&
    allWithinTolerance tolerance s.second.toList t.second.toList

end Strategy

end LexPivot
