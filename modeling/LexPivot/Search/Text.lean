import LexPivot.Json.Skip
import LexPivot.Search.Bounds

/-!
# Search bounds as text

Bounds are written as a JSON object with the keys `stop_after` and `max_depth`. They are read from
such an object, in which keys may be missing and other keys are passed over, or from an array of
the two numbers, of which the last ones may be missing. A missing number is zero, and a number has
to fit in 64 bits.
-/
namespace LexPivot.SearchBounds

open Json

/-- What has been read of an object. -/
structure Fields where
  stopAfter : Option Nat := none
  maxDepth : Option Nat := none

def Fields.toBounds (f : Fields) : SearchBounds := ⟨f.stopAfter.getD 0, f.maxDepth.getD 0⟩

/-- A bound, and the tokens after it. -/
def readBound : List Token → Option (Nat × List Token)
  | .natural n :: rest => if n < Nat.pow 2 64 then some (n, rest) else none
  | _ => none

/-- The value of a key. A known key may not come twice. -/
def readField (f : Fields) (key : List Char) (tokens : List Token) :
    Option (Fields × List Token) :=
  if key = "stop_after".toList then
    match f.stopAfter, readBound tokens with
    | none, some (n, rest) => some ({ f with stopAfter := some n }, rest)
    | _, _ => none
  else if key = "max_depth".toList then
    match f.maxDepth, readBound tokens with
    | none, some (n, rest) => some ({ f with maxDepth := some n }, rest)
    | _, _ => none
  else (skipValue tokens).map fun rest => (f, rest)

/-- The members of an object from the next key on, at most `budget` of them. -/
def readMembers : Nat → Fields → List Token → Option Fields
  | 0, _, _ => none
  | budget + 1, f, .text units :: .colon :: rest =>
    match decode? units with
    | none => none
    | some key =>
      match readField f key rest with
      | some (f, [.closeBrace]) => some f
      | some (f, .comma :: rest) => readMembers budget f rest
      | _ => none
  | _, _, _ => none

/-- The bounds of the tokens of a text. -/
def ofTokens? : List Token → Option SearchBounds
  | [.openBrace, .closeBrace] => some {}
  | .openBrace :: rest => (readMembers rest.length {} rest).map Fields.toBounds
  | [.openBracket, .closeBracket] => some {}
  | .openBracket :: rest =>
    match readBound rest with
    | some (n, [.closeBracket]) => some ⟨n, 0⟩
    | some (n, .comma :: rest) =>
      match readBound rest with
      | some (d, [.closeBracket]) => some ⟨n, d⟩
      | _ => none
    | _ => none
  | _ => none

/-- The bounds that a text describes. -/
def parse? (text : String) : Option SearchBounds := (tokens? text).bind ofTokens?

/-- The bounds as compact JSON. -/
def render (b : SearchBounds) : String :=
  "\x7b\"stop_after\":" ++ b.stopAfter.repr ++ ",\"max_depth\":" ++ b.maxDepth.repr ++ "\x7d"

end LexPivot.SearchBounds
