/-!
# Labels

The variables of a tableau. A structural label addresses a column of the constraint matrix and a
slack label the slack variable of a row; the two labels of one index form a complementary pair.
-/
namespace LexPivot

/-- A variable of a tableau. -/
inductive Label where
  | structural (index : Nat)
  | slack (index : Nat)
deriving DecidableEq, Repr

namespace Label

/-- The label of the covering column, its own complement. -/
@[match_pattern] def artificial : Label := .structural 0

def index : Label → Nat
  | .structural k => k
  | .slack k => k

def isStructural : Label → Bool
  | .structural _ => true
  | .slack _ => false

def isSlack : Label → Bool
  | .structural _ => false
  | .slack _ => true

def isArtificial (l : Label) : Bool := l == artificial

/-- The other member of the complementary pair. -/
def complement : Label → Label
  | .structural 0 => artificial
  | .structural (k + 1) => .slack (k + 1)
  | .slack k => .structural k

/-- A nonnegative number is a structural label, a negative one the slack of its magnitude. -/
def ofSigned (n : Int) : Label :=
  if n < 0 then .slack n.natAbs else .structural n.natAbs

/-- The number a label is written as, in 64-bit two's complement. -/
def signed : Label → Int
  | .structural k => Int.bmod k (Nat.pow 2 64)
  | .slack k => Int.bmod (-k) (Nat.pow 2 64)

/-- Structural labels come before slack labels, each kind by index. -/
def precedes : Label → Label → Bool
  | .structural j, .structural k => j < k
  | .structural _, .slack _ => true
  | .slack _, .structural _ => false
  | .slack j, .slack k => j < k

def sort (labels : List Label) : List Label :=
  labels.mergeSort fun a b => !b.precedes a

end Label

end LexPivot
