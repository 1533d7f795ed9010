import LexPivot.Grid
import LexPivot.PivotError

/-!
# Bases

The assignment of labels to the rows of a tableau with `r` rows and `c` constraint columns. The
columns of such a tableau are numbered `0 … c + r - 1`: the constraint columns in order, labelled
from the first structural label on, and then the slack columns, labelled from 1 on.

A basis keeps the label of each row and, the other way round, the row of each label, so that a label
is looked up without a search. A pivot has to keep the two in step.
-/
namespace LexPivot

/-- A value for every label of a tableau: one array for the structural labels and one for the
slacks. -/
structure LabelTable (β : Type) (r c : Nat) where
  structural : Vector β c
  slack : Vector β r
deriving DecidableEq

namespace LabelTable

variable {β : Type} {r c : Nat}

/-- The value at a column. -/
def get (t : LabelTable β r c) (j : Fin (c + r)) : β :=
  Fin.addCases t.structural.get t.slack.get j

/-- The table with the value at column `j` replaced. -/
def set (t : LabelTable β r c) (j : Fin (c + r)) (x : β) : LabelTable β r c :=
  Fin.addCases (fun k => { t with structural := replaceAt t.structural k x })
    (fun i => { t with slack := replaceAt t.slack i x }) j

@[simp] theorem get_castAdd (t : LabelTable β r c) (k : Fin c) :
    t.get (Fin.castAdd r k) = t.structural.get k := by
  simp [get]

@[simp] theorem get_natAdd (t : LabelTable β r c) (i : Fin r) :
    t.get (Fin.natAdd c i) = t.slack.get i := by
  simp [get]

/-- A value is written into one of the two arrays, at one place. -/
theorem get_set (t : LabelTable β r c) (j k : Fin (c + r)) (x : β) :
    (t.set j x).get k = if k = j then x else t.get k := by
  refine Fin.addCases (fun p => ?_) (fun p => ?_) j <;>
    refine Fin.addCases (fun q => ?_) (fun q => ?_) k
  · simp [set, get_replaceAt, Fin.ext_iff]
  · have apart : c + q.val ≠ p.val := by omega
    simp [set, Fin.ext_iff, apart]
  · have apart : q.val ≠ c + p.val := by omega
    simp [set, Fin.ext_iff, apart]
  · simp [set, get_replaceAt, Fin.ext_iff]

theorem ext_get {t t' : LabelTable β r c} (same : ∀ j, t.get j = t'.get j) : t = t' := by
  have structural : t.structural = t'.structural :=
    LexPivot.ext_get fun k => by simpa using same (Fin.castAdd r k)
  have slack : t.slack = t'.slack :=
    LexPivot.ext_get fun i => by simpa using same (Fin.natAdd c i)
  cases t
  cases t'
  rw [mk.injEq]
  exact ⟨structural, slack⟩

end LabelTable

structure Basis (r c : Nat) where
  /-- The structural label of the first constraint column. -/
  first : Nat
  /-- The label that is basic in each row. -/
  rows : Vector Label r
  /-- The row of each label, none for a label that is not basic. -/
  positions : LabelTable (Option (Fin r)) r c
  /-- Which labels may not enter. -/
  blocked : LabelTable Bool r c
deriving DecidableEq

namespace Basis

variable {r c : Nat}

/-- The basis with every slack basic in its own row and no label blocked. -/
def slack (first : Nat) : Basis r c where
  first := first
  rows := Vector.ofFn fun i => .slack (i + 1)
  positions := ⟨Vector.replicate c none, Vector.ofFn some⟩
  blocked := ⟨Vector.replicate c false, Vector.replicate r false⟩

/-- The label of a column. -/
def labelAt (b : Basis r c) (j : Fin (c + r)) : Label :=
  Fin.addCases (fun k => .structural (b.first + k)) (fun i => .slack (i + 1)) j

/-- The column of a label, if the tableau has that label. -/
def column? (b : Basis r c) : Label → Option (Fin (c + r))
  | .structural k =>
    if h : b.first ≤ k ∧ k - b.first < c then some (Fin.castAdd r ⟨k - b.first, h.2⟩) else none
  | .slack k =>
    if h : k - 1 < r ∧ k ≠ 0 then some (Fin.natAdd c ⟨k - 1, h.1⟩) else none

def isValid (b : Basis r c) (l : Label) : Bool := (b.column? l).isSome

def isStructuralLabel (b : Basis r c) (l : Label) : Bool := l.isStructural && b.isValid l

def isSlackLabel (b : Basis r c) (l : Label) : Bool := l.isSlack && b.isValid l

/-- Every label of the tableau, structural ones first. -/
def allLabels (b : Basis r c) : List Label := (List.finRange (c + r)).map b.labelAt

/-- The label that is basic in a row. -/
def rowLabel (b : Basis r c) (i : Fin r) : Label := b.rows.get i

/-- The label of each row. -/
def labels (b : Basis r c) : List Label := (List.finRange r).map b.rowLabel

/-- The row in which a column is basic. -/
def rowOf? (b : Basis r c) (j : Fin (c + r)) : Option (Fin r) := b.positions.get j

/-- The row in which a label is basic; none if it is not basic or not a label of the tableau. -/
def position? (b : Basis r c) (l : Label) : Option (Fin r) := (b.column? l).bind b.rowOf?

def isMember (b : Basis r c) (l : Label) : Bool := (b.position? l).isSome

def find (b : Basis r c) (l : Label) : Except PivotError (Fin r) :=
  match b.position? l with
  | some i => .ok i
  | none => .error (.undefinedLabel l)

/-- The label in a row given by number, if there is such a row. -/
def label? (b : Basis r c) (row : Nat) : Option Label :=
  if h : row < r then some (b.rowLabel ⟨row, h⟩) else none

/-- Records the row of a label. -/
def setPosition (b : Basis r c) (l : Label) (row : Option (Fin r)) : Basis r c :=
  match b.column? l with
  | some j => { b with positions := b.positions.set j row }
  | none => b

/-- Puts `entering` in the place of the label in row `i`: the label that leaves loses its row, the
one that enters gets it, and the row gets its new label. -/
def install (b : Basis r c) (i : Fin r) (entering : Label) : Basis r c :=
  let placed := (b.setPosition (b.rowLabel i) none).setPosition entering (some i)
  { placed with rows := replaceAt placed.rows i entering }

/-- Installs `entering` in `row` and gives the label that leaves. A label that is basic in another
row may not be installed. -/
def pivot (b : Basis r c) (row : Nat) (entering : Label) : Attempt (Basis r c) Label :=
  if h : row < r then
    if !b.isValid entering then ⟨.error (.undefinedLabel entering), b⟩
    else if b.rowLabel ⟨row, h⟩ = entering then ⟨.ok entering, b⟩
    else if b.isMember entering then ⟨.error (.undefinedLabel entering), b⟩
    else ⟨.ok (b.rowLabel ⟨row, h⟩), b.install ⟨row, h⟩ entering⟩
  else ⟨.error (.rowOutside row), b⟩

def setBlocked (b : Basis r c) (l : Label) (value : Bool) : Basis r c :=
  match b.column? l with
  | some j => { b with blocked := b.blocked.set j value }
  | none => b

/-- Excludes a label from entering. -/
def mark (b : Basis r c) (l : Label) : Basis r c := b.setBlocked l true

def unmark (b : Basis r c) (l : Label) : Basis r c := b.setBlocked l false

def isBlocked (b : Basis r c) (l : Label) : Bool :=
  match b.column? l with
  | some j => b.blocked.get j
  | none => false

/-- The number of the last row, zero when there is none. -/
def lastRow (_ : Basis r c) : Nat := r - 1

/-- The last structural label, or the one before the first when there is no constraint column. -/
def lastLabel (b : Basis r c) : Nat := b.first + c - 1

end Basis

end LexPivot
