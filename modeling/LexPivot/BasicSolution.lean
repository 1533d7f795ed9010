import LexPivot.Label
import LexPivot.Scalar.Basic

/-!
# Basic solutions

The coordinates of a basic solution that are not zero, by label and in the order of the labels.
Labels that are not defined stand for zero.
-/
namespace LexPivot

structure BasicSolution (α : Type) where
  /-- The defined labels in order, each once, with their values. -/
  entries : List (Label × α)

namespace BasicSolution

variable {α : Type}

def empty : BasicSolution α := ⟨[]⟩

/-- Defines a label in an ordered list, in place of an earlier value. -/
def insertEntry (label : Label) (value : α) : List (Label × α) → List (Label × α)
  | [] => [(label, value)]
  | entry :: rest =>
    if label.precedes entry.1 then (label, value) :: entry :: rest
    else if label = entry.1 then (label, value) :: rest
    else entry :: insertEntry label value rest

def insert (s : BasicSolution α) (label : Label) (value : α) : BasicSolution α :=
  ⟨insertEntry label value s.entries⟩

/-- The solution that defines the labels of a list, the last value of each. -/
def ofList (entries : List (Label × α)) : BasicSolution α :=
  entries.foldl (fun s entry => s.insert entry.1 entry.2) empty

def get? (s : BasicSolution α) (label : Label) : Option α := s.entries.lookup label

def isDefined (s : BasicSolution α) (label : Label) : Bool := (s.get? label).isSome

def size (s : BasicSolution α) : Nat := s.entries.length

def isEmpty (s : BasicSolution α) : Bool := s.entries.isEmpty

def labels (s : BasicSolution α) : List Label := s.entries.map Prod.fst

/-- The part on the labels that satisfy `p`. -/
def filterLabels (p : Label → Bool) (s : BasicSolution α) : BasicSolution α :=
  ⟨s.entries.filter fun entry => p entry.1⟩

variable [Scalar α]

/-- The value of a label, zero when it is not defined. -/
def get (s : BasicSolution α) (label : Label) : α := (s.get? label).getD 0

/-- The values of the structural labels from `first` to `last`. -/
def structuralRange (s : BasicSolution α) (first last : Nat) : List α :=
  (List.range' first (last + 1 - first)).map fun k => s.get (.structural k)

/-- Whether two solutions define the same labels with values that count as equal. -/
def approxEq (s t : BasicSolution α) : Bool :=
  s.size == t.size &&
    (s.entries.zip t.entries).all fun (a, b) => a.1 == b.1 && Scalar.approxEq a.2 b.2

end BasicSolution

end LexPivot
