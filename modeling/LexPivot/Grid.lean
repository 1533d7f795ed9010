/-!
# Grids

Matrices stored as vectors of rows, so that every entry is computed once, with the pivoting step
of Gauss-Jordan elimination. A grid is known by its entries.
-/
namespace LexPivot

section Members

variable {α β : Type} {n : Nat}

@[simp] theorem get_ofFn (f : Fin n → α) (i : Fin n) : (Vector.ofFn f).get i = f i :=
  Vector.getElem_ofFn i.isLt

@[simp] theorem get_map (f : α → β) (v : Vector α n) (i : Fin n) : (v.map f).get i = f (v.get i) :=
  Vector.getElem_map f i.isLt

theorem ext_get {v w : Vector α n} (members : ∀ i, v.get i = w.get i) : v = w :=
  Vector.ext fun i hi => members ⟨i, hi⟩

/-- The vector with the member at `i` replaced. -/
def replaceAt (v : Vector α n) (i : Fin n) (x : α) : Vector α n := v.set i x i.isLt

theorem get_replaceAt (v : Vector α n) (i k : Fin n) (x : α) :
    (replaceAt v i x).get k = if k = i then x else v.get k := by
  have member : (replaceAt v i x).get k = if i.val = k.val then x else v.get k :=
    Vector.getElem_set i.isLt k.isLt
  rw [member]
  simp only [Fin.ext_iff, eq_comm]

end Members

/-- A matrix of `r` rows and `c` columns. -/
abbrev Grid (α : Type) (r c : Nat) := Vector (Vector α c) r

namespace Grid

variable {α β : Type} {r c : Nat}

def entry (g : Grid α r c) (i : Fin r) (j : Fin c) : α := (Vector.get g i).get j

def ofFn (f : Fin r → Fin c → α) : Grid α r c :=
  Vector.ofFn fun i => Vector.ofFn (f i)

def map (f : α → β) (g : Grid α r c) : Grid β r c :=
  Vector.map (Vector.map f) g

def column (g : Grid α r c) (j : Fin c) : Vector α r :=
  Vector.map (fun row => row.get j) g

def transpose (g : Grid α r c) : Grid α c r :=
  Vector.ofFn (column g)

/-- Every entry, row after row. -/
def entries (g : Grid α r c) : List α :=
  g.toList.flatMap Vector.toList

/-- The grid itself when it has the shape asked for. -/
def ofShape? {r' c' : Nat} (g : Grid α r c) : Option (Grid α r' c') :=
  if h : r = r' ∧ c = c' then some (Vector.cast h.1 (Vector.map (Vector.cast h.2) g)) else none

/-- Gauss-Jordan pivot on `(i, j)`: row `i` is divided by the pivot element and the multiple that
clears column `j` is subtracted from every other row. -/
def gaussJordan [Zero α] [One α] [Add α] [Mul α] [Neg α] [Div α] [BEq α]
    (g : Grid α r c) (i : Fin r) (j : Fin c) : Grid α r c :=
  let pivot := entry g i j
  let pivotRow := (Vector.get g i).map (· / pivot)
  ofFn fun k l =>
    if k = i then if l = j then 1 else pivotRow.get l
    else if l = j then 0
    else
      let factor := entry g k j
      if factor == 0 then entry g k l else entry g k l + (-factor) * pivotRow.get l

@[ext] theorem ext {g h : Grid α r c} (entries : ∀ i j, entry g i j = entry h i j) : g = h := by
  exact ext_get fun i => ext_get fun j => entries i j

@[simp] theorem entry_ofFn (f : Fin r → Fin c → α) (i : Fin r) (j : Fin c) :
    entry (ofFn f) i j = f i j := by
  simp [entry, ofFn]

@[simp] theorem entry_map (f : α → β) (g : Grid α r c) (i : Fin r) (j : Fin c) :
    entry (map f g) i j = f (entry g i j) := by
  simp [entry, map]

@[simp] theorem get_column (g : Grid α r c) (i : Fin r) (j : Fin c) :
    (column g j).get i = entry g i j := by
  simp [entry, column]

@[simp] theorem entry_transpose (g : Grid α r c) (i : Fin r) (j : Fin c) :
    entry (transpose g) j i = entry g i j := by
  simp [entry, transpose, column]

end Grid

end LexPivot
