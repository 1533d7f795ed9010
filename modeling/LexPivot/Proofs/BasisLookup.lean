import Mathlib
import LexPivot.Basis

/-!
# Looking labels up in a basis

Labels and columns of a tableau are in bijection, so a basis that holds labels of the tableau can be
read as one that holds columns, and proofs about matrices do so. In a consistent basis the row that
is recorded for a label is the row that holds it. A pivot writes the records one by one. They stay
consistent because the label that enters was in no other row.
-/
namespace LexPivot.Basis

variable {r c : Nat}

@[simp] theorem labelAt_castAdd (b : Basis r c) (k : Fin c) :
    b.labelAt (Fin.castAdd r k) = .structural (b.first + k) := by
  simp [labelAt]

@[simp] theorem labelAt_natAdd (b : Basis r c) (i : Fin r) :
    b.labelAt (Fin.natAdd c i) = .slack (i + 1) := by
  simp [labelAt]

theorem column?_labelAt (b : Basis r c) (j : Fin (c + r)) : b.column? (b.labelAt j) = some j := by
  refine Fin.addCases (fun k => ?_) (fun i => ?_) j
  · simp [column?]
  · simp [column?]

theorem labelAt_of_column? {b : Basis r c} {l : Label} {j : Fin (c + r)}
    (found : b.column? l = some j) : b.labelAt j = l := by
  cases l with
  | structural k =>
    simp only [column?] at found
    split at found
    next bounds =>
      cases found
      rw [labelAt_castAdd]
      simp only [Label.structural.injEq]
      omega
    · cases found
  | slack k =>
    simp only [column?] at found
    split at found
    next bounds =>
      cases found
      rw [labelAt_natAdd]
      simp only [Label.slack.injEq]
      omega
    · cases found

theorem column?_eq_some_iff {b : Basis r c} {l : Label} {j : Fin (c + r)} :
    b.column? l = some j ↔ b.labelAt j = l :=
  ⟨labelAt_of_column?, fun label => label ▸ b.column?_labelAt j⟩

theorem labelAt_injective (b : Basis r c) : Function.Injective b.labelAt := by
  intro j k same
  have found := b.column?_labelAt j
  rw [same, column?_labelAt] at found
  exact (Option.some.inj found).symm

theorem labelAt_of_first {b b' : Basis r c} (first : b'.first = b.first) :
    b'.labelAt = b.labelAt := by
  ext j
  rw [labelAt, labelAt, first]

theorem column?_of_first {b b' : Basis r c} (first : b'.first = b.first) (l : Label) :
    b'.column? l = b.column? l := by
  cases l with
  | structural k => simp only [column?, first]
  | slack k => rfl

theorem isValid_of_first {b b' : Basis r c} (first : b'.first = b.first) (l : Label) :
    b'.isValid l = b.isValid l := by
  rw [isValid, isValid, column?_of_first first]

theorem position?_labelAt (b : Basis r c) (j : Fin (c + r)) :
    b.position? (b.labelAt j) = b.rowOf? j := by
  rw [position?, column?_labelAt, Option.bind_some]

theorem isValid_iff {b : Basis r c} {l : Label} : b.isValid l = true ↔ ∃ j, b.labelAt j = l := by
  rw [isValid, Option.isSome_iff_exists]
  exact exists_congr fun j => column?_eq_some_iff

/-! ### Rows as columns -/

/-- The columns of the labels of a list, by row. A label that the tableau does not have stands for
the slack of its row. -/
def columnsOf (b : Basis r c) (labels : Vector Label r) : Vector (Fin (c + r)) r :=
  Vector.ofFn fun i => (b.column? (labels.get i)).getD (Fin.natAdd c i)

/-- The column that is basic in each row. -/
def columns (b : Basis r c) : Vector (Fin (c + r)) r := b.columnsOf b.rows

theorem get_columnsOf {b : Basis r c} {labels : Vector Label r} {i : Fin r} {j : Fin (c + r)}
    (label : labels.get i = b.labelAt j) : (b.columnsOf labels).get i = j := by
  rw [columnsOf, get_ofFn, label, column?_labelAt, Option.getD_some]

theorem labelAt_columnsOf {b : Basis r c} {labels : Vector Label r} {i : Fin r}
    (valid : b.isValid (labels.get i) = true) :
    b.labelAt ((b.columnsOf labels).get i) = labels.get i := by
  obtain ⟨j, label⟩ := isValid_iff.mp valid
  rw [get_columnsOf label.symm, label]

theorem columnsOf_of_first {b b' : Basis r c} (first : b'.first = b.first) :
    b'.columnsOf = b.columnsOf := by
  ext labels : 1
  refine ext_get fun i => ?_
  rw [columnsOf, columnsOf, get_ofFn, get_ofFn, column?_of_first first]

/-! ### Rows and positions -/

/-- The rows hold labels of the tableau, and the row that is recorded for a label is the one that
holds it. -/
structure Consistent (b : Basis r c) : Prop where
  valid : ∀ i, b.isValid (b.rowLabel i) = true
  position_iff : ∀ l i, b.position? l = some i ↔ b.rowLabel i = l

namespace Consistent

variable {b : Basis r c}

theorem rowLabel_eq (h : b.Consistent) (i : Fin r) :
    b.rowLabel i = b.labelAt (b.columns.get i) :=
  (labelAt_columnsOf (h.valid i)).symm

theorem column?_rowLabel (h : b.Consistent) (i : Fin r) :
    b.column? (b.rowLabel i) = some (b.columns.get i) := by
  rw [h.rowLabel_eq, column?_labelAt]

theorem rowLabel_injective (h : b.Consistent) : Function.Injective b.rowLabel := by
  intro i k same
  have row := (h.position_iff _ i).mpr same
  rw [(h.position_iff _ k).mpr rfl] at row
  exact (Option.some.inj row).symm

theorem distinct (h : b.Consistent) : Function.Injective b.columns.get := by
  intro i k same
  apply h.rowLabel_injective
  rw [h.rowLabel_eq, h.rowLabel_eq, same]

theorem rowLabel_eq_labelAt_iff (h : b.Consistent) {i : Fin r} {j : Fin (c + r)} :
    b.rowLabel i = b.labelAt j ↔ b.columns.get i = j := by
  rw [h.rowLabel_eq, b.labelAt_injective.eq_iff]

theorem rowOf?_eq_some_iff (h : b.Consistent) {j : Fin (c + r)} {i : Fin r} :
    b.rowOf? j = some i ↔ b.columns.get i = j := by
  rw [← h.rowLabel_eq_labelAt_iff, ← h.position_iff, position?_labelAt]

theorem rowOf?_eq_none_iff (h : b.Consistent) {j : Fin (c + r)} :
    b.rowOf? j = none ↔ ∀ i, b.columns.get i ≠ j := by
  rw [Option.eq_none_iff_forall_not_mem]
  exact forall_congr' fun i => not_congr h.rowOf?_eq_some_iff

theorem isMember_iff (h : b.Consistent) {l : Label} :
    b.isMember l = true ↔ ∃ i, b.rowLabel i = l := by
  rw [isMember, Option.isSome_iff_exists]
  exact exists_congr fun i => h.position_iff l i

theorem rowLabel_ne (h : b.Consistent) {l : Label} (nonbasic : b.isMember l = false) (i : Fin r) :
    b.rowLabel i ≠ l := by
  intro held
  rw [h.isMember_iff.mpr ⟨i, held⟩] at nonbasic
  cases nonbasic

theorem isMember_labelAt_iff (h : b.Consistent) {j : Fin (c + r)} :
    b.isMember (b.labelAt j) = true ↔ ∃ i, b.columns.get i = j := by
  rw [h.isMember_iff]
  exact exists_congr fun i => h.rowLabel_eq_labelAt_iff

end Consistent

/-- A basis is known by its rows, its lookups and what it blocks. -/
theorem ext_lookups {b b' : Basis r c} (first : b'.first = b.first)
    (rows : ∀ i, b'.rowLabel i = b.rowLabel i) (lookups : ∀ j, b'.rowOf? j = b.rowOf? j)
    (blocked : b'.blocked = b.blocked) : b' = b := by
  have labels : b'.rows = b.rows := ext_get rows
  have positions : b'.positions = b.positions := LabelTable.ext_get lookups
  cases b
  cases b'
  rw [mk.injEq]
  exact ⟨first, labels, positions, blocked⟩

namespace Consistent

variable {b b' : Basis r c} (h : b.Consistent) (h' : b'.Consistent) (first : b'.first = b.first)
  (columns : b'.columns.get = b.columns.get)

include h h' first columns

theorem rowLabel_of_columns : b'.rowLabel = b.rowLabel := by
  ext i : 1
  rw [h'.rowLabel_eq, h.rowLabel_eq, columns, labelAt_of_first first]

/-- The columns by row leave no choice for the lookups. -/
theorem eq_of_columns (blocked : b'.blocked = b.blocked) : b' = b := by
  refine ext_lookups first (congrFun (h.rowLabel_of_columns h' first columns)) (fun j => ?_) blocked
  refine Option.ext fun i => ?_
  rw [h'.rowOf?_eq_some_iff, h.rowOf?_eq_some_iff, columns]

end Consistent

/-! ### The slack basis -/

@[simp] theorem rowLabel_slack (first : Nat) (i : Fin r) :
    (slack first : Basis r c).rowLabel i = .slack (i + 1) := by
  simp [slack, rowLabel]

@[simp] theorem get_columns_slack (first : Nat) (i : Fin r) :
    (slack first : Basis r c).columns.get i = Fin.natAdd c i :=
  get_columnsOf (by rw [labelAt_natAdd]; exact rowLabel_slack first i)

@[simp] theorem blocked_slack (first : Nat) (j : Fin (c + r)) :
    (slack first : Basis r c).blocked.get j = false := by
  refine Fin.addCases (fun k => ?_) (fun i => ?_) j
  · simp [slack, Vector.get]
  · simp [slack, Vector.get]

theorem consistent_slack (first : Nat) : (slack first : Basis r c).Consistent where
  valid i := isValid_iff.mpr ⟨Fin.natAdd c i, by simp⟩
  position_iff l i := by
    constructor
    · intro found
      obtain ⟨j, column, row⟩ := Option.bind_eq_some_iff.mp found
      obtain rfl := labelAt_of_column? column
      -- Only the slack labels have a row.
      refine Fin.addCases (fun k row => ?_) (fun k row => ?_) j row
      · simp [rowOf?, slack, LabelTable.get_castAdd] at row
      · simp only [rowOf?, slack, LabelTable.get_natAdd, get_ofFn, Option.some.injEq] at row
        rw [row, rowLabel_slack, labelAt_natAdd]
    · rintro rfl
      rw [rowLabel_slack, ← labelAt_natAdd, position?_labelAt]
      simp [rowOf?, slack]

/-! ### Installing a label -/

@[simp] theorem first_setPosition (b : Basis r c) (l : Label) (row : Option (Fin r)) :
    (b.setPosition l row).first = b.first := by
  unfold setPosition
  split <;> rfl

@[simp] theorem rows_setPosition (b : Basis r c) (l : Label) (row : Option (Fin r)) :
    (b.setPosition l row).rows = b.rows := by
  unfold setPosition
  split <;> rfl

@[simp] theorem blocked_setPosition (b : Basis r c) (l : Label) (row : Option (Fin r)) :
    (b.setPosition l row).blocked = b.blocked := by
  unfold setPosition
  split <;> rfl

/-- A position is recorded at the label's own place, and lost if the tableau has no such label. -/
theorem rowOf?_setPosition (b : Basis r c) (l : Label) (row : Option (Fin r)) (j : Fin (c + r)) :
    (b.setPosition l row).rowOf? j = if b.labelAt j = l then row else b.rowOf? j := by
  unfold setPosition
  cases found : b.column? l with
  | none =>
    have absent : b.labelAt j ≠ l := by
      rintro rfl
      rw [column?_labelAt] at found
      cases found
    rw [if_neg absent]
  | some k =>
    obtain rfl := labelAt_of_column? found
    simp only [rowOf?, LabelTable.get_set, b.labelAt_injective.eq_iff]

@[simp] theorem first_install (b : Basis r c) (i : Fin r) (l : Label) :
    (b.install i l).first = b.first := by
  simp [install]

@[simp] theorem blocked_install (b : Basis r c) (i : Fin r) (l : Label) :
    (b.install i l).blocked = b.blocked := by
  simp [install]

theorem rowLabel_install (b : Basis r c) (i : Fin r) (l : Label) (k : Fin r) :
    (b.install i l).rowLabel k = if k = i then l else b.rowLabel k := by
  simp only [install, rowLabel, rows_setPosition, get_replaceAt]

theorem rowOf?_install (b : Basis r c) (i : Fin r) (l : Label) (j : Fin (c + r)) :
    (b.install i l).rowOf? j =
      if b.labelAt j = l then some i
      else if b.labelAt j = b.rowLabel i then none
      else b.rowOf? j := by
  have vacated := b.rowOf?_setPosition (b.rowLabel i) none j
  have placed := (b.setPosition (b.rowLabel i) none).rowOf?_setPosition l (some i) j
  rw [vacated, labelAt_of_first (b.first_setPosition _ _)] at placed
  exact placed

theorem columns_install (b : Basis r c) (i : Fin r) (j : Fin (c + r)) :
    (b.install i (b.labelAt j)).columns.get = Function.update b.columns.get i j := by
  have first := b.first_install i (b.labelAt j)
  have rows := b.rowLabel_install i (b.labelAt j)
  ext k : 1
  rw [Function.update_apply, columns, columnsOf_of_first first]
  split
  next here =>
    refine get_columnsOf ?_
    have label := rows k
    rwa [if_pos here] at label
  next elsewhere =>
    have label := rows k
    rw [if_neg elsewhere] at label
    simp only [columns, columnsOf, get_ofFn]
    rw [show (b.install i (b.labelAt j)).rows.get k = b.rows.get k from label]

/-- The lookups after a label of the tableau has been installed: the label that leaves loses its row
to the label that enters, and no other label moves. -/
theorem position?_install (b : Basis r c) (i : Fin r) {entering : Label}
    (valid : b.isValid entering = true) (l : Label) :
    (b.install i entering).position? l =
      if l = entering then some i
      else if l = b.rowLabel i then none
      else b.position? l := by
  have columns := column?_of_first (b.first_install i entering) l
  obtain ⟨j, rfl⟩ := isValid_iff.mp valid
  cases found : b.column? l with
  | some k =>
    obtain rfl := labelAt_of_column? found
    rw [position?, columns, found, Option.bind_some, rowOf?_install, position?_labelAt]
  | none =>
    -- Such a label has no place in the tables. It is in no row, and none is recorded for it.
    have other : l ≠ b.labelAt j := by
      rintro rfl
      rw [column?_labelAt] at found
      cases found
    simp [position?, columns, found, other]

/-- A label that no other row holds may be installed. -/
theorem Consistent.install {b : Basis r c} (h : b.Consistent) {i : Fin r} {entering : Label}
    (valid : b.isValid entering = true) (alone : ∀ k, b.rowLabel k = entering → k = i) :
    (b.install i entering).Consistent where
  valid k := by
    rw [isValid_of_first (b.first_install i entering), rowLabel_install]
    split
    · exact valid
    · exact h.valid k
  position_iff l k := by
    rw [b.position?_install i valid, rowLabel_install]
    split
    next enters =>
      rw [Option.some.injEq, enters]
      constructor
      · rintro rfl
        rw [if_pos rfl]
      · -- A row other than `i` would have held the label before.
        intro held
        split at held
        next here => exact here.symm
        next => exact (alone k held).symm
    next other =>
      split
      next leaves =>
        -- Row `i` has the entering label now, and no other row had the leaving one.
        simp only [reduceCtorEq, false_iff, leaves]
        intro held
        split at held
        next => exact other (leaves.trans held.symm)
        next elsewhere => exact elsewhere (h.rowLabel_injective held)
      next stays =>
        rw [h.position_iff]
        split
        next here =>
          rw [here]
          exact ⟨fun held => absurd held.symm stays, fun held => absurd held.symm other⟩
        next => rfl

-- A label that another row holds would leave that row behind with a label looked up elsewhere.
example :
    let b := (slack 1 : Basis 2 1).install 0 (.slack 2)
    b.rowLabel 1 = .slack 2 ∧ b.position? (.slack 2) = some 0 ∧ b.position? (.slack 1) = none := by
  decide

/-- Putting back the label that left restores every record, if the label that entered was in no
row. -/
theorem Consistent.install_install {b : Basis r c} (h : b.Consistent) {i : Fin r}
    {entering : Label} (nonbasic : b.isMember entering = false) :
    (b.install i entering).install i (b.rowLabel i) = b := by
  have left : (b.install i entering).rowLabel i = entering := by rw [rowLabel_install, if_pos rfl]
  refine ext_lookups (by simp) (fun k => ?_) (fun j => ?_) (by simp)
  · rw [rowLabel_install, rowLabel_install]
    by_cases here : k = i
    · rw [if_pos here, here]
    · rw [if_neg here, if_neg here]
  · rw [rowOf?_install, left, labelAt_of_first (b.first_install i entering), rowOf?_install]
    by_cases leaves : b.labelAt j = b.rowLabel i
    · -- Its row had been recorded, and is recorded again.
      rw [if_pos leaves, ← position?_labelAt, leaves, (h.position_iff _ i).mpr rfl]
    · rw [if_neg leaves, if_neg leaves]
      by_cases enters : b.labelAt j = entering
      · rw [if_pos enters, ← position?_labelAt, enters]
        exact (Option.not_isSome_iff_eq_none.mp (Bool.not_eq_true _ ▸ nonbasic)).symm
      · rw [if_neg enters, if_neg enters]

/-! ### Pivots -/

/-- A label of the tableau that is basic nowhere is installed in any row. -/
theorem pivot_eq_install {b : Basis r c} {i : Fin r} {entering : Label}
    (valid : b.isValid entering = true) (other : b.rowLabel i ≠ entering)
    (nonbasic : b.isMember entering = false) :
    b.pivot i entering = ⟨.ok (b.rowLabel i), b.install i entering⟩ := by
  simp [pivot, valid, other, nonbasic]

/-- What a request to install a label in a row can come to. -/
theorem Consistent.pivot_cases {b : Basis r c} (h : b.Consistent) (row : Nat) (entering : Label) :
    ((∃ e, b.pivot row entering = ⟨.error e, b⟩) ∧
      (r ≤ row ∨ b.isValid entering = false ∨
        ∃ k : Fin r, k.val ≠ row ∧ b.rowLabel k = entering)) ∨
    ∃ i : Fin r, i.val = row ∧ b.isValid entering = true ∧
      ((b.rowLabel i = entering ∧ b.pivot row entering = ⟨.ok entering, b⟩) ∨
      (b.isMember entering = false ∧
        b.pivot row entering = ⟨.ok (b.rowLabel i), b.install i entering⟩)) := by
  by_cases inside : row < r
  · by_cases valid : b.isValid entering = true
    · by_cases held : b.rowLabel ⟨row, inside⟩ = entering
      · exact Or.inr ⟨⟨row, inside⟩, rfl, valid,
          Or.inl ⟨held, by simp [pivot, inside, valid, held]⟩⟩
      · by_cases member : b.isMember entering = true
        · obtain ⟨k, holds⟩ := h.isMember_iff.mp member
          have elsewhere : k.val ≠ row := by
            rintro rfl
            exact held holds
          exact Or.inl ⟨⟨.undefinedLabel entering, by simp [pivot, inside, valid, held, member]⟩,
            Or.inr (Or.inr ⟨k, elsewhere, holds⟩)⟩
        · have nonbasic := Bool.not_eq_true _ ▸ member
          exact Or.inr ⟨⟨row, inside⟩, rfl, valid,
            Or.inr ⟨nonbasic, pivot_eq_install (i := ⟨row, inside⟩) valid held nonbasic⟩⟩
    · have invalid := Bool.not_eq_true _ ▸ valid
      exact Or.inl ⟨⟨.undefinedLabel entering, by simp [pivot, inside, invalid]⟩,
        Or.inr (Or.inl invalid)⟩
  · exact Or.inl ⟨⟨.rowOutside row, by simp [pivot, inside]⟩, Or.inl (not_lt.mp inside)⟩

/-! ### Blocking -/

@[simp] theorem first_setBlocked (b : Basis r c) (l : Label) (value : Bool) :
    (b.setBlocked l value).first = b.first := by
  unfold setBlocked
  split <;> rfl

@[simp] theorem rows_setBlocked (b : Basis r c) (l : Label) (value : Bool) :
    (b.setBlocked l value).rows = b.rows := by
  unfold setBlocked
  split <;> rfl

@[simp] theorem positions_setBlocked (b : Basis r c) (l : Label) (value : Bool) :
    (b.setBlocked l value).positions = b.positions := by
  unfold setBlocked
  split <;> rfl

@[simp] theorem columns_setBlocked (b : Basis r c) (l : Label) (value : Bool) :
    (b.setBlocked l value).columns = b.columns := by
  rw [columns, columns, rows_setBlocked, columnsOf_of_first (b.first_setBlocked l value)]

theorem Consistent.setBlocked {b : Basis r c} (h : b.Consistent) (l : Label) (value : Bool) :
    (b.setBlocked l value).Consistent where
  valid i := by
    rw [isValid_of_first (b.first_setBlocked l value), rowLabel, rows_setBlocked]
    exact h.valid i
  position_iff l' i := by
    have lookups : (b.setBlocked l value).rowOf? = b.rowOf? := by
      ext j : 1
      rw [rowOf?, rowOf?, positions_setBlocked]
    rw [position?, column?_of_first (b.first_setBlocked l value), lookups, rowLabel,
      rows_setBlocked]
    exact h.position_iff l' i

theorem blocked_mark_iff {b : Basis r c} {l : Label} {j : Fin (c + r)} :
    (b.mark l).blocked.get j = true ↔ b.blocked.get j = true ∨ b.labelAt j = l := by
  rw [mark, setBlocked]
  cases found : b.column? l with
  | none =>
    have absent : b.labelAt j ≠ l := by
      rintro rfl
      rw [column?_labelAt] at found
      cases found
    simp [absent]
  | some k =>
    obtain rfl := labelAt_of_column? found
    simp only [LabelTable.get_set, b.labelAt_injective.eq_iff]
    by_cases same : j = k
    · simp [same]
    · simp [same]

end LexPivot.Basis
