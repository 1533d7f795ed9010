import Mathlib
import LexPivot.Complementary.Path
import LexPivot.Proofs.BasicPoint
import LexPivot.Proofs.LexFeasible

/-!
# Basic solutions in order

The entries of a basic solution come in the order of their labels, so a solution is determined by
what it lists. Two tableaus at points that agree on the structural columns have the same solution.
So the basic columns determine it, and there are not more solutions than bases by row.
-/
namespace LexPivot

namespace Label

theorem precedes_irrefl (l : Label) : l.precedes l = false := by
  cases l <;> simp [precedes]

theorem precedes_trans {a b d : Label} (first : a.precedes b = true)
    (second : b.precedes d = true) : a.precedes d = true := by
  cases a <;> cases b <;> cases d <;> simp_all [precedes] <;> omega

theorem precedes_of_not {a b : Label} (not_before : ¬a.precedes b = true) (ne : a ≠ b) :
    b.precedes a = true := by
  cases a <;> cases b <;> simp_all [precedes] <;> omega

end Label

namespace BasicSolution

variable {α : Type}

/-- One entry stands before another. -/
def Before (a b : Label × α) : Prop := a.1.precedes b.1 = true

theorem Before.trans {a b d : Label × α} (first : Before a b) (second : Before b d) : Before a d :=
  Label.precedes_trans first second

instance : Std.Irrefl (Before (α := α)) :=
  ⟨fun a before => Bool.false_ne_true ((Label.precedes_irrefl a.1).symm.trans before)⟩

instance : Std.Antisymm (Before (α := α)) :=
  ⟨fun a _ first second => absurd (first.trans second) (Std.Irrefl.irrefl a)⟩

theorem pairwise_insertEntry {entries : List (Label × α)} (ordered : entries.Pairwise Before)
    (l : Label) (x : α) : (insertEntry l x entries).Pairwise Before := by
  induction entries with
  | nil => exact List.pairwise_singleton _ _
  | cons head rest ih =>
    obtain ⟨least, later⟩ := List.pairwise_cons.mp ordered
    -- The entry goes before the head, takes its place, or goes further down.
    unfold insertEntry
    by_cases before : l.precedes head.1 = true
    · rw [if_pos before]
      refine List.pairwise_cons.mpr ⟨fun entry listed => ?_, ordered⟩
      rcases List.mem_cons.mp listed with rfl | listed
      · exact before
      · exact Label.precedes_trans before (least entry listed)
    · rw [if_neg before]
      by_cases same : l = head.1
      · rw [if_pos same]
        refine List.pairwise_cons.mpr ⟨fun entry listed => ?_, later⟩
        rw [Before, same]
        exact least entry listed
      · rw [if_neg same]
        refine List.pairwise_cons.mpr ⟨fun entry listed => ?_, ih later⟩
        rcases mem_insertEntry listed with rfl | listed
        · exact Label.precedes_of_not before same
        · exact least entry listed

theorem pairwise_foldl_insert (entries : List (Label × α)) {s : BasicSolution α}
    (ordered : s.entries.Pairwise Before) :
    (entries.foldl (fun s entry => s.insert entry.1 entry.2) s).entries.Pairwise Before := by
  induction entries generalizing s with
  | nil => exact ordered
  | cons entry rest ih => exact ih (pairwise_insertEntry ordered _ _)

theorem pairwise_ofList (entries : List (Label × α)) :
    (ofList entries).entries.Pairwise Before :=
  pairwise_foldl_insert entries List.Pairwise.nil

theorem eq_empty_of_isEmpty {s : BasicSolution α} (none : s.isEmpty = true) : s = empty :=
  congrArg mk (List.isEmpty_iff.mp none)

/-- In exact arithmetic only equal solutions count as equal. -/
theorem approxEq_iff {s s' : BasicSolution ℚ} : s.approxEq s' = true ↔ s = s' := by
  have each : ∀ entries entries' : List (Label × ℚ),
      (entries.length = entries'.length ∧ ((entries.zip entries').all fun (a, b) =>
        a.1 == b.1 && Scalar.approxEq a.2 b.2) = true) ↔ entries = entries' := by
    intro entries
    induction entries with
    | nil => simp [eq_comm, List.length_eq_zero_iff]
    | cons entry rest ih =>
      rintro (_ | ⟨entry', rest'⟩)
      · simp
      · have value : Scalar.approxEq entry.2 entry'.2 = true ↔ entry.2 = entry'.2 := beq_iff_eq
        simp only [List.length_cons, Nat.add_right_cancel_iff, List.zip_cons_cons, List.all_cons,
          Bool.and_eq_true, beq_iff_eq, value, List.cons.injEq, ← ih rest', Prod.ext_iff]
        tauto
  rw [approxEq, Bool.and_eq_true, beq_iff_eq, size, size, each]
  exact ⟨congrArg mk, congrArg entries⟩

end BasicSolution

namespace Tableau

variable {r c : Nat} {t t' : Tableau ℚ r c}

/-- The coordinates of the labels kept determine a part of the basic solution. -/
theorem filterLabels_basicSolution_congr (consistent : t.basis.Consistent)
    (consistent' : t'.basis.Consistent)
    (labels : t.basis.labelAt = t'.basis.labelAt) {p : Label → Bool}
    (same : ∀ j, (t.basis.labelAt j).isStructural = true → p (t.basis.labelAt j) = true →
      t.point j = t'.point j) :
    t.basicSolution.filterLabels p = t'.basicSolution.filterLabels p := by
  rw [BasicSolution.filterLabels, BasicSolution.filterLabels, BasicSolution.mk.injEq]
  refine List.Pairwise.eq_of_mem_iff (r := BasicSolution.Before)
    ((BasicSolution.pairwise_ofList _).filter _) ((BasicSolution.pairwise_ofList _).filter _)
    fun ⟨l, x⟩ => ?_
  simp only [List.mem_filter, mem_basicSolution_iff consistent,
    mem_basicSolution_iff consistent',
    ← labels]
  refine and_congr_left fun kept => exists_congr fun j => and_congr_right fun label =>
    and_congr_right fun structural => ?_
  subst label
  rw [same j structural kept]

namespace Represents

variable {system : Matrix (Fin r) (Fin (c + r + 1)) ℚ}

/-- The set of basic columns determines the point of a tableau. -/
theorem point_eq_of_range (h : t.Represents system) (h' : t'.Represents system)
    (same : Set.range t'.basis.columns.get = Set.range t.basis.columns.get) :
    t'.point = t.point := by
  obtain ⟨σ, columns, values⟩ := h.exists_perm h' same
  ext j
  rw [point, point, basicPoint, basicPoint, columns, values]
  exact Equiv.sum_comp σ fun i =>
    if t.basis.columns.get i = j then t.values i (Fin.last (c + r)) else 0

theorem complementarySolution_of_range (h : t.Represents system) (h' : t'.Represents system)
    (first : t'.basis.first = t.basis.first)
    (same : Set.range t'.basis.columns.get = Set.range t.basis.columns.get) :
    t'.complementarySolution = t.complementarySolution := by
  have labels : t'.basis.labelAt = t.basis.labelAt := by
    ext j
    rw [Basis.labelAt, Basis.labelAt, first]
  refine filterLabels_basicSolution_congr h'.consistent h.consistent labels fun j _ _ => ?_
  rw [h.point_eq_of_range h' same]

end Represents

/-- There are not more solutions than bases by row. -/
theorem length_le_pivotBudget (t : Tableau ℚ r c) (system : Matrix (Fin r) (Fin (c + r + 1)) ℚ)
    {solutions : List (BasicSolution ℚ)} (distinct : solutions.Nodup)
    (found : ∀ s ∈ solutions, ∃ t' : Tableau ℚ r c, t'.Represents system ∧
      t'.basis.first = t.basis.first ∧ t'.complementarySolution = s) :
    solutions.length ≤ t.pivotBudget := by
  choose reached represents first solution using found
  let columns (s : { s // s ∈ solutions }) : Fin r → Fin (c + r) :=
    (reached s.1 s.2).basis.columns.get
  have injective : Function.Injective columns := by
    intro s s' same
    apply Subtype.ext
    rw [← solution s.1 s.2, ← solution s'.1 s'.2]
    exact (represents s'.1 s'.2).complementarySolution_of_range (represents s.1 s.2)
      ((first s.1 s.2).trans (first s'.1 s'.2).symm) (congrArg Set.range same)
  have count : solutions.length ≤ (c + r) ^ r := by
    simpa using ((List.nodup_attach.mpr distinct).map injective).length_le_card
  have power : (c + r) ^ r ≤ (c + r) ^ (r + 1) + 1 := by
    rcases Nat.eq_zero_or_pos r with rfl | positive
    · simp
    · exact Nat.le_succ_of_le (Nat.pow_le_pow_right (by omega) (Nat.le_succ r))
  exact count.trans power

end Tableau

end LexPivot
