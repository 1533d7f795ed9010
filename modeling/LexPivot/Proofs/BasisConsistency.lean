import Mathlib
import LexPivot.Proofs.BasisLookup

/-!
# Bases stay consistent

A pivot writes the row of the label that leaves, the row of the label that enters and the label of
the row, each into an array of its own. Whatever is asked of a basis, these records agree
afterwards: a pivot lets a label in only if no other row holds it, and has checked so before the
first write. So no label is in two rows, the lookups and the rows tell the same story, and as many
labels are members as there are rows.
-/
namespace LexPivot.Basis

variable {r c : Nat}

/-- What can be asked of a basis. -/
inductive Operation where
  | pivot (row : Nat) (entering : Label)
  | mark (l : Label)
  | unmark (l : Label)
deriving DecidableEq, Repr

/-- The basis that an operation leaves behind, be it accepted or rejected. -/
def perform (b : Basis r c) : Operation → Basis r c
  | .pivot row entering => (b.pivot row entering).state
  | .mark l => b.mark l
  | .unmark l => b.unmark l

def run (b : Basis r c) (ops : List Operation) : Basis r c := ops.foldl perform b

/-- Every row has a label of its own, and the lookups say which row has which. -/
structure Coherent (b : Basis r c) : Prop where
  valid : ∀ i, b.isValid (b.rowLabel i) = true
  distinct : ∀ i k, b.rowLabel i = b.rowLabel k → i = k
  position_iff : ∀ l row, (b.position? l).map Fin.val = some row ↔ b.label? row = some l
  members : (b.allLabels.filter b.isMember).length = r

/-- How a request to install `entering` in `row` is answered. -/
structure AnswersPivot (b : Basis r c) (row : Nat) (entering : Label) : Prop where
  rejected_iff : (∃ e, (b.pivot row entering).result = .error e) ↔
    r ≤ row ∨ b.isValid entering = false ∨ ∃ k : Fin r, k.val ≠ row ∧ b.rowLabel k = entering
  unchanged : ∀ e, (b.pivot row entering).result = .error e → (b.pivot row entering).state = b
  rows : ∀ leaving, (b.pivot row entering).result = .ok leaving →
    b.label? row = some leaving ∧ ∀ k : Fin r,
      (b.pivot row entering).state.rowLabel k = if k.val = row then entering else b.rowLabel k
  lookups : ∀ leaving, (b.pivot row entering).result = .ok leaving → ∀ l,
    ((b.pivot row entering).state.position? l).map Fin.val =
      if l = entering then some row
      else if l = leaving then none
      else (b.position? l).map Fin.val
  blocked : ∀ l, (b.pivot row entering).state.isBlocked l = b.isBlocked l

/-! ### One operation -/

/-- An operation keeps the records consistent, and renames no column. -/
theorem Consistent.perform {b : Basis r c} (h : b.Consistent) (op : Operation) :
    (b.perform op).Consistent ∧ (b.perform op).first = b.first := by
  cases op with
  | pivot row entering =>
    simp only [Basis.perform]
    rcases h.pivot_cases row entering with
      ⟨⟨e, rejected⟩, _⟩ | ⟨i, _, valid, ⟨_, kept⟩ | ⟨nonbasic, installed⟩⟩
    · rw [rejected]
      exact ⟨h, rfl⟩
    · rw [kept]
      exact ⟨h, rfl⟩
    · rw [installed]
      exact ⟨h.install valid fun k held => absurd held (h.rowLabel_ne nonbasic k),
        b.first_install i entering⟩
  | mark l => exact ⟨h.setBlocked l true, b.first_setBlocked l true⟩
  | unmark l => exact ⟨h.setBlocked l false, b.first_setBlocked l false⟩

theorem Consistent.run {b : Basis r c} (h : b.Consistent) (ops : List Operation) :
    (b.run ops).Consistent ∧ (b.run ops).first = b.first := by
  induction ops generalizing b with
  | nil => exact ⟨h, rfl⟩
  | cons op ops ih =>
    obtain ⟨next, first⟩ := h.perform op
    obtain ⟨later, first'⟩ := ih next
    exact ⟨later, first'.trans first⟩

/-! ### Rows and lookups -/

theorem label?_eq_some_iff {b : Basis r c} {row : Nat} {l : Label} :
    b.label? row = some l ↔ ∃ i : Fin r, i.val = row ∧ b.rowLabel i = l := by
  unfold label?
  split
  next inside =>
    rw [Option.some.injEq]
    constructor
    · intro held
      exact ⟨⟨row, inside⟩, rfl, held⟩
    · rintro ⟨i, rfl, held⟩
      exact held
  next outside =>
    simp only [reduceCtorEq, false_iff]
    rintro ⟨i, rfl, _⟩
    exact outside i.isLt

/-- The members are the labels of the rows, in another order. -/
theorem Consistent.members_perm_labels {b : Basis r c} (h : b.Consistent) :
    (b.allLabels.filter b.isMember).Perm b.labels := by
  -- Both lists are free of repetitions, so it is enough that they have the same members.
  have labels_nodup : b.labels.Nodup := (List.nodup_finRange r).map h.rowLabel_injective
  have members_nodup : (b.allLabels.filter b.isMember).Nodup :=
    ((List.nodup_finRange (c + r)).map b.labelAt_injective).filter _
  apply (List.perm_ext_iff_of_nodup members_nodup labels_nodup).mpr
  intro l
  simp only [allLabels, labels, List.mem_filter, List.mem_map, List.mem_finRange, true_and,
    h.isMember_iff, and_iff_right_iff_imp]
  rintro ⟨i, rfl⟩
  exact isValid_iff.mp (h.valid i)

theorem Consistent.coherent {b : Basis r c} (h : b.Consistent) : b.Coherent where
  valid := h.valid
  distinct i k same := h.rowLabel_injective same
  position_iff l row := by
    rw [label?_eq_some_iff, Option.map_eq_some_iff]
    simp only [h.position_iff]
    exact exists_congr fun i => and_comm
  members := by simpa [labels] using h.members_perm_labels.length_eq

theorem isBlocked_install (b : Basis r c) (i : Fin r) (entering l : Label) :
    (b.install i entering).isBlocked l = b.isBlocked l := by
  unfold isBlocked
  rw [column?_of_first (b.first_install i entering), blocked_install]

theorem Consistent.answersPivot {b : Basis r c} (h : b.Consistent) (row : Nat) (entering : Label) :
    b.AnswersPivot row entering := by
  rcases h.pivot_cases row entering with
    ⟨⟨e, rejected⟩, reason⟩ | ⟨i, rfl, valid, ⟨rfl, kept⟩ | ⟨nonbasic, installed⟩⟩
  · refine ⟨?_, ?_, ?_, ?_, ?_⟩ <;> rw [rejected]
    · exact iff_of_true ⟨e, rfl⟩ reason
    · exact fun _ _ => rfl
    · exact nofun
    · exact nofun
    · exact fun _ => rfl
  · -- The row holds the label already.
    have only (k : Fin r) (held : b.rowLabel k = b.rowLabel i) : k.val = i :=
      congrArg Fin.val (h.rowLabel_injective held)
    refine ⟨?_, ?_, ?_, ?_, ?_⟩ <;> rw [kept]
    · refine iff_of_false nofun ?_
      rintro (outside | invalid | ⟨k, ne, held⟩)
      · exact absurd i.isLt (not_lt.mpr outside)
      · rw [valid] at invalid
        cases invalid
      · exact ne (only k held)
    · exact nofun
    · rintro leaving ⟨⟩
      refine ⟨label?_eq_some_iff.mpr ⟨i, rfl, rfl⟩, fun k => ?_⟩
      split
      next here => rw [Fin.ext here]
      next => rfl
    · rintro leaving ⟨⟩ l
      split
      next own => rw [own, (h.position_iff _ i).mpr rfl, Option.map_some]
      next => rfl
    · exact fun _ => rfl
  · -- The label was in no row, and all three records change.
    have free := h.rowLabel_ne nonbasic
    refine ⟨?_, ?_, ?_, ?_, ?_⟩ <;> rw [installed]
    · refine iff_of_false nofun ?_
      rintro (outside | invalid | ⟨k, _, held⟩)
      · exact absurd i.isLt (not_lt.mpr outside)
      · rw [valid] at invalid
        cases invalid
      · exact free k held
    · exact nofun
    · rintro leaving ⟨⟩
      refine ⟨label?_eq_some_iff.mpr ⟨i, rfl, rfl⟩, fun k => ?_⟩
      simp only [rowLabel_install, Fin.ext_iff]
    · rintro leaving ⟨⟩ l
      rw [b.position?_install i valid]
      split
      · rfl
      · split <;> rfl
    · exact b.isBlocked_install i entering

/-! ### Runs -/

theorem isValid_iff_of_range {first last : Nat} {b : Basis r (last + 1 - first)}
    (numbering : b.first = first) (l : Label) :
    b.isValid l = true ↔
      (∃ k, first ≤ k ∧ k ≤ last ∧ l = .structural k) ∨ ∃ k, 1 ≤ k ∧ k ≤ r ∧ l = .slack k := by
  rw [isValid_iff]
  constructor
  · rintro ⟨j, rfl⟩
    refine Fin.addCases (fun k => ?_) (fun i => ?_) j
    · exact Or.inl ⟨first + k, by omega, by omega, by rw [labelAt_castAdd, numbering]⟩
    · exact Or.inr ⟨i + 1, by omega, by omega, labelAt_natAdd b i⟩
  · rintro (⟨k, low, high, rfl⟩ | ⟨k, low, high, rfl⟩)
    · refine ⟨Fin.castAdd r ⟨k - first, by omega⟩, ?_⟩
      rw [labelAt_castAdd, numbering]
      congr 1
      exact Nat.add_sub_of_le low
    · refine ⟨Fin.natAdd _ ⟨k - 1, by omega⟩, ?_⟩
      rw [labelAt_natAdd]
      congr 1
      exact Nat.sub_add_cancel low

/-- After any operations, accepted or not, the rows hold labels of the tableau, no two the same, the
lookups agree with the rows, and as many labels are members as there are rows. Pivots are rejected
for their row or their label only, and then change nothing; none changes what is blocked. -/
theorem run_consistent (first last rows : Nat) (ops : List Operation) :
    let b := (slack first : Basis rows (last + 1 - first)).run ops
    (∀ l, b.isValid l = true ↔
      (∃ k, first ≤ k ∧ k ≤ last ∧ l = .structural k) ∨ ∃ k, 1 ≤ k ∧ k ≤ rows ∧ l = .slack k) ∧
      b.Coherent ∧ ∀ row entering, b.AnswersPivot row entering := by
  intro b
  obtain ⟨consistent, numbering⟩ := (consistent_slack (c := last + 1 - first) first).run ops
  exact ⟨isValid_iff_of_range numbering, consistent.coherent, consistent.answersPivot⟩

end LexPivot.Basis
