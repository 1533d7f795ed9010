import Mathlib
import LexPivot.Proofs.ComplementaryPath

/-!
# Almost complementary bases

Along a path one complementary pair is left out, the pair it started from. Of every other pair at
most one label is basic, and of the pair that comes next none. A pivot keeps this, and the pivot
that reaches the pair left out ends at a complementary basis.
-/
namespace LexPivot

open Matrix

namespace Basis

variable {r c : Nat}

/-- Whether some row holds the label. -/
def Holds (b : Basis r c) (l : Label) : Prop := ∃ i, b.rowLabel i = l

namespace Consistent

variable {b : Basis r c}

theorem holds_labelAt_iff (h : b.Consistent) {j : Fin (c + r)} :
    b.Holds (b.labelAt j) ↔ j ∈ Set.range b.columns.get :=
  exists_congr fun _ => h.rowLabel_eq_labelAt_iff

theorem isMember_iff_holds (h : b.Consistent) {l : Label} : b.isMember l = true ↔ b.Holds l :=
  h.isMember_iff

theorem ne_slack_zero (h : b.Consistent) {l : Label} (held : b.Holds l) : l ≠ .slack 0 := by
  obtain ⟨i, rfl⟩ := held
  rw [h.rowLabel_eq]
  exact b.labelAt_ne_slack_zero _

theorem index_ne_zero (h : b.Consistent) {l : Label} (held : b.Holds l)
    (proper : l ≠ .artificial) : l.index ≠ 0 := by
  intro zero
  cases l with
  | structural k => exact proper (congrArg Label.structural zero)
  | slack k => exact h.ne_slack_zero held (congrArg Label.slack zero)

end Consistent

end Basis

namespace Tableau

variable {r c : Nat} {t : Tableau ℚ r c}

theorem isComplementary_iff_holds (consistent : t.basis.Consistent) : t.isComplementary = true ↔
    ∀ l, l ≠ .artificial → t.basis.Holds l → ¬t.basis.Holds l.complement := by
  rw [isComplementary_iff consistent]
  constructor
  · rintro complementary l proper ⟨i, rfl⟩ ⟨k, across⟩
    exact (complementary i).resolve_left proper k across
  · intro complementary i
    by_cases artificial : t.basis.rowLabel i = .artificial
    · exact Or.inl artificial
    · exact Or.inr fun k across => complementary _ artificial ⟨i, rfl⟩ ⟨k, across⟩

theorem holds_exchangeColumn (consistent : t.basis.Consistent) {i : Fin r} {j : Fin (c + r)}
    (l : Label) :
    (t.exchangeColumn i j).basis.Holds l ↔
      l = t.basis.labelAt j ∨ l ≠ t.basis.rowLabel i ∧ t.basis.Holds l := by
  have row := t.rowLabel_exchangeColumn i j
  constructor
  · rintro ⟨k, rfl⟩
    rw [row]
    by_cases same : k = i
    · exact Or.inl (if_pos same)
    · right
      rw [if_neg same]
      exact ⟨fun label => same (consistent.rowLabel_injective label), k, rfl⟩
  · rintro (rfl | ⟨other, k, rfl⟩)
    · exact ⟨i, (row i).trans (if_pos rfl)⟩
    · exact ⟨k, (row k).trans (if_neg fun same => other (congrArg _ same))⟩

theorem FeasibleFrom.holds_iff_of_range {system : Matrix (Fin r) (Fin (c + r + 1)) ℚ}
    {origin t' : Tableau ℚ r c} (h : FeasibleFrom system origin t)
    (h' : FeasibleFrom system origin t')
    (same : Set.range t'.basis.columns.get = Set.range t.basis.columns.get) (l : Label) :
    t'.basis.Holds l ↔ t.basis.Holds l := by
  have labels : t'.basis.labelAt = t.basis.labelAt := h'.labelAt.trans h.labelAt.symm
  have consistent := h.represents.consistent
  have consistent' := h'.represents.consistent
  constructor
  · rintro ⟨i, rfl⟩
    rw [consistent'.rowLabel_eq, labels, consistent.holds_labelAt_iff, ← same]
    exact ⟨i, rfl⟩
  · rintro ⟨i, rfl⟩
    rw [consistent.rowLabel_eq, ← labels, consistent'.holds_labelAt_iff, same]
    exact ⟨i, rfl⟩

/-- The entering label takes the place of the one that leaves. -/
structure Replaces (t : Tableau ℚ r c) (entering leaving : Label) (next : Tableau ℚ r c) :
    Prop where
  consistent : next.basis.Consistent
  left : t.basis.Holds leaving
  holds : ∀ l, next.basis.Holds l ↔ l = entering ∨ l ≠ leaving ∧ t.basis.Holds l

/-- The state of a path on which the pair of index `k` was left out. -/
structure AlmostComplementary (k : Nat) (p : Label × Tableau ℚ r c) : Prop where
  consistent : p.2.basis.Consistent
  valid : ∃ j, p.2.basis.labelAt j = p.1
  proper : p.1 ≠ .artificial
  nonbasic : ¬p.2.basis.Holds p.1
  -- Only the pair left out can be basic as a whole.
  pairs : ∀ l, l ≠ .artificial → p.2.basis.Holds l → p.2.basis.Holds l.complement → l.index = k
  -- Any other pair that is about to enter is not basic at all.
  across : p.1.index ≠ k → ¬p.2.basis.Holds p.1.complement

theorem AlmostComplementary.start (consistent : t.basis.Consistent)
    (complementary : t.isComplementary = true) {entering : Label}
    (valid : ∃ j, t.basis.labelAt j = entering) (proper : entering ≠ .artificial)
    (nonbasic : ¬t.basis.Holds entering) : AlmostComplementary entering.index (entering, t) where
  consistent := consistent
  valid := valid
  proper := proper
  nonbasic := nonbasic
  pairs l other held held' :=
    absurd held' ((isComplementary_iff_holds consistent).mp complementary l other held)
  across ne := absurd rfl ne

namespace AlmostComplementary

variable {k : Nat} {entering leaving : Label} {next : Tableau ℚ r c}
  (h : AlmostComplementary k (entering, t)) (replaces : Replaces t entering leaving next)

include h replaces

theorem leaving_ne_slack_zero : leaving ≠ .slack 0 := h.consistent.ne_slack_zero replaces.left

theorem leaving_ne : leaving ≠ entering := fun same => h.nonbasic (same ▸ replaces.left)

theorem not_holds_leaving : ¬next.basis.Holds leaving := by
  rw [replaces.holds]
  rintro (same | ⟨other, _⟩)
  · exact h.leaving_ne replaces same
  · exact other rfl

theorem pairs_next {l : Label} (proper : l ≠ .artificial) (held : next.basis.Holds l)
    (held' : next.basis.Holds l.complement) : l.index = k := by
  -- Each of the two labels has just entered or was basic before.
  rcases (replaces.holds l).mp held with rfl | ⟨_, before⟩
  · rcases (replaces.holds _).mp held' with same | ⟨_, before'⟩
    · exact absurd same (Label.complement_ne proper)
    · exact not_imp_not.mp (fun ne => h.across ne) before'
  · rcases (replaces.holds _).mp held' with same | ⟨_, before'⟩
    · have across := h.across
      rw [← same, Label.index_complement,
        Label.complement_complement (h.consistent.ne_slack_zero before)] at across
      exact not_imp_not.mp across before
    · exact h.pairs l proper before before'

/-- A path that leaves another pair than the one it started from goes on with that pair. -/
theorem next_of_index_ne (proper : leaving ≠ .artificial)
    (across : ∃ j, next.basis.labelAt j = leaving.complement) (other : leaving.index ≠ k) :
    AlmostComplementary k (leaving.complement, next) where
  consistent := replaces.consistent
  valid := across
  proper := Label.complement_ne_artificial (h.leaving_ne_slack_zero replaces) proper
  nonbasic := by
    rw [replaces.holds]
    rintro (same | ⟨_, before⟩)
    · -- The label that enters has no basic complement, but `leaving` is basic.
      have free := h.across
      rw [← same, Label.index_complement,
        Label.complement_complement (h.leaving_ne_slack_zero replaces)] at free
      exact free other replaces.left
    · -- Both labels of the pair were basic, so it is the pair left out.
      exact other (h.pairs leaving proper replaces.left before)
  pairs l ne held held' := h.pairs_next replaces ne held held'
  across _ := by
    rw [Label.complement_complement (h.leaving_ne_slack_zero replaces)]
    exact h.not_holds_leaving replaces

/-- A path that leaves the pair it started from is at a complementary basis. -/
theorem isComplementary_next (proper : leaving ≠ .artificial) (same : leaving.index = k) :
    next.isComplementary = true := by
  rw [isComplementary_iff_holds replaces.consistent]
  intro l ne held held'
  have index := h.pairs_next replaces ne held held'
  -- The one pair that could be basic as a whole has just lost `leaving`.
  rcases Label.eq_or_eq_complement (index.trans same.symm) (h.leaving_ne_slack_zero replaces)
    proper with rfl | rfl
  · exact h.not_holds_leaving replaces held
  · rw [Label.complement_complement (h.leaving_ne_slack_zero replaces)] at held'
    exact h.not_holds_leaving replaces held'

end AlmostComplementary

/-- When the pair left out is that of the artificial label, no pair is basic as a whole. -/
theorem isComplementary_of_pairs (consistent : t.basis.Consistent)
    (pairs : ∀ l, l ≠ .artificial → t.basis.Holds l → t.basis.Holds l.complement → l.index = 0) :
    t.isComplementary = true := by
  rw [isComplementary_iff_holds consistent]
  intro l proper held held'
  exact consistent.index_ne_zero held proper (pairs l proper held held')

/-- The basis lacks `l`, which is `start` or its complement. -/
def Lacks (t : Tableau ℚ r c) (start l : Label) : Prop :=
  l.index = start.index ∧ ¬t.basis.Holds l

theorem Lacks.stopsAt {start l : Label} (lacks : t.Lacks start l) (defined : start ≠ .slack 0)
    (proper : start ≠ .artificial) : StopsAt start l :=
  stopsAt_of_index_eq defined proper lacks.1

/-- A path starts with a label of its pair that is not basic. -/
theorem not_holds_enteringFirst (consistent : t.basis.Consistent)
    (complementary : t.isComplementary = true) {start : Label} (proper : start ≠ .artificial) :
    ¬t.basis.Holds (t.enteringFirst start) := by
  unfold enteringFirst
  split
  next basic =>
    exact (isComplementary_iff_holds consistent).mp complementary start proper
      (consistent.isMember_iff_holds.mp basic)
  next absent => exact mt consistent.isMember_iff_holds.mpr absent

/-- At the start of a path the pair left out is the one that is dropped. -/
theorem AlmostComplementary.enteringFirst (consistent : t.basis.Consistent)
    (complementary : t.isComplementary = true) {start : Label}
    (valid : ∃ j, t.basis.labelAt j = t.enteringFirst start) (defined : start ≠ .slack 0)
    (proper : start ≠ .artificial) :
    AlmostComplementary start.index (t.enteringFirst start, t) := by
  have almost := AlmostComplementary.start consistent complementary valid
    (enteringFirst_ne_artificial defined proper)
    (not_holds_enteringFirst consistent complementary proper)
  rwa [index_enteringFirst] at almost

end Tableau

end LexPivot
