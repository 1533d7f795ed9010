import Mathlib
import LexPivot.Proofs.ComplementaryPath

/-!
# Traces of paths

The trace of a path is the sequence of its pivots. What a pivot does depends on the basic columns
and on the label that enters, so with the rows in another order a path makes the same pivots. Every
pivot can be undone in the row where it was made, so a trace read backwards is a trace too: the
label that left last enters first, and the path ends where it came from, row by row.
-/
namespace LexPivot.Tableau

open Matrix

variable {r c : Nat} {system : Matrix (Fin r) (Fin (c + r + 1)) ℚ} {origin t t' : Tableau ℚ r c}

/-! ### Exchanges -/

/-- The ratio test lets a column that is not basic enter in a row. -/
structure Enters (t : Tableau ℚ r c) (i : Fin r) (j : Fin (c + r)) : Prop where
  exit : IsLexExit t.values t.lexColumns (t.values.col j.castSucc) i
  nonbasic : ∀ k, t.basis.columns.get k ≠ j

namespace Enters

variable {i : Fin r} {j : Fin (c + r)}

theorem pivotIn_eq (enters : t.Enters i j) (represents : t.Represents system) :
    t.pivotIn (t.basis.labelAt j) = ⟨.ok (t.basis.rowLabel i), t.exchangeColumn i j⟩ := by
  rcases represents.pivotIn_cases (t.basis.labelAt j) with
    ⟨undefined, _⟩ | ⟨l, label, ⟨nonpos, _⟩ | ⟨k, exit, ⟨held, _⟩ | ⟨_, done⟩⟩⟩
  · exact absurd rfl (undefined j)
  · obtain rfl := t.basis.labelAt_injective label
    exact absurd enters.exit.1 (not_lt.mpr (nonpos i))
  · obtain rfl := t.basis.labelAt_injective label
    exact absurd held (enters.nonbasic k)
  · obtain rfl := t.basis.labelAt_injective label
    rw [done, enters.exit.unique exit]

/-- The column that left can enter again in the same row. -/
theorem back (enters : t.Enters i j) (h : FeasibleFrom system origin t) :
    (t.exchangeColumn i j).Enters i (t.basis.columns.get i) where
  exit := h.represents.isLexExit_reverse h.feasible enters.exit
  nonbasic := h.represents.nonbasic_exchangeColumn enters.nonbasic

/-- The order of the rows does not matter for the ratio test. -/
theorem reorder (enters : t.Enters i j) (h : FeasibleFrom system origin t)
    (h' : FeasibleFrom system origin t') {σ : Equiv.Perm (Fin r)}
    (order : t'.basis.columns.get = t.basis.columns.get ∘ σ) : t'.Enters (σ.symm i) j where
  exit := by
    have inverse : t.basis.columns.get = t'.basis.columns.get ∘ σ.symm := by
      rw [order, Function.comp_assoc, Equiv.self_comp_symm, Function.comp_id]
    have exit := enters.exit
    rw [h'.represents.values_of_order h.represents inverse, h.lexColumns, ← h'.lexColumns] at exit
    exact exit.of_submatrix
  nonbasic k := by
    rw [order]
    exact enters.nonbasic (σ k)

end Enters

/-- Letting `entering` enter takes `leaving` out of the basis. -/
structure Exchanges (t : Tableau ℚ r c) (entering leaving : Label) (next : Tableau ℚ r c) :
    Prop where
  passed : t.pivotIn entering = ⟨.ok leaving, next⟩
  entering_proper : entering ≠ .artificial
  leaving_proper : leaving ≠ .artificial
  moved : leaving ≠ entering

namespace Exchanges

variable {entering leaving : Label} {next : Tableau ℚ r c}

theorem exists_enters (h : t.Exchanges entering leaving next) (represents : t.Represents system) :
    ∃ i j, t.Enters i j ∧ t.basis.labelAt j = entering ∧ t.basis.rowLabel i = leaving ∧
      t.exchangeColumn i j = next := by
  rcases represents.pivotIn_cases entering with
    ⟨_, done⟩ | ⟨j, label, ⟨_, ⟨_, _, _, done⟩ | ⟨_, done⟩⟩ | ⟨i, exit, ⟨_, done⟩ | ⟨free, done⟩⟩⟩
  all_goals
    rw [h.passed, Attempt.mk.injEq] at done
    obtain ⟨result, state⟩ := done
    cases result
  · exact absurd rfl h.leaving_proper
  · exact absurd rfl h.moved
  · exact ⟨i, j, ⟨exit, free⟩, label, rfl, state.symm⟩

theorem leaving_ne_slack_zero (h : t.Exchanges entering leaving next)
    (represents : t.Represents system) : leaving ≠ .slack 0 := by
  obtain ⟨i, _, _, _, rfl, _⟩ := h.exists_enters represents
  rw [represents.consistent.rowLabel_eq]
  exact t.basis.labelAt_ne_slack_zero _

theorem feasible (exchanges : t.Exchanges entering leaving next)
    (h : FeasibleFrom system origin t) : FeasibleFrom system origin next := by
  have kept := h.pivotIn_state entering
  rwa [exchanges.passed] at kept

/-- An exchange is undone by letting the label that left enter. -/
theorem back (exchanges : t.Exchanges entering leaving next) (h : FeasibleFrom system origin t) :
    ∃ before, next.Exchanges leaving entering before ∧
      before.basis.columns.get = t.basis.columns.get := by
  obtain ⟨i, j, enters, label, rfl, rfl⟩ := exchanges.exists_enters h.represents
  have feasible := exchanges.feasible h
  have passed := (enters.back h).pivotIn_eq feasible.represents
  rw [rowLabel_exchangeColumn_self, label, labelAt_exchangeColumn,
    ← h.represents.consistent.rowLabel_eq] at passed
  refine ⟨_, ⟨passed, exchanges.leaving_proper, exchanges.entering_proper, exchanges.moved.symm⟩,
    ?_⟩
  rw [h.represents.basis_exchangeColumn_exchangeColumn i enters.nonbasic]

/-- With the rows in another order the same labels are exchanged. -/
theorem reorder (exchanges : t.Exchanges entering leaving next) (h : FeasibleFrom system origin t)
    (h' : FeasibleFrom system origin t') {σ : Equiv.Perm (Fin r)}
    (order : t'.basis.columns.get = t.basis.columns.get ∘ σ) :
    ∃ next', t'.Exchanges entering leaving next' ∧
      next'.basis.columns.get = next.basis.columns.get ∘ σ := by
  obtain ⟨i, j, enters, rfl, rfl, rfl⟩ := exchanges.exists_enters h.represents
  have labels : t'.basis.labelAt = t.basis.labelAt := h'.labelAt.trans h.labelAt.symm
  have leaves : t'.basis.rowLabel (σ.symm i) = t.basis.rowLabel i := by
    rw [h'.represents.consistent.rowLabel_eq, h.represents.consistent.rowLabel_eq, labels, order,
      Function.comp_apply, Equiv.apply_symm_apply]
  have passed := (enters.reorder h h' order).pivotIn_eq h'.represents
  rw [labels, leaves] at passed
  refine ⟨_, ⟨passed, exchanges.entering_proper, exchanges.leaving_proper, exchanges.moved⟩, ?_⟩
  rw [columns_exchangeColumn, columns_exchangeColumn, order]
  have update := Function.update_comp_eq_of_injective t.basis.columns.get σ.injective (σ.symm i) j
  rw [Equiv.apply_symm_apply] at update
  exact update.symm

end Exchanges

/-! ### Traces -/

theorem not_stopsAt_complement {start l : Label} (defined : start ≠ .slack 0)
    (valid : l ≠ .slack 0) (continues : ¬StopsAt start l) : ¬StopsAt start l.complement := by
  have back := Label.complement_complement valid
  rintro (own | across | artificial)
  · exact continues (Or.inr (Or.inl (by rw [← own, back])))
  · exact continues (Or.inl (by rw [← back, across, Label.complement_complement defined]))
  · exact continues (Or.inr (Or.inr (by rw [← back, artificial]; rfl)))

/-- The pivots of a path that drops `start`, from the label that enters first up to the label that
leaves last. The path stops at none of the labels that leave before. -/
inductive Trace (start : Label) : Tableau ℚ r c → Label → Nat → Label → Tableau ℚ r c → Prop
  | last {t entering leaving next} (exchanges : t.Exchanges entering leaving next) :
    Trace start t entering 0 leaving next
  | step {t entering between middle steps leaving next}
    (exchanges : t.Exchanges entering between middle) (continues : ¬StopsAt start between)
    (rest : Trace start middle between.complement steps leaving next) :
    Trace start t entering (steps + 1) leaving next

namespace Trace

variable {start entering leaving : Label} {steps : Nat} {next : Tableau ℚ r c}

theorem of_iterate {p : Label × Tableau ℚ r c}
    (exchanges : ∀ i ≤ steps, ∃ leaving next,
      (advance^[i] p).2.Exchanges (advance^[i] p).1 leaving next)
    (on : ∀ i < steps, GoesOn (StopsAt start) (advance^[i] p))
    (passed : (advance^[steps] p).2.pivotIn (advance^[steps] p).1 = ⟨.ok leaving, next⟩) :
    Trace start p.2 p.1 steps leaving next := by
  induction steps generalizing p with
  | zero =>
    obtain ⟨_, _, exchange⟩ := exchanges 0 le_rfl
    cases exchange.passed.symm.trans passed
    exact .last exchange
  | succ steps ih =>
    obtain ⟨_, _, exchange⟩ := exchanges 0 (Nat.zero_le _)
    obtain ⟨between, middle, passed', continues⟩ := on 0 (Nat.succ_pos _)
    cases exchange.passed.symm.trans passed'
    have rest := ih (p := advance p) (fun i bound => exchanges (i + 1) (Nat.succ_le_succ bound))
      (fun i bound => on (i + 1) (Nat.succ_lt_succ bound)) passed
    rw [advance_eq (p := p) exchange.passed] at rest
    exact .step exchange continues rest

/-- A path that can afford its pivots ends where its trace does. -/
theorem follow_eq_ok (trace : Trace start t entering steps leaving next)
    (stops : StopsAt start leaving) {budget : Nat} (affordable : steps < budget) :
    follow start budget entering t = ⟨.ok (), next⟩ := by
  obtain ⟨budget, rfl⟩ := Nat.exists_eq_succ_of_ne_zero (Nat.ne_zero_of_lt affordable)
  induction trace generalizing budget with
  | @last t entering _ _ exchanges =>
    exact follow_succ_of_stops (p := (entering, t)) exchanges.passed stops budget
  | @step t entering _ _ _ _ _ exchanges continues _ ih =>
    obtain ⟨budget, rfl⟩ := Nat.exists_eq_succ_of_ne_zero
      (Nat.ne_zero_of_lt (Nat.lt_of_succ_lt_succ affordable))
    rw [follow_succ_of_goesOn (p := (entering, t)) ⟨_, _, exchanges.passed, continues⟩,
      advance_eq (p := (entering, t)) exchanges.passed]
    exact ih stops budget (Nat.lt_of_succ_lt_succ affordable)

theorem feasible (trace : Trace start t entering steps leaving next)
    (h : FeasibleFrom system origin t) : FeasibleFrom system origin next := by
  induction trace with
  | last exchanges => exact exchanges.feasible h
  | step exchanges _ _ ih => exact ih (exchanges.feasible h)

/-- One more pivot at the end of a trace. -/
theorem extend (trace : Trace start t entering steps leaving next)
    (continues : ¬StopsAt start leaving) {leaving' : Label} {next' : Tableau ℚ r c}
    (exchanges : next.Exchanges leaving.complement leaving' next') :
    Trace start t entering (steps + 1) leaving' next' := by
  induction trace with
  | last first => exact .step first continues (.last exchanges)
  | step first goes _ ih => exact .step first goes (ih continues exchanges)

/-- With the rows in another order a path makes the same pivots. -/
theorem reorder (trace : Trace start t entering steps leaving next)
    (h : FeasibleFrom system origin t) (h' : FeasibleFrom system origin t')
    {σ : Equiv.Perm (Fin r)} (order : t'.basis.columns.get = t.basis.columns.get ∘ σ) :
    ∃ next', Trace start t' entering steps leaving next' ∧
      next'.basis.columns.get = next.basis.columns.get ∘ σ := by
  induction trace generalizing t' with
  | last exchanges =>
    obtain ⟨next', exchanges', order'⟩ := exchanges.reorder h h' order
    exact ⟨next', .last exchanges', order'⟩
  | step exchanges continues _ ih =>
    obtain ⟨middle', exchanges', order'⟩ := exchanges.reorder h h' order
    obtain ⟨next', rest', order''⟩ := ih (exchanges.feasible h) (exchanges'.feasible h') order'
    exact ⟨next', .step exchanges' continues rest', order''⟩

/-- A trace read backwards is a trace, and it ends where the trace started, row by row. -/
theorem reverse (trace : Trace start t entering steps leaving next)
    (h : FeasibleFrom system origin t) (defined : start ≠ .slack 0) :
    ∃ before, Trace start next leaving steps entering before ∧
      before.basis.columns.get = t.basis.columns.get := by
  induction trace with
  | last exchanges =>
    obtain ⟨before, back, restored⟩ := exchanges.back h
    exact ⟨before, .last back, restored⟩
  | step exchanges continues rest ih =>
    have feasible := exchanges.feasible h
    have valid := exchanges.leaving_ne_slack_zero h.represents
    obtain ⟨middle', rest', order⟩ := ih feasible
    obtain ⟨_, back, restored⟩ := exchanges.back h
    -- The rest, read backwards, ends at the basis between, where the first pivot is undone.
    have feasible' := rest'.feasible (rest.feasible feasible)
    obtain ⟨before, back', order'⟩ := back.reorder feasible feasible' (σ := Equiv.refl _) order
    rw [← Label.complement_complement valid] at back'
    exact ⟨before, rest'.extend (not_stopsAt_complement defined valid continues) back',
      order'.trans restored⟩

end Trace

end LexPivot.Tableau
