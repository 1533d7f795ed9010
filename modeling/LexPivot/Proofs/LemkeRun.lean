import Mathlib
import LexPivot.Proofs.CoverPivot

/-!
# Runs of Lemke's algorithm

As long as the covering column is basic, the tableau is feasible and holds no complementary pair,
nor either label of the pair that comes next. So where the covering column is zero, basic or not,
the tableau is at a solution, and where nothing bounds the entering column, it is on a ray of
complementary points.

The path comes to its end. The only flag across its start is the ray on which the covering column
came in, and no pivot leads there, since that ray has no row to leave. For the same reason a ray at
the end is another one than that, and some variable grows on it.
-/
namespace LexPivot

open Matrix

namespace Tableau

variable {r c : Nat}

/-- A run goes on from where its trace has come to. -/
theorem lemkeFrom_of_goesOn {steps : Nat} {s : Label × Tableau ℚ r c}
    (on : ∀ i < steps, GoesOn (· = .artificial) (advance^[i] s)) (budget : Nat) :
    lemkeFrom (steps + budget) s.1 s.2 =
      lemkeFrom budget (advance^[steps] s).1 (advance^[steps] s).2 := by
  induction steps generalizing s with
  | zero => rw [Nat.zero_add, Function.iterate_zero_apply]
  | succ steps ih =>
    obtain ⟨leaving, next, passed, proper⟩ := on 0 (Nat.succ_pos steps)
    rw [Function.iterate_zero_apply] at passed
    have stays : leaving.isArtificial = false := beq_eq_false_iff_ne.mpr proper
    rw [Function.iterate_succ_apply, ← ih fun i bound => on (i + 1) (Nat.succ_lt_succ bound),
      Nat.add_right_comm, advance_eq passed]
    simp [lemkeFrom, passed, stays]

/-- A path that does not go on for the whole budget has a first pivot after which it stops. -/
theorem exists_first_stop {stop : Label → Prop} {s : Label × Tableau ℚ r c} {budget : Nat}
    (ends : ¬∀ i < budget, GoesOn stop (advance^[i] s)) :
    ∃ steps rest, budget = steps + (rest + 1) ∧ (∀ i < steps, GoesOn stop (advance^[i] s)) ∧
      ¬GoesOn stop (advance^[steps] s) := by
  classical
  push Not at ends
  have below := (Nat.find_spec ends).1
  refine ⟨Nat.find ends, budget - Nat.find ends - 1, by omega, fun i earlier => ?_,
    (Nat.find_spec ends).2⟩
  by_contra stops
  exact Nat.find_min ends earlier ⟨earlier.trans below, stops⟩

end Tableau

namespace ComplementarityProblem

open Tableau

variable {n : Nat} {p : ComplementarityProblem ℚ n} {origin : Tableau ℚ n (n + 1)}
  {s : Label × Tableau ℚ n (n + 1)}

theorem artificialRemains_iff {t : Tableau ℚ n (n + 1)} (represents : t.Represents p.system)
    (first : t.basis.first = 0) : t.artificialRemains = true ↔ t.point coverColumn ≠ 0 := by
  rcases represents.basicValue_cases coverColumn with value | ⟨⟨e, none⟩, zero⟩
  · rw [labelAt_cover first] at value
    simp only [artificialRemains, value, Bool.not_eq_true', ← Bool.not_eq_true,
      Scalar.isNegligible_iff, ne_eq]
  · rw [labelAt_cover first] at none
    simp [artificialRemains, none, zero]

/-! ### States of a path -/

/-- The states of a path: the entering label and the tableau it is to enter. -/
structure OnPath (p : ComplementarityProblem ℚ n) (origin : Tableau ℚ n (n + 1))
    (s : Label × Tableau ℚ n (n + 1)) : Prop where
  feasible : FeasibleFrom p.system origin s.2
  first : origin.basis.first = 0
  almost : AlmostComplementary 0 s
  covered : s.2.basis.Holds .artificial

/-- A point of the equations and a direction of complementary points from it, on which some variable
grows. The covering column grows too, or it is positive at the point. -/
structure SecondaryRay (p : ComplementarityProblem ℚ n) (z d : Fin (n + 1 + n) → ℚ) : Prop where
  solves : Solves p.system z
  direction : IsDirection p.system d
  nonneg : ∀ l, 0 ≤ z l
  direction_nonneg : ∀ l, 0 ≤ d l
  point_apart : ∀ k, z (variableColumn k) * d (slackColumn k) = 0
  direction_apart : ∀ k, d (variableColumn k) * z (slackColumn k) = 0
  complementary : ∀ k, d (variableColumn k) * d (slackColumn k) = 0
  grows : ∃ k, d (variableColumn k) ≠ 0
  stuck : d coverColumn = 0 → 0 < z coverColumn

namespace OnPath

variable (h : OnPath p origin s)

include h

theorem basis_first : s.2.basis.first = 0 := h.feasible.first.trans h.first

theorem consistent : s.2.basis.Consistent := h.feasible.represents.consistent

theorem exists_cover_row : ∃ i, s.2.basis.columns.get i = coverColumn := by
  have covered := h.covered
  rwa [← labelAt_cover h.basis_first, h.consistent.holds_labelAt_iff] at covered

/-- What the next pivot of a path can come to. -/
theorem pivotIn_cases :
    ∃ j, s.2.basis.labelAt j = s.1 ∧
      (((∀ k, s.2.values k j.castSucc ≤ 0) ∧
        ((s.2.pivotIn s.1 = ⟨.ok .artificial, s.2⟩ ∧
          basicRay s.2.values s.2.basis.columns.get j coverColumn = 0) ∨
        (s.2.pivotIn s.1 = ⟨.error (.noExitRow s.1), s.2⟩ ∧
          basicRay s.2.values s.2.basis.columns.get j coverColumn ≠ 0))) ∨
      ∃ leaving next, s.2.pivotIn s.1 = ⟨.ok leaving, next⟩ ∧ Replaces s.2 s.1 leaving next) := by
  have represents := h.feasible.represents
  obtain ⟨row, cover⟩ := h.exists_cover_row
  have label : s.2.basis.rowLabel row = .artificial := by
    rw [h.consistent.rowLabel_eq, cover, labelAt_cover h.basis_first]
  rcases represents.pivotIn_cases s.1 with
    ⟨undefined, _⟩ | ⟨j, enters, ⟨nonpos, stops⟩ | ⟨i, exit, ⟨held, _⟩ | ⟨_, done⟩⟩⟩
  · obtain ⟨j, enters⟩ := h.almost.valid
    exact absurd enters (undefined j)
  · refine ⟨j, enters, Or.inl ⟨nonpos, ?_⟩⟩
    have ne : s.2.basis.columns.get row ≠ j := by
      rintro rfl
      rw [h.consistent.rowLabel_eq] at label
      exact h.almost.proper (enters.symm.trans label)
    have grows : basicRay s.2.values s.2.basis.columns.get j coverColumn =
        -s.2.values row j.castSucc := by
      rw [← cover, basicRay_basic represents.distinct ne]
    rw [grows, ne_eq, neg_eq_zero]
    -- The artificial label is basic in one row only.
    rcases stops with ⟨i, artificial, zero, done⟩ | ⟨nonzero, done⟩
    · have same : i = row := h.consistent.rowLabel_injective (artificial.trans label.symm)
      exact Or.inl ⟨done, same ▸ zero⟩
    · exact Or.inr ⟨done, nonzero row label⟩
  · refine absurd ?_ h.almost.nonbasic
    rw [← enters, h.consistent.holds_labelAt_iff]
    exact ⟨i, held⟩
  · refine ⟨j, enters, Or.inr ⟨_, _, done, ?_, ⟨i, rfl⟩, ?_⟩⟩
    · exact (represents.exchangeColumn (ne_of_gt exit.1)).consistent
    · rw [← enters]
      exact holds_exchangeColumn h.consistent

theorem feasible_next {leaving : Label} {next : Tableau ℚ n (n + 1)}
    (passed : s.2.pivotIn s.1 = ⟨.ok leaving, next⟩) : FeasibleFrom p.system origin next := by
  have kept := h.feasible.pivotIn_state s.1
  rwa [passed] at kept

/-- A pivot after which the path goes on exchanges two labels. -/
theorem replaces_of_goesOn (on : GoesOn (· = .artificial) s) :
    ∃ leaving next, s.2.pivotIn s.1 = ⟨.ok leaving, next⟩ ∧ leaving ≠ .artificial ∧
      Replaces s.2 s.1 leaving next := by
  obtain ⟨leaving, next, passed, proper⟩ := on
  obtain ⟨_, _, ⟨_, ⟨done, _⟩ | ⟨done, _⟩⟩ | ⟨_, _, done, replaces⟩⟩ := h.pivotIn_cases
  all_goals cases passed.symm.trans done
  · exact absurd rfl proper
  · exact ⟨leaving, next, passed, proper, replaces⟩

/-- A path that goes on stays a path. -/
theorem advance (on : GoesOn (· = .artificial) s) : OnPath p origin (advance s) := by
  obtain ⟨leaving, next, passed, proper, replaces⟩ := h.replaces_of_goesOn on
  have feasible := h.feasible_next passed
  have valid : ∃ j, next.basis.labelAt j = leaving := by
    obtain ⟨i, rfl⟩ := replaces.left
    rw [h.consistent.rowLabel_eq, h.feasible.labelAt, ← feasible.labelAt]
    exact ⟨_, rfl⟩
  rw [advance_eq passed]
  refine ⟨feasible, h.first, ?_, ?_⟩
  · exact h.almost.next_of_index_ne replaces proper
      (exists_complement (feasible.first.trans h.first) valid proper)
      (h.consistent.index_ne_zero replaces.left proper)
  · exact (replaces.holds _).mpr (Or.inr ⟨proper.symm, h.covered⟩)

theorem iterate (steps : Nat)
    (on : ∀ i < steps, GoesOn (· = .artificial) (Tableau.advance^[i] s)) :
    OnPath p origin (Tableau.advance^[steps] s) := by
  induction steps with
  | zero => exact h
  | succ steps ih =>
    rw [Function.iterate_succ_apply']
    exact (ih fun i bound => on i (Nat.lt_succ_of_lt bound)).advance (on steps (Nat.lt_succ_self _))

/-- The covering column is zero once it has left. -/
theorem cover_eq_zero_of_leaves {next : Tableau ℚ n (n + 1)}
    (done : s.2.pivotIn s.1 = ⟨.ok .artificial, next⟩)
    (replaces : Replaces s.2 s.1 .artificial next) : next.point coverColumn = 0 := by
  have first : next.basis.first = 0 := (h.feasible_next done).first.trans h.first
  by_contra nonzero
  apply h.almost.not_holds_leaving replaces
  rw [← labelAt_cover first]
  exact replaces.consistent.holds_labelAt_iff.mpr (exists_row_of_point_ne_zero nonzero)

/-- Of a complementary pair, one column is neither basic nor about to enter. -/
theorem not_both {j : Fin (n + 1 + n)} (enters : s.2.basis.labelAt j = s.1) {k : Fin n}
    (weight : variableColumn k = j ∨ ∃ i, s.2.basis.columns.get i = variableColumn k)
    (slack : slackColumn k = j ∨ ∃ i, s.2.basis.columns.get i = slackColumn k) : False := by
  have variableLabel := labelAt_variable h.basis_first k
  have slackLabel := labelAt_slack s.2.basis k
  rcases weight with rfl | weight
  · rcases slack with same | slack
    · rw [same, variableLabel] at slackLabel
      cases slackLabel
    · have free := h.almost.across
      rw [← enters, variableLabel] at free
      refine free (Nat.succ_ne_zero _) ?_
      rw [Label.complement_structural_succ, ← slackLabel]
      exact h.consistent.holds_labelAt_iff.mpr slack
  · have held := h.consistent.holds_labelAt_iff.mpr weight
    rw [variableLabel] at held
    rcases slack with rfl | slack
    · have free := h.almost.across
      rw [← enters, slackLabel] at free
      exact free (Nat.succ_ne_zero _) held
    · have held' := h.consistent.holds_labelAt_iff.mpr slack
      rw [slackLabel] at held'
      exact Nat.succ_ne_zero _
        (h.almost.pairs _ (Label.structural_succ_ne_artificial k) held held')

/-- Where nothing bounds the entering column, the path is on a ray. -/
theorem secondaryRay {j : Fin (n + 1 + n)} (enters : s.2.basis.labelAt j = s.1)
    (nonpos : ∀ k, s.2.values k j.castSucc ≤ 0)
    (grows : ∃ k, basicRay s.2.values s.2.basis.columns.get j (variableColumn k) ≠ 0)
    (stuck : basicRay s.2.values s.2.basis.columns.get j coverColumn = 0 →
      s.2.point coverColumn ≠ 0) :
    p.SecondaryRay s.2.point (basicRay s.2.values s.2.basis.columns.get j) := by
  have nonneg (l : Fin (n + 1 + n)) : 0 ≤ s.2.point l :=
    spread_nonneg (fun i => h.feasible.feasible.nonneg i) l
  have support {l : Fin (n + 1 + n)} (nonzero : s.2.point l ≠ 0) :
      l = j ∨ ∃ i, s.2.basis.columns.get i = l := Or.inr (exists_row_of_point_ne_zero nonzero)
  have support' {l : Fin (n + 1 + n)}
      (nonzero : basicRay s.2.values s.2.basis.columns.get j l ≠ 0) :=
    eq_or_basic_of_basicRay_ne_zero nonzero
  refine ⟨h.feasible.represents.solves_point, h.feasible.represents.reduced.isDirection_basicRay j,
    nonneg, basicRay_nonneg nonpos, fun k => ?_, fun k => ?_, fun k => ?_, grows,
    fun zero => (nonneg _).lt_of_ne' (stuck zero)⟩
  -- A product that is not zero would have both columns of the pair in the support.
  all_goals
    by_contra product
    obtain ⟨left, right⟩ := mul_ne_zero_iff.mp product
  · exact h.not_both enters (support left) (support' right)
  · exact h.not_both enters (support' left) (support right)
  · exact h.not_both enters (support' left) (support' right)

/-- A ray on which no variable grows is one from a basis of slacks and the covering column. -/
theorem exists_coverBasis {j : Fin (n + 1 + n)} (enters : s.2.basis.labelAt j = s.1)
    (still : ∀ k, basicRay s.2.values s.2.basis.columns.get j (variableColumn k) = 0) :
    ∃ k : Fin n, s.1 = .slack (k + 1) ∧
      ∃ σ : Equiv.Perm (Fin n), s.2.basis.columns.get ∘ σ = coverBasis k := by
  have represents := h.feasible.represents
  have nonbasic (i : Fin n) : s.2.basis.columns.get i ≠ j := by
    rintro rfl
    exact h.almost.nonbasic ⟨i, (h.consistent.rowLabel_eq i).trans enters⟩
  have self : basicRay s.2.values s.2.basis.columns.get j j = 1 := basicRay_self nonbasic
  have slacks (i : Fin n) : basicRay s.2.values s.2.basis.columns.get j (slackColumn i) =
      basicRay s.2.values s.2.basis.columns.get j coverColumn := by
    rw [slack_of_direction (represents.reduced.isDirection_basicRay j)]
    simp [still]
  rcases column_cases j with rfl | ⟨k, rfl⟩ | ⟨k, rfl⟩
  · exact absurd (enters.symm.trans (labelAt_cover h.basis_first)) h.almost.proper
  · exact absurd ((still k).symm.trans self) zero_ne_one
  · refine ⟨k, by rw [← enters, labelAt_slack], ?_⟩
    -- All slacks grow at the same rate, so all but the entering one are basic.
    have row (i : Fin n) : ∃ q, s.2.basis.columns.get q = coverBasis k i := by
      by_cases same : i = k
      · rw [same, coverBasis, Function.update_self]
        exact h.exists_cover_row
      · rw [coverBasis, Function.update_of_ne same]
        have moves : basicRay s.2.values s.2.basis.columns.get (slackColumn k) (slackColumn i) ≠
            0 := by
          rw [slacks, ← slacks k, self]
          exact one_ne_zero
        exact (eq_or_basic_of_basicRay_ne_zero moves).resolve_left
          fun equal => same (slackColumn_injective equal)
    choose f held using row
    have injective : Function.Injective f := by
      intro i q equal
      apply coverBasis_injective k
      rw [← held i, ← held q, equal]
    exact ⟨Equiv.ofBijective f (Finite.injective_iff_bijective.mp injective), funext held⟩

end OnPath

/-! ### The path from the first pivot -/

section Path

variable {start : Tableau ℚ n (n + 1)} {i : Fin n}

theorem onPath_start (feasible : FeasibleFrom p.system start start)
    (first : start.basis.first = 0) (columns : start.basis.columns.get = coverBasis i) :
    OnPath p start (.structural (i + 1), start) := by
  have consistent := feasible.represents.consistent
  -- Basic are the artificial label and all slacks except that of the row.
  have holds (l : Label) : start.basis.Holds l →
      l = .artificial ∨ ∃ k, k ≠ i ∧ l = .slack (k + 1) := by
    rintro ⟨q, rfl⟩
    rw [consistent.rowLabel_eq, columns]
    by_cases same : q = i
    · left
      rw [same, coverBasis, Function.update_self, labelAt_cover first]
    · right
      rw [coverBasis, Function.update_of_ne same, labelAt_slack]
      exact ⟨q, same, rfl⟩
  have absent (k : Nat) : ¬start.basis.Holds (.structural (k + 1)) := by
    intro held
    rcases holds _ held with artificial | ⟨q, _, label⟩
    · exact Label.structural_succ_ne_artificial k artificial
    · cases label
  refine ⟨feasible, first, ⟨consistent, ⟨_, labelAt_variable first i⟩,
    Label.structural_succ_ne_artificial i, absent i, fun l proper held held' => ?_,
    fun _ held => ?_⟩, ⟨i, ?_⟩⟩
  · rcases holds l held with artificial | ⟨q, _, rfl⟩
    · exact absurd artificial proper
    · exact absurd held' (absent q)
  · rcases holds _ held with artificial | ⟨q, ne, label⟩
    · exact Label.slack_ne_artificial _ artificial
    · rw [Label.complement_structural_succ, Label.slack.injEq, Nat.add_right_cancel_iff] at label
      exact ne (Fin.ext label.symm)
  · rw [consistent.rowLabel_eq, columns, coverBasis, Function.update_self, labelAt_cover first]

/-- No pivot leads to the ray on which the covering column came in. -/
theorem not_paired_across (feasible : FeasibleFrom p.system start start)
    (columns : start.basis.columns.get = coverBasis i) (x : Flag n (n + 1)) :
    ¬Paired p.system start x (turn (flag (.structural (i + 1), start))) := by
  intro paired
  obtain ⟨t, k, j, feasible', exit, across, _⟩ := paired.symm
  obtain ⟨range, label⟩ := Prod.mk.inj across
  have column : j = slackColumn i := by
    apply t.basis.labelAt_injective
    rw [← label, labelAt_slack]
    rfl
  obtain ⟨σ, _, values⟩ := feasible.represents.exists_perm feasible'.represents range.symm
  have reduced := feasible.represents.reduced
  rw [columns] at reduced
  have positive : 0 < start.values (σ k) (slackColumn i).castSucc := by
    have bounds := exit.1
    rwa [values, column] at bounds
  -- The slack that left is negative in every row.
  by_cases same : σ k = i
  · rw [same, (reduced_coverBasis reduced _).1, system_slack, if_pos rfl] at positive
    linarith
  · rw [(reduced_coverBasis reduced _).2 _ same, system_slack, system_slack, if_pos rfl,
      if_neg (Ne.symm same)] at positive
    linarith

/-- On a ray that the path meets, some variable grows. -/
theorem exists_variable_grows (feasible : FeasibleFrom p.system start start)
    (first : start.basis.first = 0) (columns : start.basis.columns.get = coverBasis i) {steps : Nat}
    (on : ∀ q < steps, GoesOn (· = .artificial) (advance^[q] (.structural (i + 1), start)))
    (reached : advance^[steps] (.structural (i + 1), start) = s) {j : Fin (n + 1 + n)}
    (enters : s.2.basis.labelAt j = s.1) :
    ∃ k, basicRay s.2.values s.2.basis.columns.get j (variableColumn k) ≠ 0 := by
  by_contra still
  push Not at still
  have path := onPath_start feasible first columns
  have last := path.iterate steps on
  rw [reached] at last
  obtain ⟨k, label, σ, permuted⟩ := last.exists_coverBasis enters still
  have reduced := feasible.represents.reduced
  rw [columns] at reduced
  have reduced' := last.feasible.represents.reduced.permute σ
  rw [permuted] at reduced'
  -- Both bases are of slacks and the covering column, and only one such basis is feasible.
  have row : k = i := by
    refine coverBasis_unique start.lexColumns reduced' reduced (fun q => ?_) feasible.feasible
    have positive := last.feasible.feasible (σ q)
    rwa [last.feasible.lexColumns] at positive
  have range : Set.range s.2.basis.columns.get = Set.range start.basis.columns.get := by
    rw [← σ.surjective.range_comp, permuted, row, columns]
  have across : flag s = turn (flag (.structural (i + 1), start)) := by
    rw [flag, range, label, row]
    rfl
  -- So the path would have come back to its start from the other side.
  subst reached
  cases steps with
  | zero => cases (Prod.mk.inj across).2
  | succ steps =>
    refine path.feasible.path_last_ne_first steps (fun q bound => ?_) (by rw [across]; rfl)
    have state := path.iterate q fun q' below => on q' (below.trans (Nat.lt_succ_of_le bound))
    obtain ⟨leaving, next, passed, proper, replaces⟩ :=
      state.replaces_of_goesOn (on q (Nat.lt_succ_of_le bound))
    exact ⟨leaving, next, passed, proper, state.almost.leaving_ne replaces⟩

/-! ### Ends of a run -/

/-- How a run of the algorithm ends. -/
inductive Ends (p : ComplementarityProblem ℚ n) : LemkeOutcome ℚ → Tableau ℚ n (n + 1) → Prop
  | solved {t : Tableau ℚ n (n + 1)}
    (solution : p.IsSolution fun k => t.complementarySolution.get (.structural (k + 1))) :
    Ends p (.solved t.complementarySolution) t
  | ray {t : Tableau ℚ n (n + 1)} {d : Fin (n + 1 + n) → ℚ} (ray : p.SecondaryRay t.point d) :
    Ends p .ray t

/-- When the artificial label leaves at zero, with or without a pivot, the run ends in a
solution. -/
theorem lemkeFrom_of_cover_eq_zero {next : Tableau ℚ n (n + 1)}
    (done : s.2.pivotIn s.1 = ⟨.ok .artificial, next⟩)
    (feasible : FeasibleFrom p.system origin next) (first : next.basis.first = 0)
    (complementary : next.isComplementary = true) (zero : next.point coverColumn = 0)
    (budget : Nat) :
    ∃ outcome final, lemkeFrom (budget + 1) s.1 s.2 = ⟨.ok outcome, final⟩ ∧
      p.Ends outcome final := by
  have gone : next.artificialRemains = false := by
    simpa [zero] using artificialRemains_iff feasible.represents first
  refine ⟨.solved next.complementarySolution, next, ?_, .solved ?_⟩
  · simp [lemkeFrom, done, Label.isArtificial, gone]
  · exact isSolution_of_cover_eq_zero feasible.represents first
      (fun i => feasible.feasible.nonneg i) complementary zero

/-- Where the path does not go on, it ends in a solution or on a ray. -/
theorem OnPath.lemkeFrom_succ (h : OnPath p origin s) (stops : ¬GoesOn (· = .artificial) s)
    (grows : ∀ j, s.2.basis.labelAt j = s.1 →
      ∃ k, basicRay s.2.values s.2.basis.columns.get j (variableColumn k) ≠ 0) (budget : Nat) :
    ∃ outcome final, lemkeFrom (budget + 1) s.1 s.2 = ⟨.ok outcome, final⟩ ∧
      p.Ends outcome final := by
  obtain ⟨j, enters, ⟨nonpos, ⟨done, _⟩ | ⟨done, nonzero⟩⟩ |
    ⟨leaving, next, done, replaces⟩⟩ := h.pivotIn_cases
  · -- The covering column cannot leave, so all depends on whether it is zero.
    by_cases level : s.2.point coverColumn = 0
    · exact lemkeFrom_of_cover_eq_zero done h.feasible h.basis_first
        (isComplementary_of_pairs h.consistent h.almost.pairs) level budget
    · have remains := (artificialRemains_iff h.feasible.represents h.basis_first).mpr level
      refine ⟨.ray, s.2, ?_, .ray (h.secondaryRay enters nonpos (grows j enters) fun _ => level)⟩
      simp [lemkeFrom, done, Label.isArtificial, remains]
  · have ray := h.secondaryRay enters nonpos (grows j enters) fun zero => absurd zero nonzero
    exact ⟨.ray, s.2, by simp only [lemkeFrom, done], .ray ray⟩
  · have artificial : leaving = .artificial := by
      by_contra proper
      exact stops ⟨leaving, next, done, proper⟩
    subst artificial
    have feasible := h.feasible_next done
    exact lemkeFrom_of_cover_eq_zero done feasible (feasible.first.trans h.first)
      (isComplementary_of_pairs replaces.consistent fun _ => h.almost.pairs_next replaces)
      (h.cover_eq_zero_of_leaves done replaces) budget

end Path

/-- From the slack basis the algorithm ends in a solution or on a ray. -/
theorem lemke_ends {t : Tableau ℚ n (n + 1)} (represents : t.Represents p.system)
    (basis : t.basis = Basis.slack 0) :
    ∃ outcome final, t.lemke = ⟨.ok outcome, final⟩ ∧ p.Ends outcome final := by
  have first : t.basis.first = 0 := by rw [basis]; rfl
  by_cases negative : t.negativeRows = []
  · refine ⟨.solved t.complementarySolution, t, by simp [lemke, negative], .solved ?_⟩
    have nonneg (i : Fin n) : 0 ≤ t.values i (Fin.last (n + 1 + n)) := by
      rw [← not_lt, ← mem_negativeRows_iff, negative]
      exact List.not_mem_nil
    have zero : t.point coverColumn = 0 := spread_nonbasic _ fun i same => by
      rw [columns_of_slack basis] at same
      exact coverColumn_ne_slackColumn i same.symm
    exact isSolution_of_cover_eq_zero represents first nonneg (isComplementary_of_slack basis) zero
  · obtain ⟨i, row, pivots, columns, feasible⟩ := pivot_coverRow represents basis negative
    have first' := (t.first_exchangeColumn i coverColumn).trans first
    have path := onPath_start feasible first' columns
    -- The ray on which the covering column came in is the one flag across the start.
    obtain ⟨steps, rest, budget, on, stops⟩ := exists_first_stop
      (path.feasible.path_ends (· = .artificial) rfl
        fun x paired => absurd paired (not_paired_across feasible columns x))
    obtain ⟨outcome, final, done, ends⟩ := (path.iterate steps on).lemkeFrom_succ stops
      (fun j => exists_variable_grows feasible first' columns on rfl) rest
    refine ⟨outcome, final, ?_, ends⟩
    rw [← lemkeFrom_of_goesOn on, ← budget] at done
    simpa [lemke, negative, row, pivots] using done

theorem solve_cases (p : ComplementarityProblem ℚ n) :
    (∃ z, p.solve = .ok (.solved z) ∧ p.IsSolution fun k => z.get (.structural (k + 1))) ∨
    p.solve = .ok .ray ∧ ∃ z d, p.SecondaryRay z d := by
  obtain ⟨t, built, represents, basis, _⟩ := p.tableau_represents
  obtain ⟨outcome, final, run, ends⟩ := lemke_ends represents basis
  have result : p.solve = .ok outcome := by simp only [solve, built, run]
  cases ends with
  | solved solution => exact Or.inl ⟨_, result, solution⟩
  | ray ray => exact Or.inr ⟨result, _, _, ray⟩

/-- What the algorithm gives as a solution solves the problem. -/
theorem solve_isSolution (p : ComplementarityProblem ℚ n) {z : BasicSolution ℚ}
    (solved : p.solve = .ok (.solved z)) :
    p.IsSolution fun k => z.get (.structural (k + 1)) := by
  rcases p.solve_cases with ⟨z', solved', solution⟩ | ⟨ray, _⟩
  · cases solved.symm.trans solved'
    exact solution
  · cases solved.symm.trans ray

/-- Here the path stops with the artificial label still basic, at level zero. -/
theorem solve_isSolution_artificial_basic :
    let p : ComplementarityProblem ℚ 3 :=
      ⟨#v[#v[1, -1, 1], #v[1, 0, 0], #v[0, -1, 1]], #v[-2, -1, -1]⟩
    ∃ t z, p.tableau = .ok t ∧ t.lemke.state.basis.isMember .artificial = true ∧
      p.solve = .ok (.solved z) ∧ p.IsSolution fun k => z.get (.structural (k + 1)) := by
  intro p
  obtain ⟨t, built, _⟩ := p.tableau_represents
  have held : (match p.tableau with
      | .ok t => t.lemke.state.basis.isMember .artificial
      | .error _ => false) = true := by decide +kernel
  have ends : (match p.solve with
      | .ok (.solved _) => true
      | _ => false) = true := by decide +kernel
  rw [built] at held
  split at ends
  next z solved => exact ⟨t, z, built, held, solved, p.solve_isSolution solved⟩
  next => cases ends

end ComplementarityProblem

end LexPivot
