import Mathlib
import LexPivot.Proofs.AlmostComplementary
import LexPivot.Proofs.GameSystem
import LexPivot.Proofs.PathTrace

/-!
# Every path of a game succeeds

In the tableau of a game a label can always enter, since the weights are bounded, and there are as
many rows as complementary pairs. So a path that drops a label ends at a complementary basis, and
it is another one than the basis it started from.
-/
namespace LexPivot

open Matrix

namespace GameTableau

open Tableau

variable {m n : Nat} {payoff₁ payoff₂ : Grid ℚ m n} {origin t : GameTableau ℚ m n}

theorem not_holds_artificial (h : t.Represents (system payoff₁ payoff₂))
    (first : t.basis.first = 0) : ¬t.basis.Holds .artificial := by
  rintro ⟨i, label⟩
  rw [← labelAt_cover first, h.consistent.rowLabel_eq_labelAt_iff] at label
  exact cover_nonbasic h i label

/-- The weights are bounded, so every label that is not basic can enter. -/
theorem pivotIn_eq_ok (some_row : 0 < m) (some_column : 0 < n)
    (feasible : FeasibleFrom (system payoff₁ payoff₂) origin t) (first : t.basis.first = 0)
    {entering : Label} (valid : ∃ j, t.basis.labelAt j = entering)
    (proper : entering ≠ .artificial) (nonbasic : ¬t.basis.Holds entering) :
    ∃ leaving next, t.pivotIn entering = ⟨.ok leaving, next⟩ ∧ leaving ≠ .artificial ∧
      Replaces t entering leaving next := by
  have represents := feasible.represents
  rcases represents.pivotIn_cases entering with
    ⟨undefined, _⟩ | ⟨j, rfl, ⟨nonpos, _⟩ | ⟨i, _, ⟨held, _⟩ | ⟨_, done⟩⟩⟩
  · obtain ⟨j, label⟩ := valid
    exact absurd label (undefined j)
  · have direction := represents.reduced.isDirection_basicRay j
    have zero := direction_eq_zero some_row some_column direction (basicRay_nonneg nonpos)
    have unit : basicRay t.values t.basis.columns.get j j = 1 :=
      basicRay_self fun k held => nonbasic (represents.consistent.holds_labelAt_iff.mpr ⟨k, held⟩)
    rcases column_cases j with rfl | ⟨k, rfl⟩ | ⟨k, rfl⟩
    · exact absurd (labelAt_cover first) proper
    · exact absurd ((zero k).1.symm.trans unit) zero_ne_one
    · exact absurd ((zero k).2.symm.trans unit) zero_ne_one
  · exact absurd (represents.consistent.holds_labelAt_iff.mpr ⟨i, held⟩) nonbasic
  · have kept := represents.pivotIn_state (t.basis.labelAt j)
    rw [done] at kept
    refine ⟨_, _, done, fun artificial => ?_,
      ⟨kept.1.consistent, ⟨i, rfl⟩, holds_exchangeColumn represents.consistent⟩⟩
    exact not_holds_artificial represents first ⟨i, artificial⟩

/-- A complementary basis has one label of every pair. -/
theorem holds_xor (h : t.Represents (system payoff₁ payoff₂)) (first : t.basis.first = 0)
    (complementary : t.isComplementary = true) (k : Fin (m + n)) :
    Xor (t.basis.Holds (.structural (k + 1))) (t.basis.Holds (.slack (k + 1))) := by
  have apart : t.basis.Holds (.structural (k + 1)) → ¬t.basis.Holds (.slack (k + 1)) :=
    (isComplementary_iff_holds h.consistent).mp complementary (.structural (k + 1))
      (Label.structural_succ_ne_artificial k)
  have row (i : Fin (m + n)) : ∃ q : Fin (m + n), (t.basis.rowLabel i).index = q + 1 := by
    rcases column_cases (t.basis.columns.get i) with cover | ⟨q, weight⟩ | ⟨q, slack⟩
    · exact absurd cover (cover_nonbasic h i)
    · exact ⟨q, by rw [h.consistent.rowLabel_eq, weight, labelAt_weight first]; rfl⟩
    · exact ⟨q, by rw [h.consistent.rowLabel_eq, slack, labelAt_slack]; rfl⟩
  choose pair index using row
  -- There are as many pairs as rows, and no two rows share one.
  have injective : Function.Injective pair := by
    intro i q same
    have proper : t.basis.rowLabel q ≠ .artificial :=
      fun artificial => not_holds_artificial h first ⟨q, artificial⟩
    have equal : (t.basis.rowLabel i).index = (t.basis.rowLabel q).index := by
      rw [index, index, same]
    rcases Label.eq_or_eq_complement equal (h.consistent.ne_slack_zero ⟨q, rfl⟩) proper with
      own | across
    · exact h.consistent.rowLabel_injective own
    · exact absurd ⟨i, across⟩
        ((isComplementary_iff_holds h.consistent).mp complementary _ proper ⟨q, rfl⟩)
  obtain ⟨i, rfl⟩ := Finite.injective_iff_surjective.mp injective k
  have held : t.basis.Holds (t.basis.rowLabel i) := ⟨i, rfl⟩
  have number := index i
  cases label : t.basis.rowLabel i with
  | structural q =>
    rw [label] at held number
    exact Or.inl ⟨number ▸ held, apart (number ▸ held)⟩
  | slack q =>
    rw [label] at held number
    exact Or.inr ⟨number ▸ held, fun weight => apart weight (number ▸ held)⟩

theorem holds_or_holds_complement (h : t.Represents (system payoff₁ payoff₂))
    (first : t.basis.first = 0) (complementary : t.isComplementary = true) {l : Label}
    (valid : ∃ j, t.basis.labelAt j = l) (proper : l ≠ .artificial) :
    t.basis.Holds l ∨ t.basis.Holds l.complement := by
  obtain ⟨j, rfl⟩ := valid
  rcases column_cases j with rfl | ⟨k, rfl⟩ | ⟨k, rfl⟩
  · exact absurd (labelAt_cover first) proper
  · rw [labelAt_weight first]
    exact (holds_xor h first complementary k).or
  · rw [labelAt_slack]
    exact (holds_xor h first complementary k).or.symm

theorem eq_of_not_holds (h : t.Represents (system payoff₁ payoff₂)) (first : t.basis.first = 0)
    (complementary : t.isComplementary = true) {l entering : Label}
    (valid : ∃ j, t.basis.labelAt j = entering) (proper : entering ≠ .artificial)
    (nonbasic : ¬t.basis.Holds entering) (absent : ¬t.basis.Holds l)
    (same : l.index = entering.index) : l = entering := by
  have defined : entering ≠ .slack 0 := Basis.ne_slack_zero_of_labelAt valid
  rcases Label.eq_or_eq_complement same defined proper with own | rfl
  · exact own
  · rcases holds_or_holds_complement h first complementary valid proper with held | held
    · exact absurd held nonbasic
    · exact absurd held absent

section Path

variable {start : Label} {p : Label × GameTableau ℚ m n} {k steps : Nat}
  (some_row : 0 < m) (some_column : 0 < n)
  (feasible : FeasibleFrom (system payoff₁ payoff₂) origin p.2) (first : origin.basis.first = 0)

include some_row some_column feasible first

/-- A pivot of a path succeeds, and keeps the invariant unless it ends the path. -/
theorem advance_almostComplementary (almost : AlmostComplementary k p) :
    ∃ leaving next, p.2.pivotIn p.1 = ⟨.ok leaving, next⟩ ∧ leaving ≠ .artificial ∧
      Replaces p.2 p.1 leaving next ∧
      (leaving.index ≠ k → AlmostComplementary k (advance p)) := by
  obtain ⟨leaving, next, passed, proper, replaces⟩ := pivotIn_eq_ok some_row some_column feasible
    (feasible.first.trans first) almost.valid almost.proper almost.nonbasic
  refine ⟨leaving, next, passed, proper, replaces, fun other => ?_⟩
  have feasible' : FeasibleFrom (system payoff₁ payoff₂) origin next := by
    have kept := feasible.pivotIn_state p.1
    rwa [passed] at kept
  have valid : ∃ j, next.basis.labelAt j = leaving := by
    obtain ⟨i, rfl⟩ := replaces.left
    rw [feasible'.labelAt.trans feasible.labelAt.symm, feasible.represents.consistent.rowLabel_eq]
    exact ⟨_, rfl⟩
  rw [advance_eq passed]
  exact almost.next_of_index_ne replaces proper
    (ComplementarityProblem.exists_complement (feasible'.first.trans first) valid proper) other

theorem exists_exchange (almost : AlmostComplementary k p) :
    ∃ leaving next, p.2.Exchanges p.1 leaving next ∧ Replaces p.2 p.1 leaving next := by
  obtain ⟨leaving, next, passed, proper, replaces, _⟩ :=
    advance_almostComplementary some_row some_column feasible first almost
  exact ⟨leaving, next, ⟨passed, almost.proper, proper, almost.leaving_ne replaces⟩, replaces⟩

theorem iterate_almostComplementary (valid : start ≠ .slack 0) (proper : start ≠ .artificial)
    (almost : AlmostComplementary start.index p)
    (on : ∀ i < steps, GoesOn (StopsAt start) (advance^[i] p)) :
    ∀ i ≤ steps, AlmostComplementary start.index (advance^[i] p) := by
  intro i
  induction i with
  | zero => exact fun _ => almost
  | succ i ih =>
    intro bound
    obtain ⟨leaving, next, passed, _, _, keeps⟩ := advance_almostComplementary some_row some_column
      (feasible.iterate_advance i) first (ih (Nat.le_of_lt bound))
    obtain ⟨leaving', next', passed', continues⟩ := on i bound
    cases passed.symm.trans passed'
    rw [Function.iterate_succ_apply']
    -- A label with the index of the start is one at which the path stops.
    exact keeps fun same => continues (stopsAt_of_index_eq valid proper same)

/-- The label that leaves last, seen in the last basis, is not the label that entered first, seen
in the first basis. -/
theorem path_end_ne_start (almost : ∀ i ≤ steps, AlmostComplementary k (advance^[i] p))
    {leaving : Label} {next : GameTableau ℚ m n}
    (passed : (advance^[steps] p).2.pivotIn (advance^[steps] p).1 = ⟨.ok leaving, next⟩) :
    (Set.range next.basis.columns.get, leaving) ≠ flag p := by
  -- No pivot of the path fails, and none lets the label enter that has just left.
  have pivots (i : Nat) (bound : i ≤ steps) :
      ∃ leaving next, (advance^[i] p).2.pivotIn (advance^[i] p).1 = ⟨.ok leaving, next⟩ ∧
        leaving ≠ .artificial ∧ leaving ≠ (advance^[i] p).1 := by
    obtain ⟨leaving, next, exchange, _⟩ := exists_exchange some_row some_column
      (feasible.iterate_advance i) first (almost i bound)
    exact ⟨leaving, next, exchange.passed, exchange.leaving_proper, exchange.moved⟩
  obtain ⟨_, _, passed', proper, _⟩ := pivots steps le_rfl
  cases passed.symm.trans passed'
  rw [← (feasible.iterate_paired passed proper).1]
  exact feasible.path_last_ne_first steps pivots

end Path

theorem lemkePath_state_of_undefined {start : Label}
    (undefined : ¬((∃ j, t.basis.labelAt j = start) ∧ start ≠ .artificial)) :
    (t.lemkePath start).state = t := by
  rcases t.lemkePath_cases start with ⟨_, refused⟩ | ⟨proper, valid, _⟩
  · rw [refused]
  · exact absurd ⟨valid, proper⟩ undefined

/-- The tableaus between paths: feasible, with the labels of a game, and complementary. -/
structure BetweenPaths (payoff₁ payoff₂ : Grid ℚ m n) (origin t : GameTableau ℚ m n) : Prop where
  feasible : FeasibleFrom (system payoff₁ payoff₂) origin t
  first : origin.basis.first = 0
  complementary : t.isComplementary = true

namespace BetweenPaths

variable {start : Label}

theorem basis_first (h : BetweenPaths payoff₁ payoff₂ origin t) : t.basis.first = 0 :=
  h.feasible.first.trans h.first

theorem exists_entering (h : BetweenPaths payoff₁ payoff₂ origin t)
    (valid : ∃ j, t.basis.labelAt j = start) (proper : start ≠ .artificial) :
    ∃ entering, AlmostComplementary start.index (entering, t) ∧
      entering.index = start.index ∧ StopsAt start entering.complement ∧
      t.lemkePath start = follow start t.pivotBudget entering t := by
  have defined : start ≠ .slack 0 := Basis.ne_slack_zero_of_labelAt valid
  have valid' : ∃ j, t.basis.labelAt j = t.enteringFirst start := by
    rcases t.enteringFirst_eq start with same | same
    · rwa [same]
    · rw [same]
      exact ComplementarityProblem.exists_complement h.basis_first valid proper
  have almost := AlmostComplementary.enteringFirst h.feasible.represents.consistent h.complementary
    valid' defined proper
  refine ⟨t.enteringFirst start, almost, t.index_enteringFirst start,
    stopsAt_complement_enteringFirst defined, ?_⟩
  rcases t.lemkePath_cases start with ⟨refused, _⟩ | ⟨_, _, ⟨refused, _⟩ | ⟨_, path⟩⟩
  · exact absurd refused (not_or.mpr ⟨proper, not_forall_not.mpr valid⟩)
  · rw [h.complementary] at refused
    cases refused
  · exact path

/-- A path starts with the label of its pair that is not basic. -/
theorem lemkePath_eq_follow (h : BetweenPaths payoff₁ payoff₂ origin t)
    (valid : ∃ j, t.basis.labelAt j = start) (proper : start ≠ .artificial) {entering : Label}
    (lacks : t.Lacks start entering) :
    t.lemkePath start = follow start t.pivotBudget entering t := by
  obtain ⟨other, almost, index, _, path⟩ := h.exists_entering valid proper
  rw [path, eq_of_not_holds h.feasible.represents h.basis_first h.complementary almost.valid
    almost.proper almost.nonbasic lacks.2 (lacks.1.trans index.symm)]

theorem lemkePath_of_trace (h : BetweenPaths payoff₁ payoff₂ origin t)
    (valid : ∃ j, t.basis.labelAt j = start) (proper : start ≠ .artificial)
    {entering leaving : Label} {steps : Nat} {next : GameTableau ℚ m n}
    (trace : Trace start t entering steps leaving next) (affordable : steps < t.pivotBudget)
    (first : t.Lacks start entering) (stops : StopsAt start leaving) :
    t.lemkePath start = ⟨.ok (), next⟩ := by
  rw [h.lemkePath_eq_follow valid proper first]
  exact trace.follow_eq_ok stops affordable

/-- A path does not end at the columns it started from. -/
theorem range_ne_of_path_end (h : BetweenPaths payoff₁ payoff₂ origin t) (some_row : 0 < m)
    (some_column : 0 < n) {entering leaving : Label} {steps : Nat} {next : GameTableau ℚ m n}
    (almost : ∀ i ≤ steps, AlmostComplementary start.index (advance^[i] (entering, t)))
    (passed : (advance^[steps] (entering, t)).2.pivotIn (advance^[steps] (entering, t)).1 =
      ⟨.ok leaving, next⟩)
    (feasible : FeasibleFrom (system payoff₁ payoff₂) origin next)
    (first : t.Lacks start entering) (last : next.Lacks start leaving) :
    Set.range next.basis.columns.get ≠ Set.range t.basis.columns.get := by
  intro range
  -- In the first basis neither the label that left nor the one that entered would be basic, so
  -- they would be the same label of the pair.
  have absent : ¬t.basis.Holds leaving :=
    (not_congr (h.feasible.holds_iff_of_range feasible range leaving)).mp last.2
  have start := almost 0 (Nat.zero_le _)
  have back : leaving = entering := eq_of_not_holds h.feasible.represents h.basis_first
    h.complementary start.valid start.proper first.2 absent (last.1.trans first.1.symm)
  apply path_end_ne_start some_row some_column h.feasible h.first almost passed
  rw [range, back]
  rfl

/-- The trace of a path leads from a complementary basis to another complementary basis. -/
theorem exists_trace (h : BetweenPaths payoff₁ payoff₂ origin t) (some_row : 0 < m)
    (some_column : 0 < n) (valid : ∃ j, t.basis.labelAt j = start)
    (proper : start ≠ .artificial) :
    ∃ entering steps leaving next, Trace start t entering steps leaving next ∧
      steps < t.pivotBudget ∧ t.Lacks start entering ∧ next.Lacks start leaving ∧
      BetweenPaths payoff₁ payoff₂ origin next ∧
      Set.range next.basis.columns.get ≠ Set.range t.basis.columns.get := by
  have defined : start ≠ .slack 0 := Basis.ne_slack_zero_of_labelAt valid
  obtain ⟨entering, almost, index, across, path⟩ := h.exists_entering valid proper
  have invariant {steps : Nat}
      (on : ∀ i < steps, GoesOn (StopsAt start) (advance^[i] (entering, t))) :=
    iterate_almostComplementary some_row some_column h.feasible h.first defined proper almost on
  have exchange {steps : Nat}
      (on : ∀ i < steps, GoesOn (StopsAt start) (advance^[i] (entering, t))) (i : Nat)
      (bound : i ≤ steps) :=
    exists_exchange some_row some_column (h.feasible.iterate_advance i) h.first
      (invariant on i bound)
  rcases follow_cases start t.pivotBudget (entering, t) with
    ⟨steps, affordable, on, ⟨e, left, failed, _⟩ | ⟨leaving, next, passed, stops, _⟩⟩ | ⟨on, _⟩
  · -- No pivot of the path fails.
    obtain ⟨_, _, exchanges, _⟩ := exchange on steps le_rfl
    cases failed.symm.trans exchanges.passed
  · have trace := Trace.of_iterate (fun i bound => (exchange on i bound).imp fun _ =>
      Exists.imp fun _ => And.left) on passed
    have feasible := trace.feasible h.feasible
    have last := invariant on steps le_rfl
    obtain ⟨_, _, exchanges, replaces⟩ := exchange on steps le_rfl
    cases passed.symm.trans exchanges.passed
    have same : leaving.index = start.index := stops.index_eq exchanges.leaving_proper
    have lacks : next.Lacks start leaving := ⟨same, last.not_holds_leaving replaces⟩
    exact ⟨entering, steps, leaving, next, trace, affordable, ⟨index, almost.nonbasic⟩, lacks,
      ⟨feasible, h.first, last.isComplementary_next replaces exchanges.leaving_proper same⟩,
      h.range_ne_of_path_end some_row some_column (invariant on) passed feasible
        ⟨index, almost.nonbasic⟩ lacks⟩
  · exact absurd on
      (h.feasible.path_ends (p := (entering, t)) (StopsAt start) (Or.inr (Or.inr rfl))
        fun _ _ => across)

/-- A path from a complementary basis ends at another complementary basis. The path of the same
label from there leads back, row by row. -/
theorem lemkePath_lemkePath (h : BetweenPaths payoff₁ payoff₂ origin t) (some_row : 0 < m)
    (some_column : 0 < n) (valid : ∃ j, t.basis.labelAt j = start)
    (proper : start ≠ .artificial) :
    ∃ next back, t.lemkePath start = ⟨.ok (), next⟩ ∧ BetweenPaths payoff₁ payoff₂ origin next ∧
      Set.range next.basis.columns.get ≠ Set.range t.basis.columns.get ∧
      next.lemkePath start = ⟨.ok (), back⟩ ∧
      back.basis.columns.get = t.basis.columns.get := by
  have defined : start ≠ .slack 0 := Basis.ne_slack_zero_of_labelAt valid
  obtain ⟨entering, steps, leaving, next, trace, affordable, first, last, between, differs⟩ :=
    h.exists_trace some_row some_column valid proper
  obtain ⟨back, trace', restored⟩ := trace.reverse h.feasible defined
  have valid' : ∃ j, next.basis.labelAt j = start := by
    rwa [between.feasible.labelAt, ← h.feasible.labelAt]
  exact ⟨next, back,
    h.lemkePath_of_trace valid proper trace affordable first (last.stopsAt defined proper),
    between, differs,
    between.lemkePath_of_trace valid' proper trace' affordable last (first.stopsAt defined proper),
    restored⟩

/-- A path from a complementary basis ends at another complementary basis. -/
theorem lemkePath_eq_ok (h : BetweenPaths payoff₁ payoff₂ origin t) (some_row : 0 < m)
    (some_column : 0 < n) (valid : ∃ j, t.basis.labelAt j = start)
    (proper : start ≠ .artificial) :
    ∃ next, t.lemkePath start = ⟨.ok (), next⟩ ∧ BetweenPaths payoff₁ payoff₂ origin next ∧
      Set.range next.basis.columns.get ≠ Set.range t.basis.columns.get := by
  obtain ⟨next, _, path, between, differs, _⟩ :=
    h.lemkePath_lemkePath some_row some_column valid proper
  exact ⟨next, path, between, differs⟩

/-- A path ends between paths, also when its label is not one of the tableau. -/
theorem lemkePath_state (h : BetweenPaths payoff₁ payoff₂ origin t) (some_row : 0 < m)
    (some_column : 0 < n) (start : Label) :
    BetweenPaths payoff₁ payoff₂ origin (t.lemkePath start).state := by
  by_cases defined : (∃ j, t.basis.labelAt j = start) ∧ start ≠ .artificial
  · obtain ⟨next, path, between, _⟩ :=
      h.lemkePath_eq_ok some_row some_column defined.1 defined.2
    rw [path]
    exact between
  · rw [lemkePath_state_of_undefined defined]
    exact h

theorem moves_lemkePath (h : BetweenPaths payoff₁ payoff₂ origin t) (some_row : 0 < m)
    (some_column : 0 < n) (starts : List Label) :
    BetweenPaths payoff₁ payoff₂ origin (t.moves (starts.map .lemkePath)) := by
  induction starts generalizing t with
  | nil => exact h
  | cons start starts ih => exact ih (h.lemkePath_state some_row some_column start)

theorem weight_eq_zero_of_isEmpty (h : BetweenPaths payoff₁ payoff₂ origin t)
    (empty : t.complementarySolution.isEmpty = true) (k : Fin (m + n)) :
    t.point (weightColumn k) = 0 := by
  have represents := h.feasible.represents
  by_contra weight
  obtain ⟨i, held⟩ := exists_row_of_point_ne_zero weight
  have label : t.basis.rowLabel i = .structural (k + 1) := by
    rw [represents.consistent.rowLabel_eq, held, labelAt_weight h.basis_first]
  rw [← held, represents.point_basic] at weight
  have nonempty := (isEmpty_filterLabels_basicSolution represents.consistent
    fun l => !l.isArtificial).mpr ⟨i, by rw [label]; rfl, by rw [label]; rfl, weight⟩
  rw [complementarySolution, nonempty] at empty
  cases empty

/-- Where nobody plays anything, the slacks are basic. -/
theorem range_columns_of_isEmpty (h : BetweenPaths payoff₁ payoff₂ origin t)
    (empty : t.complementarySolution.isEmpty = true) :
    Set.range t.basis.columns.get = Set.range slackColumn := by
  have represents := h.feasible.represents
  have weights := h.weight_eq_zero_of_isEmpty empty
  obtain ⟨slacks₁, slacks₂⟩ := slack_of_solves represents.solves_point
  -- Without weights every slack is one, and what is not zero is basic.
  have slacks (k : Fin (m + n)) : slackColumn k ∈ Set.range t.basis.columns.get := by
    apply exists_row_of_point_ne_zero
    refine Fin.addCases (fun i => ?_) (fun j => ?_) k
    · simp [slacks₁, weights]
    · simp [slacks₂, weights]
  apply Set.Subset.antisymm
  · rintro _ ⟨i, rfl⟩
    rcases column_cases (t.basis.columns.get i) with cover | ⟨k, weight⟩ | ⟨k, slack⟩
    · exact absurd cover (cover_nonbasic represents i)
    · -- The slack of a basic weight is not basic.
      have held : t.basis.Holds (.structural (k + 1)) :=
        ⟨i, by rw [represents.consistent.rowLabel_eq, weight, labelAt_weight h.basis_first]⟩
      have held' : t.basis.Holds (.slack (k + 1)) := by
        rw [← labelAt_slack t, represents.consistent.holds_labelAt_iff]
        exact slacks k
      exact absurd held' ((isComplementary_iff_holds represents.consistent).mp h.complementary _
        (Label.structural_succ_ne_artificial k) held)
    · exact ⟨k, slack.symm⟩
  · rintro _ ⟨k, rfl⟩
    exact slacks k

/-- A path from the slacks ends where somebody plays something. -/
theorem lemkePath_nonempty (h : BetweenPaths payoff₁ payoff₂ origin t) (some_row : 0 < m)
    (some_column : 0 < n) (slacks : t.basis.columns.get = slackColumn)
    (valid : ∃ j, t.basis.labelAt j = start) (proper : start ≠ .artificial) :
    ∃ next, t.lemkePath start = ⟨.ok (), next⟩ ∧ BetweenPaths payoff₁ payoff₂ origin next ∧
      next.complementarySolution.isEmpty = false := by
  obtain ⟨next, path, between, differs⟩ := h.lemkePath_eq_ok some_row some_column valid proper
  refine ⟨next, path, between, ?_⟩
  rw [← Bool.not_eq_true]
  intro empty
  apply differs
  rw [between.range_columns_of_isEmpty empty, slacks]

end BetweenPaths

theorem ofPayoffs_betweenPaths (payoff₁ payoff₂ : Grid ℚ m n) (some_row : 0 < m)
    (some_column : 0 < n) :
    ∃ fresh : GameTableau ℚ m n, ofPayoffs payoff₁ payoff₂ = .ok fresh ∧
      BetweenPaths payoff₁ payoff₂ fresh fresh ∧ fresh.basis.columns.get = slackColumn := by
  obtain ⟨fresh, built, feasible, basis⟩ :=
    ofPayoffs_represents payoff₁ payoff₂ some_row some_column
  have columns : fresh.basis.columns.get = slackColumn := by
    ext i
    rw [basis, Basis.get_columns_slack]
    rfl
  refine ⟨fresh, built, ⟨feasible, by rw [basis]; rfl, ?_⟩, columns⟩
  rw [isComplementary_iff feasible.represents.consistent]
  intro i
  right
  intro q
  simp [basis]

theorem exists_labelAt (first : t.basis.first = 0) {k : Nat} {start : Label} (low : 1 ≤ k)
    (high : k ≤ m + n) (pair : start = .structural k ∨ start = .slack k) :
    (∃ j, t.basis.labelAt j = start) ∧ start ≠ .artificial := by
  obtain ⟨k, rfl⟩ := Nat.exists_eq_add_of_le' low
  rcases pair with rfl | rfl
  · exact ⟨⟨_, labelAt_weight first ⟨k, high⟩⟩, Label.structural_succ_ne_artificial k⟩
  · exact ⟨⟨_, labelAt_slack t ⟨k, high⟩⟩, Label.slack_ne_artificial (k + 1)⟩

/-- After any paths from the fresh tableau of a game, the path that drops a label of a strategy
succeeds. It ends at a basis with one label of every pair, which is not the basis it started from,
and where somebody plays something if it started at the fresh tableau. -/
theorem lemkePath_succeeds (payoff₁ payoff₂ : Grid ℚ m n) (some_row : 0 < m)
    (some_column : 0 < n) :
    ∃ fresh : GameTableau ℚ m n, ofPayoffs payoff₁ payoff₂ = .ok fresh ∧
      ∀ (starts : List Label) (k : Nat) (start : Label), 1 ≤ k → k ≤ m + n →
        (start = .structural k ∨ start = .slack k) →
        let t := fresh.moves (starts.map .lemkePath)
        ∃ next, t.lemkePath start = ⟨.ok (), next⟩ ∧
          (∀ j, 1 ≤ j → j ≤ m + n → Xor (next.basis.isMember (.structural j) = true)
            (next.basis.isMember (.slack j) = true)) ∧
          next.basis.isMember .artificial = false ∧
          (∃ l, next.basis.isMember l ≠ t.basis.isMember l) ∧
          (starts = [] → next.complementarySolution.isEmpty = false) := by
  obtain ⟨fresh, built, initial, columns⟩ :=
    ofPayoffs_betweenPaths payoff₁ payoff₂ some_row some_column
  refine ⟨fresh, built, fun starts k start low high pair => ?_⟩
  intro t
  have between : BetweenPaths payoff₁ payoff₂ fresh t :=
    initial.moves_lemkePath some_row some_column starts
  obtain ⟨valid, proper⟩ :=
    exists_labelAt (between.feasible.first.trans between.first) low high pair
  obtain ⟨next, path, ends, differs⟩ := between.lemkePath_eq_ok some_row some_column valid proper
  have represents := ends.feasible.represents
  have first := ends.feasible.first.trans ends.first
  refine ⟨next, path, fun j low high => ?_, ?_, ?_, ?_⟩
  · obtain ⟨j, rfl⟩ := Nat.exists_eq_add_of_le' low
    rw [represents.consistent.isMember_iff, represents.consistent.isMember_iff]
    exact holds_xor represents first ends.complementary ⟨j, high⟩
  · rw [← Bool.not_eq_true, represents.consistent.isMember_iff]
    exact not_holds_artificial represents first
  · by_contra same
    push Not at same
    apply differs
    have labels : next.basis.labelAt = t.basis.labelAt :=
      ends.feasible.labelAt.trans between.feasible.labelAt.symm
    ext j
    rw [Set.mem_range, Set.mem_range, ← represents.consistent.isMember_labelAt_iff,
      ← between.feasible.represents.consistent.isMember_labelAt_iff, labels, same]
  · rintro rfl
    rw [← Bool.not_eq_true]
    intro empty
    apply differs
    rw [ends.range_columns_of_isEmpty empty, ← columns]
    rfl

/-- In a game where every payoff is zero all rows tie, and the paths succeed all the same. -/
theorem lemkePath_succeeds_zero :
    let payoff : Grid ℚ 2 3 := Grid.ofFn fun _ _ => 0
    ∃ fresh : GameTableau ℚ 2 3, ofPayoffs payoff payoff = .ok fresh ∧
      ∃ next, (fresh.moves [.lemkePath (.structural 1)]).lemkePath (.slack 4) = ⟨.ok (), next⟩ ∧
        next.basis.isMember .artificial = false := by
  intro payoff
  obtain ⟨fresh, built, succeeds⟩ := lemkePath_succeeds payoff payoff (by decide) (by decide)
  obtain ⟨next, path, _, absent, _⟩ :=
    succeeds [.structural 1] 4 (.slack 4) (by decide) (by decide) (Or.inr rfl)
  exact ⟨fresh, built, next, path, absent⟩

end GameTableau

end LexPivot
