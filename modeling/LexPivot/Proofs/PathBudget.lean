import Mathlib
import LexPivot.Proofs.BasisDetermines
import LexPivot.Proofs.PathTermination

/-!
# The budget covers every path that ends

What a pivot does depends on the columns by row and on the label that enters: the working matrix and
the lookups of the basis follow from the columns, and the counts of the pivots are not read. So a
path that came back to the same columns with the same label to enter would go round for ever. A path
that ends, from whatever tableau of a system, is nowhere twice, and there are fewer places than the
budget.
-/
namespace LexPivot.Tableau

variable {r c : Nat} {system : Matrix (Fin r) (Fin (c + r + 1)) ℚ} {t t' : Tableau ℚ r c}

/-! ### Tableaus that differ in their counts -/

/-- The tableaus differ in nothing but the counts of their pivots. -/
def Recounts (t t' : Tableau ℚ r c) : Prop :=
  ∃ pivots sinceRefactor, t' = { t with pivots := pivots, sinceRefactor := sinceRefactor }

theorem Recounts.pivot (h : Recounts t t') (row : Nat) (entering : Label) :
    (t'.pivot row entering).result = (t.pivot row entering).result ∧
      Recounts (t.pivot row entering).state (t'.pivot row entering).state := by
  obtain ⟨pivots, sinceRefactor, rfl⟩ := h
  simp only [Tableau.pivot, refactorWhenDue_eq_ok]
  -- Every branch is chosen by what the two have in common.
  repeat' split
  all_goals exact ⟨rfl, _, _, rfl⟩

theorem narrowBy_congr (values : t'.columnValues = t.columnValues) (entering : Vector ℚ r)
    (stages : List (Option (Fin (c + r + 1)))) (rows : List (Fin r)) :
    t'.narrowBy entering stages rows = t.narrowBy entering stages rows := by
  induction stages generalizing rows with
  | nil => rfl
  | cons stage rest ih => simp only [narrowBy, values, ih]

theorem Recounts.exitRow (h : Recounts t t') (entering : Label) :
    t'.exitRow entering = t.exitRow entering := by
  obtain ⟨pivots, sinceRefactor, rfl⟩ := h
  let t' := { t with pivots := pivots, sinceRefactor := sinceRefactor }
  have values : t'.columnValues = t.columnValues := rfl
  have winner (column : Vector ℚ r) (candidates : List (Fin r)) :
      t'.lexExitRow column candidates = t.lexExitRow column candidates :=
    congrArg List.head? (narrowBy_congr values column t.lexStages candidates)
  have solve : t'.solveColumn = t.solveColumn := rfl
  simp only [Tableau.exitRow, winner, solve, t']

theorem Recounts.pivotIn (h : Recounts t t') (entering : Label) :
    (t'.pivotIn entering).result = (t.pivotIn entering).result ∧
      Recounts (t.pivotIn entering).state (t'.pivotIn entering).state := by
  have vanishes (i : Fin r) :
      t'.vanishesAtArtificial i entering = t.vanishesAtArtificial i entering := by
    obtain ⟨_, _, rfl⟩ := h
    rfl
  simp only [Tableau.pivotIn, h.exitRow, vanishes]
  split
  · exact ⟨rfl, h⟩
  next i _ =>
    split
    · exact ⟨rfl, h⟩
    · exact h.pivot i entering

/-- What pivots leave as it is: the integers of the system, the numbering of the columns, what is
blocked, and the reference. -/
structure SameData (t t' : Tableau ℚ r c) : Prop where
  system : t'.system = t.system
  first : t'.basis.first = t.basis.first
  blocked : t'.basis.blocked = t.basis.blocked
  reference : t'.reference = t.reference

theorem SameData.trans {t'' : Tableau ℚ r c} (h : SameData t t') (h' : SameData t' t'') :
    SameData t t'' :=
  ⟨h'.system.trans h.system, h'.first.trans h.first, h'.blocked.trans h.blocked,
    h'.reference.trans h.reference⟩

theorem sameData_pivotIn (t : Tableau ℚ r c) (entering : Label) :
    SameData t (t.pivotIn entering).state := by
  have refl : SameData t t := ⟨rfl, rfl, rfl, rfl⟩
  unfold pivotIn
  split
  · exact refl
  next i _ =>
    split
    · exact refl
    · rcases t.pivot_state_cases i entering with same | ⟨k, j, moved⟩
      · rwa [same]
      · rw [moved]
        exact ⟨rfl, t.first_exchangeColumn k j, t.blocked_exchangeColumn k j, rfl⟩

/-- The columns by row leave no choice for anything but the counts. -/
theorem Represents.recounts (h : t.Represents system) (h' : t'.Represents system)
    (data : SameData t t') (columns : t'.basis.columns.get = t.basis.columns.get) :
    Recounts t t' := by
  -- Both working matrices express the same integers in the same columns, in the same rows.
  have work := h.work_eq h' data.system columns
  have basis := h.consistent.eq_of_columns h'.consistent data.first columns data.blocked
  have integers := data.system
  have reference := data.reference
  refine ⟨t'.pivots, t'.sinceRefactor, ?_⟩
  cases t
  cases t'
  simp only at work basis integers reference
  simp only [work, basis, integers, reference]

theorem Represents.exists_labelAt_of_passed (h : t.Represents system) {entering leaving : Label}
    {next : Tableau ℚ r c} (passed : t.pivotIn entering = ⟨.ok leaving, next⟩) :
    ∃ j, t.basis.labelAt j = entering := by
  rcases h.pivotIn_cases entering with ⟨_, refused⟩ | ⟨j, label, _⟩
  · cases passed.symm.trans refused
  · exact ⟨j, label⟩

/-! ### Paths that go round -/

/-- The columns by row and the column that is to enter. -/
abbrev Place (r c : Nat) := (Fin r → Fin (c + r)) × Fin (c + r)

namespace PathLoop

variable {start : Label} {s s' : Label × Tableau ℚ r c}
  {visited visited' : List (Label × Tableau ℚ r c)}
  {outcome outcome' : Attempt (Tableau ℚ r c) Unit}

/-- Loops that start alike are equally long. -/
theorem length_eq_of_recounts (loop : PathLoop start s visited outcome)
    (loop' : PathLoop start s' visited' outcome') (same : s'.1 = s.1)
    (recounts : Recounts s.2 s'.2) : visited'.length = visited.length := by
  obtain ⟨entering', t'⟩ := s'
  dsimp only at same recounts
  subst same
  -- On the first loop. The pivots of both have the same answer, so the second branches like it.
  induction loop generalizing t' visited' with
  | @fails s e left failed =>
    obtain ⟨result, _⟩ := recounts.pivotIn s.1
    rw [failed] at result
    cases loop' with
    | fails => rfl
    | ends passed =>
      rw [passed] at result
      cases result
    | step passed =>
      rw [passed] at result
      cases result
  | @ends s leaving next passed stops =>
    obtain ⟨result, _⟩ := recounts.pivotIn s.1
    rw [passed] at result
    cases loop' with
    | fails | ends => rfl
    | step passed' continues =>
      rw [passed'] at result
      cases result
      exact absurd stops continues
  | @step s leaving next visited outcome passed continues rest ih =>
    obtain ⟨result, states⟩ := recounts.pivotIn s.1
    rw [passed] at result states
    cases loop' with
    | fails failed =>
      rw [failed] at result
      cases result
    | ends passed' stops =>
      rw [passed'] at result
      cases result
      exact absurd stops continues
    | step passed' _ rest' =>
      rw [passed'] at result states
      cases result
      rw [List.length_cons, List.length_cons, ih _ states rest']

/-- From every state a loop goes on as a loop. -/
theorem exists_rest (loop : PathLoop start s visited outcome) (member : s' ∈ visited) :
    ∃ rest, PathLoop start s' rest outcome ∧ rest.length ≤ visited.length := by
  induction loop with
  | @fails s _ _ failed =>
    obtain rfl := List.mem_singleton.mp member
    exact ⟨[s'], .fails failed, le_rfl⟩
  | @ends s _ _ passed stops =>
    obtain rfl := List.mem_singleton.mp member
    exact ⟨[s'], .ends passed stops, le_rfl⟩
  | step passed continues loop ih =>
    rcases List.mem_cons.mp member with rfl | later
    · exact ⟨_, .step passed continues loop, le_rfl⟩
    · obtain ⟨rest, loop', shorter⟩ := ih later
      exact ⟨rest, loop', Nat.le_succ_of_le shorter⟩

/-- The states of a loop are tableaus of the system with the same data. -/
theorem sameData (loop : PathLoop start s visited outcome) (h : s.2.Represents system)
    (member : s' ∈ visited) : s'.2.Represents system ∧ SameData s.2 s'.2 := by
  induction loop with
  | fails | ends =>
    obtain rfl := List.mem_singleton.mp member
    exact ⟨h, rfl, rfl, rfl, rfl⟩
  | @step s _ _ _ _ passed _ _ ih =>
    rcases List.mem_cons.mp member with rfl | later
    · exact ⟨h, rfl, rfl, rfl, rfl⟩
    · obtain ⟨represents, data⟩ := ih (h.of_passed passed) later
      have step := s.2.sameData_pivotIn s.1
      rw [passed] at step
      exact ⟨represents, step.trans data⟩

/-- The loop is at these columns by row, and the label of this column is to enter. -/
def IsAt (s : Label × Tableau ℚ r c) (place : Place r c) : Prop :=
  s.2.basis.columns.get = place.1 ∧ s.2.basis.labelAt place.2 = s.1

/-- A loop that ends is in a new place at each of its steps. -/
theorem exists_places (loop : PathLoop start s visited outcome) (h : s.2.Represents system) :
    ∃ places : List (Place r c), places.length + 1 = visited.length ∧ places.Nodup ∧
      ∀ place ∈ places, ∃ s' ∈ visited, IsAt s' place := by
  induction loop with
  | fails | ends => exact ⟨[], rfl, List.nodup_nil, nofun⟩
  | @step s leaving next visited outcome passed continues rest ih =>
    obtain ⟨places, length, distinct, reached⟩ := ih (h.of_passed passed)
    obtain ⟨j, label⟩ := h.exists_labelAt_of_passed passed
    refine ⟨(s.2.basis.columns.get, j) :: places, ?_,
      List.nodup_cons.mpr ⟨fun listed => ?_, distinct⟩, fun place listed => ?_⟩
    · rw [List.length_cons, List.length_cons, length]
    · -- From the same place the loop would have the same number of steps ahead, and one less.
      obtain ⟨s', member, columns, label'⟩ := reached _ listed
      have loop : PathLoop start s (s :: visited) outcome := .step passed continues rest
      obtain ⟨represents, data⟩ := loop.sameData h (List.mem_cons_of_mem s member)
      obtain ⟨later, loop', shorter⟩ := rest.exists_rest member
      have entering : s'.1 = s.1 := by
        rw [← label', Basis.labelAt_of_first data.first, label]
      have equal := loop.length_eq_of_recounts loop' entering
        (h.recounts represents data columns)
      rw [List.length_cons] at equal
      omega
    · rcases List.mem_cons.mp listed with rfl | earlier
      · exact ⟨s, List.mem_cons_self, rfl, label⟩
      · obtain ⟨s', member, place'⟩ := reached place earlier
        exact ⟨s', List.mem_cons_of_mem s member, place'⟩

/-- There are fewer places than the budget. -/
theorem length_le (loop : PathLoop start s visited outcome) (h : s.2.Represents system) :
    visited.length ≤ s.2.pivotBudget := by
  obtain ⟨places, length, distinct, _⟩ := loop.exists_places h
  have count := distinct.length_le_card
  rw [Fintype.card_prod, Fintype.card_fun, Fintype.card_fin, Fintype.card_fin, ← pow_succ] at count
  rw [← length]
  exact Nat.succ_le_succ count

/-- A loop that can afford its steps comes to the outcome of the loop without a budget. -/
theorem follow_eq (loop : PathLoop start s visited outcome) {budget : Nat}
    (affordable : visited.length ≤ budget) : follow start budget s.1 s.2 = outcome := by
  induction loop generalizing budget with
  | @fails s e left failed =>
    obtain ⟨budget, rfl⟩ := Nat.exists_eq_succ_of_ne_zero (Nat.pos_iff_ne_zero.mp affordable)
    simp only [follow, failed]
  | ends passed stops =>
    obtain ⟨budget, rfl⟩ := Nat.exists_eq_succ_of_ne_zero (Nat.pos_iff_ne_zero.mp affordable)
    exact follow_succ_of_stops passed stops budget
  | step passed continues _ ih =>
    rw [List.length_cons] at affordable
    obtain ⟨budget, rfl⟩ := Nat.exists_eq_succ_of_ne_zero (Nat.ne_zero_of_lt affordable)
    rw [follow_succ_of_goesOn ⟨_, _, passed, continues⟩, advance_eq passed]
    exact ih (Nat.le_of_succ_le_succ affordable)

end PathLoop

/-- The path that drops `start` comes to an end. -/
def PathEnds (t : Tableau ℚ r c) (start : Label) : Prop :=
  ∃ visited outcome, PathRun t start visited outcome

namespace Represents

variable {start : Label}

/-- A path that ends does so within its budget. -/
theorem lemkePath_eq (h : t.Represents system) {visited : List (Label × Tableau ℚ r c)}
    {outcome : Attempt (Tableau ℚ r c) Unit} (run : PathRun t start visited outcome) :
    t.lemkePath start = outcome := by
  rcases t.lemkePath_cases start with
    ⟨undefined, same⟩ | ⟨proper, valid, ⟨refused, same⟩ | ⟨complementary, same⟩⟩
  · cases run with
    | undefined => exact same
    | notComplementary proper valid | path proper valid =>
      exact absurd undefined (not_or.mpr ⟨proper, not_forall_not.mpr valid⟩)
  · cases run with
    | undefined undefined =>
      exact absurd undefined (not_or.mpr ⟨proper, not_forall_not.mpr valid⟩)
    | notComplementary => exact same
    | path _ _ complementary =>
      rw [refused] at complementary
      cases complementary
  · cases run with
    | undefined undefined =>
      exact absurd undefined (not_or.mpr ⟨proper, not_forall_not.mpr valid⟩)
    | notComplementary _ _ refused =>
      rw [refused] at complementary
      cases complementary
    | path _ _ _ loop => rw [same, loop.follow_eq (loop.length_le h)]

/-- A path is given up as one that goes round exactly if it has no end. -/
theorem lemkePath_cycling_iff (h : t.Represents system) :
    (t.lemkePath start).result = .error .cycling ↔ ¬t.PathEnds start := by
  constructor
  · -- The outcome of a path that ends is one of the named ones, and going round is not among them.
    rintro cycling ⟨visited, outcome, run⟩
    rw [h.lemkePath_eq run] at cycling
    have named := run.result_cases h
    rw [cycling] at named
    simp at named
  · intro endless
    rcases t.lemkePath_cases start with
      ⟨undefined, _⟩ | ⟨proper, valid, ⟨refused, _⟩ | ⟨complementary, same⟩⟩
    · exact absurd ⟨_, _, .undefined undefined⟩ endless
    · exact absurd ⟨_, _, .notComplementary proper valid refused⟩ endless
    · rw [same]
      rcases pathLoop_cases start t.pivotBudget (t.enteringFirst start, t) with
        ⟨_, _, _, loop⟩ | ⟨_, cycling⟩
      · exact absurd ⟨_, _, .path proper valid complementary loop⟩ endless
      · exact cycling

end Represents

end LexPivot.Tableau
