import Mathlib
import LexPivot.Proofs.ComplementaryPath

/-!
# Paths come to their end

A path lets labels enter until a label of the pair it dropped leaves, or the artificial label does,
or no label can leave. `PathLoop` is that loop as a relation, without a budget: it lists the states
the loop goes through. `PathRun` is the whole path, with what is refused at its start.

The tableau may have any shape, and the artificial label may be basic. A path that came back to a
basis with the same label to enter would have come back to its first basis at the label across, and
there it would have stopped. So on a feasible tableau every path is finite, and the budget covers
it.
-/
namespace LexPivot.Tableau

variable {r c : Nat} {system : Matrix (Fin r) (Fin (c + r + 1)) ℚ} {origin t : Tableau ℚ r c}

theorem Represents.of_passed (h : t.Represents system) {entering leaving : Label}
    {next : Tableau ℚ r c} (passed : t.pivotIn entering = ⟨.ok leaving, next⟩) :
    next.Represents system := by
  have kept := (h.pivotIn_state entering).1
  rwa [passed] at kept

/-! ### The loop without a budget -/

/-- The loop of the path that drops `start`, from an entering label and the tableau it is to enter:
the states it goes through, and what it comes to. -/
inductive PathLoop (start : Label) : Label × Tableau ℚ r c → List (Label × Tableau ℚ r c) →
    Attempt (Tableau ℚ r c) Unit → Prop
  | fails {s : Label × Tableau ℚ r c} {e : PivotError} {left : Tableau ℚ r c}
    (failed : s.2.pivotIn s.1 = ⟨.error e, left⟩) : PathLoop start s [s] ⟨.error e, left⟩
  | ends {s : Label × Tableau ℚ r c} {leaving : Label} {next : Tableau ℚ r c}
    (passed : s.2.pivotIn s.1 = ⟨.ok leaving, next⟩) (stops : StopsAt start leaving) :
    PathLoop start s [s] ⟨.ok (), next⟩
  | step {s : Label × Tableau ℚ r c} {leaving : Label} {next : Tableau ℚ r c}
    {visited : List (Label × Tableau ℚ r c)} {outcome : Attempt (Tableau ℚ r c) Unit}
    (passed : s.2.pivotIn s.1 = ⟨.ok leaving, next⟩) (continues : ¬StopsAt start leaving)
    (rest : PathLoop start (leaving.complement, next) visited outcome) :
    PathLoop start s (s :: visited) outcome

/-- The path that drops `start`: the states it goes through, and what it comes to. -/
inductive PathRun (t : Tableau ℚ r c) (start : Label) :
    List (Label × Tableau ℚ r c) → Attempt (Tableau ℚ r c) Unit → Prop
  | undefined (refused : start = .artificial ∨ ∀ j, t.basis.labelAt j ≠ start) :
    PathRun t start [] ⟨.error (.undefinedLabel start), t⟩
  | notComplementary (proper : start ≠ .artificial) (valid : ∃ j, t.basis.labelAt j = start)
    (refused : t.isComplementary = false) : PathRun t start [] ⟨.error .notComplementary, t⟩
  | path {visited : List (Label × Tableau ℚ r c)} {outcome : Attempt (Tableau ℚ r c) Unit}
    (proper : start ≠ .artificial) (valid : ∃ j, t.basis.labelAt j = start)
    (complementary : t.isComplementary = true)
    (loop : PathLoop start (t.enteringFirst start, t) visited outcome) :
    PathRun t start visited outcome

namespace PathLoop

variable {start : Label} {s : Label × Tableau ℚ r c} {visited : List (Label × Tableau ℚ r c)}
  {outcome : Attempt (Tableau ℚ r c) Unit}

/-- The steps of a trace, up to one where the loop ends. -/
theorem of_iterate {steps : Nat} (on : ∀ i < steps, GoesOn (StopsAt start) (advance^[i] s))
    (last : PathLoop start (advance^[steps] s) [advance^[steps] s] outcome) :
    PathLoop start s ((List.range (steps + 1)).map (advance^[·] s)) outcome := by
  induction steps generalizing s with
  | zero => exact last
  | succ steps ih =>
    obtain ⟨leaving, next, passed, continues⟩ := on 0 (Nat.succ_pos steps)
    -- The rest of the trace is the trace from the second state.
    have rest := ih (s := advance s) (fun i bound => on (i + 1) (Nat.succ_lt_succ bound)) last
    rw [advance_eq (p := s) passed] at rest
    rw [List.range_succ_eq_map, List.map_cons, List.map_map]
    refine .step passed continues ?_
    simpa only [Function.comp_def, Function.iterate_succ_apply, advance_eq (p := s) passed]
      using rest

/-- A path stops at the same labels when it is named by the other label of its pair. -/
theorem complement (loop : PathLoop start s visited outcome) (defined : start ≠ .slack 0) :
    PathLoop start.complement s visited outcome := by
  have same (l : Label) : StopsAt start.complement l ↔ StopsAt start l := by
    rw [StopsAt, StopsAt, Label.complement_complement defined, or_left_comm]
  induction loop with
  | fails failed => exact .fails failed
  | ends passed stops => exact .ends passed ((same _).mpr stops)
  | step passed continues _ ih => exact .step passed (mt (same _).mp continues) ih

/-- A step makes at most one pivot. -/
theorem pivots_le (loop : PathLoop start s visited outcome) (h : s.2.Represents system) :
    outcome.state.pivots ≤ s.2.pivots + visited.length := by
  have step (p : Label × Tableau ℚ r c) (h : p.2.Represents system) :
      (p.2.pivotIn p.1).state.pivots ≤ p.2.pivots + 1 := by
    rcases h.pivotIn_cases p.1 with
      ⟨_, done⟩ | ⟨_, _, ⟨_, ⟨_, _, _, done⟩ | ⟨_, done⟩⟩ | ⟨_, _, ⟨_, done⟩ | ⟨_, done⟩⟩⟩
    all_goals rw [done]
    case inr.inr.inr => exact le_rfl
    all_goals exact Nat.le_succ _
  induction loop with
  | @fails s _ _ failed =>
    have bound := step s h
    rwa [failed] at bound
  | @ends s _ _ passed _ =>
    have bound := step s h
    rwa [passed] at bound
  | @step s _ next visited outcome passed _ _ ih =>
    have bound := step s h
    rw [passed] at bound
    have later := ih (h.of_passed passed)
    rw [List.length_cons]
    dsimp only at bound later
    omega

/-- A loop fails only where a label is to enter that does not exist or that nothing bounds. -/
theorem result_cases (loop : PathLoop start s visited outcome) (h : s.2.Represents system) :
    outcome.result = .ok () ∨ ∃ l, outcome.result = .error (.undefinedLabel l) ∨
      outcome.result = .error (.noExitRow l) := by
  induction loop with
  | @fails s _ _ failed =>
    right
    rcases h.pivotIn_cases s.1 with
      ⟨_, done⟩ | ⟨_, _, ⟨_, ⟨_, _, _, done⟩ | ⟨_, done⟩⟩ | ⟨_, _, ⟨_, done⟩ | ⟨_, done⟩⟩⟩
    all_goals cases failed.symm.trans done
    · exact ⟨s.1, Or.inl rfl⟩
    · exact ⟨s.1, Or.inr rfl⟩
  | ends => exact Or.inl rfl
  | step passed _ _ ih => exact ih (h.of_passed passed)

end PathLoop

/-! ### Paths within their budget -/

/-- A loop comes to its end within the budget, or goes on until the budget is spent. -/
theorem pathLoop_cases (start : Label) (budget : Nat) (p : Label × Tableau ℚ r c) :
    (∃ steps < budget, (∀ i < steps, GoesOn (StopsAt start) (advance^[i] p)) ∧
      PathLoop start p ((List.range (steps + 1)).map (advance^[·] p))
        (follow start budget p.1 p.2)) ∨
    ((∀ i < budget, GoesOn (StopsAt start) (advance^[i] p)) ∧
      (follow start budget p.1 p.2).result = .error .cycling) := by
  rcases follow_cases start budget p with ⟨steps, affordable, on, ends⟩ | ⟨on, same⟩
  · refine Or.inl ⟨steps, affordable, on, .of_iterate on ?_⟩
    rcases ends with ⟨e, left, failed, same⟩ | ⟨leaving, next, passed, stops, same⟩
    · rw [same]
      exact .fails failed
    · rw [same]
      exact .ends passed stops
  · exact Or.inr ⟨on, by rw [same]⟩

/-- A path ends within the budget if it stops at the label across its start. -/
theorem FeasibleFrom.exists_pathLoop {start : Label} {p : Label × Tableau ℚ r c}
    (h : FeasibleFrom system origin p.2) (across : StopsAt start p.1.complement) :
    ∃ visited, PathLoop start p visited (follow start p.2.pivotBudget p.1 p.2) ∧
      visited.length ≤ p.2.pivotBudget ∧ (visited.map flag).Nodup := by
  rcases pathLoop_cases start p.2.pivotBudget p with ⟨steps, affordable, on, loop⟩ | ⟨on, _⟩
  · refine ⟨_, loop, by simpa using affordable, ?_⟩
    exact nodup_flags_iterate (h.flag_injOn (StopsAt start) (Or.inr (Or.inr rfl))
      (fun _ _ => across) on)
  · -- A path that used up the budget would have come back to a state.
    exact absurd on (h.path_ends (StopsAt start) (Or.inr (Or.inr rfl)) fun _ _ => across)

/-- On a feasible tableau a path within its budget is the path without one. -/
theorem FeasibleFrom.exists_pathRun (h : FeasibleFrom system origin t) (start : Label) :
    ∃ visited, PathRun t start visited (t.lemkePath start) ∧ visited.length ≤ t.pivotBudget ∧
      (visited.map flag).Nodup := by
  rcases t.lemkePath_cases start with
    ⟨undefined, same⟩ | ⟨proper, valid, ⟨refused, same⟩ | ⟨complementary, same⟩⟩
  · exact ⟨[], same ▸ .undefined undefined, Nat.zero_le _, List.nodup_nil⟩
  · exact ⟨[], same ▸ .notComplementary proper valid refused, Nat.zero_le _, List.nodup_nil⟩
  · obtain ⟨visited, loop, enough, distinct⟩ :=
      h.exists_pathLoop (p := (t.enteringFirst start, t))
        (stopsAt_complement_enteringFirst (Basis.ne_slack_zero_of_labelAt valid))
    exact ⟨visited, same ▸ .path proper valid complementary loop, enough, distinct⟩

namespace PathRun

variable {start : Label} {visited : List (Label × Tableau ℚ r c)}
  {outcome : Attempt (Tableau ℚ r c) Unit}

theorem pivots_le (run : PathRun t start visited outcome) (h : t.Represents system) :
    outcome.state.pivots ≤ t.pivots + visited.length := by
  cases run with
  | undefined | notComplementary => exact le_rfl
  | path _ _ _ loop => exact loop.pivots_le h

theorem result_cases (run : PathRun t start visited outcome) (h : t.Represents system) :
    outcome.result = .ok () ∨ outcome.result = .error .notComplementary ∨
      ∃ l, outcome.result = .error (.undefinedLabel l) ∨
        outcome.result = .error (.noExitRow l) := by
  cases run with
  | undefined => exact Or.inr (Or.inr ⟨start, Or.inl rfl⟩)
  | notComplementary => exact Or.inr (Or.inl rfl)
  | path _ _ _ loop => exact (loop.result_cases h).imp_right Or.inr

end PathRun

/-- Whatever moves are made from the slacks, every path from there is finite. It goes through no
basis twice with the same label to enter, makes at most one pivot at each state, and succeeds or is
given up for one of the reasons named. -/
theorem lemkePath_terminates (a : Grid ℚ r c) (b : Vector ℚ r) (some_column : 0 < c)
    (nonpos : ∀ i, b.get i ≤ 0) :
    ∃ fresh, ofSystem a b 0 = .ok fresh ∧ ∀ (ms : List Move) (start : Label),
      let t := fresh.moves ms
      ∃ visited, PathRun t start visited (t.lemkePath start) ∧ visited.length ≤ t.pivotBudget ∧
        (visited.map flag).Nodup ∧
        (t.lemkePath start).state.pivots ≤ t.pivots + visited.length ∧
        ((t.lemkePath start).result = .ok () ∨
          (t.lemkePath start).result = .error .notComplementary ∨
          ∃ l, (t.lemkePath start).result = .error (.undefinedLabel l) ∨
            (t.lemkePath start).result = .error (.noExitRow l)) := by
  obtain ⟨fresh, built, feasible, _⟩ := ofSystem_feasibleFrom a b 0 some_column nonpos
  refine ⟨fresh, built, fun ms start => ?_⟩
  intro t
  have reached : FeasibleFrom (systemMatrix a b) fresh t := feasible.moves ms
  obtain ⟨visited, run, enough, distinct⟩ := reached.exists_pathRun start
  exact ⟨visited, run, enough, distinct, run.pivots_le reached.represents,
    run.result_cases reached.represents⟩

/-- With more columns than rows and the artificial label basic, the path of the second label is
given up after one pivot, since the label that leaves has no complement. -/
theorem lemkePath_terminates_wide :
    let a : Grid ℚ 2 4 := #v[#v[-1, -1, 0, 0], #v[0, 0, -1, -1]]
    let b : Vector ℚ 2 := #v[-1, 0]
    (∀ i, b.get i ≤ 0) ∧ ∃ fresh, ofSystem a b 0 = .ok fresh ∧
      let t := fresh.moves [.pivotIn .artificial, .pivotIn (.structural 3)]
      t.basis.isMember .artificial = true ∧
      (t.lemkePath (.structural 2)).result = .error (.undefinedLabel (.slack 3)) ∧
      (t.lemkePath (.structural 2)).state.pivots = t.pivots + 1 ∧
      ∃ visited, PathRun t (.structural 2) visited (t.lemkePath (.structural 2)) ∧
        visited.length ≤ t.pivotBudget ∧ (visited.map flag).Nodup := by
  intro a b
  have nonpos : ∀ i, b.get i ≤ 0 := by decide +kernel
  obtain ⟨fresh, built, ends⟩ := lemkePath_terminates a b (by decide) nonpos
  have found : (match ofSystem a b 0 with
      | .ok fresh =>
        let t := fresh.moves [.pivotIn .artificial, .pivotIn (.structural 3)]
        t.basis.isMember .artificial &&
          (match (t.lemkePath (.structural 2)).result with
          | .error e => e == .undefinedLabel (.slack 3)
          | .ok _ => false) &&
          (t.lemkePath (.structural 2)).state.pivots == t.pivots + 1
      | .error _ => false) = true := by decide +kernel
  simp only [built, Bool.and_eq_true, beq_iff_eq] at found
  obtain ⟨⟨held, refused⟩, one⟩ := found
  refine ⟨nonpos, fresh, built, held, ?_, one, ?_⟩
  · split at refused
    next e failed => rw [failed, beq_iff_eq.mp refused]
    · cases refused
  · obtain ⟨visited, run, enough, distinct, _⟩ :=
      ends [.pivotIn .artificial, .pivotIn (.structural 3)] (.structural 2)
    exact ⟨visited, run, enough, distinct⟩

end LexPivot.Tableau
