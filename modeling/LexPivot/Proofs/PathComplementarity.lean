import Mathlib
import LexPivot.Proofs.AlmostComplementary
import LexPivot.Proofs.BoundedSearch
import LexPivot.Proofs.LexicographicInvariant
import LexPivot.Proofs.PathTermination

/-!
# Where paths succeed

A path that succeeds has met a label of the pair it dropped, or the artificial label. In the first
case it is at a complementary basis. In the second case everything depends on the pair: if neither
of its labels was basic at the start, then no pair is basic as a whole along the path. If one of
them was, then both have been basic since the first pivot, and the artificial label has left too
early. So paths and searches from tableaus where the artificial label is not basic come to
complementary solutions only.
-/
namespace LexPivot

namespace Tableau

variable {r c : Nat} {system : Matrix (Fin r) (Fin (c + r + 1)) ℚ} {origin t next : Tableau ℚ r c}
  {start entering leaving : Label}

/-! ### Steps that succeed -/

/-- A step that succeeds exchanges two labels, or it changes nothing and names the artificial label
or the one that was to enter. -/
theorem Represents.pivotIn_passed (h : t.Represents system)
    (passed : t.pivotIn entering = ⟨.ok leaving, next⟩) :
    (∃ j, t.basis.labelAt j = entering) ∧ t.basis.Holds leaving ∧
      (next = t ∧ (leaving = .artificial ∨ leaving = entering) ∨
        Replaces t entering leaving next) := by
  rcases h.pivotIn_cases entering with
    ⟨_, done⟩ | ⟨j, rfl, ⟨_, ⟨i, label, _, done⟩ | ⟨_, done⟩⟩ | ⟨i, _, ⟨held, done⟩ | ⟨_, done⟩⟩⟩
  all_goals cases passed.symm.trans done
  · exact ⟨⟨j, rfl⟩, ⟨i, label⟩, Or.inl ⟨rfl, Or.inl rfl⟩⟩
  · exact ⟨⟨j, rfl⟩, h.consistent.holds_labelAt_iff.mpr ⟨i, held⟩, Or.inl ⟨rfl, Or.inr rfl⟩⟩
  · have kept := h.of_passed passed
    exact ⟨⟨j, rfl⟩, ⟨i, rfl⟩,
      Or.inr ⟨kept.consistent, ⟨i, rfl⟩, holds_exchangeColumn h.consistent⟩⟩

/-- Where neither label of the pair that enters is basic, no pair is left out. -/
theorem AlmostComplementary.of_absent (consistent : t.basis.Consistent)
    (complementary : t.isComplementary = true)
    (valid : ∃ j, t.basis.labelAt j = entering) (proper : entering ≠ .artificial)
    (absent : ¬t.basis.Holds entering) (absent' : ¬t.basis.Holds entering.complement) (k : Nat) :
    AlmostComplementary k (entering, t) where
  consistent := consistent
  valid := valid
  proper := proper
  nonbasic := absent
  pairs l other held held' :=
    absurd held' ((isComplementary_iff_holds consistent).mp complementary l other held)
  across _ := absent'

/-- Whether the artificial label leaves at one of the states. -/
def ArtificialLeaves (visited : List (Label × Tableau ℚ r c)) : Prop :=
  ∃ s ∈ visited, (s.2.pivotIn s.1).result = .ok .artificial

theorem artificialLeaves_cons {s : Label × Tableau ℚ r c} {visited : List (Label × Tableau ℚ r c)}
    (passed : s.2.pivotIn s.1 = ⟨.ok leaving, next⟩) :
    ArtificialLeaves (s :: visited) ↔ leaving = .artificial ∨ ArtificialLeaves visited := by
  simp [ArtificialLeaves, passed]

theorem artificialLeaves_singleton {s : Label × Tableau ℚ r c}
    (passed : s.2.pivotIn s.1 = ⟨.ok leaving, next⟩) :
    ArtificialLeaves [s] ↔ leaving = .artificial := by
  simp [ArtificialLeaves, passed]

/-! ### Paths that succeed -/

namespace PathLoop

variable {s : Label × Tableau ℚ r c} {visited : List (Label × Tableau ℚ r c)}

/-- Induction along a loop that succeeds. -/
@[elab_as_elim]
theorem ok_induction
    {motive : ∀ s visited, PathLoop start s visited ⟨.ok (), next⟩ → Prop}
    (ends : ∀ {s leaving} (passed : s.2.pivotIn s.1 = ⟨.ok leaving, next⟩)
      (stops : StopsAt start leaving), motive s [s] (.ends passed stops))
    (step : ∀ {s leaving between visited} (passed : s.2.pivotIn s.1 = ⟨.ok leaving, between⟩)
      (continues : ¬StopsAt start leaving)
      (rest : PathLoop start (leaving.complement, between) visited ⟨.ok (), next⟩),
      motive _ visited rest → motive s (s :: visited) (.step passed continues rest))
    {s : Label × Tableau ℚ r c} {visited : List (Label × Tableau ℚ r c)}
    (loop : PathLoop start s visited ⟨.ok (), next⟩) : motive s visited loop := by
  -- The outcome is an index of the relation, so it has to vary before the induction starts.
  have general {o : Attempt (Tableau ℚ r c) Unit} (run : PathLoop start s visited o)
      (outcome : o = ⟨.ok (), next⟩) : motive s visited (outcome ▸ run) := by
    induction run with
    | fails => cases outcome
    | ends passed stops =>
      cases outcome
      exact ends passed stops
    | step passed continues rest ih =>
      subst outcome
      exact step passed continues rest (ih rest rfl)
  exact general loop rfl

theorem exists_labelAt (loop : PathLoop start s visited ⟨.ok (), next⟩)
    (h : s.2.Represents system) : ∃ j, s.2.basis.labelAt j = s.1 := by
  cases loop with
  | ends passed => exact (h.pivotIn_passed passed).1
  | step passed => exact (h.pivotIn_passed passed).1

theorem represents (loop : PathLoop start s visited ⟨.ok (), next⟩) (h : s.2.Represents system) :
    next.Represents system := by
  induction loop using ok_induction with
  | ends passed _ => exact h.of_passed passed
  | step passed _ _ ih => exact ih (h.of_passed passed)

/-- A loop that succeeds ends at a complementary basis, or the artificial label has left. Then the
pair left out is still the only one that can be basic as a whole. That pair is the one dropped, or
none. -/
theorem isComplementary_or (loop : PathLoop start s visited ⟨.ok (), next⟩)
    (h : s.2.Represents system) {k : Nat} (almost : AlmostComplementary k s)
    (defined : start ≠ .slack 0) (proper : start ≠ .artificial)
    (pair : k = start.index ∨ k = 0) :
    next.isComplementary = true ∨
    ArtificialLeaves visited ∧ ∀ l, l ≠ .artificial → next.basis.Holds l →
      next.basis.Holds l.complement → l.index = k := by
  induction loop using ok_induction with
  | @ends s leaving passed stops =>
    obtain ⟨_, held, ⟨rfl, artificial | own⟩ | replaces⟩ := h.pivotIn_passed passed
    · exact Or.inr ⟨(artificialLeaves_singleton passed).mpr artificial, almost.pairs⟩
    · exact absurd (own ▸ held) almost.nonbasic
    · by_cases artificial : leaving = .artificial
      · exact Or.inr ⟨(artificialLeaves_singleton passed).mpr artificial,
          fun l => almost.pairs_next replaces⟩
      · left
        rcases pair with rfl | rfl
        · exact almost.isComplementary_next replaces artificial (stops.index_eq artificial)
        · exact isComplementary_of_pairs replaces.consistent fun l => almost.pairs_next replaces
  | @step s leaving _ visited passed continues rest ih =>
    -- The loop goes on, so the label that leaves is of another pair than the one left out.
    have other : leaving ≠ .artificial := fun same => continues (Or.inr (Or.inr same))
    obtain ⟨_, held, ⟨_, artificial | own⟩ | replaces⟩ := h.pivotIn_passed passed
    · exact absurd artificial other
    · exact absurd (own ▸ held) almost.nonbasic
    · have kept := h.of_passed passed
      have index : leaving.index ≠ k := by
        rcases pair with rfl | rfl
        · exact fun same => continues (stopsAt_of_index_eq defined proper same)
        · exact h.consistent.index_ne_zero held other
      have almost' := almost.next_of_index_ne replaces other (rest.exists_labelAt kept) index
      exact (ih kept almost').imp_right (And.imp_left fun leaves =>
        (artificialLeaves_cons passed).mpr (Or.inr leaves))

/-- On a path the artificial label does not enter. -/
theorem artificial_absent (loop : PathLoop start s visited ⟨.ok (), next⟩)
    (h : s.2.Represents system) (proper : s.1 ≠ .artificial)
    (absent : ¬s.2.basis.Holds .artificial) :
    ¬ArtificialLeaves visited ∧ ¬next.basis.Holds .artificial := by
  have step {p : Label × Tableau ℚ r c} {leaving : Label} {next : Tableau ℚ r c}
      (h : p.2.Represents system) (proper : p.1 ≠ .artificial)
      (absent : ¬p.2.basis.Holds .artificial) (passed : p.2.pivotIn p.1 = ⟨.ok leaving, next⟩) :
      leaving ≠ .artificial ∧ ¬next.basis.Holds .artificial := by
    obtain ⟨_, held, ⟨rfl, _⟩ | replaces⟩ := h.pivotIn_passed passed
    · exact ⟨fun same => absent (same ▸ held), absent⟩
    · refine ⟨fun same => absent (same ▸ held), fun later => ?_⟩
      rcases (replaces.holds _).mp later with entered | before
      · exact proper entered.symm
      · exact absent before.2
  induction loop using ok_induction with
  | ends passed _ =>
    obtain ⟨other, absent'⟩ := step h proper absent passed
    rw [artificialLeaves_singleton passed]
    exact ⟨other, absent'⟩
  | step passed _ _ ih =>
    obtain ⟨other, absent'⟩ := step h proper absent passed
    have defined := h.consistent.ne_slack_zero (h.pivotIn_passed passed).2.1
    obtain ⟨stays, ends⟩ := ih (h.of_passed passed)
      (Label.complement_ne_artificial defined other) absent'
    rw [artificialLeaves_cons passed]
    exact ⟨fun leaves => leaves.elim other stays, ends⟩

/-- If the artificial label leaves, then no label of the pair dropped does. So one that is basic
stays basic. -/
theorem holds_of_artificialLeaves (loop : PathLoop start s visited ⟨.ok (), next⟩)
    (h : s.2.Represents system) (leaves : ArtificialLeaves visited) {l : Label}
    (pair : StopsAt start l) (proper : l ≠ .artificial) (held : s.2.basis.Holds l) :
    next.basis.Holds l := by
  have step {p : Label × Tableau ℚ r c} {leaving : Label} {next : Tableau ℚ r c}
      (h : p.2.Represents system) (held : p.2.basis.Holds l) (other : l ≠ leaving)
      (passed : p.2.pivotIn p.1 = ⟨.ok leaving, next⟩) : next.basis.Holds l := by
    obtain ⟨_, _, ⟨rfl, _⟩ | replaces⟩ := h.pivotIn_passed passed
    · exact held
    · exact (replaces.holds l).mpr (Or.inr ⟨other, held⟩)
  induction loop using ok_induction with
  | ends passed _ =>
    obtain rfl := (artificialLeaves_singleton passed).mp leaves
    exact step h held proper passed
  | @step _ leaving _ _ passed continues _ ih =>
    have other : l ≠ leaving := fun same => continues (same ▸ pair)
    have later := ((artificialLeaves_cons passed).mp leaves).resolve_left
      fun same => continues (Or.inr (Or.inr same))
    exact ih (h.of_passed passed) later (step h held other passed)

/-- The label of the pair that enters first stays basic, unless nothing has changed. -/
theorem holds_entering_of_artificialLeaves (loop : PathLoop start s visited ⟨.ok (), next⟩)
    (h : s.2.Represents system) (leaves : ArtificialLeaves visited) (pair : StopsAt start s.1)
    (proper : s.1 ≠ .artificial) (moved : next ≠ s.2) : next.basis.Holds s.1 := by
  cases loop with
  | ends passed _ =>
    obtain ⟨_, _, ⟨same, _⟩ | replaces⟩ := h.pivotIn_passed passed
    · exact absurd same moved
    · exact (replaces.holds _).mpr (Or.inl rfl)
  | step passed continues rest =>
    have other := fun same => continues (Or.inr (Or.inr same))
    have later := ((artificialLeaves_cons passed).mp leaves).resolve_left other
    obtain ⟨_, _, ⟨_, artificial | own⟩ | replaces⟩ := h.pivotIn_passed passed
    · exact absurd artificial other
    · exact absurd (own ▸ pair) continues
    · exact rest.holds_of_artificialLeaves (h.of_passed passed) later pair proper
        ((replaces.holds _).mpr (Or.inl rfl))

end PathLoop

namespace PathRun

variable {visited : List (Label × Tableau ℚ r c)}

/-- If the artificial label leaves and one label of the pair dropped was basic, then both are at the
end of the path, unless nothing has changed. -/
theorem holds_pair (run : PathRun t start visited ⟨.ok (), next⟩) (h : t.Represents system)
    (moved : next ≠ t) (half : t.basis.Holds start ∨ t.basis.Holds start.complement)
    (leaves : ArtificialLeaves visited) :
    next.basis.Holds start ∧ next.basis.Holds start.complement := by
  cases run with
  | path proper valid complementary loop =>
    have defined : start ≠ .slack 0 := Basis.ne_slack_zero_of_labelAt valid
    have proper' := Label.complement_ne_artificial defined proper
    have pair : StopsAt start (t.enteringFirst start) := by
      rcases t.enteringFirst_eq start with same | same
      · exact Or.inl same
      · exact Or.inr (Or.inl same)
    have enters := loop.holds_entering_of_artificialLeaves h leaves pair
      (enteringFirst_ne_artificial defined proper) moved
    dsimp only at enters
    -- One label of the pair has entered, the other was basic and has stayed.
    by_cases basic : t.basis.isMember start = true
    · rw [enteringFirst, if_pos basic] at enters
      exact ⟨loop.holds_of_artificialLeaves h leaves (Or.inl rfl) proper
        (h.consistent.isMember_iff_holds.mp basic), enters⟩
    · rw [enteringFirst, if_neg basic] at enters
      exact ⟨enters, loop.holds_of_artificialLeaves h leaves (Or.inr (Or.inl rfl)) proper'
        (half.resolve_left (mt h.consistent.isMember_iff_holds.mpr basic))⟩

/-- The one way in which a path that succeeds misses a complementary basis. -/
theorem isComplementary_eq_false_iff (run : PathRun t start visited ⟨.ok (), next⟩)
    (h : t.Represents system) :
    next.isComplementary = false ↔ next ≠ t ∧
      (t.basis.Holds start ∨ t.basis.Holds start.complement) ∧ ArtificialLeaves visited := by
  constructor
  · intro broken
    rw [← Bool.not_eq_true] at broken
    cases run with
    | path proper valid complementary loop =>
      have defined : start ≠ .slack 0 := Basis.ne_slack_zero_of_labelAt valid
      have entered := loop.exists_labelAt h
      refine ⟨fun same => broken (same ▸ complementary), ?_, ?_⟩
      · -- With neither label basic no pair is left out, whichever label leaves last.
        by_contra absent
        push Not at absent
        have first : t.enteringFirst start = start :=
          if_neg (mt h.consistent.isMember_iff_holds.mp absent.1)
        rw [first] at loop entered
        rcases loop.isComplementary_or h
          (.of_absent h.consistent complementary entered proper absent.1 absent.2 0) defined proper
          (Or.inr rfl) with reached | ⟨_, pairs⟩
        · exact broken reached
        · exact broken (isComplementary_of_pairs (loop.represents h).consistent pairs)
      · have almost := AlmostComplementary.enteringFirst h.consistent complementary entered defined
          proper
        exact ((loop.isComplementary_or h almost defined proper (Or.inl rfl)).resolve_left broken).1
  · rintro ⟨moved, half, leaves⟩
    obtain ⟨held, held'⟩ := run.holds_pair h moved half leaves
    rw [← Bool.not_eq_true]
    intro reached
    cases run with
    | path proper _ _ loop =>
      have consistent := (loop.represents h).consistent
      exact (isComplementary_iff_holds consistent).mp reached start proper held held'

theorem artificial_absent (run : PathRun t start visited ⟨.ok (), next⟩) (h : t.Represents system)
    (absent : ¬t.basis.Holds .artificial) :
    ¬ArtificialLeaves visited ∧ ¬next.basis.Holds .artificial := by
  cases run with
  | path proper valid _ loop =>
    exact loop.artificial_absent h
      (enteringFirst_ne_artificial (Basis.ne_slack_zero_of_labelAt valid) proper) absent

end PathRun

/-! ### Paths from path to path -/

/-- Without the artificial label, paths in a row come to complementary bases only. -/
theorem FeasibleFrom.of_chain (h : FeasibleFrom system origin t)
    (complementary : t.isComplementary = true) (absent : ¬t.basis.Holds .artificial) {k : Nat}
    (chain : Search.Chain t k next) :
    FeasibleFrom system origin next ∧ next.isComplementary = true ∧
      ¬next.basis.Holds .artificial := by
  induction chain with
  | start => exact ⟨h, complementary, absent⟩
  | @path _ _ next start _ succeeds ih =>
    obtain ⟨feasible, _, absent⟩ := ih
    obtain ⟨visited, run, _⟩ := feasible.exists_pathRun start
    rw [succeeds] at run
    obtain ⟨stays, absent'⟩ := run.artificial_absent feasible.represents absent
    refine ⟨feasible.of_lemkePath succeeds, ?_, absent'⟩
    rw [← Bool.not_eq_false, run.isComplementary_eq_false_iff feasible.represents]
    exact fun cut => stays cut.2.2

/-- Whatever moves are made from the slacks, a path from there that succeeds ends at a feasible
basis. It is complementary unless the path has made a pivot, one label of the pair dropped was
basic at its start, and the artificial label leaves. In that case the whole pair is basic at the
end, and the artificial label was basic at the start. A search that starts without the artificial
label reports complementary solutions only. -/
theorem lemkePath_isComplementary (a : Grid ℚ r c) (b : Vector ℚ r) (some_column : 0 < c)
    (nonpos : ∀ i, b.get i ≤ 0) :
    ∃ fresh, ofSystem a b 0 = .ok fresh ∧ ∀ ms : List Move,
      let t := fresh.moves ms
      (∀ start next, t.lemkePath start = ⟨.ok (), next⟩ → next.isFeasible = true ∧
        ∃ visited, PathRun t start visited ⟨.ok (), next⟩ ∧
          (next.isComplementary = false ↔ next ≠ t ∧
            (t.basis.isMember start = true ∨ t.basis.isMember start.complement = true) ∧
            ArtificialLeaves visited) ∧
          (next.isComplementary = false → t.basis.isMember .artificial = true ∧
            next.basis.isMember start = true ∧ next.basis.isMember start.complement = true)) ∧
      (t.isComplementary = true → t.basis.isMember .artificial = false →
        ∀ {σ : Type} (o : Observer σ ℚ) (state : σ) (bounds : SearchBounds),
          ∀ s ∈ (t.searchWith o state bounds).1.equilibria, ∃ k t', Search.Chain t k t' ∧
            t'.isComplementary = true ∧ t'.isFeasible = true ∧ t'.complementarySolution = s) := by
  obtain ⟨fresh, built, feasible, _⟩ := ofSystem_feasibleFrom a b 0 some_column nonpos
  refine ⟨fresh, built, fun ms => ?_⟩
  intro t
  have reached : FeasibleFrom (systemMatrix a b) fresh t := feasible.moves ms
  have represents := reached.represents
  simp only [← Bool.not_eq_true (t.basis.isMember .artificial),
    represents.consistent.isMember_iff_holds]
  constructor
  · intro start next path
    obtain ⟨visited, run, _⟩ := reached.exists_pathRun start
    rw [path] at run
    have cut := run.isComplementary_eq_false_iff represents
    simp only [(reached.of_lemkePath path).represents.consistent.isMember_iff_holds]
    refine ⟨(reached.of_lemkePath path).feasible.isFeasible, visited, run, cut, fun broken => ?_⟩
    obtain ⟨moved, half, leaves⟩ := cut.mp broken
    refine ⟨?_, run.holds_pair represents moved half leaves⟩
    -- A label that leaves and does not enter on the way was there at the start.
    by_contra absent
    exact (run.artificial_absent represents absent).1 leaves
  · intro complementary absent σ o state bounds s listed
    obtain ⟨node, found, solution⟩ := (charts_searchWith complementary o state bounds).1 s listed
    obtain ⟨later, complementary', _⟩ := reached.of_chain complementary absent found.chain
    exact ⟨node.depth, node.tableau, found.chain, complementary', later.feasible.isFeasible,
      solution⟩

/-- With the artificial label basic, and neither label of the first pair, the path of the first
label ends at a complementary basis. The search from the slacks finds one solution. -/
theorem lemkePath_isComplementary_unpaired :
    let a : Grid ℚ 2 3 := #v[#v[-1, 0, -1], #v[0, -1, 0]]
    let b : Vector ℚ 2 := #v[-1, -1]
    (∀ i, b.get i ≤ 0) ∧ ∃ fresh next, ofSystem a b 0 = .ok fresh ∧
      let t := fresh.moves [.pivotIn .artificial]
      t.basis.isMember .artificial = true ∧ t.lemkePath (.structural 1) = ⟨.ok (), next⟩ ∧
      next.isComplementary = true ∧ next.isFeasible = true ∧
      (fresh.searchWith (.silent ℚ) () .unbounded).1.equilibria.length = 1 ∧
      ∀ s ∈ (fresh.searchWith (.silent ℚ) () .unbounded).1.equilibria, ∃ k t',
        Search.Chain fresh k t' ∧ t'.isComplementary = true ∧ t'.complementarySolution = s := by
  intro a b
  have nonpos : ∀ i, b.get i ≤ 0 := by decide +kernel
  obtain ⟨fresh, built, reaches⟩ := lemkePath_isComplementary a b (by decide) nonpos
  have found : (match ofSystem a b 0 with
      | .ok fresh =>
        let t := fresh.moves [.pivotIn .artificial]
        t.basis.isMember .artificial && !t.basis.isMember (.structural 1) &&
          !t.basis.isMember (.slack 1) && (t.lemkePath (.structural 1)).result.toBool &&
          fresh.isComplementary && !fresh.basis.isMember .artificial &&
          (fresh.searchWith (.silent ℚ) () .unbounded).1.equilibria.length == 1
      | .error _ => false) = true := by decide +kernel
  simp only [built, Bool.and_eq_true, Bool.not_eq_true', beq_iff_eq] at found
  obtain ⟨⟨⟨⟨⟨⟨held, absent⟩, absent'⟩, succeeds⟩, complementary⟩, without⟩, one⟩ := found
  rcases path : (fresh.moves [.pivotIn .artificial]).lemkePath (.structural 1) with ⟨_ | _, next⟩
  · rw [path] at succeeds
    cases succeeds
  · obtain ⟨feasible, visited, _, cut, _⟩ := (reaches [.pivotIn .artificial]).1 _ next path
    have reached : next.isComplementary = true := by
      rw [← Bool.not_eq_false, cut]
      rintro ⟨_, half | half, _⟩
      · exact Bool.false_ne_true (absent.symm.trans half)
      · exact Bool.false_ne_true (absent'.symm.trans half)
    refine ⟨nonpos, fresh, next, built, held, path, reached, feasible, one, fun s listed => ?_⟩
    obtain ⟨k, t', chain, complementary', _, solution⟩ :=
      (reaches []).2 complementary without (.silent ℚ) () .unbounded s listed
    exact ⟨k, t', chain, complementary', solution⟩

/-- The path of the second label, from the same complementary tableau, succeeds where both labels
of the pair are basic. The search from there reports the solution, and then is refused a path. -/
theorem lemkePath_cut_short :
    let a : Grid ℚ 2 3 := #v[#v[-1, 0, -1], #v[0, -1, 0]]
    let b : Vector ℚ 2 := #v[-1, -1]
    (∀ i, b.get i ≤ 0) ∧ ∃ fresh next, ofSystem a b 0 = .ok fresh ∧
      let t := fresh.moves [.pivotIn .artificial]
      t.isComplementary = true ∧ t.lemkePath (.structural 2) = ⟨.ok (), next⟩ ∧
      next.isComplementary = false ∧ next.basicValue (.structural 2) = .ok 1 ∧
      next.basicValue (.slack 2) = .ok 1 ∧
      next.complementarySolution ∈ (t.search .unbounded).equilibria ∧
      (t.search .unbounded).errors = [.notComplementary] := by
  intro a b
  obtain ⟨fresh, built, _⟩ := ofSystem_represents a b 0 (by decide)
  have found : (match ofSystem a b 0 with
      | .ok fresh =>
        let t := fresh.moves [.pivotIn .artificial]
        match t.lemkePath (.structural 2) with
        | ⟨.ok (), next⟩ =>
          match next.basicValue (.structural 2), next.basicValue (.slack 2) with
          | .ok x, .ok y =>
            t.isComplementary && !next.isComplementary && x == 1 && y == 1 &&
              ((t.search .unbounded).equilibria.map BasicSolution.entries).contains
                next.complementarySolution.entries &&
              (t.search .unbounded).errors == [.notComplementary]
          | _, _ => false
        | ⟨.error _, _⟩ => false
      | .error _ => false) = true := by decide +kernel
  simp only [built] at found
  split at found
  next next path =>
    split at found
    next x y structural slack =>
      simp only [Bool.and_eq_true, Bool.not_eq_true', beq_iff_eq, List.contains_iff_mem,
        List.mem_map] at found
      obtain ⟨⟨⟨⟨⟨complementary, broken⟩, rfl⟩, rfl⟩, s, listed, same⟩, refused⟩ := found
      have solution : s = next.complementarySolution := congrArg BasicSolution.mk same
      exact ⟨by decide +kernel, fresh, next, built, complementary, path, broken, structural, slack,
        solution ▸ listed, refused⟩
    next => cases found
  next => cases found

end Tableau

end LexPivot
