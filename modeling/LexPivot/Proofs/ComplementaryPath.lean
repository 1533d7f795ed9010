import Mathlib
import LexPivot.Proofs.ComplementaryPivot

/-!
# Complementary paths never return

A pivot turns a basis and the label that enters it into another basis and the label that left.
The lexicographic ratio test makes this a pairing: the basis alone decides, and letting the label
that left enter again leads back. A path pivots and turns to the complement, over and over. So a
path that came back to where it was before would have come back to its start, and the label it
dropped there would be its own complement.

Hence every path ends within the budget of pivots, and the end of a path is not its start.
-/
namespace LexPivot

open Matrix

/-! ### Walks that pair and turn -/

section Walk

variable {α : Type} {R : α → α → Prop} {τ : α → α} {x y : ℕ → α} {N : ℕ}

/-- A walk does not meet itself if it never turns into its start. -/
theorem walk_injOn (symm : ∀ a b, R a b → R b a) (functional : ∀ a b d, R a b → R a d → b = d)
    (pair : ∀ i < N, R (x i) (y i)) (next : ∀ i < N, x (i + 1) = τ (y i))
    (back : ∀ i < N, τ (τ (y i)) = y i) (fresh : ∀ i < N, y i ≠ τ (x 0)) :
    ∀ i k, i < k → k ≤ N → x i ≠ x k := by
  intro i
  induction i with
  | zero =>
    intro k later bound same
    obtain ⟨k, rfl⟩ := Nat.exists_eq_succ_of_ne_zero later.ne'
    have last : k < N := bound
    -- What turned into the start left it at the label across.
    apply fresh k last
    rw [same, Nat.succ_eq_add_one, next k last, back k last]
  | succ i ih =>
    intro k later bound same
    obtain ⟨k, rfl⟩ := Nat.exists_eq_succ_of_ne_zero (Nat.ne_zero_of_lt later)
    have last : k < N := bound
    have earlier : i < N := by omega
    rw [Nat.succ_eq_add_one, next i earlier, next k last] at same
    -- Equal flags were turned into from equal partners, whose own partners are equal too.
    have left : y i = y k := by
      rw [← back i earlier, same, back k last]
    have reached : R (y k) (x i) := left ▸ symm _ _ (pair i earlier)
    exact ih k (by omega) last.le (functional _ _ _ reached (symm _ _ (pair k last)))

/-- A walk whose last partner were its start would read the same from both ends, and have no
middle. -/
theorem walk_last_ne_first (symm : ∀ a b, R a b → R b a)
    (functional : ∀ a b d, R a b → R a d → b = d) (pair : ∀ i ≤ N, R (x i) (y i))
    (next : ∀ i < N, x (i + 1) = τ (y i)) (back : ∀ i < N, τ (τ (y i)) = y i)
    (moved : ∀ i ≤ N, y i ≠ x i) (turned : ∀ i < N, τ (y i) ≠ y i) : y N ≠ x 0 := by
  intro closed
  -- Going inwards from both ends, the partners on one side are the flags on the other.
  have mirror : ∀ i ≤ N, y i = x (N - i) := by
    intro i
    induction i with
    | zero =>
      intro bound
      exact functional _ _ _ (pair 0 bound) (closed ▸ symm _ _ (pair N le_rfl))
    | succ i ih =>
      intro bound
      obtain ⟨k, rest⟩ : ∃ k, N - i = k + 1 := ⟨N - i - 1, by omega⟩
      have meets : x (i + 1) = y k := by
        rw [next i bound, ih (Nat.le_of_lt bound), rest, next k (by omega), back k (by omega)]
      have partner : R (y k) (y (i + 1)) := meets ▸ pair (i + 1) bound
      rw [show N - (i + 1) = k by omega]
      exact functional _ _ _ partner (symm _ _ (pair k (by omega)))
  -- In the middle a flag would be its own partner, or a partner would turn into itself.
  rcases Nat.even_or_odd' N with ⟨half, even | odd⟩
  · apply moved half (by omega)
    rw [mirror half (by omega), show N - half = half by omega]
  · apply turned half (by omega)
    rw [← next half (by omega), mirror half (by omega), show N - half = half + 1 by omega]

end Walk

namespace Label

@[simp] theorem complement_slack (k : Nat) : (slack k).complement = .structural k := rfl

@[simp] theorem complement_structural_succ (k : Nat) :
    (structural (k + 1)).complement = .slack (k + 1) := rfl

theorem structural_succ_ne_artificial (k : Nat) : structural (k + 1) ≠ artificial := by
  simp [artificial]

theorem slack_ne_artificial (k : Nat) : slack k ≠ artificial := by
  simp [artificial]

theorem complement_complement {l : Label} (valid : l ≠ .slack 0) :
    l.complement.complement = l := by
  match l with
  | .structural 0 => rfl
  | .structural (k + 1) => rfl
  | .slack 0 => exact absurd rfl valid
  | .slack (k + 1) => rfl

@[simp] theorem index_complement (l : Label) : l.complement.index = l.index := by
  match l with
  | .structural 0 => rfl
  | .structural (k + 1) => rfl
  | .slack k => rfl

theorem complement_ne {l : Label} (proper : l ≠ .artificial) : l.complement ≠ l := by
  match l with
  | .structural 0 => exact absurd rfl proper
  | .structural (k + 1) => exact nofun
  | .slack k => exact nofun

theorem complement_ne_artificial {l : Label} (valid : l ≠ .slack 0) (proper : l ≠ .artificial) :
    l.complement ≠ .artificial := by
  intro artificial
  rw [← complement_complement valid, artificial] at proper
  exact proper rfl

theorem eq_or_eq_complement {l k : Label} (same : l.index = k.index) (valid : k ≠ .slack 0)
    (proper : k ≠ .artificial) : l = k ∨ l = k.complement := by
  match k, l with
  | .structural 0, _ => exact absurd rfl proper
  | .slack 0, _ => exact absurd rfl valid
  | .structural (k + 1), .structural _ => exact Or.inl (congrArg structural same)
  | .structural (k + 1), .slack _ => exact Or.inr (congrArg slack same)
  | .slack (k + 1), .structural _ => exact Or.inr (congrArg structural same)
  | .slack (k + 1), .slack _ => exact Or.inl (congrArg slack same)

end Label

theorem Basis.labelAt_ne_slack_zero {r c : Nat} (b : Basis r c) (j : Fin (c + r)) :
    b.labelAt j ≠ .slack 0 := by
  refine Fin.addCases (fun k => ?_) (fun i => ?_) j
  · simp
  · simp

theorem Basis.ne_slack_zero_of_labelAt {r c : Nat} {b : Basis r c} {l : Label}
    (valid : ∃ j, b.labelAt j = l) : l ≠ .slack 0 := by
  obtain ⟨j, rfl⟩ := valid
  exact b.labelAt_ne_slack_zero j

namespace Tableau

variable {r c : Nat} {system : Matrix (Fin r) (Fin (c + r + 1)) ℚ} {origin t : Tableau ℚ r c}

/-! ### Pivots as a pairing -/

/-- A basis, as the set of its columns, and a label that is to enter it or has just left it. -/
abbrev Flag (r c : Nat) := Set (Fin (c + r)) × Label

/-- What the pivot between two flags does in a feasible tableau: the label of one enters and that
of the other leaves. -/
def Paired (system : Matrix (Fin r) (Fin (c + r + 1)) ℚ) (origin : Tableau ℚ r c)
    (x y : Flag r c) : Prop :=
  ∃ t i j, FeasibleFrom system origin t ∧
    IsLexExit t.values t.lexColumns (t.values.col j.castSucc) i ∧
    x = (Set.range t.basis.columns.get, t.basis.labelAt j) ∧
    y = (Set.range (t.exchangeColumn i j).basis.columns.get, t.basis.rowLabel i)

theorem Paired.symm {x y : Flag r c} (h : Paired system origin x y) :
    Paired system origin y x := by
  obtain ⟨t, i, j, feasible, exit, rfl, rfl⟩ := h
  refine ⟨t.exchangeColumn i j, i, t.basis.columns.get i, feasible.exchangeColumn exit,
    feasible.represents.isLexExit_reverse feasible.feasible exit, ?_, ?_⟩
  · rw [labelAt_exchangeColumn, ← feasible.represents.consistent.rowLabel_eq]
  · rw [columns_exchangeColumn, columns_exchangeColumn, Function.update_idem,
      Function.update_eq_self, rowLabel_exchangeColumn_self]

/-- The order of the rows does not matter for a pivot. -/
theorem Paired.functional {x y z : Flag r c} (hy : Paired system origin x y)
    (hz : Paired system origin x z) : y = z := by
  obtain ⟨t, i, j, feasible, exit, rfl, rfl⟩ := hy
  obtain ⟨t', i', j', feasible', exit', same, rfl⟩ := hz
  obtain ⟨range, label⟩ := Prod.mk.inj same
  have labels : t'.basis.labelAt = t.basis.labelAt := feasible'.labelAt.trans feasible.labelAt.symm
  rw [labels] at label
  obtain rfl := t.basis.labelAt_injective label
  -- The two tableaus differ by an order of the rows, and the row that leaves is unique.
  obtain ⟨σ, columns, values⟩ := feasible.represents.exists_perm feasible'.represents range.symm
  rw [values, feasible'.lexColumns, ← feasible.lexColumns] at exit'
  obtain rfl := exit.unique exit'.of_submatrix
  have leaves : t'.basis.rowLabel i' = t.basis.rowLabel (σ i') := by
    rw [feasible'.represents.consistent.rowLabel_eq, labels, columns,
      feasible.represents.consistent.rowLabel_eq]
    rfl
  have exchanged : Function.update t'.basis.columns.get i' j =
      Function.update t.basis.columns.get (σ i') j ∘ σ := by
    rw [columns]
    exact (Function.update_comp_eq_of_injective _ σ.injective i' j).symm
  rw [leaves, columns_exchangeColumn, columns_exchangeColumn, exchanged, σ.surjective.range_comp]

/-! ### The trace of a path -/

/-- A path goes on when a label leaves at which it does not stop. -/
def GoesOn (stop : Label → Prop) (p : Label × Tableau ℚ r c) : Prop :=
  ∃ leaving next, p.2.pivotIn p.1 = ⟨.ok leaving, next⟩ ∧ ¬stop leaving

/-- One pivot further along a path, where the complement of what left is to enter. -/
def advance (p : Label × Tableau ℚ r c) : Label × Tableau ℚ r c :=
  match p.2.pivotIn p.1 with
  | ⟨.ok leaving, next⟩ => (leaving.complement, next)
  | ⟨.error _, _⟩ => p

theorem advance_eq {p : Label × Tableau ℚ r c} {leaving : Label} {next : Tableau ℚ r c}
    (passed : p.2.pivotIn p.1 = ⟨.ok leaving, next⟩) : advance p = (leaving.complement, next) := by
  rw [advance, passed]

/-- The labels at which the path that drops `start` stops. -/
def StopsAt (start leaving : Label) : Prop :=
  leaving = start ∨ leaving = start.complement ∨ leaving = .artificial

private theorem stops_iff {start leaving : Label} :
    (decide (leaving = start) || decide (leaving = start.complement) ||
      leaving.isArtificial) = true ↔ StopsAt start leaving := by
  simp only [Bool.or_eq_true, decide_eq_true_eq, or_assoc, StopsAt, Label.isArtificial, beq_iff_eq]

theorem StopsAt.index_eq {start leaving : Label} (stops : StopsAt start leaving)
    (proper : leaving ≠ .artificial) : leaving.index = start.index := by
  rcases stops with rfl | rfl | artificial
  · rfl
  · exact Label.index_complement start
  · exact absurd artificial proper

theorem stopsAt_of_index_eq {start leaving : Label} (defined : start ≠ .slack 0)
    (proper : start ≠ .artificial) (same : leaving.index = start.index) :
    StopsAt start leaving := by
  rcases Label.eq_or_eq_complement same defined proper with own | across
  · exact Or.inl own
  · exact Or.inr (Or.inl across)

theorem follow_succ_of_stops {start : Label} {p : Label × Tableau ℚ r c} {leaving : Label}
    {next : Tableau ℚ r c} (passed : p.2.pivotIn p.1 = ⟨.ok leaving, next⟩)
    (stops : StopsAt start leaving) (budget : Nat) :
    follow start (budget + 1) p.1 p.2 = ⟨.ok (), next⟩ := by
  simp only [follow, passed, if_pos (stops_iff.mpr stops)]

theorem follow_succ_of_goesOn {start : Label} {p : Label × Tableau ℚ r c}
    (on : GoesOn (StopsAt start) p) (budget : Nat) :
    follow start (budget + 1) p.1 p.2 = follow start budget (advance p).1 (advance p).2 := by
  obtain ⟨leaving, next, passed, continues⟩ := on
  simp only [follow, passed, if_neg (mt stops_iff.mp continues), advance_eq passed]

theorem follow_complement {start : Label} (defined : start ≠ .slack 0) (budget : Nat)
    (entering : Label) (t : Tableau ℚ r c) :
    follow start.complement budget entering t = follow start budget entering t := by
  induction budget generalizing entering t with
  | zero => rfl
  | succ budget ih =>
    simp only [follow, ih, Label.complement_complement defined,
      Bool.or_comm (decide (_ = start.complement))]

/-- A path goes on for some time, and then fails, ends, or runs out of its budget. -/
theorem follow_cases (start : Label) (budget : Nat) (p : Label × Tableau ℚ r c) :
    (∃ n < budget, (∀ i < n, GoesOn (StopsAt start) (advance^[i] p)) ∧
      ((∃ e left, (advance^[n] p).2.pivotIn (advance^[n] p).1 = ⟨.error e, left⟩ ∧
        follow start budget p.1 p.2 = ⟨.error e, left⟩) ∨
      ∃ leaving next, (advance^[n] p).2.pivotIn (advance^[n] p).1 = ⟨.ok leaving, next⟩ ∧
        StopsAt start leaving ∧ follow start budget p.1 p.2 = ⟨.ok (), next⟩)) ∨
    ((∀ i < budget, GoesOn (StopsAt start) (advance^[i] p)) ∧
      follow start budget p.1 p.2 = ⟨.error .cycling, (advance^[budget] p).2⟩) := by
  induction budget generalizing p with
  | zero => exact Or.inr ⟨fun i absurd => (nomatch absurd), rfl⟩
  | succ budget ih =>
    rcases passed : p.2.pivotIn p.1 with ⟨e | leaving, next⟩
    · refine Or.inl ⟨0, Nat.succ_pos _, fun i absurd => (nomatch absurd),
        Or.inl ⟨e, next, passed, ?_⟩⟩
      simp only [follow, passed]
    · by_cases stops : StopsAt start leaving
      · exact Or.inl ⟨0, Nat.succ_pos _, fun i absurd => (nomatch absurd),
          Or.inr ⟨leaving, next, passed, stops, follow_succ_of_stops passed stops budget⟩⟩
      · have on : GoesOn (StopsAt start) p := ⟨leaving, next, passed, stops⟩
        -- This step goes before whatever the rest of the path comes to.
        have prepend {n : Nat} (later : ∀ i < n, GoesOn (StopsAt start) (advance^[i] (advance p)))
            (i : Nat) (bound : i < n + 1) : GoesOn (StopsAt start) (advance^[i] p) := by
          cases i with
          | zero => exact on
          | succ i => exact later i (Nat.lt_of_succ_lt_succ bound)
        rw [follow_succ_of_goesOn on]
        rcases ih (advance p) with ⟨n, bound, later, ends⟩ | ⟨later, spent⟩
        · exact Or.inl ⟨n + 1, Nat.succ_lt_succ bound, prepend later, ends⟩
        · exact Or.inr ⟨prepend later, spent⟩

/-! ### Where a path starts -/

/-- The label of the pair that a path lets enter first. -/
def enteringFirst (t : Tableau ℚ r c) (start : Label) : Label :=
  if t.basis.isMember start then start.complement else start

theorem enteringFirst_eq (t : Tableau ℚ r c) (start : Label) :
    t.enteringFirst start = start ∨ t.enteringFirst start = start.complement := by
  unfold enteringFirst
  split
  · exact Or.inr rfl
  · exact Or.inl rfl

@[simp] theorem index_enteringFirst (t : Tableau ℚ r c) (start : Label) :
    (t.enteringFirst start).index = start.index := by
  rcases t.enteringFirst_eq start with same | same
  · rw [same]
  · rw [same, Label.index_complement]

theorem enteringFirst_ne_artificial {start : Label} (defined : start ≠ .slack 0)
    (proper : start ≠ .artificial) : t.enteringFirst start ≠ .artificial := by
  rcases t.enteringFirst_eq start with same | same
  · rwa [same]
  · rw [same]
    exact Label.complement_ne_artificial defined proper

/-- A path stops at the label across the one that enters first. -/
theorem stopsAt_complement_enteringFirst {start : Label} (defined : start ≠ .slack 0) :
    StopsAt start (t.enteringFirst start).complement := by
  rcases t.enteringFirst_eq start with same | same
  · exact Or.inr (Or.inl (congrArg Label.complement same))
  · rw [same, Label.complement_complement defined]
    exact Or.inl rfl

/-- What asking for a path can come to. -/
theorem lemkePath_cases (t : Tableau ℚ r c) (start : Label) :
    ((start = .artificial ∨ ∀ j, t.basis.labelAt j ≠ start) ∧
      t.lemkePath start = ⟨.error (.undefinedLabel start), t⟩) ∨
    start ≠ .artificial ∧ (∃ j, t.basis.labelAt j = start) ∧
      (t.isComplementary = false ∧ t.lemkePath start = ⟨.error .notComplementary, t⟩ ∨
      t.isComplementary = true ∧
        t.lemkePath start = follow start t.pivotBudget (t.enteringFirst start) t) := by
  have refused : (start.isArtificial || !t.basis.isValid start) = true ↔
      start = .artificial ∨ ∀ j, t.basis.labelAt j ≠ start := by
    rw [Bool.or_eq_true, Bool.not_eq_true', ← Bool.not_eq_true, Basis.isValid_iff, not_exists]
    exact or_congr_left beq_iff_eq
  by_cases undefined : start = .artificial ∨ ∀ j, t.basis.labelAt j ≠ start
  · exact Or.inl ⟨undefined, by rw [lemkePath, if_pos (refused.mpr undefined)]⟩
  · right
    have asked : t.lemkePath start = if !t.isComplementary then ⟨.error .notComplementary, t⟩
        else follow start t.pivotBudget (t.enteringFirst start) t := by
      rw [lemkePath, if_neg (mt refused.mp undefined)]
      rfl
    push Not at undefined
    refine ⟨undefined.1, undefined.2, ?_⟩
    cases complementary : t.isComplementary with
    | false => exact Or.inl ⟨rfl, by rw [asked, complementary]; rfl⟩
    | true => exact Or.inr ⟨rfl, by rw [asked, complementary]; rfl⟩

/-! ### Paths as walks -/

def flag (p : Label × Tableau ℚ r c) : Flag r c := (Set.range p.2.basis.columns.get, p.1)

def turn (x : Flag r c) : Flag r c := (x.1, x.2.complement)

theorem FeasibleFrom.pivotIn_paired (h : FeasibleFrom system origin t) {entering leaving : Label}
    {next : Tableau ℚ r c} (passed : t.pivotIn entering = ⟨.ok leaving, next⟩)
    (proper : leaving ≠ .artificial) :
    Paired system origin (Set.range t.basis.columns.get, entering)
      (Set.range next.basis.columns.get, leaving) := by
  rcases h.represents.pivotIn_cases entering with
    ⟨_, done⟩ | ⟨j, rfl, ⟨_, ⟨_, _, _, done⟩ | ⟨_, done⟩⟩ | ⟨i, exit, ⟨held, done⟩ | ⟨_, done⟩⟩⟩
  all_goals
    rw [passed, Attempt.mk.injEq] at done
    obtain ⟨result, rfl⟩ := done
    cases result
  · exact absurd rfl proper
  · -- A basic label that enters takes its own place.
    refine ⟨next, i, j, h, exit, rfl, ?_⟩
    rw [columns_exchangeColumn, h.represents.consistent.rowLabel_eq, held, ← held,
      Function.update_eq_self]
  · exact ⟨t, i, j, h, exit, rfl, rfl⟩

theorem FeasibleFrom.advance_paired {p : Label × Tableau ℚ r c}
    (h : FeasibleFrom system origin p.2) {leaving : Label} {next : Tableau ℚ r c}
    (passed : p.2.pivotIn p.1 = ⟨.ok leaving, next⟩) (proper : leaving ≠ .artificial) :
    turn (flag (advance p)) = (Set.range next.basis.columns.get, leaving) ∧
    turn (turn (flag (advance p))) = flag (advance p) ∧
    Paired system origin (flag p) (turn (flag (advance p))) := by
  have paired := h.pivotIn_paired passed proper
  have valid : leaving ≠ .slack 0 := by
    obtain ⟨_, i, _, feasible, _, _, equal⟩ := paired
    rw [(Prod.mk.inj equal).2, feasible.represents.consistent.rowLabel_eq]
    exact Basis.labelAt_ne_slack_zero _ _
  have back := Label.complement_complement valid
  simp only [advance_eq passed, turn, flag, back, true_and]
  exact paired

theorem FeasibleFrom.advance {p : Label × Tableau ℚ r c} (h : FeasibleFrom system origin p.2) :
    FeasibleFrom system origin (advance p).2 := by
  have next := h.pivotIn_state p.1
  unfold Tableau.advance
  split
  next passed =>
    rw [passed] at next
    exact next
  · exact h

theorem FeasibleFrom.iterate_advance {p : Label × Tableau ℚ r c}
    (h : FeasibleFrom system origin p.2) (n : Nat) :
    FeasibleFrom system origin (Tableau.advance^[n] p).2 := by
  induction n generalizing p with
  | zero => exact h
  | succ n ih => exact ih h.advance

theorem FeasibleFrom.iterate_paired {p : Label × Tableau ℚ r c}
    (h : FeasibleFrom system origin p.2) {i : Nat} {leaving : Label} {next : Tableau ℚ r c}
    (passed : (Tableau.advance^[i] p).2.pivotIn (Tableau.advance^[i] p).1 = ⟨.ok leaving, next⟩)
    (proper : leaving ≠ .artificial) :
    turn (flag (Tableau.advance^[i + 1] p)) = (Set.range next.basis.columns.get, leaving) ∧
    turn (turn (flag (Tableau.advance^[i + 1] p))) = flag (Tableau.advance^[i + 1] p) ∧
    Paired system origin (flag (Tableau.advance^[i] p))
      (turn (flag (Tableau.advance^[i + 1] p))) := by
  rw [Function.iterate_succ_apply']
  exact (h.iterate_advance i).advance_paired passed proper

/-- A path on which every pivot changes the basis does not lead back into its start. -/
theorem FeasibleFrom.path_last_ne_first {p : Label × Tableau ℚ r c}
    (h : FeasibleFrom system origin p.2) (steps : Nat)
    (pivots : ∀ i ≤ steps, ∃ leaving next,
      (Tableau.advance^[i] p).2.pivotIn (Tableau.advance^[i] p).1 = ⟨.ok leaving, next⟩ ∧
      leaving ≠ .artificial ∧ leaving ≠ (Tableau.advance^[i] p).1) :
    turn (flag (Tableau.advance^[steps + 1] p)) ≠ flag p := by
  -- The flags of the path are a walk that pairs by pivots and turns to the complement.
  refine walk_last_ne_first (R := Paired system origin)
    (x := fun i => flag (Tableau.advance^[i] p))
    (y := fun i => turn (flag (Tableau.advance^[i + 1] p)))
    (τ := turn) (N := steps) (fun _ _ => Paired.symm) (fun _ _ _ => Paired.functional)
    (fun i bound => ?_) (fun i bound => ?_) (fun i bound => ?_) (fun i bound => ?_)
    (fun i bound => ?_)
  · obtain ⟨_, _, passed, proper, _⟩ := pivots i bound
    exact (h.iterate_paired passed proper).2.2
  · obtain ⟨_, _, passed, proper, _⟩ := pivots i bound.le
    exact (h.iterate_paired passed proper).2.1.symm
  · obtain ⟨_, _, passed, proper, _⟩ := pivots i bound.le
    rw [(h.iterate_paired passed proper).2.1]
  · obtain ⟨_, _, passed, proper, moved⟩ := pivots i bound
    rw [(h.iterate_paired passed proper).1]
    exact fun same => moved (congrArg Prod.snd same)
  · obtain ⟨_, _, passed, proper, _⟩ := pivots i bound.le
    rw [(h.iterate_paired passed proper).1]
    exact fun same => Label.complement_ne proper (congrArg Prod.snd same)

/-- States with different flags one by one have different flags in a list. -/
theorem nodup_flags_iterate {p : Label × Tableau ℚ r c} {steps : Nat}
    (distinct : ∀ i k, i < k → k ≤ steps → flag (advance^[i] p) ≠ flag (advance^[k] p)) :
    (((List.range (steps + 1)).map (advance^[·] p)).map flag).Nodup := by
  rw [List.map_map]
  refine List.Nodup.map_on (fun q earlier k later same => ?_) List.nodup_range
  have bounds : q < steps + 1 ∧ k < steps + 1 :=
    ⟨List.mem_range.mp earlier, List.mem_range.mp later⟩
  rcases lt_trichotomy q k with less | equal | greater
  · exact absurd same (distinct q k less (by omega))
  · exact equal
  · exact absurd same.symm (distinct k q greater (by omega))

section PathEnds

variable {p : Label × Tableau ℚ r c} (h : FeasibleFrom system origin p.2) (stop : Label → Prop)
  (artificial : stop .artificial)

include h artificial

theorem FeasibleFrom.goesOn_paired {i : Nat} (on : GoesOn stop (Tableau.advance^[i] p)) :
    ¬stop (turn (flag (Tableau.advance^[i + 1] p))).2 ∧
    turn (turn (flag (Tableau.advance^[i + 1] p))) = flag (Tableau.advance^[i + 1] p) ∧
    Paired system origin (flag (Tableau.advance^[i] p))
      (turn (flag (Tableau.advance^[i + 1] p))) := by
  obtain ⟨leaving, next, passed, continues⟩ := on
  have proper : leaving ≠ .artificial := fun same => continues (same ▸ artificial)
  obtain ⟨left, back, paired⟩ := h.iterate_paired passed proper
  exact ⟨left ▸ continues, back, paired⟩

/-- A path does not come back to where it was, if it stops at the label across its start whenever a
pivot can lead there. -/
theorem FeasibleFrom.flag_injOn
    (across : ∀ x, Paired system origin x (turn (flag p)) → stop p.1.complement) {steps : Nat}
    (on : ∀ i < steps, GoesOn stop (Tableau.advance^[i] p)) :
    ∀ i k, i < k → k ≤ steps → flag (Tableau.advance^[i] p) ≠ flag (Tableau.advance^[k] p) := by
  have step (i : Nat) (bound : i < steps) := h.goesOn_paired stop artificial (on i bound)
  exact walk_injOn (R := Paired system origin)
    (x := fun i => flag (Tableau.advance^[i] p))
    (y := fun i => turn (flag (Tableau.advance^[i + 1] p)))
    (fun _ _ => Paired.symm) (fun _ _ _ => Paired.functional)
    (fun i bound => (step i bound).2.2)
    (fun i bound => (step i bound).2.1.symm)
    (fun i bound => by rw [(step i bound).2.1])
    (fun i bound same => (step i bound).1 (by
      rw [same]
      exact across _ (same ▸ (step i bound).2.2)))

/-- So it does not go on for the whole budget. -/
theorem FeasibleFrom.path_ends
    (across : ∀ x, Paired system origin x (turn (flag p)) → stop p.1.complement) :
    ¬∀ i < p.2.pivotBudget, GoesOn stop (Tableau.advance^[i] p) := by
  intro on
  have distinct := h.flag_injOn stop artificial across on
  have column (i : Fin p.2.pivotBudget) :
      ∃ j, origin.basis.labelAt j = (Tableau.advance^[i] p).1 := by
    obtain ⟨t', _, j, feasible, _, equal, _⟩ := (h.goesOn_paired stop artificial (on i i.isLt)).2.2
    exact ⟨j, by rw [← feasible.labelAt]; exact (Prod.mk.inj equal).2.symm⟩
  choose entering label using column
  -- Bases by row, with a column to enter, are fewer than the budget.
  let place (i : Fin p.2.pivotBudget) : (Fin r → Fin (c + r)) × Fin (c + r) :=
    ((Tableau.advance^[i] p).2.basis.columns.get, entering i)
  have injective : Function.Injective place := by
    intro i k same
    obtain ⟨columns, enters⟩ := Prod.mk.inj same
    have flags : flag (Tableau.advance^[i] p) = flag (Tableau.advance^[k] p) := by
      rw [flag, flag, columns, ← label i, ← label k, enters]
    rcases lt_trichotomy i k with less | equal | greater
    · exact absurd flags (distinct i k less k.isLt.le)
    · exact equal
    · exact absurd flags.symm (distinct k i greater i.isLt.le)
  have count := Fintype.card_le_of_injective place injective
  rw [Fintype.card_fin, Fintype.card_prod, Fintype.card_fun, Fintype.card_fin, Fintype.card_fin,
    ← pow_succ] at count
  exact absurd count (Nat.not_succ_le_self _)

end PathEnds

end Tableau

end LexPivot
