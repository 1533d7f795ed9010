import Mathlib
import LexPivot.Proofs.LexicographicInvariant

/-!
# The winner of the ratio test

Let `B₀` be the basis at which a run last set the reference of the ratio test, or the slack basis
it started from. Divided by the entries of an entering column, the rows of `[x | B⁻¹ B₀]` are
strictly ordered by the lexicographic order, since no two rows of `B⁻¹ B₀` are multiples of each
other. The stages of the ratio test amount to one comparison in that order, and the row they select
is the least, in whatever order the candidates are given.
-/
namespace LexPivot

/-- A difference is positive along a list of columns if its terms are in lexicographic order. -/
theorem lexPositive_sub_ofFn_iff {ι : Type} {f g : ι → ℚ} {n : Nat} (js : Fin n → ι) :
    LexPositive (fun l => f l - g l) (List.ofFn js) ↔ toLex (g ∘ js) < toLex (f ∘ js) := by
  rw [lexPositive_ofFn_iff]
  change (∃ i, (∀ k < i, 0 = f (js k) - g (js k)) ∧ 0 < f (js i) - g (js i)) ↔
    ∃ i, (∀ k < i, g (js k) = f (js k)) ∧ g (js i) < f (js i)
  simp only [sub_pos, eq_comm (a := (0 : ℚ)), sub_eq_zero, eq_comm]

namespace Tableau

variable {r c : Nat} {a : Grid ℚ r c} {b : Vector ℚ r} {origin t : Tableau ℚ r c}

/-! ### The reference along a run -/

/-- The operations up to the last one that sets the reference. -/
def anchored (ops : List Operation) : List Operation := ops.rdropWhile (· ≠ .setLexReference)

theorem run_append_singleton (t : Tableau ℚ r c) (ops : List Operation) (op : Operation) :
    t.run (ops ++ [op]) = (t.run ops).perform op := by
  simp [run]

/-- Ties are broken at the basis where the reference was last set. -/
theorem reference_run (own : t.reference = t.basis.rows) (ops : List Operation) :
    (t.run ops).reference = (t.run (anchored ops)).basis.rows := by
  -- By induction on the last operation: it sets the reference, or keeps the one set before.
  induction ops using List.reverseRecOn with
  | nil => exact own
  | append_singleton ops op ih =>
    by_cases sets : op = .setLexReference
    · subst sets
      have whole : anchored (ops ++ [.setLexReference]) = ops ++ [.setLexReference] := by
        simp [anchored]
      rw [whole, run_append_singleton]
      rfl
    · have earlier : anchored (ops ++ [op]) = anchored ops := by
        simp [anchored, sets]
      rw [earlier, run_append_singleton, ((t.run ops).perform_keeps op).2.2 sets, ih]

/-! ### The ratio test among rows given by number -/

/-- The rows with the numbers of a list. -/
def rowsOf (r : Nat) (candidates : List Nat) : List (Fin r) :=
  candidates.filterMap fun row => if h : row < r then some ⟨row, h⟩ else none

theorem mem_rowsOf_iff {candidates : List Nat} {k : Fin r} :
    k ∈ rowsOf r candidates ↔ k.val ∈ candidates := by
  rw [rowsOf, List.mem_filterMap]
  constructor
  · rintro ⟨row, listed, found⟩
    split at found
    · cases found
      exact listed
    · cases found
  · exact fun listed => ⟨k, listed, dif_pos k.isLt⟩

/-- The entries of a column where it is given, and zero elsewhere. -/
def padded (r : Nat) (entering : Array ℚ) : Vector ℚ r := Vector.ofFn fun i => entering.getD i 0

@[simp] theorem get_padded (entering : Array ℚ) (k : Fin r) :
    (padded r entering).get k = entering.getD k 0 := by
  simp [padded]

/-- Where a column is positive on rows of the tableau, the ratio test compares these rows. -/
theorem lexExitRowAt_eq {entering : Array ℚ} {candidates : List Nat} (nonempty : candidates ≠ [])
    (positive : ∀ k ∈ candidates, k < r ∧ 0 < entering.getD k 0) :
    t.lexExitRowAt entering candidates =
      .ok ((t.lexExitRow (padded r entering) (rowsOf r candidates)).map Fin.val) := by
  rcases candidates with _ | ⟨row, _ | ⟨row', rest⟩⟩
  · exact absurd rfl nonempty
  · -- A single candidate is not compared with anything.
    have inside : row < r := (positive row (by simp)).1
    have alone : rowsOf r [row] = [⟨row, inside⟩] := by simp [rowsOf, inside]
    simp [lexExitRowAt, alone, lexExitRow, lexStages, narrowBy]
  · -- Positive entries are given ones, and the ratios of all candidates exist.
    have given : (row :: row' :: rest).all (fun k => k < r && k < entering.size) = true := by
      rw [List.all_eq_true]
      intro k listed
      obtain ⟨inside, defined⟩ := positive k listed
      have within : k < entering.size := by
        by_contra beyond
        simp [Array.getD, beyond] at defined
      simp [inside, within]
    have divides (k : Fin r) (listed : k ∈ rowsOf r (row :: row' :: rest)) :
        (padded r entering).get k ≠ 0 := by
      rw [get_padded]
      exact (positive k (mem_rowsOf_iff.mp listed)).2.ne'
    have compared := lexExitRowChecked_eq_ok (t := t) divides
    unfold padded rowsOf at compared
    simp only [lexExitRowAt, given, if_true]
    rw [compared]
    rfl

/-- Row `k` of `[x | B⁻¹ B₀]`, divided by the entry of an entering column. -/
noncomputable def ratioRow (a : Grid ℚ r c) (first : Nat) (origin t : Tableau ℚ r c)
    (entering : Array ℚ) (k : Fin r) : Fin (r + 1) → ℚ :=
  fun q => lexRow a first origin t k q / entering.getD k 0

/-- Row `i` is a candidate, and its ratios are strictly below those of every other candidate. -/
def IsLeastRow (a : Grid ℚ r c) (first : Nat) (origin t : Tableau ℚ r c) (entering : Array ℚ)
    (candidates : List Nat) (i : Fin r) : Prop :=
  i.val ∈ candidates ∧ ∀ k : Fin r, k.val ∈ candidates → k ≠ i →
    toLex (ratioRow a first origin t entering i) < toLex (ratioRow a first origin t entering k)

theorem IsLeastRow.unique {first : Nat} {entering : Array ℚ} {candidates other : List Nat}
    {i k : Fin r} (hi : IsLeastRow a first origin t entering candidates i)
    (hk : IsLeastRow a first origin t entering other k)
    (members : ∀ q, q ∈ other ↔ q ∈ candidates) : k = i := by
  by_contra ne
  have below := hi.2 k ((members k).mp hk.1) ne
  exact lt_asymm below (hk.2 i ((members i).mpr hi.1) (Ne.symm ne))

/-- The ratio test finds the candidate with the least ratios. -/
theorem Represents.lexExitRowAt_eq_some (h : t.Represents (systemMatrix a b))
    (consistent : origin.basis.Consistent) (first : t.basis.first = origin.basis.first)
    (reference : t.reference = origin.basis.rows) (entering : Array ℚ) (candidates : List Nat)
    (nonempty : candidates ≠ [])
    (positive : ∀ k ∈ candidates, k < r ∧ 0 < entering.getD k 0) :
    ∃ i : Fin r, IsLeastRow a origin.basis.first origin t entering candidates i ∧
      t.lexExitRowAt entering candidates = .ok (some i.val) := by
  have some_row : rowsOf r candidates ≠ [] := by
    obtain ⟨k, listed⟩ := List.exists_mem_of_ne_nil candidates nonempty
    exact List.ne_nil_of_mem (mem_rowsOf_iff (k := ⟨k, (positive k listed).1⟩).mpr listed)
  have divides (k : Fin r) (listed : k ∈ rowsOf r candidates) : 0 < (padded r entering).get k := by
    rw [get_padded]
    exact (positive k (mem_rowsOf_iff.mp listed)).2
  obtain ⟨i, listed, found, least⟩ := h.lexExitRow_eq_some some_row divides
  refine ⟨i, ⟨mem_rowsOf_iff.mp listed, fun k other ne => ?_⟩, ?_⟩
  · -- The columns along which the rows were compared read `[x | B⁻¹ B₀]`.
    have ordered := least k (mem_rowsOf_iff.mpr other) ne
    rw [lexColumns_eq_ofFn, lexPositive_sub_ofFn_iff, get_padded, get_padded] at ordered
    have ratios (q : Fin r) : ratioRow a origin.basis.first origin t entering q =
        (fun l => t.values q l / entering.getD q 0) ∘
          Fin.cons (Fin.last (c + r)) fun p => (t.referenceColumns.get p).castSucc := by
      ext p
      rw [ratioRow, h.lexRow_eq consistent first reference]
      rfl
    rwa [ratios, ratios]
  · rw [lexExitRowAt_eq nonempty positive, found, Option.map_some]

/-- After any run, the ratio test among rows where a column is positive finds the candidate with
the least ratios. Which one that is depends on the set of candidates, not on their order. -/
theorem run_lexExitRowAt_least (a : Grid ℚ r c) (b : Vector ℚ r) (first : Nat)
    (some_column : 0 < c) :
    ∃ t, ofSystem a b first = .ok t ∧ ∀ ops : List Operation,
      let s := t.run ops
      (labelBasis a first s).det ≠ 0 ∧
      ∀ (entering : Array ℚ) (candidates : List Nat), candidates ≠ [] →
        (∀ k ∈ candidates, k < r ∧ 0 < entering.getD k 0) →
        ∃ i : Fin r, IsLeastRow a first (t.run (anchored ops)) s entering candidates i ∧
          s.lexExitRowAt entering candidates = .ok (some i.val) ∧
          ∀ other : List Nat, (∀ k, k ∈ other ↔ k ∈ candidates) →
            s.lexExitRowAt entering other = .ok (some i.val) := by
  obtain ⟨t, built, own, runs⟩ := ofSystem_run a b first some_column
  refine ⟨t, built, fun ops => ?_⟩
  intro s
  obtain ⟨represents, numbering⟩ := runs ops
  obtain ⟨anchorRepresents, anchor⟩ := runs (anchored ops)
  have reference : s.reference = (t.run (anchored ops)).basis.rows := reference_run own ops
  have same : s.basis.first = (t.run (anchored ops)).basis.first := numbering.trans anchor.symm
  refine ⟨?_, fun entering candidates nonempty positive => ?_⟩
  · rw [← numbering]
    exact represents.solvesExactly.regular
  · rw [← anchor]
    have winner := represents.lexExitRowAt_eq_some anchorRepresents.consistent same reference
    obtain ⟨i, least, found⟩ := winner entering candidates nonempty positive
    refine ⟨i, least, found, fun other members => ?_⟩
    have some_other : other ≠ [] := List.ne_nil_of_mem ((members i).mpr least.1)
    obtain ⟨k, least', found'⟩ :=
      winner entering other some_other fun q listed => positive q ((members q).mp listed)
    rw [found', least.unique least' members]

/-- All three rows tie in the basic solution. At the slacks the last one wins, and with the
reference set at another basis on the way, the second. -/
theorem run_lexExitRowAt_least_ties :
    let a : Grid ℚ 3 2 := #v[#v[1, 1], #v[1, 1], #v[2, 1]]
    let b : Vector ℚ 3 := #v[-1, -1, -2]
    let there : List Operation := [.pivot 1 (.structural 1), .setLexReference]
    let entering : Array ℚ := #[1, 1, 2]
    (∀ k ∈ [2, 0, 1], k < 3 ∧ 0 < entering.getD k 0) ∧ ∃ t, ofSystem a b 1 = .ok t ∧
      t.lexExitRowAt entering [0, 1, 2] = .ok (some 2) ∧
      let s := t.run (there ++ [.pivot 1 (.slack 2)])
      s.basis.labels = t.basis.labels ∧
      s.lexExitRowAt entering [2, 0, 1] = .ok (some 1) ∧
      s.lexExitRowAt entering [0, 1, 2] = .ok (some 1) ∧
      IsLeastRow a 1 (t.run there) s entering [2, 0, 1] 1 := by
  intro a b there entering
  obtain ⟨t, built, test⟩ := run_lexExitRowAt_least a b 1 (by decide)
  have answers : (match ofSystem a b 1 with
      | .ok t =>
        let s := t.run (there ++ [.pivot 1 (.slack 2)])
        t.lexExitRowAt entering [0, 1, 2] == .ok (some 2) &&
          s.basis.labels == t.basis.labels && s.lexExitRowAt entering [2, 0, 1] == .ok (some 1)
      | .error _ => false) = true := by decide +kernel
  have positive : ∀ k ∈ [2, 0, 1], k < 3 ∧ 0 < entering.getD k 0 := by decide +kernel
  rw [built] at answers
  simp only [Bool.and_eq_true, beq_iff_eq] at answers
  obtain ⟨⟨last, labels⟩, second⟩ := answers
  obtain ⟨_, winner⟩ := test (there ++ [.pivot 1 (.slack 2)])
  obtain ⟨i, least, found, unordered⟩ := winner entering [2, 0, 1] (by decide) positive
  obtain rfl : i = 1 := by
    rw [found] at second
    simpa [Fin.ext_iff] using second
  have reordered : List.Perm [0, 1, 2] [2, 0, 1] := by decide
  exact ⟨positive, t, built, last, labels, found, unordered _ fun _ => reordered.mem_iff,
    least⟩

end Tableau

end LexPivot
