import Mathlib
import LexPivot.Game.ZeroSum
import LexPivot.Proofs.EquilibriumSearch
import LexPivot.Proofs.OptimalityCertificate

/-!
# The value of a zero-sum game

What the first player can be sure to get is never more than what the second player can be sure to
concede. Mixes for which the two are the same are optimal, and that number is the value of the
game. The shifted payoffs are at least one, so the program of a game is feasible and bounded. Its
optimum and its shadow prices have the same total, and divided by it they are such mixes. An
equilibrium of the game with opposite payoffs is another pair of such mixes, so both solvers find
the same value.
-/
namespace LexPivot

variable {m n : Nat} {payoff : Grid ℚ m n}

/-! ### Mixes and values -/

/-- The probabilities of a mixed strategy. -/
structure IsMix {k : Nat} (x : Vector ℚ k) : Prop where
  nonneg : ∀ i, 0 ≤ x.get i
  total : ∑ i, x.get i = 1

/-- What the first player can be sure to get. -/
def Guaranteed (payoff : Grid ℚ m n) : Set ℚ :=
  {v | ∃ x, IsMix x ∧ ∀ j, v ≤ ∑ i, payoff.entry i j * x.get i}

/-- What the second player can be sure not to exceed. -/
def Conceded (payoff : Grid ℚ m n) : Set ℚ :=
  {v | ∃ y, IsMix y ∧ ∀ i, ∑ j, payoff.entry i j * y.get j ≤ v}

/-- Mixes by which both players are sure of the same value. -/
structure IsMinimax (payoff : Grid ℚ m n) (x : Vector ℚ m) (y : Vector ℚ n) (v : ℚ) : Prop where
  mix₁ : IsMix x
  mix₂ : IsMix y
  guarantees : ∀ j, v ≤ ∑ i, payoff.entry i j * x.get i
  concedes : ∀ i, ∑ j, payoff.entry i j * y.get j ≤ v

/-- What the first player is paid on average. -/
def expectedPayoff (payoff : Grid ℚ m n) (x : Vector ℚ m) (y : Vector ℚ n) : ℚ :=
  ∑ i, ∑ j, x.get i * payoff.entry i j * y.get j

theorem expectedPayoff_eq_sum_rows (payoff : Grid ℚ m n) (x : Vector ℚ m) (y : Vector ℚ n) :
    expectedPayoff payoff x y = ∑ i, x.get i * ∑ j, payoff.entry i j * y.get j := by
  simp only [expectedPayoff, Finset.mul_sum, mul_assoc]

theorem expectedPayoff_eq_sum_columns (payoff : Grid ℚ m n) (x : Vector ℚ m) (y : Vector ℚ n) :
    expectedPayoff payoff x y = ∑ j, y.get j * ∑ i, payoff.entry i j * x.get i := by
  rw [expectedPayoff, Finset.sum_comm]
  refine Finset.sum_congr rfl fun j _ => ?_
  rw [Finset.mul_sum]
  exact Finset.sum_congr rfl fun i _ => by ring

theorem IsMix.le_sum {k : Nat} {x : Vector ℚ k} (mix : IsMix x) {f : Fin k → ℚ} {v : ℚ}
    (bound : ∀ i, v ≤ f i) : v ≤ ∑ i, x.get i * f i := by
  calc v = ∑ i, x.get i * v := by rw [← Finset.sum_mul, mix.total, one_mul]
    _ ≤ ∑ i, x.get i * f i :=
      Finset.sum_le_sum fun i _ => mul_le_mul_of_nonneg_left (bound i) (mix.nonneg i)

theorem IsMix.sum_le {k : Nat} {x : Vector ℚ k} (mix : IsMix x) {f : Fin k → ℚ} {v : ℚ}
    (bound : ∀ i, f i ≤ v) : ∑ i, x.get i * f i ≤ v := by
  calc ∑ i, x.get i * f i ≤ ∑ i, x.get i * v :=
      Finset.sum_le_sum fun i _ => mul_le_mul_of_nonneg_left (bound i) (mix.nonneg i)
    _ = v := by rw [← Finset.sum_mul, mix.total, one_mul]

theorem le_of_guaranteed_of_conceded {v w : ℚ} (guaranteed : v ∈ Guaranteed payoff)
    (conceded : w ∈ Conceded payoff) : v ≤ w := by
  obtain ⟨x, mix₁, guarantees⟩ := guaranteed
  obtain ⟨y, mix₂, concedes⟩ := conceded
  calc v ≤ ∑ j, y.get j * ∑ i, payoff.entry i j * x.get i := mix₂.le_sum guarantees
    _ = expectedPayoff payoff x y := (expectedPayoff_eq_sum_columns payoff x y).symm
    _ = ∑ i, x.get i * ∑ j, payoff.entry i j * y.get j := expectedPayoff_eq_sum_rows payoff x y
    _ ≤ w := mix₁.sum_le concedes

namespace IsMinimax

variable {x : Vector ℚ m} {y : Vector ℚ n} {v : ℚ} (h : IsMinimax payoff x y v)

include h

theorem isGreatest : IsGreatest (Guaranteed payoff) v :=
  ⟨⟨x, h.mix₁, h.guarantees⟩, fun _ guaranteed =>
    le_of_guaranteed_of_conceded guaranteed ⟨y, h.mix₂, h.concedes⟩⟩

theorem isLeast : IsLeast (Conceded payoff) v :=
  ⟨⟨y, h.mix₂, h.concedes⟩, fun _ conceded =>
    le_of_guaranteed_of_conceded ⟨x, h.mix₁, h.guarantees⟩ conceded⟩

end IsMinimax

/-- A mix that puts weight on best strategies only is worth the most. -/
theorem IsMix.le_sum_of_best {k : Nat} {x : Vector ℚ k} (mix : IsMix x) {f : Fin k → ℚ}
    (best : ∀ i, 0 < x.get i → ∀ other, f other ≤ f i) (other : Fin k) :
    f other ≤ ∑ i, x.get i * f i := by
  calc f other = ∑ i, x.get i * f other := by rw [← Finset.sum_mul, mix.total, one_mul]
    _ ≤ ∑ i, x.get i * f i := Finset.sum_le_sum fun i _ => ?_
  -- A strategy that is not played adds nothing to either side.
  rcases (mix.nonneg i).eq_or_lt with zero | plays
  · rw [← zero, zero_mul, zero_mul]
  · exact mul_le_mul_of_nonneg_left (best i plays other) plays.le

/-- An equilibrium of a zero-sum game is a pair of optimal mixes. -/
theorem IsNash.isMinimax {x : Vector ℚ m} {y : Vector ℚ n}
    (h : IsNash payoff (Grid.map (fun a => -a) payoff) x y) :
    IsMinimax payoff x y (expectedPayoff payoff x y) where
  mix₁ := ⟨h.nonneg₁, h.total₁⟩
  mix₂ := ⟨h.nonneg₂, h.total₂⟩
  concedes i := by
    rw [expectedPayoff_eq_sum_rows]
    exact IsMix.le_sum_of_best ⟨h.nonneg₁, h.total₁⟩ h.best₁ i
  guarantees j := by
    have best := IsMix.le_sum_of_best ⟨h.nonneg₂, h.total₂⟩ h.best₂ j
    simp only [Grid.entry_map, neg_mul, Finset.sum_neg_distrib, mul_neg, neg_le_neg_iff] at best
    rwa [← expectedPayoff_eq_sum_columns] at best

/-! ### The program of a game -/

namespace Minimax

open GameTableau

theorem entry_program (payoff : Grid ℚ m n) (shift : ℚ) (i : Fin m) (j : Fin n) :
    (program payoff shift).matrix.entry j i = payoff.entry i j - shift := by
  simp [program]

theorem get_bound_program (payoff : Grid ℚ m n) (shift : ℚ) (j : Fin n) :
    (program payoff shift).bound.get j = 1 := by
  simp [program, Vector.get]

theorem get_objective_program (payoff : Grid ℚ m n) (shift : ℚ) (i : Fin m) :
    (program payoff shift).objective.get i = -1 := by
  simp [program, Vector.get]

theorem value_program (payoff : Grid ℚ m n) (shift : ℚ) (p : Fin m → ℚ) :
    (program payoff shift).value p = -∑ i, p i := by
  simp only [LinearProgram.value, get_objective_program, neg_one_mul, Finset.sum_neg_distrib]

/-- Weights of one for all strategies satisfy the constraints, since no shifted payoff is less. -/
theorem feasible_program (payoff : Grid ℚ m n) (some_row : 0 < m) :
    (program payoff (shift payoff)).Feasible fun _ => 1 where
  nonneg _ := zero_le_one
  rows j := by
    have large (i : Fin m) : 1 ≤ payoff.entry i j - shift payoff := by
      linarith [shift_add_one_le payoff i j]
    simp only [get_bound_program, entry_program, mul_one]
    -- One term of the sum is enough.
    exact (large ⟨0, some_row⟩).trans (Finset.single_le_sum
      (fun i _ => zero_le_one.trans (large i)) (Finset.mem_univ (⟨0, some_row⟩ : Fin m)))
  equalities j last := absurd j.isLt (not_lt.mpr last)

theorem program_not_isUnbounded (payoff : Grid ℚ m n) (shift : ℚ) :
    ¬(program payoff shift).IsUnbounded := by
  rintro ⟨_, grows⟩
  obtain ⟨p, feasible, positive⟩ := grows 0
  rw [value_program] at positive
  have total : 0 ≤ ∑ i, p i := Finset.sum_nonneg fun i _ => feasible.nonneg i
  linarith

/-- Weights of both players with the same total, by which the first one is sure of at least one,
and the second one of at most one, in shifted payoffs. -/
structure OptimalWeights (payoff : Grid ℚ m n) (shift : ℚ) (p : Vector ℚ m) (q : Vector ℚ n) :
    Prop where
  nonneg₁ : ∀ i, 0 ≤ p.get i
  nonneg₂ : ∀ j, 0 ≤ q.get j
  guarantees : ∀ j, 1 ≤ ∑ i, (payoff.entry i j - shift) * p.get i
  concedes : ∀ i, ∑ j, (payoff.entry i j - shift) * q.get j ≤ 1
  totals : ∑ j, q.get j = ∑ i, p.get i

/-- An optimum of the program and its shadow prices are such weights. -/
theorem optimalWeights_of_isCertificate {shift value : ℚ} {p : Vector ℚ m} {u : Vector ℚ n}
    (certificate : (program payoff shift).IsCertificate p.get u.get value) :
    OptimalWeights payoff shift p (u.map fun price => -price) where
  nonneg₁ := certificate.feasible.nonneg
  nonneg₂ j := by
    rw [get_map, neg_nonneg]
    exact certificate.nonpos j j.isLt
  guarantees j := by
    have row := certificate.feasible.rows j
    simpa only [get_bound_program, entry_program] using row
  concedes i := by
    -- The costs are minus one, and the prices are the weights with the other sign.
    have covered := certificate.covers i
    simp only [get_objective_program, entry_program] at covered
    simp only [get_map, mul_neg, Finset.sum_neg_distrib]
    linarith
  totals := by
    have bound := certificate.bound_eq
    have value := certificate.value_eq
    simp only [get_bound_program, one_mul] at bound
    rw [value_program] at value
    simp only [get_map, Finset.sum_neg_distrib]
    linarith

namespace OptimalWeights

variable {shift : ℚ} {p : Vector ℚ m} {q : Vector ℚ n} (h : OptimalWeights payoff shift p q)

include h

theorem total_pos (some_column : 0 < n) : 0 < ∑ i, p.get i := by
  by_contra none
  have zero : ∀ i ∈ Finset.univ, p.get i = 0 := by
    rw [← Finset.sum_eq_zero_iff_of_nonneg fun i _ => h.nonneg₁ i]
    exact le_antisymm (not_lt.mp none) (Finset.sum_nonneg fun i _ => h.nonneg₁ i)
  have guarantee := h.guarantees ⟨0, some_column⟩
  simp only [fun i => zero i (Finset.mem_univ i), mul_zero, Finset.sum_const_zero] at guarantee
  exact absurd guarantee (not_le.mpr one_pos)

/-- Divided by their total, the weights are optimal mixes. -/
theorem isMinimax (some_column : 0 < n) {x : Vector ℚ m} {y : Vector ℚ n}
    (first : ∀ i, x.get i = p.get i / ∑ k, p.get k)
    (second : ∀ j, y.get j = q.get j / ∑ k, q.get k) :
    IsMinimax payoff x y (1 / ∑ i, p.get i + shift) := by
  have positive := h.total_pos some_column
  -- Each mix is divided by its own total, and the two are the same number.
  rw [h.totals] at second
  have value : 1 / ∑ i, p.get i + shift = (1 + shift * ∑ i, p.get i) / ∑ i, p.get i := by
    field_simp
  refine ⟨⟨fun i => ?_, ?_⟩, ⟨fun j => ?_, ?_⟩, fun j => ?_, fun i => ?_⟩
  · rw [first]
    exact div_nonneg (h.nonneg₁ i) positive.le
  · simp only [first, ← Finset.sum_div]
    exact div_self positive.ne'
  · rw [second]
    exact div_nonneg (h.nonneg₂ j) positive.le
  · simp only [second, ← Finset.sum_div, h.totals]
    exact div_self positive.ne'
  · have guarantee := h.guarantees j
    rw [BestWeights.sum_shifted] at guarantee
    simp only [first, BestWeights.sum_div_total, value]
    refine (div_le_div_iff_of_pos_right positive).mpr ?_
    linarith
  · have concession := h.concedes i
    rw [BestWeights.sum_shifted, h.totals] at concession
    simp only [second, BestWeights.sum_div_total, value]
    refine (div_le_div_iff_of_pos_right positive).mpr ?_
    linarith

theorem exists_mixes (some_column : 0 < n) :
    ∃ x y, normalize? p = some x ∧ (∀ i, x.get i = p.get i / ∑ k, p.get k) ∧
      normalize? q = some y ∧ (∀ j, y.get j = q.get j / ∑ k, q.get k) ∧
      IsMinimax payoff x y (1 / ∑ i, p.get i + shift) := by
  have total₁ := h.total_pos some_column
  have total₂ : 0 < ∑ j, q.get j := by rwa [h.totals]
  obtain ⟨x, normal₁, first⟩ := normalize?_eq_some total₁
  obtain ⟨y, normal₂, second⟩ := normalize?_eq_some total₂
  exact ⟨x, y, normal₁, first, normal₂, second, h.isMinimax some_column first second⟩

end OptimalWeights

/-- The program of a game is solved, and its optimum gives optimal weights. -/
theorem solve_eq_ok (payoff : Grid ℚ m n) (some_row : 0 < m) (some_column : 0 < n) :
    ∃ solved p u, (program payoff (shift payoff)).solve = .ok solved ∧
      solved.optimum? = some p ∧ solved.dualValues? = some u ∧
      OptimalWeights payoff (shift payoff) p (u.map fun price => -price) ∧
      solve payoff =
        .ok ⟨p, u.map fun price => -price, 1 / ∑ i, p.get i + shift payoff⟩ := by
  obtain ⟨solved, p, value, u, run, optimum, _, prices, certificate⟩ :=
    (program payoff (shift payoff)).exists_certificate some_row (feasible_program payoff some_row)
      (program_not_isUnbounded payoff _)
  have weights := optimalWeights_of_isCertificate certificate
  refine ⟨solved, p, u, run, optimum, prices, weights, ?_⟩
  -- There is a least payoff, since there are payoffs at all, and the shift is one below it.
  obtain ⟨low, found, _⟩ := Scalar.least?_spec
    (List.ne_nil_of_mem (Grid.entry_mem_entries payoff ⟨0, some_row⟩ ⟨0, some_column⟩))
  have total : Scalar.isStrictlyPositive (Scalar.sum p.toList) = true := by
    rw [Scalar.isStrictlyPositive_iff, Scalar.sum_toList]
    exact weights.total_pos some_column
  have lowest : shift payoff = low - 1 := by
    rw [shift, found]
    rfl
  rw [lowest] at run ⊢
  simp only [solve, found, run, optimum, prices, ofOptimum, total, if_true]
  rw [Scalar.sum_toList]

/-! ### Games of doubles -/

theorem solveZeroSum_eq_ok {g : BimatrixGame m n} {s : Minimax ℚ m n} {x : Vector ℚ m}
    {y : Vector ℚ n} (converts : convertPayoff ℚ g.payoff₁ = .ok payoff)
    (solved : solve payoff = .ok s) (normal₁ : normalize? s.first = some x)
    (normal₂ : normalize? s.second = some y) :
    g.solveZeroSum ℚ =
      .ok ⟨⟨x.map Scalar.toFloat, y.map Scalar.toFloat⟩, Scalar.toFloat s.value⟩ := by
  simp only [BimatrixGame.solveZeroSum, converts, solved, Strategy.ofWeights?, normal₁, normal₂]

/-- The linear program of a zero-sum game gives both players optimal mixes and the value of the
game, for payoffs of any sign. So every game of finite payoffs is solved. -/
theorem solve_isMinimax (some_row : 0 < m) (some_column : 0 < n) :
    (∀ payoff : Grid ℚ m n, ∃ solved p u x y,
      (program payoff (shift payoff)).solve = .ok solved ∧
      solved.optimum? = some p ∧ solved.dualValues? = some u ∧
      let q := u.map fun price => -price
      let v := 1 / ∑ i, p.get i + shift payoff
      solve payoff = .ok ⟨p, q, v⟩ ∧
      normalize? p = some x ∧ (∀ i, x.get i = p.get i / ∑ k, p.get k) ∧
      normalize? q = some y ∧ (∀ j, y.get j = q.get j / ∑ k, q.get k) ∧
      IsMinimax payoff x y v ∧ IsGreatest (Guaranteed payoff) v ∧ IsLeast (Conceded payoff) v ∧
      ∀ g : BimatrixGame m n, convertPayoff ℚ g.payoff₁ = .ok payoff →
        g.solveZeroSum ℚ =
          .ok ⟨⟨x.map Scalar.toFloat, y.map Scalar.toFloat⟩, Scalar.toFloat v⟩) ∧
    ∀ payoff₁ payoff₂ : Grid Float m n, ∀ g, BimatrixGame.ofPayoffs payoff₁ payoff₂ = .ok g →
      ∃ solution, g.solveZeroSum ℚ = .ok solution := by
  constructor
  · intro payoff
    obtain ⟨solved, p, u, run, optimum, prices, weights, done⟩ :=
      solve_eq_ok payoff some_row some_column
    obtain ⟨x, y, normal₁, first, normal₂, second, minimax⟩ := weights.exists_mixes some_column
    refine ⟨solved, p, u, x, y, run, optimum, prices, done, normal₁, first, normal₂, second,
      minimax, minimax.isGreatest, minimax.isLeast, fun g converts => ?_⟩
    have rounded := solveZeroSum_eq_ok converts done normal₁ normal₂
    exact rounded
  · intro payoff₁ payoff₂ g built
    obtain ⟨payoff, converts⟩ := convertPayoff_eq_ok (BimatrixGame.finite_of_ofPayoffs built).1
    obtain ⟨_, p, u, _, _, _, weights, done⟩ := solve_eq_ok payoff some_row some_column
    obtain ⟨x, y, normal₁, _, normal₂, _⟩ := weights.exists_mixes some_column
    exact ⟨_, solveZeroSum_eq_ok converts done normal₁ normal₂⟩

/-- A game of payoffs with both signs, in fractions and in doubles. -/
theorem solve_isMinimax_signs :
    let payoff : Grid ℚ 2 3 := #v[#v[3, -1, 0], #v[-2, 1/2, -1]]
    let rounded : Grid Float 2 3 := #v[#v[3, -1, 0], #v[-2, 0.5, -1]]
    (∃ s x y, solve payoff = .ok s ∧ s.value = -2/5 ∧ IsMinimax payoff x y (-2/5)) ∧
    ∃ g solution, BimatrixGame.zeroSum rounded = .ok g ∧ g.solveZeroSum ℚ = .ok solution := by
  intro payoff rounded
  obtain ⟨solves, solvesRounded⟩ := solve_isMinimax (m := 2) (n := 3) (by decide) (by decide)
  constructor
  · obtain ⟨_, p, u, x, y, _, _, _, done, _, _, _, _, minimax, _⟩ := solves payoff
    have value : (match solve payoff with
        | .ok s => decide (s.value = -2/5)
        | .error _ => false) = true := by decide +kernel
    rw [done] at value
    have value := of_decide_eq_true value
    exact ⟨_, x, y, done, value, value ▸ minimax⟩
  · have finite : (BimatrixGame.zeroSum rounded).isOk = true := by decide +kernel
    cases built : BimatrixGame.zeroSum rounded with
    | error e =>
      rw [built] at finite
      cases finite
    | ok g =>
      obtain ⟨solution, done⟩ := solvesRounded _ _ g built
      exact ⟨g, solution, rfl, done⟩

end Minimax

/-- On a zero-sum game, the payoff at the end of any path from the fresh tableau is the value that
the linear program finds. -/
theorem lemkePath_payoff_eq_value (payoff : Grid ℚ m n) (some_row : 0 < m) (some_column : 0 < n) :
    ∃ (fresh : GameTableau ℚ m n) (s : Minimax ℚ m n),
      GameTableau.ofPayoffs payoff (Grid.map (fun a => -a) payoff) = .ok fresh ∧
      Minimax.solve payoff = .ok s ∧
      s.value = 1 / ∑ i, s.first.get i + GameTableau.shift payoff ∧
      ∀ k, 1 ≤ k → k ≤ m + n → ∃ next x y, fresh.lemkePath (.structural k) = ⟨.ok (), next⟩ ∧
        normalize? (GameTableau.split m n next.complementarySolution).1 = some x ∧
        normalize? (GameTableau.split m n next.complementarySolution).2 = some y ∧
        expectedPayoff payoff x y = s.value := by
  obtain ⟨_, p, u, _, _, _, weights, solved⟩ := Minimax.solve_eq_ok payoff some_row some_column
  obtain ⟨_, _, _, _, _, _, minimax⟩ := weights.exists_mixes some_column
  obtain ⟨fresh, built, initial, slacks⟩ := GameTableau.ofPayoffs_betweenPaths payoff
    (Grid.map (fun a => -a) payoff) some_row some_column
  refine ⟨fresh, _, built, solved, rfl, fun k low high => ?_⟩
  obtain ⟨valid, proper⟩ := GameTableau.exists_labelAt initial.basis_first low high (Or.inl rfl)
  obtain ⟨next, path, between, nonempty⟩ :=
    initial.lemkePath_nonempty some_row some_column slacks valid proper
  obtain ⟨x, y, normal₁, normal₂, nash⟩ := between.exists_isNash nonempty
  -- Both numbers are the most that the first player can be sure to get.
  exact ⟨next, x, y, path, normal₁, normal₂, nash.isMinimax.isGreatest.unique minimax.isGreatest⟩

/-- Matching pennies where one side of a coin counts twice: the two solvers find different mixes,
and the same value. -/
theorem lemkePath_payoff_eq_value_pennies :
    let payoff : Grid ℚ 2 3 := #v[#v[4/3, -2/3, 4/3], #v[-2/3, 4/3, -2/3]]
    ∃ (fresh next : GameTableau ℚ 2 3) (s : Minimax ℚ 2 3) (x : Vector ℚ 2) (y : Vector ℚ 3),
      GameTableau.ofPayoffs payoff (Grid.map (fun a => -a) payoff) = .ok fresh ∧
      fresh.lemkePath (.structural 3) = ⟨.ok (), next⟩ ∧ Minimax.solve payoff = .ok s ∧
      normalize? (GameTableau.split 2 3 next.complementarySolution).1 = some x ∧
      normalize? (GameTableau.split 2 3 next.complementarySolution).2 = some y ∧
      normalize? s.second ≠ some y ∧ expectedPayoff payoff x y = s.value := by
  intro payoff
  obtain ⟨fresh, s, built, solved, _, agrees⟩ :=
    lemkePath_payoff_eq_value payoff (by decide) (by decide)
  obtain ⟨next, x, y, path, normal₁, normal₂, value⟩ := agrees 3 (by decide) (by decide)
  have differ : (match GameTableau.ofPayoffs payoff (Grid.map (fun a => -a) payoff),
        Minimax.solve payoff with
      | .ok fresh, .ok s => decide (normalize? s.second ≠ normalize? (GameTableau.split 2 3
          (fresh.lemkePath (.structural 3)).state.complementarySolution).2)
      | _, _ => false) = true := by decide +kernel
  rw [built, solved] at differ
  have differ := of_decide_eq_true differ
  rw [path, normal₂] at differ
  exact ⟨fresh, next, s, x, y, built, path, solved, normal₁, normal₂, differ, value⟩

end LexPivot
