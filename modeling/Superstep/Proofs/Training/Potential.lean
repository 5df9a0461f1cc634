import Mathlib.Algebra.Order.Archimedean.Basic
import Mathlib.Algebra.Order.BigOperators.Ring.Finset
import Mathlib.LinearAlgebra.Matrix.NonsingularInverse
import Mathlib.Tactic.Abel
import Mathlib.Tactic.FieldSimp
import Mathlib.Tactic.Linarith
import Mathlib.Tactic.Positivity
import Mathlib.Tactic.Ring

/-!
# Going down a sum of squares

Steps against the gradient of half a sum of squares may go on for ever without the sum going up.
Then it comes as close as one likes to its least value, unless there is a direction that a step
merely turns round (`Superstep.LeastSquares.exists_lt`).

That it does is seen from a *potential*: the squared distance from parameters that are better, plus
what is still to be gained, weighted. As long as the costs do not go up it is not negative, and with
each step it falls by at least as much as a fixed multiple of how far the cost is above that of the
better parameters (`Superstep.LeastSquares.potential_step_le`). What could get in the way is the
square of the gradient, since a step may go too far. It is bounded by what two successive steps gain
(`Superstep.LeastSquares.exists_le_drop`), and here the directions that are turned round have to be
excluded: going along one of them there and back gains nothing, however long the gradient.
-/

namespace Superstep

open Matrix

variable {m n : Type} [Fintype m] [Fintype n]

/-! ### Vectors -/

section Vectors

theorem dot_self_nonneg (v : n → ℚ) : 0 ≤ v ⬝ᵥ v :=
  Finset.sum_nonneg fun i _ => mul_self_nonneg (v i)

/-- A matrix does not stretch by more than the squares of its entries. -/
theorem mulVec_self_le (M : Matrix m n ℚ) (v : n → ℚ) :
    M *ᵥ v ⬝ᵥ M *ᵥ v ≤ (∑ i, ∑ j, M i j ^ 2) * (v ⬝ᵥ v) := by
  rw [Finset.sum_mul]
  refine Finset.sum_le_sum fun i _ => ?_
  have := Finset.sum_mul_sq_le_sq_mul_sq Finset.univ (M i) v
  simpa only [mulVec, dotProduct, ← pow_two] using this

/-- A product is at most the mean of the squares. -/
theorem dotProduct_le (v w : n → ℚ) : v ⬝ᵥ w ≤ (v ⬝ᵥ v + w ⬝ᵥ w) / 2 := by
  have := dot_self_nonneg (v - w)
  rw [sub_dotProduct, dotProduct_sub, dotProduct_sub, dotProduct_comm w v] at this
  linarith

/-- A matrix that takes only zero to zero does not shrink vectors by more than some factor. -/
theorem exists_le_mulVec [DecidableEq n] {A : Matrix n n ℚ} (injective : ∀ v, A *ᵥ v = 0 → v = 0) :
    ∃ c, 0 ≤ c ∧ ∀ v, v ⬝ᵥ v ≤ c * (A *ᵥ v ⬝ᵥ A *ᵥ v) := by
  have unit : IsUnit A := by
    refine mulVec_injective_iff_isUnit.mp fun v w same => sub_eq_zero.mp (injective _ ?_)
    rw [mulVec_sub]
    exact sub_eq_zero.mpr same
  refine ⟨∑ i, ∑ j, A⁻¹ i j ^ 2, by positivity, fun v => ?_⟩
  have := mulVec_self_le A⁻¹ (A *ᵥ v)
  rwa [mulVec_mulVec, nonsing_inv_mul _ ((isUnit_iff_isUnit_det A).mp unit), one_mulVec] at this

end Vectors

namespace LeastSquares

variable {X : Matrix m n ℚ} {y : m → ℚ} {alpha : ℚ}

/-! ### Gradients -/

/-- What a step takes away from a gradient. -/
def bend (X : Matrix m n ℚ) (alpha : ℚ) (g : n → ℚ) : n → ℚ := alpha • Xᵀ *ᵥ (X *ᵥ g)

theorem bend_sub (g h : n → ℚ) : bend X alpha (g - h) = bend X alpha g - bend X alpha h := by
  simp only [bend, mulVec_sub, smul_sub]

theorem bend_smul (c : ℚ) (g : n → ℚ) : bend X alpha (c • g) = c • bend X alpha g := by
  simp only [bend, mulVec_smul, smul_comm c alpha]

theorem dotProduct_bend (g h : n → ℚ) : g ⬝ᵥ bend X alpha h = alpha * (X *ᵥ g ⬝ᵥ X *ᵥ h) := by
  rw [bend, dotProduct_smul, dotProduct_mulVec, vecMul_transpose, smul_eq_mul]

theorem dotProduct_bend_comm (g h : n → ℚ) : g ⬝ᵥ bend X alpha h = bend X alpha g ⬝ᵥ h := by
  rw [dotProduct_bend, dotProduct_comm (bend X alpha g), dotProduct_bend, dotProduct_comm]

variable (X alpha) in
/-- What is taken away is small where it does not tell. -/
theorem bend_self_le (g : n → ℚ) : bend X alpha g ⬝ᵥ bend X alpha g ≤
    alpha * (∑ i, ∑ j, X i j ^ 2) * (g ⬝ᵥ bend X alpha g) := by
  have square : bend X alpha g ⬝ᵥ bend X alpha g =
      alpha ^ 2 * (Xᵀ *ᵥ (X *ᵥ g) ⬝ᵥ Xᵀ *ᵥ (X *ᵥ g)) := by
    rw [bend, smul_dotProduct, dotProduct_smul, smul_eq_mul, smul_eq_mul]
    ring
  have entries : ∑ j, ∑ i, Xᵀ j i ^ 2 = ∑ i, ∑ j, X i j ^ 2 := Finset.sum_comm
  have le := mul_le_mul_of_nonneg_left (mulVec_self_le Xᵀ (X *ᵥ g)) (sq_nonneg alpha)
  rw [entries] at le
  rw [square, dotProduct_bend]
  linarith

/-- By how much a step against a gradient lowers the cost. -/
def drop (X : Matrix m n ℚ) (alpha : ℚ) (g : n → ℚ) : ℚ :=
  alpha * (g ⬝ᵥ g - g ⬝ᵥ bend X alpha g / 2)

/-- **What the second of two steps gains less than the first.** -/
theorem drop_sub_drop (g : n → ℚ) :
    drop X alpha g - drop X alpha (g - bend X alpha g) = alpha / 2 *
      ((2 : ℚ) • g - bend X alpha g) ⬝ᵥ bend X alpha ((2 : ℚ) • g - bend X alpha g) := by
  simp only [drop, bend_sub, bend_smul, sub_dotProduct, dotProduct_sub, smul_dotProduct,
    dotProduct_smul, smul_eq_mul, dotProduct_bend_comm g]
  simp only [← dotProduct_bend_comm, dotProduct_comm _ g]
  ring

/-- A long gradient means a great gain, or that a step changes it much. -/
theorem le_drop (pos : 0 < alpha) (g : n → ℚ) : g ⬝ᵥ g ≤
    4 / (3 * alpha) * drop X alpha g + bend X alpha g ⬝ᵥ bend X alpha g / 3 := by
  have le := dotProduct_le g (bend X alpha g)
  have gain : 4 / (3 * alpha) * drop X alpha g = 4 / 3 * (g ⬝ᵥ g - g ⬝ᵥ bend X alpha g / 2) := by
    rw [drop]
    field_simp
  rw [gain]
  linarith

/-- **How long a gradient can be** is bounded by what the next two steps gain, unless a step merely
turns some direction round. -/
theorem exists_le_drop [DecidableEq n] (pos : 0 < alpha)
    (turns : ∀ d, bend X alpha d = (2 : ℚ) • d → d = 0) :
    ∃ c, 0 ≤ c ∧ ∀ g, g ⬝ᵥ g ≤ 4 / (3 * alpha) * drop X alpha g +
      c * (drop X alpha g - drop X alpha (g - bend X alpha g)) := by
  have matrix (d : n → ℚ) : ((2 : ℚ) • (1 : Matrix n n ℚ) - alpha • (Xᵀ * X)) *ᵥ d =
      (2 : ℚ) • d - bend X alpha d := by
    rw [sub_mulVec, smul_mulVec, smul_mulVec, one_mulVec, ← mulVec_mulVec, bend]
  obtain ⟨c, hc, le⟩ := exists_le_mulVec (A := (2 : ℚ) • (1 : Matrix n n ℚ) - alpha • (Xᵀ * X))
    fun d zero => turns d (sub_eq_zero.mp ((matrix d).symm.trans zero)).symm
  refine ⟨2 / 3 * c * ∑ i, ∑ j, X i j ^ 2, by positivity, fun g => ?_⟩
  -- a change that two steps do not turn round shows in what they gain
  have change : bend X alpha g ⬝ᵥ bend X alpha g ≤ 2 * c * (∑ i, ∑ j, X i j ^ 2) *
      (drop X alpha g - drop X alpha (g - bend X alpha g)) := by
    have first := le (bend X alpha g)
    rw [matrix, ← bend_smul, ← bend_sub] at first
    have second := mul_le_mul_of_nonneg_left
      (bend_self_le X alpha ((2 : ℚ) • g - bend X alpha g)) hc
    rw [drop_sub_drop]
    linarith
  have := le_drop (X := X) pos g
  linarith

/-! ### Costs -/

/-- Half the sum of the squared errors. -/
def cost (X : Matrix m n ℚ) (y : m → ℚ) (v : n → ℚ) : ℚ := (X *ᵥ v - y) ⬝ᵥ (X *ᵥ v - y) / 2

def gradient (X : Matrix m n ℚ) (y : m → ℚ) (v : n → ℚ) : n → ℚ := Xᵀ *ᵥ (X *ᵥ v - y)

/-- One step against the gradient. -/
def step (X : Matrix m n ℚ) (y : m → ℚ) (alpha : ℚ) (v : n → ℚ) : n → ℚ :=
  v - alpha • gradient X y v

theorem cost_nonneg (v : n → ℚ) : 0 ≤ cost X y v := div_nonneg (dot_self_nonneg _) zero_le_two

theorem dotProduct_gradient (v d : n → ℚ) : gradient X y v ⬝ᵥ d = (X *ᵥ v - y) ⬝ᵥ X *ᵥ d := by
  rw [gradient, dotProduct_comm, dotProduct_mulVec, vecMul_transpose, dotProduct_comm]

/-- The cost of other parameters. -/
theorem cost_add (v d : n → ℚ) :
    cost X y (v + d) = cost X y v + gradient X y v ⬝ᵥ d + X *ᵥ d ⬝ᵥ X *ᵥ d / 2 := by
  rw [dotProduct_gradient, cost, cost, mulVec_add, add_sub_right_comm, add_dotProduct,
    dotProduct_add, dotProduct_add, dotProduct_comm (X *ᵥ d) (X *ᵥ v - y)]
  ring

/-- A step from other parameters. -/
theorem step_add (v d : n → ℚ) :
    step X y alpha (v + d) = step X y alpha v + d - bend X alpha d := by
  have error : X *ᵥ (v + d) - y = X *ᵥ v - y + X *ᵥ d := by
    rw [mulVec_add, add_sub_right_comm]
  rw [step, step, gradient, error, mulVec_add, smul_add, bend, gradient]
  abel

/-- What a step makes of the gradient. -/
theorem gradient_step (v : n → ℚ) : gradient X y (step X y alpha v) =
    gradient X y v - bend X alpha (gradient X y v) := by
  have error : X *ᵥ step X y alpha v - y = X *ᵥ v - y - alpha • X *ᵥ gradient X y v := by
    rw [step, mulVec_sub, mulVec_smul, sub_right_comm]
  rw [gradient, error, mulVec_sub, mulVec_smul]
  rfl

/-- What a step makes of the cost. -/
theorem cost_step (v : n → ℚ) :
    cost X y (step X y alpha v) = cost X y v - drop X alpha (gradient X y v) := by
  rw [step, sub_eq_add_neg, ← neg_smul, cost_add, drop, dotProduct_bend, mulVec_smul,
    dotProduct_smul, dotProduct_smul, smul_dotProduct]
  simp only [smul_eq_mul]
  ring

/-- Better parameters lie where the gradient points away from. -/
theorem cost_sub_le (v w : n → ℚ) : cost X y v - cost X y w ≤ gradient X y v ⬝ᵥ (v - w) := by
  have moved := cost_add (X := X) (y := y) v (w - v)
  rw [add_sub_cancel, ← neg_sub v w, dotProduct_neg] at moved
  have := dot_self_nonneg (X *ᵥ -(v - w))
  linarith

/-! ### The potential -/

/-- How far parameters are from others, and what is still to be gained. -/
def potential (X : Matrix m n ℚ) (y : m → ℚ) (alpha c : ℚ) (w v : n → ℚ) : ℚ :=
  (v - w) ⬝ᵥ (v - w) + alpha ^ 2 *
    (4 / (3 * alpha) * cost X y v + c * drop X alpha (gradient X y v))

/-- **The potential falls** with every step that starts above the cost of the others. -/
theorem potential_step_le {c : ℚ} (le : ∀ g, g ⬝ᵥ g ≤ 4 / (3 * alpha) * drop X alpha g +
    c * (drop X alpha g - drop X alpha (g - bend X alpha g))) (pos : 0 < alpha) (v w : n → ℚ) :
    potential X y alpha c w (step X y alpha v) ≤
      potential X y alpha c w v - 2 * alpha * (cost X y v - cost X y w) := by
  have distance : (step X y alpha v - w) ⬝ᵥ (step X y alpha v - w) =
      (v - w) ⬝ᵥ (v - w) - 2 * alpha * (gradient X y v ⬝ᵥ (v - w)) +
        alpha ^ 2 * (gradient X y v ⬝ᵥ gradient X y v) := by
    rw [step, sub_right_comm]
    generalize v - w = u
    rw [sub_dotProduct, dotProduct_sub, dotProduct_sub, smul_dotProduct, dotProduct_smul,
      smul_dotProduct, dotProduct_smul, dotProduct_comm u (gradient X y v)]
    simp only [smul_eq_mul]
    ring
  have toward := mul_le_mul_of_nonneg_left (cost_sub_le (X := X) (y := y) v w) pos.le
  have short := mul_le_mul_of_nonneg_left (le (gradient X y v)) (sq_nonneg alpha)
  rw [potential, potential, distance, cost_step, gradient_step]
  linarith

/-- As long as costs do not go up, the potential is not negative. -/
theorem potential_nonneg {c : ℚ} (hc : 0 ≤ c) (pos : 0 < alpha) {v : n → ℚ}
    (down : cost X y (step X y alpha v) ≤ cost X y v) (w : n → ℚ) :
    0 ≤ potential X y alpha c w v := by
  have gain : 0 ≤ drop X alpha (gradient X y v) := by
    rw [cost_step] at down
    linarith
  have := dot_self_nonneg (v - w)
  have := cost_nonneg (X := X) (y := y) v
  rw [potential]
  positivity

/-- **Steps lead below any cost that some parameters are below**, or make the costs go up, unless a
step merely turns some direction round. -/
theorem exists_lt [DecidableEq n] (pos : 0 < alpha)
    (turns : ∀ d, bend X alpha d = (2 : ℚ) • d → d = 0) {w : n → ℚ} {bound : ℚ}
    (better : cost X y w < bound) (v : n → ℚ) :
    ∃ k, cost X y ((step X y alpha)^[k] v) < bound ∨
      cost X y ((step X y alpha)^[k] v) < cost X y ((step X y alpha)^[k + 1] v) := by
  obtain ⟨c, hc, le⟩ := exists_le_drop pos turns
  by_contra! stays
  have falls (k : ℕ) : potential X y alpha c w ((step X y alpha)^[k] v) ≤
      potential X y alpha c w v - k * (2 * alpha * (bound - cost X y w)) := by
    induction k with
    | zero => simp
    | succ k ih =>
      have fallen := potential_step_le (y := y) le pos ((step X y alpha)^[k] v) w
      have high := mul_le_mul_of_nonneg_left (stays k).1 pos.le
      rw [Function.iterate_succ_apply']
      push_cast
      linarith
  have unit : 0 < 2 * alpha * (bound - cost X y w) := by
    have := sub_pos.mpr better
    positivity
  obtain ⟨k, hk⟩ := exists_nat_gt
    (potential X y alpha c w v / (2 * alpha * (bound - cost X y w)))
  have := (div_lt_iff₀ unit).mp hk
  have := falls k
  have down : cost X y (step X y alpha ((step X y alpha)^[k] v)) ≤
      cost X y ((step X y alpha)^[k] v) :=
    Function.iterate_succ_apply' (step X y alpha) k v ▸ (stays k).2
  have := potential_nonneg hc pos down w
  linarith

end LeastSquares

end Superstep
