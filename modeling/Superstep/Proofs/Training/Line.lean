import Mathlib.Algebra.Order.Archimedean.Basic
import Superstep.Proofs.Training.Quadratic

/-!
# Rows on a line through the origin

If every row has one feature and its label is that feature times some slope, least squares with
rational numbers can be followed to its end. With every iteration the distance of the parameter from
the slope is multiplied by one factor, and the mean cost by its square
(`Superstep.Loop.theta_of_state`, `Superstep.Loop.mean_of_state`). So how a job ends depends on that
factor alone (`Superstep.Setting.OnLine`):

| learning rate times squares | factor | the job |
|---|---|---|
| less than two | between minus one and one | converges when the cost is below the threshold |
| two | minus one | goes on for ever at the same cost |
| more than two | less than minus one | fails in the second iteration |

A job that starts with a cost below the threshold converges at once, whatever the factor.
-/

namespace Superstep

/-! ### One feature -/

namespace TotalModel

variable {w : ℚ} {rows : List (Sample ℚ)}

theorem squares_nonneg (rows : List (Sample ℚ)) : 0 ≤ squares rows := by
  refine List.sum_nonneg fun square hs => ?_
  obtain ⟨row, -, rfl⟩ := List.mem_map.mp hs
  exact Scalar.dot_self_nonneg _

/-- The costs of rows on a line. -/
theorem sum_score_line (line : ∀ row ∈ rows, ∃ x, row = ⟨[x], w * x⟩) (u : ℚ) :
    (linear.score [u] rows).sum = (u - w) ^ 2 * squares rows / 2 := by
  rw [sum_score, squares]
  induction rows with
  | nil => simp
  | cons row rows ih =>
    obtain ⟨x, rfl⟩ := line row List.mem_cons_self
    rw [List.map_cons, List.sum_cons, ih fun r hr => line r (List.mem_cons_of_mem _ hr),
      List.map_cons, List.sum_cons, error]
    simp only [Scalar.dot_cons, Scalar.dot_nil_left, Scalar.minusZero_rat]
    ring

/-- The gradient of rows on a line. -/
theorem slope_line (line : ∀ row ∈ rows, ∃ x, row = ⟨[x], w * x⟩) (u : ℚ) :
    linear.slope [u] rows = [(u - w) * squares rows] := by
  have fit : ∀ row ∈ rows, row.features.length = [u].length := by
    intro row hr
    obtain ⟨x, rfl⟩ := line row hr
    rfl
  obtain ⟨g, hg⟩ := List.length_eq_one_iff.mp (linear.length_slope [u] rows fit)
  have product := dot_slope fit [1]
  rw [hg] at product ⊢
  have entry : Scalar.dot [g] [1] = g := by simp
  rw [entry] at product
  rw [product, squares]
  clear product entry hg fit
  congr 1
  induction rows with
  | nil => simp
  | cons row rows ih =>
    obtain ⟨x, rfl⟩ := line row List.mem_cons_self
    rw [List.map_cons, List.sum_cons, ih fun r hr => line r (List.mem_cons_of_mem _ hr),
      List.map_cons, List.sum_cons, error]
    simp only [Scalar.dot_cons, Scalar.dot_nil_left, Scalar.minusZero_rat]
    ring

end TotalModel

/-! ### The loop -/

namespace Loop

variable {config : Config ℚ} {w : ℚ} {rows : List (Sample ℚ)} {s : RunState ℚ} {j : Nat}

/-- What the distance from the slope is multiplied by in every iteration. -/
def factor (config : Config ℚ) (rows : List (Sample ℚ)) : ℚ :=
  1 - config.alpha * TotalModel.squares rows

/-- The mean cost in the first iteration. -/
def firstCost (config : Config ℚ) (w : ℚ) (rows : List (Sample ℚ)) : ℚ :=
  (config.initialTheta - w) ^ 2 * TotalModel.squares rows / (2 * rows.length)

theorem firstCost_nonneg : 0 ≤ firstCost config w rows :=
  div_nonneg (mul_nonneg (sq_nonneg _) (TotalModel.squares_nonneg rows))
    (mul_nonneg zero_le_two (Nat.cast_nonneg _))

section Line

variable (line : ∀ row ∈ rows, ∃ x, row = ⟨[x], w * x⟩)

include line

/-- **The parameter** after so many iterations. -/
theorem theta_of_state (hs : (ofRows config .linear 1 rows).state j = some s) :
    s.theta = [w + (config.initialTheta - w) * factor config rows ^ j] := by
  induction j generalizing s with
  | zero =>
    obtain rfl := Option.some.inj hs
    rw [pow_zero, mul_one, add_sub_cancel]
    rfl
  | succ j ih =>
    obtain ⟨u, hu, -⟩ := Option.bind_eq_some_iff.mp hs
    obtain ⟨cost, -, stepped⟩ := goOn_of_lt hu hs (Nat.lt_succ_self j)
    obtain rfl := Option.some.inj (hs.symm.trans stepped)
    change List.zipWith _ u.theta (TotalModel.linear.slope u.theta rows) = _
    rw [ih hu, TotalModel.slope_line line]
    change [_ - config.alpha * _] = _
    congr 1
    rw [factor]
    ring

variable (owned : rows ≠ []) (countable : rows.length < wordLimit)

include owned countable

/-- **The mean cost** after so many iterations. -/
theorem mean_of_state (hs : (ofRows config .linear 1 rows).state j = some s) :
    ((ofRows config .linear 1 rows).total s.theta).mean? =
      some (firstCost config w rows * factor config rows ^ (2 * j)) := by
  refine (TotalModel.linear.mean_score s.theta owned countable).trans (congrArg some ?_)
  rw [theta_of_state line hs, TotalModel.sum_score_line line, firstCost]
  ring

/-- The mean cost that a loop holds is that of the iteration before. -/
theorem cost_of_state (hs : (ofRows config .linear 1 rows).state (j + 1) = some s) :
    s.cost = firstCost config w rows * factor config rows ^ (2 * j) := by
  obtain ⟨u, hu, -⟩ := Option.bind_eq_some_iff.mp hs
  obtain ⟨cost, goesOn, stepped⟩ := goOn_of_lt hu hs (Nat.lt_succ_self j)
  obtain rfl := Option.some.inj (hs.symm.trans stepped)
  exact Option.some.inj ((mean_of_goOn goesOn).symm.trans (mean_of_state line owned countable hu))

/-- If the distance does not grow, neither does the mean cost; at first it is enough that it is not
above what a loop starts from. -/
theorem line_mean_le_cost (bounded : firstCost config w rows ≤ Scalar.largest)
    (shrinks : j = 0 ∨ factor config rows ^ 2 ≤ 1)
    (hs : (ofRows config .linear 1 rows).state j = some s) :
    firstCost config w rows * factor config rows ^ (2 * j) ≤ s.cost := by
  rcases j with _ | j
  · obtain rfl := Option.some.inj hs
    rw [Nat.mul_zero, pow_zero, mul_one]
    exact bounded
  · have nonneg : 0 ≤ firstCost config w rows * factor config rows ^ (2 * j) :=
      mul_nonneg firstCost_nonneg (pow_mul (factor config rows) 2 j ▸ pow_nonneg (sq_nonneg _) j)
    rw [cost_of_state line owned countable hs, Nat.mul_succ, pow_add, ← mul_assoc]
    exact mul_le_of_le_one_right nonneg (shrinks.resolve_left j.succ_ne_zero)

/-- Whether an iteration is the last one, if the mean cost has not gone up. -/
theorem turnout_line (pos : 0 < config.threshold)
    (bounded : firstCost config w rows ≤ Scalar.largest)
    (shrinks : j = 0 ∨ factor config rows ^ 2 ≤ 1)
    (hs : (ofRows config .linear 1 rows).state j = some s) :
    (ofRows config .linear 1 rows).turnout s =
      if firstCost config w rows * factor config rows ^ (2 * j) < config.threshold then
        .converged (firstCost config w rows * factor config rows ^ (2 * j))
      else .goOn (firstCost config w rows * factor config rows ^ (2 * j)) := by
  have mean := mean_of_state line owned countable hs
  have down := line_mean_le_cost line owned countable bounded shrinks hs
  rw [turnout_eq mean, if_neg (not_lt.mpr down)]
  refine if_congr ⟨?_, .inr⟩ rfl rfl
  rintro (zero | low)
  · rw [zero]
    exact pos
  · exact low

/-- As long as the mean cost is not below the threshold, a loop goes on. -/
theorem exists_state_line (pos : 0 < config.threshold)
    (bounded : firstCost config w rows ≤ Scalar.largest)
    (shrinks : j ≤ 1 ∨ factor config rows ^ 2 ≤ 1)
    (high : ∀ i < j, config.threshold ≤ firstCost config w rows * factor config rows ^ (2 * i)) :
    ∃ s, (ofRows config .linear 1 rows).state j = some s := by
  induction j with
  | zero => exact ⟨_, rfl⟩
  | succ j ih =>
    obtain ⟨s, hs⟩ := ih (shrinks.imp_left Nat.le_of_succ_le) fun i hi =>
      high i (Nat.lt_succ_of_lt hi)
    have shrinks' : j = 0 ∨ factor config rows ^ 2 ≤ 1 :=
      shrinks.imp_left fun le => Nat.le_zero.mp (Nat.le_of_succ_le_succ le)
    have goesOn := turnout_line line owned countable pos bounded shrinks' hs
    rw [if_neg (not_lt.mpr (high j (Nat.lt_succ_self j)))] at goesOn
    exact ⟨_, by rw [state_succ hs, next, goesOn]⟩

/-- **A loop converges** when the mean cost is below the threshold for the first time. -/
theorem result_of_low (pos : 0 < config.threshold)
    (bounded : firstCost config w rows ≤ Scalar.largest)
    (shrinks : j = 0 ∨ factor config rows ^ 2 ≤ 1)
    (high : ∀ i < j, config.threshold ≤ firstCost config w rows * factor config rows ^ (2 * i))
    (low : firstCost config w rows * factor config rows ^ (2 * j) < config.threshold) :
    (ofRows config .linear 1 rows).result j = some (.ok
      { theta := [w + (config.initialTheta - w) * factor config rows ^ j]
        cost := firstCost config w rows * factor config rows ^ (2 * j)
        iteration := j + 1
        examples := UInt64.ofNat rows.length }) := by
  obtain ⟨s, hs⟩ := exists_state_line line owned countable pos bounded
    (shrinks.imp_left fun zero => zero ▸ Nat.zero_le 1) high
  have converged := turnout_line line owned countable pos bounded shrinks hs
  rw [if_pos low] at converged
  have count : ((ofRows config .linear 1 rows).total s.theta).count = UInt64.ofNat rows.length :=
    TotalModel.linear.count_score s.theta rows
  rw [result, hs, Option.bind_some, outcome, converged, theta_of_state line hs,
    iteration_of_state hs, ← theta_of_state line hs, count]

/-- **A loop fails in the second iteration** if the distance grows. -/
theorem result_of_grows (pos : 0 < config.threshold)
    (bounded : firstCost config w rows ≤ Scalar.largest)
    (high : config.threshold ≤ firstCost config w rows) (grows : 1 < factor config rows ^ 2) :
    (ofRows config .linear 1 rows).result 1 = some (.error (.diverged config.alpha 2
      (firstCost config w rows * factor config rows ^ 2) (firstCost config w rows))) := by
  have first : ∀ i < 1, config.threshold ≤
      firstCost config w rows * factor config rows ^ (2 * i) := by
    intro i hi
    obtain rfl := Nat.lt_one_iff.mp hi
    rw [Nat.mul_zero, pow_zero, mul_one]
    exact high
  obtain ⟨s, hs⟩ := exists_state_line line owned countable pos bounded (.inl (le_refl 1)) first
  have cost := cost_of_state line owned countable hs
  rw [Nat.mul_zero, pow_zero, mul_one] at cost
  have rises : s.cost < firstCost config w rows * factor config rows ^ (2 * 1) := by
    rw [cost]
    exact lt_mul_of_one_lt_right (lt_of_lt_of_le pos high) grows
  rw [result, hs, Option.bind_some, outcome, turnout_eq (mean_of_state line owned countable hs),
    if_pos rises, iteration_of_state hs, cost]
  rfl

/-- **A loop goes on for ever** if the distance stays the same. -/
theorem goOn_of_stays (pos : 0 < config.threshold)
    (bounded : firstCost config w rows ≤ Scalar.largest)
    (high : config.threshold ≤ firstCost config w rows) (stays : factor config rows ^ 2 = 1)
    (j : Nat) : ∃ s, (ofRows config .linear 1 rows).state j = some s ∧
      (ofRows config .linear 1 rows).turnout s = .goOn (firstCost config w rows) := by
  have same : ∀ i, firstCost config w rows * factor config rows ^ (2 * i) =
      firstCost config w rows := by
    intro i
    rw [pow_mul, stays, one_pow, mul_one]
  obtain ⟨s, hs⟩ := exists_state_line line owned countable pos bounded (.inr stays.le)
    fun i (_ : i < j) => (same i).symm ▸ high
  have goesOn := turnout_line line owned countable pos bounded (.inr stays.le) hs
  rw [same j, if_neg (not_lt.mpr high)] at goesOn
  exact ⟨s, hs, goesOn⟩

end Line

/-- Whether the distance grows depends on whether the learning rate times the squares is more than
two. -/
theorem factor_sq (config : Config ℚ) (rows : List (Sample ℚ)) : factor config rows ^ 2 =
    1 + config.alpha * TotalModel.squares rows * (config.alpha * TotalModel.squares rows - 2) := by
  rw [factor]
  ring

/-- If the distance shrinks, the mean cost is below the threshold at some time. -/
theorem exists_low (pos : 0 < config.threshold)
    (high : config.threshold ≤ firstCost config w rows) (shrinks : factor config rows ^ 2 < 1) :
    ∃ j, firstCost config w rows * factor config rows ^ (2 * j) < config.threshold := by
  have cost : 0 < firstCost config w rows := lt_of_lt_of_le pos high
  obtain ⟨j, hj⟩ := exists_pow_lt_of_lt_one (div_pos pos cost) shrinks
  refine ⟨j, ?_⟩
  rw [pow_mul, mul_comm]
  exact (lt_div_iff₀ cost).mp hj

end Loop

/-! ### Jobs -/

namespace Setting

/-- **Rows on a line through the origin**, at least one of them the leader's, and a threshold that
can be reached. -/
structure OnLine (t : Setting ℚ) (w : ℚ) : Prop where
  model : t.model = .linear
  featureCount : ∀ p ∈ t.cluster.partitions, p.featureCount = 1
  rows : ∀ row ∈ t.cluster.partitions.flatMap (·.rows), ∃ x, row = ⟨[x], w * x⟩
  owns : (t.partition t.leader).rows ≠ []
  /-- A word counts the rows. -/
  countable : (t.cluster.partitions.flatMap (·.rows)).length < wordLimit
  /-- Not all features are zero. -/
  squares : 0 < TotalModel.squares (t.cluster.partitions.flatMap (·.rows))
  threshold : 0 < t.config.threshold
  /-- The first mean cost is not above what a run starts from. -/
  bounded : Loop.firstCost t.config w (t.cluster.partitions.flatMap (·.rows)) ≤ Scalar.largest

namespace OnLine

variable {t : Setting ℚ} {w : ℚ} (h : t.OnLine w)

include h

theorem uniform : t.cluster.Uniform 1 := by
  refine ⟨Nat.one_pos, by decide, h.featureCount, fun p hp row hr => ?_⟩
  obtain ⟨x, rfl⟩ := h.rows row (List.mem_flatMap.mpr ⟨p, hp, hr⟩)
  rfl

theorem loop_eq : t.loop =
    .ofRows t.config .linear 1 (t.cluster.partitions.flatMap (·.rows)) := by
  rw [loop_eq_ofRows, h.model, width_eq h.uniform h.owns]

theorem probed : t.Probed := probed_of_uniform h.uniform h.owns

theorem fit : ∀ peer ∈ t.cluster.names, t.Fits peer := fun _ hp =>
  fits_of_uniform h.uniform h.owns hp

end OnLine

/-- What a job holds that goes on for ever at one cost. -/
structure Stays (t : Setting ℚ) (cost : ℚ) : Prop where
  goesOn : ∀ supersteps, t.execution.Inevitable fun y =>
    y.ending? = none ∧ ∀ s ∈ y.stations, supersteps ≤ s.superstep
  scoring : ∀ y, t.execution.Reaches y → ∀ s ∈ y.stations, ∀ state sum,
    s.activity = .running (.done (.ok (.goOn (.scoring state sum)))) → 0 < state.iteration →
      state.cost = cost
  descending : ∀ y, t.execution.Reaches y → ∀ s ∈ y.stations, ∀ state mean examples sum,
    s.activity = .running (.done (.ok (.goOn (.descending state mean examples sum)))) →
      mean = cost
  logged : ∀ y, t.execution.Reaches y → ∀ entry ∈ y.output.toList, entry.cost = cost

/-- If the loop goes on for ever at one cost, so does the job. -/
theorem stays_of_goOn {t : Setting ℚ} {cost : ℚ} (probed : t.Probed)
    (fit : ∀ peer ∈ t.cluster.names, t.Fits peer)
    (goesOn : ∀ j, ∃ s, t.loop.state j = some s ∧ t.loop.turnout s = .goOn cost) :
    t.Stays cost := by
  have held : ∀ j s, t.loop.state (j + 1) = some s → s.cost = cost := by
    intro j s hs
    obtain ⟨u, hu, goes⟩ := goesOn j
    rw [Loop.state_succ hu, Loop.next, goes] at hs
    obtain rfl := Option.some.inj hs
    rfl
  have endless : ∀ j, t.loop.result j = none := by
    intro j
    obtain ⟨s, hs, goes⟩ := goesOn j
    rw [Loop.result, hs, Option.bind_some, Loop.outcome, goes]
  refine ⟨inevitable_superstep probed fit endless, ?_, ?_, ?_⟩
  · rintro y ⟨chronicle, run⟩ s hs state sum ha later
    obtain ⟨marks, h⟩ := conduct run
    obtain ⟨j, read, hj, -⟩ := h.inv hs ha
    rw [Loop.iteration_of_state hj] at later
    obtain ⟨j, rfl⟩ := Nat.exists_eq_succ_of_ne_zero (Nat.ne_of_gt later)
    exact held j state hj
  · rintro y ⟨chronicle, run⟩ s hs state mean examples sum ha
    obtain ⟨marks, h⟩ := conduct run
    obtain ⟨j, read, hj, amid, hsum, goes, -⟩ := h.inv hs ha
    obtain ⟨u, hu, goes'⟩ := goesOn j
    obtain rfl := Option.some.inj (hj.symm.trans hu)
    rw [goes] at goes'
    cases goes'
    rfl
  · rintro y ⟨chronicle, run⟩ entry he
    obtain ⟨marks, h⟩ := conduct run
    have mem := h.mem_writes he
    by_cases leads : t.leader = entry.writer
    · rcases Slot.cases_of entry.superstep with hk | ⟨j, hk | hk | hk | hk⟩ <;> rw [hk] at mem
      · rw [writes_opening] at mem
        cases mem
      · rw [writes_scoring] at mem
        cases mem
      · obtain ⟨s, hs, goes⟩ := goesOn j
        rw [writes_judging_eq_nil hs (closing_of_goOn goes)] at mem
        cases mem
      · rw [writes_descending] at mem
        cases mem
      · obtain ⟨s, hs, -⟩ := goesOn (j + 1)
        rw [writes_stepping hs, if_pos leads] at mem
        exact (Prod.mk.inj (List.mem_singleton.mp mem)).2.trans (held j s hs)
    · rw [writes_of_ne leads] at mem
      cases mem

/-- **How training on a line ends.** -/
theorem line_outcome (t : Setting ℚ) (w : ℚ) (h : t.OnLine w) :
    let rows := t.cluster.partitions.flatMap (·.rows)
    let rate := t.config.alpha * TotalModel.squares rows
    let start := t.config.initialTheta
    let cost := (start - w) ^ 2 * TotalModel.squares rows / (2 * rows.length)
    (cost < t.config.threshold → t.execution.Inevitable fun y => y.ending? = some (t.ending (.ok
      { theta := [start], cost, iteration := 1, examples := UInt64.ofNat rows.length }))) ∧
    (t.config.threshold ≤ cost →
      (rate < 2 → ∃ k,
        IsLeast {k | 1 ≤ k ∧ cost * (1 - rate) ^ (2 * (k - 1)) < t.config.threshold} k ∧
        t.execution.Inevitable fun y => y.ending? = some (t.ending (.ok
          { theta := [w + (start - w) * (1 - rate) ^ (k - 1)]
            cost := cost * (1 - rate) ^ (2 * (k - 1))
            iteration := k, examples := UInt64.ofNat rows.length }))) ∧
      (2 < rate → t.execution.Inevitable fun y => y.ending? = some (.failed
        (.diverged t.config.alpha 2 (cost * (1 - rate) ^ 2) cost))) ∧
      (rate = 2 → t.Stays cost)) := by
  intro rows rate start cost
  have loop : t.loop = .ofRows t.config .linear 1 rows := h.loop_eq
  have owned : rows ≠ [] := rows_ne_nil h.owns
  have positive : 0 < rate := mul_pos t.alpha_pos h.squares
  have square : (1 - rate) ^ 2 = 1 + rate * (rate - 2) := Loop.factor_sq t.config rows
  refine ⟨fun low => ?_, fun high => ⟨fun slow => ?_, fun fast => ?_, fun edge => ?_⟩⟩
  · have first : Loop.firstCost t.config w rows * Loop.factor t.config rows ^ (2 * 0) = cost := by
      rw [Nat.mul_zero, pow_zero, mul_one]
      rfl
    have result := Loop.result_of_low h.rows owned h.countable h.threshold h.bounded (.inl rfl)
      (fun i hi => absurd hi i.not_lt_zero) (lt_of_eq_of_lt first low)
    rw [first, pow_zero, mul_one, add_sub_cancel] at result
    exact inevitable_ending h.probed h.fit (loop ▸ result)
  · have shrinks : (1 - rate) ^ 2 < 1 := by
      have := mul_neg_of_pos_of_neg positive (sub_neg.mpr slow)
      linarith
    obtain ⟨j, low, least⟩ := Nat.findX (Loop.exists_low h.threshold high shrinks)
    have result := Loop.result_of_low h.rows owned h.countable h.threshold h.bounded
      (.inr shrinks.le) (fun i hi => not_lt.mp (least i hi)) low
    refine ⟨j + 1, ⟨⟨Nat.le_add_left 1 j, low⟩, ?_⟩,
      inevitable_ending h.probed h.fit (loop ▸ result)⟩
    rintro k ⟨pos, below⟩
    by_contra before
    exact least (k - 1) (by omega) below
  · have grows : 1 < (1 - rate) ^ 2 := by
      have := mul_pos positive (sub_pos.mpr fast)
      linarith
    exact inevitable_ending h.probed h.fit
      (loop ▸ Loop.result_of_grows h.rows owned h.countable h.threshold h.bounded high grows)
  · have stays : (1 - rate) ^ 2 = 1 := by
      rw [square, edge, sub_self, mul_zero, add_zero]
    exact stays_of_goOn h.probed h.fit
      (loop ▸ Loop.goOn_of_stays h.rows owned h.countable h.threshold h.bounded high stays)

theorem onLine_line : line.OnLine 2 where
  model := rfl
  featureCount := uniform_line.featureCount
  rows row hr := by
    have mem : row = ⟨[1], 2⟩ ∨ row = ⟨[2], 4⟩ := by simpa [line, Partition.ofRows] using hr
    rcases mem with rfl | rfl
    · exact ⟨1, by decide +kernel⟩
    · exact ⟨2, by decide +kernel⟩
  owns := owns_line
  countable := by decide
  squares := by decide +kernel
  threshold := by decide +kernel
  bounded := by decide +kernel

/-- At a learning rate of a fifth the two peers with a row each are on the line after one step. -/
theorem line_outcome_fifth : line.execution.Inevitable fun y => y.ending? =
    some (line.ending (.ok { theta := [2], cost := 0, iteration := 2, examples := 2 })) := by
  have high : line.config.threshold ≤
      Loop.firstCost line.config 2 (line.cluster.partitions.flatMap (·.rows)) := by
    decide +kernel
  have slow : line.config.alpha *
      TotalModel.squares (line.cluster.partitions.flatMap (·.rows)) < 2 := by
    decide +kernel
  obtain ⟨k, ⟨⟨pos, low⟩, least⟩, ends⟩ := ((line_outcome line 2 onLine_line).2 high).1 slow
  -- the first cost is five, and the second one is zero
  have second : k ≤ 2 := least ⟨by decide, by decide +kernel⟩
  have later : k ≠ 1 := by
    rintro rfl
    revert low
    decide +kernel
  obtain rfl : k = 2 := by omega
  refine ends.imp fun y _ he => he.trans (congrArg (fun last => some (line.ending (.ok last))) ?_)
  decide +kernel

end Setting

end Superstep
