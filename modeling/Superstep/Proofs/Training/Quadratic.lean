import Mathlib.Algebra.Order.BigOperators.Ring.Finset
import Mathlib.Tactic.Linarith
import Mathlib.Tactic.Ring
import Superstep.Proofs.Training.Passes
import Superstep.Proofs.Training.Records

/-!
# Least squares with rational numbers

The linear model charges half the squared error, so the costs of some rows are a quadratic function
of the parameters, and what the peers take for its gradient is its gradient: from some parameters to
others the costs change by the product of gradient and difference, and half the squares of the
products of difference and features (`Superstep.TotalModel.sum_score_addEntries`).

How far a step may go follows by the inequality of Cauchy and Schwarz. If the learning rate times
the squares of all features is at most two, a step against the gradient does not make the costs go
up (`Superstep.TotalModel.sum_score_step_le`). Then nothing goes wrong after the first iteration,
which alone has to do with how large the numbers are: nobody ever reports that the cost went up
(`Superstep.Setting.Subsides`).
-/

namespace Superstep

/-! ### Product sums -/

namespace Scalar

@[simp] theorem zero_rat : (zero : ℚ) = 0 := rfl

@[simp] theorem minusZero_rat : (minusZero : ℚ) = 0 := rfl

theorem dot_eq_sum (a b : List ℚ) : dot a b = (List.zipWith (· * ·) a b).sum :=
  List.sum_eq_foldl.symm

@[simp] theorem dot_cons (x y : ℚ) (a b : List ℚ) : dot (x :: a) (y :: b) = x * y + dot a b := by
  simp [dot_eq_sum]

theorem dot_comm (a b : List ℚ) : dot a b = dot b a := by
  rw [dot_eq_sum, dot_eq_sum, List.zipWith_comm_of_comm mul_comm]

theorem dot_map_mul (k : ℚ) (a b : List ℚ) : dot (a.map (k * ·)) b = k * dot a b := by
  induction a generalizing b with
  | nil => simp
  | cons x a ih =>
    cases b with
    | nil => simp
    | cons y b => rw [List.map_cons, dot_cons, dot_cons, ih, mul_add, mul_assoc]

/-- Product sums are linear. -/
theorem dot_addEntries {a b : List ℚ} (h : a.length = b.length) (c : List ℚ) :
    dot (Totals.addEntries a b) c = dot a c + dot b c := by
  induction a generalizing b c with
  | nil =>
    obtain rfl := List.length_eq_zero_iff.mp h.symm
    simp [Totals.addEntries]
  | cons x a ih =>
    cases b with
    | nil => cases h
    | cons y b =>
      cases c with
      | nil => simp
      | cons z c =>
        change dot ((x + y) :: Totals.addEntries a b) (z :: c) = _
        rw [dot_cons, dot_cons, dot_cons, ih (Nat.succ.inj h)]
        ring

theorem dot_replicate_zero (n : Nat) (b : List ℚ) : dot (List.replicate n zero) b = 0 := by
  induction n generalizing b with
  | zero => simp
  | succ n ih =>
    cases b with
    | nil => simp
    | cons y b => rw [List.replicate_succ, dot_cons, ih, zero_rat, zero_mul, add_zero]

/-- A product sum as a sum over positions. -/
theorem dot_eq_sum_range {a : List ℚ} {n : Nat} (h : a.length ≤ n) (b : List ℚ) :
    dot a b = ∑ i ∈ Finset.range n, a.getD i 0 * b.getD i 0 := by
  induction a generalizing b n with
  | nil => simp
  | cons x a ih =>
    obtain ⟨n, rfl⟩ := Nat.exists_eq_succ_of_ne_zero (Nat.ne_of_gt (Nat.zero_lt_of_lt h))
    rw [Finset.sum_range_succ']
    cases b with
    | nil => simp
    | cons y b =>
      rw [dot_cons, ih (Nat.le_of_succ_le_succ h), add_comm]
      simp

theorem dot_self_nonneg (a : List ℚ) : 0 ≤ dot a a := by
  rw [dot_eq_sum_range (Nat.le_refl _)]
  exact Finset.sum_nonneg fun i _ => mul_self_nonneg _

/-- **The inequality of Cauchy and Schwarz.** -/
theorem dot_sq_le (a b : List ℚ) : dot a b ^ 2 ≤ dot a a * dot b b := by
  have ha : a.length ≤ max a.length b.length := Nat.le_max_left ..
  have hb : b.length ≤ max a.length b.length := Nat.le_max_right ..
  rw [dot_eq_sum_range ha, dot_eq_sum_range ha, dot_eq_sum_range hb]
  simpa only [pow_two] using
    Finset.sum_mul_sq_le_sq_mul_sq (Finset.range (max a.length b.length)) (a.getD · 0) (b.getD · 0)

end Scalar

/-! ### The costs as a function of the parameters -/

namespace TotalModel

/-- Least squares. -/
def linear {F : Type} [Scalar F] : TotalModel F where
  cost := Linear.cost
  hypothesis := Linear.hypothesis

/-- The squares of all features. -/
def squares (rows : List (Sample ℚ)) : ℚ :=
  (rows.map fun row => Scalar.dot row.features row.features).sum

/-- The error of the prediction for a row. -/
def error (theta : List ℚ) (row : Sample ℚ) : ℚ := Scalar.dot theta row.features - row.label

variable {theta d : List ℚ} {rows : List (Sample ℚ)}

/-- The costs are half the squares of the errors. -/
theorem sum_score (theta : List ℚ) (rows : List (Sample ℚ)) :
    (linear.score theta rows).sum = (rows.map fun row => error theta row ^ 2 / 2).sum := by
  induction rows using List.reverseRecOn with
  | nil => rfl
  | append_singleton rows row ih =>
    rw [score_concat, List.map_append, List.sum_append, ← ih, List.map_singleton,
      List.sum_singleton, pow_two]
    rfl

/-- The product of the gradient and some direction. -/
theorem dot_slope (fit : ∀ row ∈ rows, row.features.length = theta.length) (d : List ℚ) :
    Scalar.dot (linear.slope theta rows) d =
      (rows.map fun row => error theta row * Scalar.dot row.features d).sum := by
  induction rows using List.reverseRecOn with
  | nil => exact Scalar.dot_replicate_zero theta.length d
  | append_singleton rows row ih =>
    have hrows : ∀ r ∈ rows, r.features.length = theta.length := fun r hr =>
      fit r (List.mem_append_left _ hr)
    have hrow := fit row (List.mem_append_right _ List.mem_cons_self)
    have length : (linear.slope theta rows).length =
        (row.features.map (error theta row * ·)).length := by
      rw [linear.length_slope theta rows hrows, List.length_map, hrow]
    rw [List.map_append, List.sum_append, ← ih hrows, List.map_singleton, List.sum_singleton,
      ← Scalar.dot_map_mul, ← Scalar.dot_addEntries length, slope_concat, Pass.addGradient_eq]
    rfl

/-- **From some parameters to others** the costs change as a quadratic function does whose gradient
is what the peers take for it. -/
theorem sum_score_addEntries (fit : ∀ row ∈ rows, row.features.length = theta.length)
    (hd : d.length = theta.length) :
    (linear.score (Totals.addEntries theta d) rows).sum =
      (linear.score theta rows).sum + Scalar.dot (linear.slope theta rows) d +
        (rows.map fun row => Scalar.dot d row.features ^ 2).sum / 2 := by
  have moved : ∀ row : Sample ℚ, error (Totals.addEntries theta d) row =
      error theta row + Scalar.dot d row.features := by
    intro row
    rw [error, error, Scalar.dot_addEntries hd.symm]
    ring
  rw [sum_score, sum_score, dot_slope fit]
  clear fit
  induction rows with
  | nil => simp
  | cons row rows ih =>
    simp only [List.map_cons, List.sum_cons]
    rw [ih, moved, Scalar.dot_comm row.features d]
    ring

/-- **A step that is not too long does not make the costs go up.** -/
theorem sum_score_step_le {alpha : ℚ} (pos : 0 ≤ alpha)
    (small : alpha * squares rows ≤ 2)
    (fit : ∀ row ∈ rows, row.features.length = theta.length) :
    (linear.score (List.zipWith (fun t g => t - alpha * g) theta (linear.slope theta rows))
      rows).sum ≤ (linear.score theta rows).sum := by
  have step : List.zipWith (fun t g => t - alpha * g) theta (linear.slope theta rows) =
      Totals.addEntries theta ((linear.slope theta rows).map (-alpha * ·)) := by
    rw [Totals.addEntries, List.zipWith_map_right]
    congr 1
    funext t g
    change t - alpha * g = t + -alpha * g
    ring
  have length : ((linear.slope theta rows).map (-alpha * ·)).length = theta.length := by
    rw [List.length_map, linear.length_slope theta rows fit]
  rw [step, sum_score_addEntries fit length, Scalar.dot_comm, Scalar.dot_map_mul]
  generalize linear.slope theta rows = g
  -- what the squares add is at most what the gradient takes away
  have squares : ∀ list : List (Sample ℚ),
      (list.map fun row => Scalar.dot (g.map (-alpha * ·)) row.features ^ 2).sum ≤
        alpha ^ 2 * Scalar.dot g g * squares list := by
    intro list
    induction list with
    | nil => simp [squares]
    | cons row list ih =>
      simp only [squares, List.map_cons, List.sum_cons, Scalar.dot_map_mul]
      simp only [squares, Scalar.dot_map_mul] at ih
      have := mul_le_mul_of_nonneg_left (Scalar.dot_sq_le g row.features) (sq_nonneg alpha)
      linarith
  have nonneg : 0 ≤ alpha * Scalar.dot g g := mul_nonneg pos (Scalar.dot_self_nonneg g)
  have := mul_le_mul_of_nonneg_left small nonneg
  have := squares rows
  linarith

end TotalModel

/-! ### What a loop makes of the costs -/

/-- Of two sums over as many rows the smaller one has the smaller mean. -/
theorem PartialCost.mean_le {a b : PartialCost ℚ} {x y : ℚ} (sum : a.sum ≤ b.sum)
    (count : a.count = b.count) (hx : a.mean? = some x) (hy : b.mean? = some y) : x ≤ y := by
  simp only [mean?, count] at hx hy
  split at hx
  · cases hx
  · next some =>
    rw [if_neg some] at hy
    obtain rfl := Option.some.inj hx
    obtain rfl := Option.some.inj hy
    have pos : (0 : ℚ) ≤ (b.count.toNat : ℚ) := Nat.cast_nonneg _
    exact div_le_div_of_nonneg_right sum pos

/-- The mean cost of some rows, if there are any and not more than a word counts. -/
theorem TotalModel.mean_score (m : TotalModel ℚ) (theta : List ℚ) {rows : List (Sample ℚ)}
    (owned : rows ≠ []) (countable : rows.length < wordLimit) :
    (m.score theta rows).mean? = some ((m.score theta rows).sum / (rows.length : ℚ)) := by
  have count : (m.score theta rows).count.toNat = rows.length := by
    rw [count_score, UInt64.toNat_ofNat']
    exact Nat.mod_eq_of_lt countable
  have counted : (m.score theta rows).count ≠ 0 := by
    intro zero
    rw [zero] at count
    exact owned (List.length_eq_zero_iff.mp count.symm)
  rw [PartialCost.mean?, if_neg counted, count]
  rfl

namespace Loop

variable {s : RunState ℚ} {j : Nat}

/-- What is judged, said of rational numbers. -/
theorem turnout_eq {loop : Loop ℚ} {mean : ℚ} (hm : (loop.total s.theta).mean? = some mean) :
    loop.turnout s =
      if s.cost < mean then
        .diverged (.diverged loop.config.alpha (s.iteration + 1) mean s.cost)
      else if mean = 0 ∨ mean < loop.config.threshold then .converged mean
      else .goOn mean := by
  have up : (!Scalar.isFinite mean || Scalar.less s.cost mean) = decide (s.cost < mean) := rfl
  have low : (Scalar.same mean Scalar.zero || Scalar.less mean loop.config.threshold) =
      decide (mean = 0 ∨ mean < loop.config.threshold) := by
    rw [Bool.decide_or]
    rfl
  simp only [turnout_of_mean hm, Descent.judge, up, low, decide_eq_true_eq]
  by_cases rises : s.cost < mean
  · rw [if_pos rises, if_pos rises]
  · rw [if_neg rises, if_neg rises]
    by_cases least : mean = 0 ∨ mean < loop.config.threshold
    · rw [if_pos least, if_pos least]
    · rw [if_neg least, if_neg least]

/-- If the cost is said to have gone up, it has. -/
theorem lt_of_diverged {loop : Loop ℚ} {failure : TrainingError ℚ}
    (h : loop.turnout s = .diverged failure) :
    ∃ mean, (loop.total s.theta).mean? = some mean ∧ s.cost < mean := by
  obtain ⟨mean, hm, -⟩ := mean_of_diverged h
  refine ⟨mean, hm, ?_⟩
  by_contra down
  rw [turnout_eq hm, if_neg down] at h
  split at h <;> cases h

variable {F : Type} [Scalar F] {config : Config F} {m : TotalModel F} {width : Nat}
  {rows : List (Sample F)}

/-- The number of parameters does not change. -/
theorem length_theta {s : RunState F} (fit : ∀ row ∈ rows, row.features.length = width)
    (hs : (ofRows config m width rows).state j = some s) : s.theta.length = width := by
  induction j generalizing s with
  | zero =>
    obtain rfl := Option.some.inj hs
    exact List.length_replicate
  | succ j ih =>
    obtain ⟨u, hu, -⟩ := Option.bind_eq_some_iff.mp hs
    obtain ⟨cost, -, stepped⟩ := goOn_of_lt hu hs (Nat.lt_succ_self j)
    obtain rfl := Option.some.inj (hs.symm.trans stepped)
    have length : (m.slope u.theta rows).length = u.theta.length :=
      m.length_slope u.theta rows fun row hr => (fit row hr).trans (ih hu).symm
    change (List.zipWith _ u.theta (m.slope u.theta rows)).length = width
    rw [List.length_zipWith, length, Nat.min_self, ih hu]

/-- **If steps are not too long, the mean cost does not go up** after the first iteration. -/
theorem mean_le_cost {config : Config ℚ} {rows : List (Sample ℚ)} {mean : ℚ}
    (pos : 0 ≤ config.alpha)
    (small : config.alpha * TotalModel.squares rows ≤ 2)
    (fit : ∀ row ∈ rows, row.features.length = width)
    (hs : (ofRows config .linear width rows).state (j + 1) = some s)
    (hm : ((ofRows config .linear width rows).total s.theta).mean? = some mean) :
    mean ≤ s.cost := by
  obtain ⟨u, hu, -⟩ := Option.bind_eq_some_iff.mp hs
  obtain ⟨cost, goesOn, stepped⟩ := goOn_of_lt hu hs (Nat.lt_succ_self j)
  obtain rfl := Option.some.inj (hs.symm.trans stepped)
  have fit' : ∀ row ∈ rows, row.features.length = u.theta.length := fun row hr =>
    (fit row hr).trans (length_theta fit hu).symm
  refine PartialCost.mean_le (TotalModel.sum_score_step_le pos small fit') ?_ hm
    (mean_of_goOn goesOn)
  exact (TotalModel.linear.count_score _ rows).trans (TotalModel.linear.count_score _ rows).symm

end Loop

/-! ### Jobs -/

namespace Setting

/-- **After the first iteration the mean cost does not go up.** -/
structure Subsides (t : Setting ℚ) : Prop where
  /-- No peer is over because it went up, -/
  left : ∀ y, t.execution.Reaches y → ∀ s ∈ y.stations, ∀ alpha iteration cost previous,
    (s.activity = .leaving (.failed (.diverged alpha iteration cost previous)) ∨
      s.activity = .gone (.failed (.diverged alpha iteration cost previous))) → iteration = 1
  /-- nor is the job. -/
  ended : ∀ y, t.execution.Reaches y → ∀ alpha iteration cost previous,
    y.ending? = some (.failed (.diverged alpha iteration cost previous)) → iteration = 1
  /-- What a peer holds later is not more than what a peer holds earlier, -/
  held : ∀ y y', t.execution.Reaches y → t.execution.Reaches y' →
    ∀ s ∈ y.stations, ∀ s' ∈ y'.stations, ∀ state sum state' sum',
      s.activity = .running (.done (.ok (.goOn (.scoring state sum)))) →
      s'.activity = .running (.done (.ok (.goOn (.scoring state' sum')))) →
      0 < state.iteration → state.iteration ≤ state'.iteration → state'.cost ≤ state.cost
  /-- and what it ends with is not more either. -/
  converged : ∀ y y', t.execution.Reaches y → t.execution.Reaches y' →
    ∀ s ∈ y.stations, ∀ state sum values,
      s.activity = .running (.done (.ok (.goOn (.scoring state sum)))) → 0 < state.iteration →
      y'.ending? = some (.values values) → ∀ value ∈ values, value.cost ≤ state.cost

/-- An accepted learning rate is positive. -/
theorem alpha_pos (t : Setting ℚ) : 0 < t.config.alpha := by
  have valid := t.valid
  by_contra down
  have low : (!Scalar.isFinite t.config.alpha ||
      Scalar.atMost t.config.alpha Scalar.zero) = true := by
    have := lt_or_eq_of_le (not_lt.mp down)
    simpa [Scalar.atMost, Scalar.less, Scalar.same, Scalar.isFinite] using this
  rw [Config.validate, if_pos low] at valid
  cases valid

/-- With exact numbers the loop of a job is that of its rows. -/
theorem loop_eq_ofRows {F : Type} [Scalar F] [Scalar.Exact F] (t : Setting F) : t.loop =
    .ofRows t.config t.model t.width (t.cluster.partitions.flatMap (·.rows)) := by
  rw [loop, Loop.ofShares_eq_ofRows, Cluster.flatMap_shares]

section Fits

variable {F : Type} [Scalar F] {t : Setting F}

/-- If the rows of all peers fit, all rows do. -/
theorem length_features (fit : ∀ peer ∈ t.cluster.names, t.Fits peer) :
    ∀ row ∈ t.cluster.partitions.flatMap (·.rows), row.features.length = t.width := by
  intro row hr
  rw [← Cluster.flatMap_shares, Cluster.shares_eq, List.flatMap_map] at hr
  obtain ⟨name, hn, hr⟩ := List.mem_flatMap.mp hr
  exact (fit name hn).2 row hr

/-- Who has passed the second barrier has found all rows to fit. -/
theorem fits_of_lt {marks : Nat → Mark} {chronicle : Chronicle (Payload F)}
    {y : Execution F (Payload F) (Stage F) (TrainingError F) (Summary F)}
    {s : Station F (Payload F) (Stage F) (TrainingError F) (Summary F)}
    (h : Execution.Conduct t.plan (fun seat => t.Between seat.name) marks y chronicle)
    (hs : s ∈ y.stations) (late : 1 < s.superstep) : ∀ peer ∈ t.cluster.names, t.Fits peer := by
  have passes : t.plan.Passes (4 * 0 + 1) := h.passes_of_lt hs late
  exact fits_of_passes passes

end Fits

section Small

variable {t : Setting ℚ} {s u : RunState ℚ} {j k : Nat}
  (model : t.model = .linear)
  (small : t.config.alpha * TotalModel.squares (t.cluster.partitions.flatMap (·.rows)) ≤ 2)

include model small

theorem mean_le_cost (fit : ∀ peer ∈ t.cluster.names, t.Fits peer)
    (hs : t.loop.state (j + 1) = some s) {mean : ℚ}
    (hm : (t.loop.total s.theta).mean? = some mean) : mean ≤ s.cost := by
  rw [loop_eq_ofRows, model] at hs hm
  exact Loop.mean_le_cost t.alpha_pos.le small (length_features fit) hs hm

/-- From the first iteration on, what a loop holds does not go up. -/
theorem cost_le_cost (fit : ∀ peer ∈ t.cluster.names, t.Fits peer)
    (hs : t.loop.state (j + 1) = some s) (hu : t.loop.state k = some u) (later : j + 1 ≤ k) :
    u.cost ≤ s.cost := by
  induction k, later using Nat.le_induction generalizing u with
  | base =>
    obtain rfl := Option.some.inj (hs.symm.trans hu)
    exact le_refl _
  | succ k later ih =>
    obtain ⟨v, hv, -⟩ := Option.bind_eq_some_iff.mp hu
    obtain ⟨cost, goesOn, stepped⟩ := Loop.goOn_of_lt hv hu (Nat.lt_succ_self k)
    obtain rfl := Option.some.inj (hu.symm.trans stepped)
    obtain ⟨i, rfl⟩ := Nat.exists_eq_add_of_le' (Nat.le_of_add_left_le later)
    exact (mean_le_cost model small fit hv (Loop.mean_of_goOn goesOn)).trans (ih hv)

/-- What a loop ends with is not more than what it held from the first iteration on. -/
theorem cost_le_of_result (fit : ∀ peer ∈ t.cluster.names, t.Fits peer)
    (hs : t.loop.state (j + 1) = some s) (hr : t.loop.result k = some (.ok u)) :
    u.cost ≤ s.cost := by
  have later := Loop.le_of_result hs hr
  obtain ⟨v, hv, ⟨-, hl⟩ | ⟨failure, -, hl⟩ | ⟨mean, least, hl⟩⟩ := Loop.result_cases hr
  · cases hl
  · cases hl
  · obtain rfl := Except.ok.inj hl
    obtain ⟨i, rfl⟩ := Nat.exists_eq_add_of_le' (Nat.le_of_add_left_le later)
    exact (mean_le_cost model small fit hv (Loop.mean_of_converged least)).trans
      (cost_le_cost model small fit hs hv later)

/-- If steps are not too long, a loop does not end because the cost went up, save at once. -/
theorem eq_zero_of_diverged (fit : ∀ peer ∈ t.cluster.names, t.Fits peer)
    (hs : t.loop.state j = some s) {failure : TrainingError ℚ}
    (diverged : t.loop.turnout s = .diverged failure) : j = 0 := by
  obtain ⟨mean, hm, rises⟩ := Loop.lt_of_diverged diverged
  rcases j with _ | j
  · rfl
  · exact absurd (mean_le_cost model small fit hs hm) (not_le.mpr rises)

section Conduct

variable {marks : Nat → Mark} {chronicle : Chronicle (Payload ℚ)}
  {y : Execution ℚ (Payload ℚ) (Stage ℚ) (TrainingError ℚ) (Summary ℚ)}
  {p : Station ℚ (Payload ℚ) (Stage ℚ) (TrainingError ℚ) (Summary ℚ)}
  (h : Execution.Conduct t.plan (fun seat => t.Between seat.name) marks y chronicle)
  (hp : p ∈ y.stations)

include h hp

/-- No peer may be over because the cost went up, save in the first iteration. -/
theorem eq_one_of_leaves {alpha cost previous : ℚ} {iteration : Nat}
    (leaves : t.plan.leaves p.seat.name p.superstep
      (.failed (.diverged alpha iteration cost previous))) : iteration = 1 := by
  obtain ⟨j, state, superstep, hj, diverged⟩ := diverged_of_leaves leaves
  obtain ⟨mean, hm, hd⟩ := Loop.mean_of_diverged diverged
  obtain ⟨-, rfl, -, -⟩ := TrainingError.diverged.inj hd
  rw [Loop.iteration_of_state hj,
    eq_zero_of_diverged model small (fits_of_lt h hp (by omega)) hj diverged]

omit model small in
/-- A peer between two rounds of a first pass is where the loop is, and after one iteration all rows
are known to fit. -/
theorem state_of_scoring {sum : PartialCost ℚ}
    (ha : p.activity = .running (.done (.ok (.goOn (.scoring s sum))))) :
    t.loop.state s.iteration = some s ∧
      (0 < s.iteration → ∀ peer ∈ t.cluster.names, t.Fits peer) := by
  obtain ⟨j, read, hj, amid, -⟩ := h.inv hp ha
  have superstep : p.superstep = 4 * j + 1 := amid.superstep
  rw [Loop.iteration_of_state hj]
  exact ⟨hj, fun later => fits_of_lt h hp (by omega)⟩

end Conduct

/-- **If steps are not too long, the mean cost does not go up.** -/
theorem subsides_of_small : t.Subsides where
  left := by
    rintro y ⟨chronicle, run⟩ p hp alpha iteration cost previous ha
    obtain ⟨marks, h⟩ := conduct run
    exact eq_one_of_leaves model small h hp (h.mayLeave hp ha).1
  ended := by
    rintro y ⟨chronicle, run⟩ alpha iteration cost previous he
    obtain ⟨marks, h⟩ := conduct run
    obtain ⟨p, hp, leaves⟩ := exists_of_failed h he
    exact eq_one_of_leaves model small h hp leaves
  held := by
    rintro y y' ⟨chronicle, run⟩ ⟨chronicle', run'⟩ p hp p' hp' state sum state' sum' ha ha' pos
      later
    obtain ⟨marks, h⟩ := conduct run
    obtain ⟨marks', h'⟩ := conduct run'
    obtain ⟨hj, fit⟩ := state_of_scoring h hp ha
    obtain ⟨hk, -⟩ := state_of_scoring h' hp' ha'
    obtain ⟨j, hi⟩ := Nat.exists_eq_add_one.mpr pos
    exact cost_le_cost model small (fit pos) (hi ▸ hj) hk (hi ▸ later)
  converged := by
    rintro y y' ⟨chronicle, run⟩ ⟨chronicle', run'⟩ p hp state sum values ha pos he value hv
    obtain ⟨marks, h⟩ := conduct run
    obtain ⟨marks', h'⟩ := conduct run'
    obtain ⟨hj, fit⟩ := state_of_scoring h hp ha
    obtain ⟨k, last, hr, ends, -⟩ := exists_of_values h' he
    obtain rfl : values = _ := Ending.values.inj ends
    obtain ⟨peer, -, rfl⟩ := List.mem_map.mp hv
    obtain ⟨j, hi⟩ := Nat.exists_eq_add_one.mpr pos
    exact cost_le_of_result model small (fit pos) (hi ▸ hj) hr

end Small

end Setting

/-! ### The costs, their gradient, and the learning rate -/

/-- **Least squares with rational numbers.** All peers find something for all rows, and what they
take for the gradient of the costs is their gradient, however the rows are shared out. If the
learning rate times the squares of all features is at most two, the mean cost does not go up after
the first iteration. -/
theorem least_squares :
    (∀ (cluster : Cluster ℚ) (theta d : List ℚ),
      (∀ p ∈ cluster.partitions, ∀ row ∈ p.rows, row.features.length = theta.length) →
      d.length = theta.length →
      (∀ me ∈ cluster.names, ∃ total slope, cluster.Finds Linear.model theta me total slope) ∧
      ∀ me ∈ cluster.names, ∀ me' ∈ cluster.names, ∀ total slope total' slope',
        cluster.Finds Linear.model theta me total slope →
        cluster.Finds Linear.model (Totals.addEntries theta d) me' total' slope' →
        total'.sum = total.sum + Scalar.dot slope d +
          1 / 2 * ((cluster.partitions.flatMap (·.rows)).map fun row =>
            Scalar.dot d row.features ^ 2).sum) ∧
    ∀ t : Setting ℚ, t.model = .linear →
      t.config.alpha * TotalModel.squares (t.cluster.partitions.flatMap (·.rows)) ≤ 2 →
      t.Subsides := by
  refine ⟨fun cluster theta d fit hd => ⟨fun me mem => ?_, ?_⟩, fun t model small =>
    Setting.subsides_of_small model small⟩
  · exact ⟨_, _, (Cluster.finds_iff_rows (m := .linear) mem fit).mpr ⟨rfl, rfl⟩⟩
  · intro me mem me' mem' total slope total' slope' finds finds'
    have length : (Totals.addEntries theta d).length = theta.length := by
      rw [Totals.addEntries, List.length_zipWith, hd, Nat.min_self]
    have fit' : ∀ p ∈ cluster.partitions, ∀ row ∈ p.rows,
        row.features.length = (Totals.addEntries theta d).length := fun p hp row hr =>
      (fit p hp row hr).trans length.symm
    have fits : ∀ row ∈ cluster.partitions.flatMap (·.rows),
        row.features.length = theta.length := by
      intro row hr
      obtain ⟨p, hp, hr⟩ := List.mem_flatMap.mp hr
      exact fit p hp row hr
    obtain ⟨rfl, rfl⟩ := (Cluster.finds_iff_rows (m := .linear) mem fit).mp finds
    obtain ⟨rfl, -⟩ := (Cluster.finds_iff_rows (m := .linear) mem' fit').mp finds'
    rw [TotalModel.sum_score_addEntries fits hd]
    ring

/-- For the two peers with a row each on one line, a learning rate of a fifth is small enough. -/
theorem least_squares_line : Setting.line.Subsides ∧
    ∀ total slope total' slope', Setting.line.cluster.Finds Linear.model [0] "a" total slope →
      Setting.line.cluster.Finds Linear.model [3] "b" total' slope' →
      total'.sum = total.sum + Scalar.dot slope [3] + 45 / 2 := by
  have squares : 1 / 2 * ((Setting.line.cluster.partitions.flatMap (·.rows)).map fun row =>
      Scalar.dot [3] row.features ^ 2).sum = 45 / 2 := by
    decide +kernel
  have moved : Totals.addEntries [0] [3] = ([3] : List ℚ) := by decide +kernel
  refine ⟨least_squares.2 Setting.line rfl (by decide +kernel), ?_⟩
  intro total slope total' slope' finds finds'
  rw [← moved] at finds'
  rw [← squares]
  exact (least_squares.1 Setting.line.cluster [0] [3] Setting.uniform_line.rows rfl).2
    "a" (by decide) "b" (by decide) total slope total' slope' finds finds'

end Superstep
