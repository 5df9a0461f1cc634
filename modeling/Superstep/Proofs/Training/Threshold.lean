import Mathlib.Algebra.BigOperators.Field
import Mathlib.LinearAlgebra.Matrix.DotProduct
import Superstep.Proofs.Training.Endless
import Superstep.Proofs.Training.Line
import Superstep.Proofs.Training.Potential

/-!
# Getting below the threshold

With rational numbers training need not come back to where it has been in order to go on for ever.
The mean cost can go down for ever without getting below the threshold, for instance because no
parameters have a mean cost below it. If some have, and the model is the linear one, training ends
(`Superstep.Setting.ends_of_attainable`), with one exception: a learning rate that fits the rows so
badly that a step merely turns some direction round (`Superstep.Loop.Reverses`). There is no such
direction if the learning rate times the squares of all features is less than two
(`Superstep.Loop.eq_zero_of_reverses`), and then a job ends exactly if its threshold can be reached
(`Superstep.Setting.ends_iff_attainable`).

The argument is one about vectors, `Superstep.LeastSquares.exists_lt`. Parameters, gradients and
rows are lists here, so what a loop computes is first told as what happens to vectors
(`Superstep.Loop.vec_of_state`, `Superstep.Loop.mean_eq_cost`).

Both kinds of numbers together are `Superstep.training_ends`.
-/

namespace Superstep

open Matrix

/-! ### Lists as vectors -/

/-- The entries of a list as those of a vector. -/
def vec (n : Nat) (list : List ℚ) : Fin n → ℚ := fun i => list.getD i 0

section Vec

variable {n : Nat} {a b : List ℚ}

theorem vec_ofFn (v : Fin n → ℚ) : vec n (List.ofFn v) = v := by
  funext i
  simp [vec]

theorem vec_replicate (n : Nat) : vec n (List.replicate n 0) = 0 := by
  funext i
  simp [vec]

/-- Lists of that length are told apart by their entries. -/
theorem eq_of_vec_eq (ha : a.length = n) (hb : b.length = n) (h : vec n a = vec n b) : a = b := by
  refine List.ext_getElem (ha.trans hb.symm) fun i hi hi' => ?_
  have entry := congrFun h ⟨i, ha ▸ hi⟩
  simpa [vec, hi, hi'] using entry

theorem dot_eq_dotProduct (h : a.length ≤ n) (b : List ℚ) :
    Scalar.dot a b = vec n a ⬝ᵥ vec n b := by
  rw [Scalar.dot_eq_sum_range h, Finset.sum_range]
  rfl

theorem vec_addEntries (ha : a.length = n) (hb : b.length = n) :
    vec n (Totals.addEntries a b) = vec n a + vec n b := by
  funext i
  have hi := i.isLt
  simp [vec, Totals.addEntries, ha, hb]

theorem vec_step (ha : a.length = n) (hb : b.length = n) (alpha : ℚ) :
    vec n (List.zipWith (fun t g => t - alpha * g) a b) = vec n a - alpha • vec n b := by
  funext i
  have hi := i.isLt
  simp [vec, ha, hb]

end Vec

namespace TotalModel

variable {n : Nat} {theta : List ℚ} {rows : List (Sample ℚ)}

/-- The features of all rows. -/
def featureMatrix (n : Nat) (rows : List (Sample ℚ)) : Matrix (Fin rows.length) (Fin n) ℚ :=
  .of fun r => vec n rows[r].features

/-- The labels of all rows. -/
def labels (rows : List (Sample ℚ)) : Fin rows.length → ℚ := fun r => rows[r].label

/-- The errors of the predictions for all rows. -/
theorem error_eq (h : theta.length ≤ n) (r : Fin rows.length) :
    error theta rows[r] = (featureMatrix n rows *ᵥ vec n theta - labels rows) r := by
  rw [error, dot_eq_dotProduct h, dotProduct_comm]
  rfl

theorem sum_score_eq_cost (h : theta.length ≤ n) : (linear.score theta rows).sum =
    LeastSquares.cost (featureMatrix n rows) (labels rows) (vec n theta) := by
  rw [sum_score, ← Fin.sum_univ_fun_getElem, LeastSquares.cost, dotProduct, Finset.sum_div]
  refine Finset.sum_congr rfl fun r _ => ?_
  rw [← error_eq h, pow_two]
  rfl

theorem vec_slope (h : theta.length = n) (fit : ∀ row ∈ rows, row.features.length = n) :
    vec n (linear.slope theta rows) =
      LeastSquares.gradient (featureMatrix n rows) (labels rows) (vec n theta) := by
  have fit' : ∀ row ∈ rows, row.features.length = theta.length := fun row hr =>
    (fit row hr).trans h.symm
  have length := (linear.length_slope theta rows fit').trans h
  refine dotProduct_eq _ _ fun d => ?_
  rw [LeastSquares.dotProduct_gradient, ← vec_ofFn d, ← dot_eq_dotProduct length.le,
    dot_slope fit', ← Fin.sum_univ_fun_getElem, dotProduct]
  refine Finset.sum_congr rfl fun r _ => ?_
  rw [← error_eq h.le]
  congr 1
  exact dot_eq_dotProduct (fit _ (List.getElem_mem _)).le _

end TotalModel

/-! ### Loops -/

namespace Loop

/-- **A direction that a step merely turns round**: who starts further along it ends as much less
far along it. -/
def Reverses (loop : Loop ℚ) (d : List ℚ) : Prop :=
  ∀ theta cost, theta.length = d.length →
    Totals.addEntries (loop.stepped (.start (Totals.addEntries theta d)) cost).theta d =
      (loop.stepped (.start theta) cost).theta

variable {config : Config ℚ} {n : Nat} {rows : List (Sample ℚ)}

section Rows

variable (fit : ∀ row ∈ rows, row.features.length = n)

include fit

variable (config) in
/-- A step as one of a vector. -/
theorem vec_stepped {s : RunState ℚ} (hs : s.theta.length = n) (cost : ℚ) :
    ((ofRows config .linear n rows).stepped s cost).theta.length = n ∧
      vec n ((ofRows config .linear n rows).stepped s cost).theta =
        LeastSquares.step (TotalModel.featureMatrix n rows) (TotalModel.labels rows) config.alpha
          (vec n s.theta) := by
  have length : (TotalModel.linear.slope s.theta rows).length = n :=
    (TotalModel.linear.length_slope s.theta rows fun row hr => (fit row hr).trans hs.symm).trans hs
  constructor
  · change (List.zipWith _ s.theta (TotalModel.linear.slope s.theta rows)).length = n
    rw [List.length_zipWith, length, hs, Nat.min_self]
  · refine (vec_step hs length config.alpha).trans ?_
    rw [TotalModel.vec_slope hs fit]
    rfl

/-- The parameters of a loop as vectors. -/
theorem vec_of_state {j : Nat} {s : RunState ℚ}
    (hs : (ofRows config .linear n rows).state j = some s) : vec n s.theta =
      (LeastSquares.step (TotalModel.featureMatrix n rows) (TotalModel.labels rows)
        config.alpha)^[j] (vec n (List.replicate n config.initialTheta)) := by
  induction j generalizing s with
  | zero =>
    obtain rfl := Option.some.inj hs
    rfl
  | succ j ih =>
    obtain ⟨u, hu, -⟩ := Option.bind_eq_some_iff.mp hs
    obtain ⟨cost, -, stepped⟩ := goOn_of_lt hu hs (Nat.lt_succ_self j)
    obtain rfl := Option.some.inj (hs.symm.trans stepped)
    rw [(vec_stepped config fit (length_theta fit hu) cost).2, ih hu, Function.iterate_succ_apply']

variable (config) in
/-- Where a step leads that starts further along some direction. -/
theorem vec_stepped_add {theta d : List ℚ} (ht : theta.length = n) (hd : d.length = n) (cost : ℚ) :
    (Totals.addEntries ((ofRows config .linear n rows).stepped
        (.start (Totals.addEntries theta d)) cost).theta d).length = n ∧
      vec n (Totals.addEntries ((ofRows config .linear n rows).stepped
          (.start (Totals.addEntries theta d)) cost).theta d) =
        vec n ((ofRows config .linear n rows).stepped (.start theta) cost).theta +
          ((2 : ℚ) • vec n d -
            LeastSquares.bend (TotalModel.featureMatrix n rows) config.alpha (vec n d)) := by
  have moved : (RunState.start (Totals.addEntries theta d)).theta.length = n := by
    change (List.zipWith _ theta d).length = n
    rw [List.length_zipWith, ht, hd, Nat.min_self]
  obtain ⟨length, far⟩ := vec_stepped config fit moved cost
  constructor
  · rw [Totals.addEntries, List.length_zipWith, length, hd, Nat.min_self]
  · rw [vec_addEntries length hd, far, (vec_stepped config fit (s := .start theta) ht cost).2]
    change LeastSquares.step _ _ _ (vec n (Totals.addEntries theta d)) + _ =
      LeastSquares.step _ _ _ (vec n theta) + _
    rw [vec_addEntries ht hd, LeastSquares.step_add, two_smul]
    abel

/-- **Which directions are turned round.** -/
theorem reverses_iff {d : List ℚ} (hd : d.length = n) : (ofRows config .linear n rows).Reverses d ↔
    LeastSquares.bend (TotalModel.featureMatrix n rows) config.alpha (vec n d) =
      (2 : ℚ) • vec n d := by
  constructor
  · intro reverses
    have start : (List.replicate n (0 : ℚ)).length = n := List.length_replicate
    obtain ⟨-, same⟩ := vec_stepped_add config fit start hd 0
    rw [reverses _ _ (start.trans hd.symm), left_eq_add, sub_eq_zero] at same
    exact same.symm
  · intro turned theta cost ht
    obtain ⟨length, same⟩ := vec_stepped_add config fit (ht.trans hd) hd cost
    rw [turned, sub_self, add_zero] at same
    exact eq_of_vec_eq length (vec_stepped config fit (s := .start theta) (ht.trans hd) cost).1 same

/-- **If the learning rate is small enough, no direction is turned round.** -/
theorem eq_zero_of_reverses (pos : 0 ≤ config.alpha)
    (small : config.alpha * TotalModel.squares rows < 2) {d : List ℚ} (hd : d.length = n)
    (reverses : (ofRows config .linear n rows).Reverses d) : ∀ x ∈ d, x = 0 := by
  have squares : ∑ r, ∑ i, TotalModel.featureMatrix n rows r i ^ 2 = TotalModel.squares rows := by
    rw [TotalModel.squares, ← Fin.sum_univ_fun_getElem]
    refine Finset.sum_congr rfl fun r _ => ?_
    rw [dot_eq_dotProduct (fit _ (List.getElem_mem _)).le]
    exact Finset.sum_congr rfl fun i _ => pow_two _
  have turned := congrArg (vec n d ⬝ᵥ ·) ((reverses_iff fit hd).mp reverses)
  rw [LeastSquares.dotProduct_bend, dotProduct_smul, smul_eq_mul] at turned
  have stretched := mul_le_mul_of_nonneg_left
    (mulVec_self_le (TotalModel.featureMatrix n rows) (vec n d)) pos
  rw [squares, turned, ← mul_assoc] at stretched
  have zero : vec n d ⬝ᵥ vec n d = 0 := by
    by_contra other
    have positive := lt_of_le_of_ne (dot_self_nonneg (vec n d)) (Ne.symm other)
    exact absurd stretched (not_le.mpr (mul_lt_mul_of_pos_right small positive))
  have entries := eq_of_vec_eq hd List.length_replicate
    ((dotProduct_self_eq_zero.mp zero).trans (vec_replicate n).symm)
  exact fun x hx => List.eq_of_mem_replicate (entries ▸ hx)

variable (owned : rows ≠ []) (countable : rows.length < wordLimit)

include owned countable

omit fit in
variable (config) in
/-- The mean cost as one of vectors. -/
theorem mean_eq_cost {theta : List ℚ} (h : theta.length = n) :
    ((ofRows config .linear n rows).total theta).mean? = some
      (LeastSquares.cost (TotalModel.featureMatrix n rows) (TotalModel.labels rows) (vec n theta) /
        rows.length) := by
  rw [← TotalModel.sum_score_eq_cost h.le]
  exact TotalModel.linear.mean_score theta owned countable

/-- **A loop is not endless** if some parameters have a mean cost below the threshold, unless a step
merely turns some direction round. -/
theorem not_endless (pos : 0 < config.alpha)
    (turns : ∀ d : List ℚ, d.length = n → (ofRows config .linear n rows).Reverses d →
      ∀ x ∈ d, x = 0)
    {theta : List ℚ} (length : theta.length = n) {mean : ℚ}
    (hm : ((ofRows config .linear n rows).total theta).mean? = some mean)
    (low : mean < config.threshold) : ¬(ofRows config .linear n rows).Endless := by
  intro endless
  have count : (0 : ℚ) < rows.length := Nat.cast_pos.mpr (List.length_pos_iff.mpr owned)
  have turns' (d : Fin n → ℚ) (turned : LeastSquares.bend (TotalModel.featureMatrix n rows)
      config.alpha d = (2 : ℚ) • d) : d = 0 := by
    have zero := turns (List.ofFn d) List.length_ofFn
      ((reverses_iff fit List.length_ofFn).mpr (by rwa [vec_ofFn]))
    funext i
    exact zero (d i) (List.mem_ofFn.mpr ⟨i, rfl⟩)
  -- the mean costs of an endless loop are not below the threshold, and do not go up
  have held (j : Nat) : ∃ s, (ofRows config .linear n rows).state j = some s ∧
      (ofRows config .linear n rows).turnout s = .goOn (LeastSquares.cost
        (TotalModel.featureMatrix n rows) (TotalModel.labels rows) ((LeastSquares.step
          (TotalModel.featureMatrix n rows) (TotalModel.labels rows) config.alpha)^[j]
            (vec n (List.replicate n config.initialTheta))) / rows.length) := by
    obtain ⟨s, hs⟩ := endless j
    obtain ⟨cost, goesOn, -⟩ := endless.goOn hs
    have mean := mean_eq_cost config owned countable (length_theta fit hs)
    rw [vec_of_state fit hs, mean_of_goOn goesOn] at mean
    exact ⟨s, hs, goesOn.trans (congrArg Turnout.goOn (Option.some.inj mean))⟩
  obtain rfl : mean = _ :=
    Option.some.inj (hm.symm.trans (mean_eq_cost config owned countable length))
  obtain ⟨k, below | rises⟩ := LeastSquares.exists_lt pos turns' ((div_lt_iff₀ count).mp low)
    (vec n (List.replicate n config.initialTheta))
  · obtain ⟨s, hs, goesOn⟩ := held k
    obtain ⟨-, -, -, -, high⟩ := turnout_eq_goOn_iff.mp goesOn
    exact of_decide_eq_false high ((div_lt_iff₀ count).mpr below)
  · obtain ⟨s, hs, goesOn⟩ := held k
    obtain ⟨s', hs', goesOn'⟩ := held (k + 1)
    rw [state_succ hs, next, goesOn] at hs'
    obtain rfl := Option.some.inj hs'
    obtain ⟨-, -, down, -⟩ := turnout_eq_goOn_iff.mp goesOn'
    exact of_decide_eq_false down (div_lt_div_of_pos_right rises count)

end Rows

end Loop

/-! ### Jobs -/

namespace Setting

/-- **A threshold that can be reached**: some parameters have a mean cost below it. -/
def Attainable {F : Type} [Scalar F] (t : Setting F) : Prop :=
  ∃ theta mean, theta.length = t.width ∧ (t.loop.total theta).mean? = some mean ∧
    Scalar.less mean t.config.threshold = true

section Exact

variable {t : Setting ℚ} (h : t.InOrder) (model : t.model = .linear)

include h model

/-- **A job ends if its threshold can be reached**, unless a step merely turns some direction
round. -/
theorem ends_of_attainable (attainable : t.Attainable)
    (turns : ∀ d, d.length = t.width → t.loop.Reverses d → ∀ x ∈ d, x = 0) : t.Ends := by
  obtain ⟨theta, mean, length, hm, low⟩ := attainable
  rw [ends_iff h, goesOn_iff h]
  rw [loop_eq_ofRows, model] at hm turns ⊢
  exact Loop.not_endless (length_features h.fits) (rows_ne_nil h.owns) h.countable t.alpha_pos turns
    length hm (of_decide_eq_true low)

/-- **If the learning rate is small, a job ends exactly if its threshold can be reached.** -/
theorem ends_iff_attainable
    (small : t.config.alpha * TotalModel.squares (t.cluster.partitions.flatMap (·.rows)) < 2)
    (positive : 0 < t.config.threshold)
    (bounded : ∀ mean, (t.loop.total t.loop.start).mean? = some mean → mean ≤ Scalar.largest) :
    t.Ends ↔ t.Attainable := by
  constructor
  · intro ends
    rw [ends_iff h, goesOn_iff h, Loop.endless_iff] at ends
    obtain ⟨j, ended⟩ := not_forall.mp ends
    obtain ⟨result, hr⟩ := Option.ne_none_iff_exists'.mp ended
    obtain ⟨s, hs, ⟨empty, -⟩ | ⟨failure, diverged, -⟩ | ⟨cost, converged, -⟩⟩ :=
      Loop.result_cases hr
    · exact absurd empty (h.turnout_ne_empty s)
    · -- the first mean cost is not too great, and the others do not go up
      obtain rfl := eq_zero_of_diverged model small.le h.fits hs diverged
      obtain ⟨mean, hm, rises⟩ := Loop.lt_of_diverged diverged
      obtain rfl := Option.some.inj hs
      exact absurd (bounded mean hm) (not_le.mpr rises)
    · have hm := Loop.mean_of_converged converged
      refine ⟨s.theta, cost, ?_, hm, decide_eq_true ?_⟩
      · rw [loop_eq_ofRows] at hs
        exact Loop.length_theta (length_features h.fits) hs
      · rw [Loop.turnout_eq hm] at converged
        split at converged
        · cases converged
        · split at converged
          · next low => exact low.elim (fun zero => zero ▸ positive) id
          · cases converged
  · intro attainable
    refine ends_of_attainable h model attainable fun d hd reverses => ?_
    rw [loop_eq_ofRows, model] at reverses
    exact Loop.eq_zero_of_reverses (length_features h.fits) t.alpha_pos.le small hd reverses

end Exact

/-- A single peer, and rows that differ in their labels only. Training starts from the best
parameter there is, whose mean cost is above the threshold. -/
def stuck : Setting Float where
  cluster :=
    { names := ["a"]
      partitions := [.ofRows 1 [⟨[1], 0⟩, ⟨[1], 2⟩]]
      names_ne_nil := by decide
      length_partitions := rfl
      nodup_names := by decide }
  config :=
    { initialTheta := 1, alpha := 0.1, threshold := 0.1, model := .linear, leader := .smallest }
  model := .linear
  leader := "a"
  unread := Cluster.unread_of_ofRows rfl
  valid := by
    have alpha : ¬((!Scalar.isFinite (0.1 : Float) ||
        Scalar.atMost (0.1 : Float) Scalar.zero) = true) := by
      decide +kernel
    have threshold : ¬((!Scalar.isFinite (0.1 : Float) ||
        Scalar.less (0.1 : Float) Scalar.zero) = true) := by
      decide +kernel
    rw [Config.validate, if_neg alpha, if_neg threshold]
  elected := by decide

theorem inOrder_stuck : stuck.InOrder where
  owns := by decide +kernel
  pos := by decide +kernel
  widths := by decide +kernel
  readable := by decide +kernel
  countable := by decide +kernel

/-- An iteration changes neither the parameter nor the mean cost. -/
theorem circles_stuck : stuck.loop.Circles := by
  refine ⟨1, 2, { theta := [1], cost := 0.5, iteration := 1, examples := 2 },
    { theta := [1], cost := 0.5, iteration := 2, examples := 2 }, by decide, ?_, ?_, rfl, rfl⟩ <;>
    decide +kernel

theorem inOrder_line : line.InOrder :=
  inOrder_of_split (d := lineDataset) ⟨Nat.one_pos, by decide, by simp [lineDataset]⟩ (by decide)
    rfl (by decide)

end Setting

/-! ### When training ends -/

/-- **Training ends, or it goes on for ever.** In double precision it goes on exactly if it comes
back to parameters and a cost that it has had before, as it does when a step changes neither, and in
the end the mean cost does not change any more. With rational numbers and the linear model it ends
if its threshold can be reached, unless a step merely turns some direction round; and if the
learning rate is small, only then. -/
theorem training_ends :
    (∀ (F : Type) [Scalar F] (t : Setting F), t.InOrder → (t.Ends ↔ ¬t.GoesOn)) ∧
    (∀ t : Setting Float, t.InOrder → (t.GoesOn ↔ t.loop.Circles) ∧
      (t.GoesOn → ∃ i, ∀ j k s s', i ≤ j → i ≤ k → t.loop.state j = some s →
        t.loop.state k = some s' → ¬s.cost < s'.cost)) ∧
    ∀ t : Setting ℚ, t.InOrder → t.model = .linear →
      (t.Attainable → (∀ d, d.length = t.width → t.loop.Reverses d → ∀ x ∈ d, x = 0) → t.Ends) ∧
      (t.config.alpha * TotalModel.squares (t.cluster.partitions.flatMap (·.rows)) < 2 →
        0 < t.config.threshold →
        (∀ mean, (t.loop.total t.loop.start).mean? = some mean → mean ≤ Scalar.largest) →
          (t.Ends ↔ t.Attainable)) := by
  refine ⟨fun F _ t h => Setting.ends_iff h, fun t h => ⟨?_, fun goesOn => ?_⟩, fun t h model =>
    ⟨Setting.ends_of_attainable h model, Setting.ends_iff_attainable h model⟩⟩
  · rw [Setting.goesOn_iff h]
    exact ⟨fun endless => endless.circles, fun circles => circles.endless⟩
  · exact ((Setting.goesOn_iff h).mp goesOn).exists_level

/-- **A job in order need not end.** An iteration of this one changes neither the parameter nor the
mean cost, and so it goes on for ever. -/
theorem Setting.stuck_goesOn :
    stuck.InOrder ∧ stuck.model = .linear ∧ stuck.GoesOn ∧ ¬stuck.Ends := by
  have goesOn := (goesOn_iff inOrder_stuck).mpr circles_stuck.endless
  exact ⟨inOrder_stuck, rfl, goesOn, fun ends => (ends_iff inOrder_stuck).mp ends goesOn⟩

/-- The single peer gets nowhere. The two peers with a row each on one line get below the threshold,
whichever turns they take. -/
theorem training_ends_line : Setting.stuck.GoesOn ∧ Setting.line.Ends ∧ ¬Setting.line.GoesOn ∧
    Setting.line.Attainable := by
  obtain ⟨either, double, exact⟩ := training_ends
  obtain ⟨reach, only⟩ := exact Setting.line Setting.inOrder_line rfl
  have loop : Setting.line.loop = .ofRows Setting.line.config Setting.line.model 1
      [⟨[1], 2⟩, ⟨[2], 4⟩] := Loop.ofShares_eq_ofRows ..
  have small : Setting.line.config.alpha *
      TotalModel.squares (Setting.line.cluster.partitions.flatMap (·.rows)) < 2 := by
    decide +kernel
  have attainable : Setting.line.Attainable :=
    ⟨[2], 0, by decide, by rw [loop]; decide +kernel, by decide +kernel⟩
  have ends := reach attainable fun d hd reverses =>
    Loop.eq_zero_of_reverses (by decide) (by decide +kernel) small hd (loop ▸ reverses)
  have first : (Setting.line.loop.total Setting.line.loop.start).mean? = some 5 := by
    rw [loop]
    decide +kernel
  have bounded : ∀ mean, (Setting.line.loop.total Setting.line.loop.start).mean? = some mean →
      mean ≤ Scalar.largest := by
    intro mean hm
    obtain rfl := Option.some.inj (first.symm.trans hm)
    decide +kernel
  exact ⟨(double _ Setting.inOrder_stuck).1.mpr Setting.circles_stuck, ends,
    (either ℚ Setting.line Setting.inOrder_line).mp ends,
    (only small (by decide +kernel) bounded).mp ends⟩

end Superstep
