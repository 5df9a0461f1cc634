import Mathlib.Algebra.GroupWithZero.Nat
import Mathlib.Data.List.Induction
import Superstep.Cluster.Basic
import Superstep.Training.Trainer

/-!
# Training without peers

What a training job is to compute can be said without peers, messages and barriers: start from some
parameters; add up the costs of all rows; stop if their mean is small enough, fail if it went up or
is no finite number; else add up the gradients of all rows, take a step, and begin again. This is a
`Superstep.Loop`.

The order of the additions matters. Rows come in *shares*, and a share is added up by itself, row
after row; then the sums of the shares are added up in the order of their names
(`Superstep.Loop.ofShares`). Nothing is asked of the numbers or of the model: the operations are
those of the `Superstep.Scalar`, in the order given here, and a model is any two functions
(`Superstep.TotalModel`).

A loop is in its `j`-th state when `j` iterations are over. It has such a state as long as it has
not ended before (`Superstep.Loop.state`), and it ends with what `Superstep.Loop.result` says. At
most one of the two happens after `j` iterations, and a loop that ends does so once
(`Superstep.Loop.result_unique`).
-/

namespace Superstep

variable {F : Type}

/-! ### Models that give up on nothing -/

/-- Any two functions make a model. -/
structure TotalModel (F : Type) where
  cost : (features : List F) → (label : F) → (theta : List F) → F
  hypothesis : (theta : List F) → (features : List F) → F

namespace TotalModel

/-- The functions as a model. -/
def model (m : TotalModel F) : Model F where
  cost features label theta := some (m.cost features label theta)
  hypothesis theta features := some (m.hypothesis theta features)

/-- A model that gives up on nothing is made of two functions. -/
theorem exists_of_total {model : Model F} (h : model.Total) : ∃ m : TotalModel F, m.model = model :=
  ⟨{ cost := fun features label theta => (model.cost features label theta).get (h.1 _ _ _)
     hypothesis := fun theta features => (model.hypothesis theta features).get (h.2 _ _) },
    by simp [TotalModel.model]⟩

variable [Scalar F]

/-- The costs of some rows, one after the other. -/
def score (m : TotalModel F) (theta : List F) (rows : List (Sample F)) : PartialCost F :=
  rows.foldl (fun sum row => sum.add (m.cost row.features row.label theta)) .zero

/-- The gradients of some rows, one after the other. -/
def slope (m : TotalModel F) (theta : List F) (rows : List (Sample F)) : List F :=
  rows.foldl (fun sum row =>
    Pass.addGradient (m.hypothesis theta row.features - row.label) row.features sum)
    (Pass.flat theta)

theorem score_concat (m : TotalModel F) (theta : List F) (rows : List (Sample F))
    (row : Sample F) : m.score theta (rows ++ [row]) =
      (m.score theta rows).add (m.cost row.features row.label theta) := by
  simp [score]

theorem slope_concat (m : TotalModel F) (theta : List F) (rows : List (Sample F))
    (row : Sample F) : m.slope theta (rows ++ [row]) =
      Pass.addGradient (m.hypothesis theta row.features - row.label) row.features
        (m.slope theta rows) := by
  simp [slope]

/-- Every row counts once. -/
theorem count_score (m : TotalModel F) (theta : List F) (rows : List (Sample F)) :
    (m.score theta rows).count = UInt64.ofNat rows.length := by
  induction rows using List.reverseRecOn with
  | nil => rfl
  | append_singleton rows row ih =>
    rw [score_concat, PartialCost.add, ih, List.length_append]
    simp

/-- A gradient has as many entries as there are parameters, if the rows have as many features. -/
theorem length_slope (m : TotalModel F) (theta : List F) (rows : List (Sample F))
    (fit : ∀ row ∈ rows, row.features.length = theta.length) :
    (m.slope theta rows).length = theta.length := by
  induction rows using List.reverseRecOn with
  | nil => exact List.length_replicate
  | append_singleton rows row ih =>
    have hrows := ih fun r hr => fit r (List.mem_append_left _ hr)
    have hrow := fit row (List.mem_append_right _ List.mem_cons_self)
    rw [slope_concat, Pass.addGradient, List.length_zipWith, hrows, hrow, Nat.min_self]

end TotalModel

/-! ### The loop -/

/-- **Training without peers.** -/
structure Loop (F : Type) where
  config : Config F
  /-- The parameters to start from. -/
  start : List F
  /-- The costs of all rows, by the parameters. -/
  total : (theta : List F) → PartialCost F
  /-- The gradients of all rows, by the parameters. -/
  gradient : (theta : List F) → List F

/-- What the costs of all rows mean for a loop. -/
inductive Turnout (F : Type)
  /-- There are no rows. -/
  | empty
  /-- The mean cost went up, or is no finite number. -/
  | diverged (failure : TrainingError F)
  /-- The mean cost is small enough. -/
  | converged (cost : F)
  /-- There is still something to gain. -/
  | goOn (cost : F)

namespace Loop

variable [Scalar F]

/-- What the costs by the parameters of a state mean. -/
def turnout (loop : Loop F) (s : RunState F) : Turnout F :=
  match (loop.total s.theta).mean? with
  | none => .empty
  | some mean =>
    match Descent.judge loop.config s mean with
    | .error failure => .diverged failure
    | .ok (.converged cost) => .converged cost
    | .ok (.goOn cost) => .goOn cost

theorem turnout_of_mean {loop : Loop F} {s : RunState F} {mean : F}
    (h : (loop.total s.theta).mean? = some mean) :
    loop.turnout s = match Descent.judge loop.config s mean with
      | .error failure => .diverged failure
      | .ok (.converged cost) => .converged cost
      | .ok (.goOn cost) => .goOn cost := by
  simp only [turnout, h]

/-- **What is judged is the mean cost.** -/
theorem turnout_cases (loop : Loop F) (s : RunState F) :
    ((loop.total s.theta).mean? = none ∧ loop.turnout s = .empty) ∨
      ∃ mean, (loop.total s.theta).mean? = some mean ∧
        (loop.turnout s =
            .diverged (.diverged loop.config.alpha (s.iteration + 1) mean s.cost) ∨
          loop.turnout s = .converged mean ∨ loop.turnout s = .goOn mean) := by
  cases hm : (loop.total s.theta).mean? with
  | none => exact .inl ⟨rfl, by simp only [turnout, hm]⟩
  | some mean =>
    have judged : Descent.judge loop.config s mean =
          .error (.diverged loop.config.alpha (s.iteration + 1) mean s.cost) ∨
        Descent.judge loop.config s mean = .ok (.converged mean) ∨
        Descent.judge loop.config s mean = .ok (.goOn mean) := by
      unfold Descent.judge
      split
      · exact .inl rfl
      · split
        · exact .inr (.inl rfl)
        · exact .inr (.inr rfl)
    refine .inr ⟨mean, rfl, ?_⟩
    rw [turnout_of_mean hm]
    rcases judged with hj | hj | hj
    · exact .inl (by rw [hj])
    · exact .inr (.inl (by rw [hj]))
    · exact .inr (.inr (by rw [hj]))

section Turnouts

variable {loop : Loop F} {s : RunState F} {cost : F}

theorem mean_of_goOn (h : loop.turnout s = .goOn cost) :
    (loop.total s.theta).mean? = some cost := by
  rcases loop.turnout_cases s with ⟨-, h'⟩ | ⟨mean, hm, h' | h' | h'⟩ <;> rw [h] at h' <;> cases h'
  exact hm

theorem mean_of_converged (h : loop.turnout s = .converged cost) :
    (loop.total s.theta).mean? = some cost := by
  rcases loop.turnout_cases s with ⟨-, h'⟩ | ⟨mean, hm, h' | h' | h'⟩ <;> rw [h] at h' <;> cases h'
  exact hm

theorem mean_of_diverged {failure : TrainingError F} (h : loop.turnout s = .diverged failure) :
    ∃ mean, (loop.total s.theta).mean? = some mean ∧
      failure = .diverged loop.config.alpha (s.iteration + 1) mean s.cost := by
  rcases loop.turnout_cases s with ⟨-, h'⟩ | ⟨mean, hm, h' | h' | h'⟩ <;> rw [h] at h' <;> cases h'
  exact ⟨mean, hm, rfl⟩

theorem mean_of_empty (h : loop.turnout s = .empty) : (loop.total s.theta).mean? = none := by
  rcases loop.turnout_cases s with ⟨hm, -⟩ | ⟨mean, -, h' | h' | h'⟩
  · exact hm
  all_goals
    rw [h] at h'
    cases h'

end Turnouts

/-- The state after a step, whose mean cost is this. -/
def stepped (loop : Loop F) (s : RunState F) (cost : F) : RunState F where
  theta := List.zipWith (fun t g => t - loop.config.alpha * g) s.theta (loop.gradient s.theta)
  cost
  iteration := s.iteration + 1
  examples := (loop.total s.theta).count

/-- The state after the next iteration, if there is one. -/
def next (loop : Loop F) (s : RunState F) : Option (RunState F) :=
  match loop.turnout s with
  | .goOn cost => some (loop.stepped s cost)
  | _ => none

/-- **The state after so many iterations**, if the loop gets that far. -/
def state (loop : Loop F) : Nat → Option (RunState F)
  | 0 => some (.start loop.start)
  | j + 1 => (loop.state j).bind loop.next

/-- What a loop ends with instead of going on. A mean cost that is small enough ends it with the
parameters it is the cost of. -/
def outcome (loop : Loop F) (s : RunState F) : Option (Except (TrainingError F) (RunState F)) :=
  match loop.turnout s with
  | .empty => some (.error .emptyDataset)
  | .diverged failure => some (.error failure)
  | .converged cost =>
    some (.ok
      { theta := s.theta, cost, iteration := s.iteration + 1,
        examples := (loop.total s.theta).count })
  | .goOn _ => none

/-- **What the loop ends with after so many iterations**, if it ends then. -/
def result (loop : Loop F) (j : Nat) : Option (Except (TrainingError F) (RunState F)) :=
  (loop.state j).bind loop.outcome

variable {loop : Loop F} {s s' : RunState F} {j k : Nat}

theorem state_succ (hs : loop.state j = some s) : loop.state (j + 1) = loop.next s := by
  rw [state, hs, Option.bind_some]

/-- States count their iterations. -/
theorem iteration_of_state (hs : loop.state j = some s) : s.iteration = j := by
  induction j generalizing s with
  | zero =>
    obtain rfl := Option.some.inj hs
    rfl
  | succ j ih =>
    obtain ⟨u, hu, hs⟩ := Option.bind_eq_some_iff.mp hs
    unfold next at hs
    split at hs
    · obtain rfl := Option.some.inj hs
      exact congrArg (· + 1) (ih hu)
    · cases hs

/-- A loop that gets far has got less far before. -/
theorem exists_state_of_le (hs : loop.state k = some s) (hj : j ≤ k) :
    ∃ u, loop.state j = some u := by
  induction k generalizing s with
  | zero =>
    obtain rfl : j = 0 := Nat.le_zero.mp hj
    exact ⟨s, hs⟩
  | succ k ih =>
    rcases Nat.lt_or_eq_of_le hj with hlt | rfl
    · obtain ⟨u, hu, -⟩ := Option.bind_eq_some_iff.mp hs
      exact ih hu (Nat.le_of_lt_succ hlt)
    · exact ⟨s, hs⟩

/-- Before the end there was something to gain. -/
theorem goOn_of_lt (hs : loop.state j = some s) (hk : loop.state k = some s') (hj : j < k) :
    ∃ cost, loop.turnout s = .goOn cost ∧ loop.state (j + 1) = some (loop.stepped s cost) := by
  obtain ⟨u, hu⟩ := exists_state_of_le hk (Nat.succ_le_of_lt hj)
  have := hu
  rw [state_succ hs, next] at this
  split at this
  · next cost hc =>
    refine ⟨cost, hc, ?_⟩
    rw [state_succ hs, next, hc]
  · cases this

/-- **How a loop ends.** -/
theorem result_cases {result : Except (TrainingError F) (RunState F)}
    (h : loop.result j = some result) : ∃ s, loop.state j = some s ∧
      ((loop.turnout s = .empty ∧ result = .error .emptyDataset) ∨
        (∃ failure, loop.turnout s = .diverged failure ∧ result = .error failure) ∨
        ∃ cost, loop.turnout s = .converged cost ∧ result = .ok
          { theta := s.theta, cost, iteration := s.iteration + 1,
            examples := (loop.total s.theta).count }) := by
  obtain ⟨s, hs, h⟩ := Option.bind_eq_some_iff.mp h
  refine ⟨s, hs, ?_⟩
  unfold outcome at h
  split at h
  · next empty => exact .inl ⟨empty, (Option.some.inj h).symm⟩
  · next failure diverged => exact .inr (.inl ⟨failure, diverged, (Option.some.inj h).symm⟩)
  · next cost converged => exact .inr (.inr ⟨cost, converged, (Option.some.inj h).symm⟩)
  · cases h

/-- **A loop ends at most once**, and does not go on afterwards. -/
theorem result_unique {result result' : Except (TrainingError F) (RunState F)}
    (h : loop.result j = some result) (h' : loop.result k = some result') : j = k := by
  have first : ∀ {i l r r'}, loop.result i = some r → loop.result l = some r' → ¬i < l := by
    intro i l r r' hi hl hlt
    obtain ⟨s, hs, hr⟩ := Option.bind_eq_some_iff.mp hi
    obtain ⟨s', hs', -⟩ := Option.bind_eq_some_iff.mp hl
    obtain ⟨cost, hc, -⟩ := goOn_of_lt hs hs' hlt
    simp [outcome, hc] at hr
  exact Nat.le_antisymm (Nat.le_of_not_lt (first h' h)) (Nat.le_of_not_lt (first h h'))

/-- A loop that ends does not get any further. -/
theorem le_of_result {result : Except (TrainingError F) (RunState F)} (hs : loop.state j = some s)
    (hr : loop.result k = some result) : j ≤ k := by
  by_contra further
  obtain ⟨u, hu, ended⟩ := Option.bind_eq_some_iff.mp hr
  obtain ⟨cost, goesOn, -⟩ := goOn_of_lt hu hs (Nat.lt_of_not_le further)
  rw [outcome, goesOn] at ended
  cases ended

/-! ### The loop of some shares -/

/-- **Training on shares**: each is added up by itself, and their sums in the order of the names. -/
def ofShares (config : Config F) (m : TotalModel F) (width : Nat)
    (shares : List (PeerName × List (Sample F))) : Loop F where
  config
  start := List.replicate width config.initialTheta
  total theta := (byName (·.1) shares).foldl
    (fun total share => total.merge (m.score theta share.2)) .zero
  gradient theta := (byName (·.1) shares).foldl
    (fun total share => Totals.addEntries total (m.slope theta share.2)) (Pass.flat theta)

/-- **All rows are counted**, in a machine word. -/
theorem count_ofShares (config : Config F) (m : TotalModel F) (width : Nat)
    (shares : List (PeerName × List (Sample F))) (theta : List F) :
    ((ofShares config m width shares).total theta).count =
      UInt64.ofNat (shares.map fun share => share.2.length).sum := by
  have fold : ∀ (list : List (PeerName × List (Sample F))) (total : PartialCost F),
      (list.foldl (fun total share => total.merge (m.score theta share.2)) total).count =
        total.count + UInt64.ofNat (list.map fun share => share.2.length).sum := by
    intro list
    induction list with
    | nil => simp
    | cons share rest ih =>
      intro total
      rw [List.foldl_cons, ih, PartialCost.merge, m.count_score, List.map_cons, List.sum_cons,
        UInt64.ofNat_add, UInt64.add_assoc]
  have perm := (byName_perm Prod.fst shares).map fun share => share.2.length
  refine (fold (byName Prod.fst shares) .zero).trans ?_
  rw [perm.sum_nat]
  simp [PartialCost.zero]

end Loop

end Superstep
