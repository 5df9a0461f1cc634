import Mathlib.Data.Fintype.Pigeonhole
import Mathlib.Data.Set.Finite.Lemmas
import Mathlib.Data.Set.Finite.List
import Superstep.Proofs.Number.Double
import Superstep.Proofs.Training.Failures
import Superstep.Proofs.Training.Records

/-!
# Training that does not end

Nothing bounds the number of iterations: training goes on as long as the mean cost is not small
enough and does not go up, also if it stays the same. A job in order comes to its end, or it goes on
for ever and its log grows with every iteration (`Superstep.Setting.ends_iff`); which of the two
depends on its loop alone (`Superstep.Setting.goesOn_iff`), so not on the turns that are taken.

What a loop does next depends on its parameters and on the cost accepted last, so a loop that comes
back to both goes the same way again, for ever (`Superstep.Loop.Circles.endless`). Where there are
finitely many numbers, as in double precision, a loop that does not end must come back
(`Superstep.Loop.Endless.circles`); and as costs do not go up, the mean cost does not change any
more in the end (`Superstep.Loop.Endless.exists_level`).
-/

namespace Superstep

variable {F : Type} [Scalar F]

/-! ### Loops -/

namespace Loop

variable {loop : Loop F} {s s' : RunState F} {i j k : Nat}

/-- **When there is something to gain**: the mean cost is finite, did not go up, and is neither zero
nor below the threshold. -/
theorem turnout_eq_goOn_iff {cost : F} : loop.turnout s = .goOn cost ↔
    (loop.total s.theta).mean? = some cost ∧ Scalar.isFinite cost = true ∧
      Scalar.less s.cost cost = false ∧ Scalar.same cost Scalar.zero = false ∧
        Scalar.less cost loop.config.threshold = false := by
  cases hm : (loop.total s.theta).mean? with
  | none => simp [turnout, hm]
  | some mean =>
    rw [turnout_of_mean hm, Descent.judge, Option.some.injEq]
    by_cases refused : (!Scalar.isFinite mean || Scalar.less s.cost mean) = true
    · rw [if_pos refused]
      simp only [reduceCtorEq, false_iff]
      rintro ⟨rfl, finite, down, -⟩
      simp [finite, down] at refused
    · rw [if_neg refused]
      by_cases low : (Scalar.same mean Scalar.zero || Scalar.less mean loop.config.threshold) = true
      · rw [if_pos low]
        simp only [reduceCtorEq, false_iff]
        rintro ⟨rfl, -, -, nonzero, high⟩
        simp [nonzero, high] at low
      · rw [if_neg low]
        simp only [Turnout.goOn.injEq]
        simp only [Bool.or_eq_true, Bool.not_eq_true', not_or, Bool.not_eq_false,
          Bool.not_eq_true] at refused low
        exact ⟨fun same => ⟨same, same ▸ ⟨refused.1, refused.2, low.1, low.2⟩⟩, fun h => h.1⟩

/-- A loop that gets into every iteration. -/
def Endless (loop : Loop F) : Prop := ∀ j, ∃ s, loop.state j = some s

/-- A loop is endless if it has no end. -/
theorem endless_iff : loop.Endless ↔ ∀ j, loop.result j = none := by
  constructor
  · intro endless j
    rw [Option.eq_none_iff_forall_ne_some]
    intro result hr
    obtain ⟨s, hs⟩ := endless (j + 1)
    exact absurd (le_of_result hs hr) (by omega)
  · intro none j
    induction j with
    | zero => exact ⟨_, rfl⟩
    | succ j ih =>
      obtain ⟨s, hs⟩ := ih
      have goesOn := none j
      rw [result, hs, Option.bind_some, outcome] at goesOn
      rw [state_succ hs, next]
      split at goesOn
      · cases goesOn
      · cases goesOn
      · cases goesOn
      · next turnout => exact ⟨_, by rw [turnout]⟩

/-- In every iteration of an endless loop there is something to gain. -/
theorem Endless.goOn (endless : loop.Endless) (hs : loop.state j = some s) :
    ∃ cost, loop.turnout s = .goOn cost ∧ loop.state (j + 1) = some (loop.stepped s cost) := by
  obtain ⟨u, hu⟩ := endless (j + 1)
  exact goOn_of_lt hs hu (Nat.lt_succ_self j)

/-! ### Coming back -/

/-- **A loop that comes back** to parameters and a cost that it has had before. -/
def Circles (loop : Loop F) : Prop :=
  ∃ i k s s', i < k ∧ loop.state i = some s ∧ loop.state k = some s' ∧
    s'.theta = s.theta ∧ s'.cost = s.cost

/-- What follows depends on parameters and cost only. -/
theorem exists_next_of_eq (theta : s'.theta = s.theta) (cost : s'.cost = s.cost) {u : RunState F}
    (hu : loop.next s = some u) :
    ∃ u', loop.next s' = some u' ∧ u'.theta = u.theta ∧ u'.cost = u.cost := by
  unfold next at hu ⊢
  split at hu
  · next mean goesOn =>
    obtain rfl := Option.some.inj hu
    have same : loop.turnout s' = .goOn mean := by
      rw [turnout_eq_goOn_iff] at goesOn ⊢
      rwa [theta, cost]
    rw [same]
    exact ⟨_, rfl, by simp [stepped, theta], rfl⟩
  · cases hu

/-- Who comes back once goes the whole way again. -/
theorem exists_state_add (hs : loop.state i = some s) (hs' : loop.state k = some s')
    (theta : s'.theta = s.theta) (cost : s'.cost = s.cost) {n : Nat} {u : RunState F}
    (hu : loop.state (i + n) = some u) :
    ∃ u', loop.state (k + n) = some u' ∧ u'.theta = u.theta ∧ u'.cost = u.cost := by
  induction n generalizing u with
  | zero =>
    obtain rfl := Option.some.inj (hs.symm.trans hu)
    exact ⟨s', hs', theta, cost⟩
  | succ n ih =>
    obtain ⟨v, hv, hu⟩ := Option.bind_eq_some_iff.mp hu
    obtain ⟨v', hv', theta, cost⟩ := ih hv
    obtain ⟨u', hu', same⟩ := exists_next_of_eq theta cost hu
    exact ⟨u', by rw [← Nat.add_assoc, state_succ hv', hu'], same⟩

/-- **A loop that comes back is endless.** -/
theorem Circles.endless (circles : loop.Circles) : loop.Endless := by
  obtain ⟨i, k, s, s', before, hs, hs', theta, cost⟩ := circles
  intro j
  induction j using Nat.strong_induction_on with
  | _ j ih =>
    rcases Nat.le_total j k with le | ge
    · exact exists_state_of_le hs' le
    · obtain ⟨n, rfl⟩ := Nat.exists_eq_add_of_le ge
      -- one round earlier the loop has been in the same place
      obtain ⟨u, hu⟩ := ih (i + n) (by omega)
      obtain ⟨u', hu', -⟩ := exists_state_add hs hs' theta cost hu
      exact ⟨u', hu'⟩

/-- There never come to be more parameters. -/
theorem length_theta_le (hs : loop.state j = some s) : s.theta.length ≤ loop.start.length := by
  induction j generalizing s with
  | zero =>
    obtain rfl := Option.some.inj hs
    exact le_refl _
  | succ j ih =>
    obtain ⟨u, hu, -⟩ := Option.bind_eq_some_iff.mp hs
    obtain ⟨cost, -, stepped⟩ := goOn_of_lt hu hs (Nat.lt_succ_self j)
    obtain rfl := Option.some.inj (hs.symm.trans stepped)
    refine le_trans ?_ (ih hu)
    change (List.zipWith _ u.theta _).length ≤ _
    rw [List.length_zipWith]
    exact Nat.min_le_left _ _

/-- **Where there are finitely many numbers, an endless loop comes back.** -/
theorem Endless.circles [Finite F] (endless : loop.Endless) : loop.Circles := by
  choose state hstate using endless
  have held (j : Nat) : (state j).theta ∈ {theta : List F | theta.length ≤ loop.start.length} :=
    length_theta_le (hstate j)
  have : Finite {theta : List F | theta.length ≤ loop.start.length} :=
    (List.finite_length_le F loop.start.length).to_subtype
  obtain ⟨j, k, other, same⟩ := Finite.exists_ne_map_eq_of_infinite
    fun j => ((⟨(state j).theta, held j⟩ :
      {theta : List F | theta.length ≤ loop.start.length}), (state j).cost)
  obtain ⟨theta, cost⟩ := Prod.mk.inj same
  have theta := congrArg Subtype.val theta
  rcases Nat.lt_or_gt_of_ne other with lt | gt
  · exact ⟨j, k, _, _, lt, hstate j, hstate k, theta.symm, cost.symm⟩
  · exact ⟨k, j, _, _, gt, hstate k, hstate j, theta, cost⟩

/-- **In double precision the mean cost does not change for ever**: from some iteration on, none is
smaller than another. -/
theorem Endless.exists_level {loop : Loop Float} (endless : loop.Endless) :
    ∃ i, ∀ j k s s', i ≤ j → i ≤ k → loop.state j = some s → loop.state k = some s' →
      ¬s.cost < s'.cost := by
  have step {j : Nat} {s s' : RunState Float} (hs : loop.state j = some s)
      (hs' : loop.state (j + 1) = some s') : s'.cost.isFinite = true ∧ ¬s.cost < s'.cost := by
    obtain ⟨cost, goesOn, stepped⟩ := endless.goOn hs
    obtain rfl := Option.some.inj (hs'.symm.trans stepped)
    obtain ⟨-, finite, down, -⟩ := turnout_eq_goOn_iff.mp goesOn
    exact ⟨finite, of_decide_eq_false down⟩
  choose state hstate using endless
  have finite (j : Nat) : (state (j + 1)).cost.isFinite = true := (step (hstate j) (hstate _)).1
  have down (j : Nat) : Double.rank (state (j + 2)).cost ≤ Double.rank (state (j + 1)).cost :=
    not_lt.mp ((Double.lt_iff_rank_lt (finite j) (finite (j + 1))).not.mp
      (step (hstate (j + 1)) (hstate _)).2)
  have antitone : Antitone fun j => Double.rank (state (j + 1)).cost := antitone_nat_of_succ_le down
  obtain ⟨_, ⟨i, rfl⟩, least⟩ := Set.exists_min_image
    (Set.range fun j => (state (j + 1)).cost) Double.rank (Set.toFinite _) (Set.range_nonempty _)
  refine ⟨i + 1, fun j k s s' hj hk hs hs' => ?_⟩
  obtain ⟨j, rfl⟩ := Nat.exists_eq_add_of_le' (Nat.le_of_add_left_le hj)
  obtain ⟨k, rfl⟩ := Nat.exists_eq_add_of_le' (Nat.le_of_add_left_le hk)
  obtain rfl := Option.some.inj ((hstate _).symm.trans hs)
  obtain rfl := Option.some.inj ((hstate _).symm.trans hs')
  rw [Double.lt_iff_rank_lt (finite j) (finite k), not_lt]
  exact (antitone (Nat.le_of_succ_le_succ hk)).trans (least _ ⟨j, rfl⟩)

end Loop

/-! ### Jobs -/

namespace Setting

variable {t : Setting F}

/-- **A job that comes to its end**, whichever turns are taken: with values, or because the costs
went up. -/
def Ends (t : Setting F) : Prop := t.execution.Inevitable fun y =>
  (∃ values, y.ending? = some (.values values)) ∨
    ∃ failure : TrainingError F, failure.Diverged ∧ y.ending? = some (.failed failure)

/-- **A job that goes on for ever.** -/
structure GoesOn (t : Setting F) : Prop where
  /-- Whichever turns are taken, the job has not ended, -/
  running : ∀ y, t.execution.Reaches y → y.ending? = none
  /-- all peers get as far as one likes, and the log as long. -/
  grows : ∀ n, t.execution.Inevitable fun y =>
    (∀ s ∈ y.stations, n ≤ s.superstep) ∧ n ≤ y.output.toList.length
  /-- All records are the leader's. -/
  alone : ∀ y, t.execution.Reaches y → ∀ entry ∈ y.output.toList, entry.writer = t.leader

/-- What has been written of an endless loop by the time it is in some iteration. -/
theorem le_length_of_superstep {marks : Nat → Mark} {chronicle : Chronicle (Payload F)}
    {y : Execution F (Payload F) (Stage F) (TrainingError F) (Summary F)}
    (h : Execution.Conduct t.plan (fun seat => t.Between seat.name) marks y chronicle)
    (endless : t.loop.Endless) {n : Nat} (far : ∀ s ∈ y.stations, 4 * n + 2 ≤ s.superstep) :
    n ≤ y.output.toList.length := by
  obtain ⟨v, hv, named⟩ := h.exists_station t.leader_mem
  have written := h.recordsOf_prefix_toList hv fun peer k other => writes_of_ne (named ▸ other)
  rw [named] at written
  obtain ⟨s, hs⟩ := endless n
  have steps := (OutputLog.recordsOf_prefix t.leader (t.plan.writes t.leader) (far v hv)).length_le
  rw [(recordsOf_steps hs).1] at steps
  exact steps.trans written.length_le

/-- **A job in order goes on for ever if its loop is endless.** -/
theorem goesOn_iff (h : t.InOrder) : t.GoesOn ↔ t.loop.Endless := by
  constructor
  · intro goesOn
    rw [Loop.endless_iff]
    intro j
    rw [Option.eq_none_iff_forall_ne_some]
    intro result hr
    obtain ⟨y, reaches, ended⟩ := (inevitable_ending h.probed h.fits hr).exists_reaches
    rw [goesOn.running y reaches] at ended
    cases ended
  · intro endless
    have none := Loop.endless_iff.mp endless
    refine ⟨fun y reaches => ?_, fun n => ?_, fun y reaches => ?_⟩
    · obtain ⟨chronicle, run⟩ := reaches
      obtain ⟨marks, conduct⟩ := conduct run
      rw [Option.eq_none_iff_forall_ne_some]
      intro ending he
      obtain ⟨j, result, hr, -⟩ := result_of_ending conduct h.probed h.fits he
      rw [none j] at hr
      cases hr
    · refine (inevitable_superstep h.probed h.fits none (4 * n + 2)).imp fun y reaches goal => ?_
      obtain ⟨chronicle, run⟩ := reaches
      obtain ⟨marks, conduct⟩ := conduct run
      refine ⟨fun s hs => ?_, le_length_of_superstep conduct endless goal.2⟩
      have := goal.2 s hs
      omega
    · obtain ⟨chronicle, run⟩ := reaches
      obtain ⟨marks, conduct⟩ := conduct run
      exact (recorded_of_conduct conduct).alone

/-- **A job in order ends, or goes on for ever.** -/
theorem ends_iff (h : t.InOrder) : t.Ends ↔ ¬t.GoesOn := by
  constructor
  · intro ends goesOn
    obtain ⟨y, reaches, ended⟩ := ends.exists_reaches
    have running := goesOn.running y reaches
    rcases ended with ⟨values, he⟩ | ⟨failure, -, he⟩ <;> rw [running] at he <;> cases he
  · intro stops
    rw [goesOn_iff h, Loop.endless_iff] at stops
    obtain ⟨j, ended⟩ := not_forall.mp stops
    obtain ⟨result, hr⟩ := Option.ne_none_iff_exists'.mp ended
    refine (inevitable_ending h.probed h.fits hr).imp fun y _ he => ?_
    obtain ⟨s, -, ⟨empty, -⟩ | ⟨failure, diverged, rfl⟩ | ⟨cost, -, rfl⟩⟩ := Loop.result_cases hr
    · exact absurd empty (h.turnout_ne_empty s)
    · obtain ⟨mean, -, rfl⟩ := Loop.mean_of_diverged diverged
      exact .inr ⟨_, ⟨_, _, _, _, rfl⟩, he⟩
    · exact .inl ⟨_, he⟩

end Setting

end Superstep
