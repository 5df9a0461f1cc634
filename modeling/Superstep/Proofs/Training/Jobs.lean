import Superstep.Job.Launch
import Superstep.Proofs.Cluster.Naming
import Superstep.Proofs.Cluster.Progress
import Superstep.Proofs.Training.Course

/-!
# Training jobs

`Superstep.Execution.training` is a training job in which nothing has happened yet. If its settings
are accepted and its leader can be elected, the plan of `Superstep.Setting` suits it
(`Superstep.Setting.suits`), and so everything that is said about jobs with a plan can be said about
it. What a setting asks for besides, that nobody has read any rows yet, holds of every job that is
made of a description (`Superstep.Job.unread_of_cluster`).
-/

namespace Superstep

variable {F : Type} [Scalar F]

namespace Setting

/-- **The plan is concerted**: when the cost is small enough, nobody waits for anybody. -/
theorem concerted (t : Setting F) : t.plan.Concerted := by
  intro k peer hp value leaves other ho syncs
  rcases Slot.cases_of k with rfl | ⟨j, rfl | rfl | rfl | rfl⟩
  · obtain ⟨-, -, h | h⟩ := leaves_opening.mp leaves <;> cases h
  · rcases leaves_scoring.mp leaves with ⟨-, h | ⟨row, -, -, h⟩⟩ | ⟨-, name, -, -, h⟩ <;> cases h
  · obtain ⟨s, hs, ⟨-, h⟩ | ⟨last, hl, -⟩⟩ := leaves_judging.mp leaves
    · cases h
    · obtain ⟨u, hu, h⟩ := syncs_judging.mp syncs
      obtain rfl := Option.some.inj (hs.symm.trans hu)
      unfold Loop.outcome at hl
      rcases h with ⟨cost, h⟩ | ⟨failure, h⟩ <;> simp [h] at hl
  · obtain ⟨s, failure, -, -, h⟩ := leaves_descending.mp leaves
    cases h
  · exact not_leaves_stepping leaves

end Setting

/-- Peers that can be set to train are. -/
theorem Trainer.enlist_eq {config : Config F} {seat : Seat} {leader : PeerName} (model : Model F)
    (valid : config.validate = .ok config)
    (elected : config.leader.elect (F := F) seat.peers = .ok leader) :
    Trainer.enlist config model seat = .ok ⟨config, model, seat, leader⟩ := by
  simp [Trainer.enlist, valid, elected, Except.mapError, Bind.bind, Except.bind, Pure.pure,
    Except.pure]

/-- Where nobody can be elected, nobody is set to train. -/
theorem Trainer.enlist_eq_error {config : Config F} {seat : Seat} {failure : ConfigError F}
    (model : Model F) (valid : config.validate = .ok config)
    (refused : config.leader.elect (F := F) seat.peers = .error failure) :
    Trainer.enlist config model seat = .error (.config failure) := by
  simp [Trainer.enlist, valid, refused, Except.mapError, Bind.bind, Except.bind]

/-- A training job with these settings in which nothing has happened. -/
def Execution.training (cluster : Cluster F) (config : Config F) (model : Model F) :
    Execution F (Payload F) (Stage F) (TrainingError F) (Summary F) :=
  .ofCluster cluster fun seat => Trainer.processOf (Trainer.enlist config model seat)

/-- A job whose options can be read is a training job with the settings they stand for. -/
theorem Job.execution_eq {job : Job} {config : Config Float} (cluster : Cluster Float)
    (h : Config.ofOptions job.options = .ok config) :
    job.execution cluster = Execution.training cluster config config.model.model := by
  simp [Job.execution, Trainer.setUp, Execution.training, h, Except.mapError, Bind.bind,
    Except.bind]

/-- Nobody has read any of the rows of a job that is set up. -/
theorem Job.unread_of_cluster {job : Job} {rows : Dataset Float} {cluster : Cluster Float}
    (h : job.cluster rows = .ok cluster) : cluster.Unread :=
  Cluster.unread_of_split (Job.eq_of_cluster h).2

/-! ### What ends a training job -/

namespace Setting

/-- The training job of a setting. -/
def execution (t : Setting F) :
    Execution F (Payload F) (Stage F) (TrainingError F) (Summary F) :=
  .training t.cluster t.config t.model.model

/-- **The plan suits the training job.** -/
theorem suits (t : Setting F) : t.plan.Suits (fun seat => t.Between seat.name) t.cluster fun seat =>
    Trainer.processOf (Trainer.enlist t.config t.model.model seat) := by
  refine ⟨rfl, fun i name partition hn hp => ?_, fun i name hn => ?_⟩
  · rw [Trainer.enlist_eq t.model.model t.valid t.elected]
    change Standing.fresh partition 0 = .fresh (t.partition name) 0
    rw [Setting.partition, Cluster.partitionOf_eq hn hp]
  · rw [Trainer.enlist_eq t.model.model t.valid t.elected]
    exact guides rfl (List.mem_of_getElem? hn)

/-- How a peer is over when the loop ends. -/
def outcome (t : Setting F) (peer : PeerName) :
    Except (TrainingError F) (RunState F) → Outcome (TrainingError F) (Summary F)
  | .ok last => .value (t.summary peer last)
  | .error failure => .failed failure

/-- How the job ends when the loop ends. -/
def ending (t : Setting F) :
    Except (TrainingError F) (RunState F) → Ending (TrainingError F) (Summary F)
  | .ok last => .values (t.cluster.names.map fun peer => t.summary peer last)
  | .error failure => .failed failure

variable {t : Setting F} {peer : PeerName} {j k : Nat}
  {outcome : Outcome (TrainingError F) (Summary F)}

/-- **How a peer may be over**: before there are any parameters, by rows that do not fit, or because
the loop ends. -/
theorem leaves_cases (h : t.plan.leaves peer k outcome) :
    (k = 0 ∧ t.leader = peer ∧ ¬t.Probed ∧
      (outcome = .crashed ∨ outcome = .failed .dimensionProbe)) ∨
    (∃ j, k = 4 * j + 1 ∧ t.Misfits peer outcome) ∨
    ∃ j result, t.loop.result j = some result ∧ outcome = t.outcome peer result ∧
      ((k = 4 * j + 2 ∧ ∀ failure, result = .error failure → failure = .emptyDataset) ∨
        k = 4 * j + 3 ∧ ∃ s failure, t.loop.state j = some s ∧
          t.loop.turnout s = .diverged failure ∧ result = .error failure) := by
  rcases Slot.cases_of k with rfl | ⟨j, rfl | rfl | rfl | rfl⟩
  · exact .inl ⟨rfl, leaves_opening.mp h⟩
  · exact .inr (.inl ⟨j, rfl, leaves_scoring.mp h⟩)
  · refine .inr (.inr ⟨j, ?_⟩)
    obtain ⟨s, hs, ⟨empty, rfl⟩ | ⟨last, hl, rfl⟩⟩ := leaves_judging.mp h
    · refine ⟨.error .emptyDataset, ?_, rfl, .inl ⟨rfl, fun failure hf => ?_⟩⟩
      · simp [Loop.result, hs, Loop.outcome, empty]
      · exact (Except.error.inj hf).symm
    · refine ⟨.ok last, ?_, rfl, .inl ⟨rfl, ?_⟩⟩
      · simp [Loop.result, hs, hl]
      · rintro failure ⟨⟩
  · refine .inr (.inr ⟨j, ?_⟩)
    obtain ⟨s, failure, hs, diverged, rfl⟩ := leaves_descending.mp h
    refine ⟨.error failure, ?_, rfl, .inr ⟨rfl, s, failure, hs, diverged, rfl⟩⟩
    simp [Loop.result, hs, Loop.outcome, diverged]
  · exact absurd h not_leaves_stepping

/-- Who reports that the cost has gone up has found the loop to diverge. -/
theorem diverged_of_leaves {alpha cost previous : F} {iteration : Nat}
    (h : t.plan.leaves peer k (.failed (.diverged alpha iteration cost previous))) :
    ∃ j s, k = 4 * j + 3 ∧ t.loop.state j = some s ∧
      t.loop.turnout s = .diverged (.diverged alpha iteration cost previous) := by
  rcases leaves_cases h with ⟨-, -, -, h' | h'⟩ | ⟨j, -, misfits⟩ | ⟨j, result, -, ho, hk⟩
  · cases h'
  · cases h'
  · rcases misfits with ⟨-, h' | ⟨row, -, -, h'⟩⟩ | ⟨-, name, -, -, h'⟩ <;> cases h'
  · cases result with
    | ok last => cases ho
    | error failure =>
      obtain rfl := Outcome.failed.inj ho
      rcases hk with ⟨-, empty⟩ | ⟨superstep, s, failure, hs, diverged, hf⟩
      · cases empty _ rfl
      · obtain rfl := Except.error.inj hf
        exact ⟨j, s, superstep, hs, diverged⟩

/-- **Where somebody may be over, not all get through.** -/
theorem not_passes_of_leaves (hp : peer ∈ t.cluster.names)
    (h : t.plan.leaves peer k outcome) : ¬t.plan.Passes k := by
  intro passes
  rcases Slot.cases_of k with rfl | ⟨j, rfl | rfl | rfl | rfl⟩
  · obtain ⟨-, unprobed, -⟩ := leaves_opening.mp h
    exact unprobed (probed_of_passes passes)
  · -- who gets through has found all rows to fit
    exact not_misfits (fits_of_passes passes) hp (leaves_scoring.mp h)
  · obtain ⟨s, hs, going⟩ := syncs_judging.mp (passes peer hp)
    obtain ⟨u, hu, left⟩ := leaves_judging.mp h
    obtain rfl := Option.some.inj (hs.symm.trans hu)
    rcases left with ⟨empty, -⟩ | ⟨last, ended, -⟩
    · rcases going with ⟨cost, going⟩ | ⟨failure, going⟩ <;> simp [going] at empty
    · unfold Loop.outcome at ended
      rcases going with ⟨cost, going⟩ | ⟨failure, going⟩ <;> simp [going] at ended
  · obtain ⟨s, cost, hs, going⟩ := syncs_descending.mp (passes peer hp)
    obtain ⟨u, failure, hu, diverged, -⟩ := leaves_descending.mp h
    obtain rfl := Option.some.inj (hs.symm.trans hu)
    simp [going] at diverged
  · exact not_leaves_stepping h

/-- Who gets into an iteration finds the loop there. -/
theorem exists_state_of_passes (hp : peer ∈ t.cluster.names)
    (h : ∀ i < 4 * j + 1, t.plan.Passes i) : ∃ s, t.loop.state j = some s := by
  cases j with
  | zero => exact ⟨_, rfl⟩
  | succ j =>
    obtain ⟨s, cost, hs, going⟩ := syncs_stepping.mp (h (4 * j + 4) (by omega) peer hp)
    refine ⟨t.loop.stepped s cost, ?_⟩
    rw [Loop.state_succ hs, Loop.next, going]

/-- When the loop has ended, nobody gets any further. -/
theorem not_passes_of_result (hp : peer ∈ t.cluster.names)
    {result : Except (TrainingError F) (RunState F)} (h : t.loop.result j = some result) :
    ¬t.plan.Passes (4 * j + 3) := by
  intro passes
  obtain ⟨s, cost, hs, going⟩ := syncs_descending.mp (passes peer hp)
  obtain ⟨u, hu, ended⟩ := Option.bind_eq_some_iff.mp h
  obtain rfl := Option.some.inj (hs.symm.trans hu)
  simp [Loop.outcome, going] at ended

/-! ### Where the peers of a training job are -/

section Conduct

variable {marks : Nat → Mark} {chronicle : Chronicle (Payload F)}
  {y : Execution F (Payload F) (Stage F) (TrainingError F) (Summary F)}
  {s : Station F (Payload F) (Stage F) (TrainingError F) (Summary F)}

/-- **In every run the peers keep to the plan.** -/
theorem conduct (run : t.execution.Runs chronicle y) : ∃ marks,
    Execution.Conduct t.plan (fun seat => t.Between seat.name) marks y chronicle :=
  run.conduct t.suits

variable (h : Execution.Conduct t.plan (fun seat => t.Between seat.name) marks y chronicle)

include h

/-- Who is in an iteration finds the loop there. -/
theorem exists_state (hs : s ∈ y.stations) (hk : 4 * j < s.superstep) :
    ∃ state, t.loop.state j = some state :=
  exists_state_of_passes (h.mem_peers hs) fun i hi => h.passes_of_lt hs (by omega)

/-- When the loop has ended, nobody is any further. -/
theorem superstep_le (hs : s ∈ y.stations) {result : Except (TrainingError F) (RunState F)}
    (hr : t.loop.result j = some result) : s.superstep ≤ 4 * j + 3 := by
  by_contra far
  exact not_passes_of_result (h.mem_peers hs) hr (h.passes_of_lt hs (by omega))

/-- A peer that ends with a value does so because the loop ends with one. -/
theorem left_of_value (hs : s ∈ y.stations) {value : Summary F}
    (ha : s.activity = .gone (.value value)) : ∃ j last, t.loop.result j = some (.ok last) ∧
      value = t.summary s.seat.name last ∧ s.superstep = 4 * j + 2 := by
  rcases leaves_cases (h.mayLeave hs (.inr ha)).1 with ⟨-, -, -, h' | h'⟩ | ⟨j, -, misfits⟩ |
    ⟨j, result, hr, ho, hk⟩
  · cases h'
  · cases h'
  · rcases misfits with ⟨-, h' | ⟨row, -, -, h'⟩⟩ | ⟨-, name, -, -, h'⟩ <;> cases h'
  · cases result with
    | error failure => cases ho
    | ok last =>
      rcases hk with ⟨hk, -⟩ | ⟨-, u, failure, -, -, hf⟩
      · exact ⟨j, last, hr, Outcome.value.inj ho, hk⟩
      · cases hf

/-- **If all peers end with values**, the loop has ended with one, and in the same iteration. -/
theorem exists_of_values {values : List (Summary F)} (he : y.ending? = some (.values values)) :
    ∃ j last, t.loop.result j = some (.ok last) ∧ Ending.values values = t.ending (.ok last) ∧
      ∀ s ∈ y.stations, s.superstep = 4 * j + 2 ∧
        s.activity = .gone (.value (t.summary s.seat.name last)) := by
  have ended : y.Ended (.values values) := h.accounts.ended _ he
  have names : t.cluster.names = y.stations.map (·.seat.name) := h.peers
  -- the loop ends in one iteration only, so it does not matter which peer tells which one that is
  obtain ⟨j, last, hr⟩ : ∃ j last, t.loop.result j = some (.ok last) := by
    obtain ⟨u, hu, -⟩ := h.exists_station t.leader_mem
    obtain ⟨value, hg⟩ := ended.exists_gone hu
    obtain ⟨j, last, hr, -⟩ := left_of_value h hu hg
    exact ⟨j, last, hr⟩
  have same : ∀ (i : Nat) u, y.stations[i]? = some u →
      values[i]? = some (t.summary u.seat.name last) ∧ u.superstep = 4 * j + 2 ∧
        u.activity = .gone (.value (t.summary u.seat.name last)) := by
    intro i u hu
    obtain ⟨value, hv, hg⟩ := ended.exists_value hu
    obtain ⟨j', last', hr', rfl, hk⟩ := left_of_value h (List.mem_of_getElem? hu) hg
    obtain rfl := Loop.result_unique hr hr'
    obtain rfl := Except.ok.inj (Option.some.inj (hr.symm.trans hr'))
    exact ⟨hv, hk, hg⟩
  refine ⟨j, last, hr, congrArg Ending.values (List.ext_getElem? fun i => ?_), fun u hu => ?_⟩
  · rw [names, List.map_map, List.getElem?_map]
    cases hu : y.stations[i]? with
    | none =>
      rw [List.getElem?_eq_none_iff, ended.length_eq] at hu
      rw [List.getElem?_eq_none hu, Option.map_none]
    | some u => exact (same i u hu).1
  · obtain ⟨i, hu⟩ := List.mem_iff_getElem?.mp hu
    exact (same i u hu).2

/-- A job fails because a peer does. -/
theorem exists_of_failed {failure : TrainingError F} (he : y.ending? = some (.failed failure)) :
    ∃ s ∈ y.stations, t.plan.leaves s.seat.name s.superstep (.failed failure) := by
  obtain ⟨u, hu, hg⟩ := h.accounts.ended _ he
  exact ⟨u, hu, (h.mayLeave hu (.inr hg)).1⟩

/-- A job breaks off because a peer does. -/
theorem exists_of_crashed {name : PeerName} (he : y.ending? = some (.crashed name)) :
    ∃ s ∈ y.stations, t.plan.leaves s.seat.name s.superstep .crashed := by
  obtain ⟨u, hu, -, hg⟩ := h.accounts.ended _ he
  exact ⟨u, hu, (h.mayLeave hu (.inr hg)).1⟩

end Conduct

end Setting

end Superstep
