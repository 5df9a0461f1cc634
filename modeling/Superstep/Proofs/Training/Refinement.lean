import Superstep.Proofs.Training.Exact
import Superstep.Proofs.Training.Jobs

/-!
# A training job is training without peers

If all rows have one width and the leader has a row, a training job carries out a single loop, that
of `Superstep.Loop.ofShares`. Wherever a run has led, every peer holds what the loop holds in the
iteration it is in, and has sent what the loop makes of its rows; and a peer or the job ends only
with what the loop ends with (`Superstep.Setting.Refines`). Conversely, if the loop ends the job
does so too, whichever turns are taken, and if it goes on for ever so does the job
(`Superstep.Setting.refines`).

Nothing is asked of the numbers or of the model. That two peers add up the same numbers in the same
order is therefore part of what is shown, and not a consequence of their adding up the same numbers.
-/

namespace Superstep

variable {F : Type} [Scalar F]

/-- All rows have the same number of features, at least one, and it can be counted in a word with
the label. -/
structure Cluster.Uniform (cluster : Cluster F) (width : Nat) : Prop where
  pos : 0 < width
  countable : width + 1 < wordLimit
  featureCount : ∀ p ∈ cluster.partitions, p.featureCount = width
  rows : ∀ p ∈ cluster.partitions, ∀ row ∈ p.rows, row.features.length = width

namespace Setting

variable {t : Setting F} {width : Nat}

/-- **What the peers of a training job hold, have sent and end with is what a loop says.** -/
structure Refines (t : Setting F) (loop : Loop F) (chronicle : Chronicle (Payload F))
    (y : Execution F (Payload F) (Stage F) (TrainingError F) (Summary F)) : Prop where
  start : ∀ s ∈ y.stations, s.activity = .running (.done (.ok (.goOn .start))) → s.superstep = 0
  /-- Between two rounds of the first pass a peer has the loop's state and the costs of the rows it
  has read. -/
  scoring : ∀ s ∈ y.stations, ∀ state sum,
    s.activity = .running (.done (.ok (.goOn (.scoring state sum)))) →
      ∃ j read, loop.state j = some state ∧ s.superstep = 4 * j + 1 ∧
        (t.partition s.seat.name).rows = read ++ s.partition.unread ∧
        sum = t.model.score state.theta read
  /-- Between two rounds of the second pass it also has the mean cost of all rows. -/
  descending : ∀ s ∈ y.stations, ∀ state cost examples sum,
    s.activity = .running (.done (.ok (.goOn (.descending state cost examples sum)))) →
      ∃ j read, loop.state j = some state ∧ s.superstep = 4 * j + 3 ∧
        (t.partition s.seat.name).rows = read ++ s.partition.unread ∧
        sum = t.model.slope state.theta read ∧
        loop.turnout state = .goOn cost ∧ examples = (loop.total state.theta).count
  /-- The loop gets into every iteration that a peer gets into. -/
  reached : ∀ s ∈ y.stations, ∀ j, 4 * j < s.superstep → ∃ state, loop.state j = some state
  /-- The leader has sent the parameters to start from to everybody else. -/
  opening : ∀ s ∈ y.stations, 0 < s.superstep → chronicle.said s.seat.name 0 =
    if t.leader = s.seat.name then broadcast t.cluster.names s.seat.name (.theta loop.start) else []
  /-- Every peer has sent the costs of its rows to everybody else. -/
  costs : ∀ s ∈ y.stations, ∀ j state, 4 * j + 1 < s.superstep → loop.state j = some state →
    chronicle.said s.seat.name (4 * j + 1) = broadcast t.cluster.names s.seat.name
      (.cost (t.score s.seat.name state.theta).sum (t.score s.seat.name state.theta).count)
  /-- Every peer has sent the gradients of its rows to everybody else. -/
  gradients : ∀ s ∈ y.stations, ∀ j state, 4 * j + 3 < s.superstep → loop.state j = some state →
    chronicle.said s.seat.name (4 * j + 3) =
      broadcast t.cluster.names s.seat.name (.gradient (t.slope s.seat.name state.theta))
  /-- Nobody has sent anything else. -/
  silent : ∀ s ∈ y.stations, ∀ j,
    (4 * j + 2 < s.superstep → chronicle.said s.seat.name (4 * j + 2) = []) ∧
      (4 * j + 4 < s.superstep → chronicle.said s.seat.name (4 * j + 4) = [])
  left : ∀ s ∈ y.stations, ∀ outcome, (s.activity = .leaving outcome ∨ s.activity = .gone outcome) →
    ∃ j result, loop.result j = some result ∧ outcome = t.outcome s.seat.name result
  ended : ∀ ending, y.ending? = some ending →
    ∃ j result, loop.result j = some result ∧ ending = t.ending result

/-! ### Rows of one width -/

/-- The leader's first row is as wide as all rows. -/
theorem width_eq (uniform : t.cluster.Uniform width) (owns : (t.partition t.leader).rows ≠ []) :
    t.width = width := by
  cases hr : (t.partition t.leader).rows with
  | nil => exact absurd hr owns
  | cons row rest =>
    simp only [Setting.width, hr]
    refine uniform.rows _ (Cluster.partitionOf_mem t.leader_mem) row ?_
    change row ∈ (t.partition t.leader).rows
    rw [hr]
    exact List.mem_cons_self

/-- There are rows if the leader has some. -/
theorem rows_ne_nil (owns : (t.partition t.leader).rows ≠ []) :
    t.cluster.partitions.flatMap (·.rows) ≠ [] := by
  obtain ⟨row, hr⟩ := List.exists_mem_of_ne_nil _ owns
  exact List.ne_nil_of_mem (List.mem_flatMap.mpr ⟨_, Cluster.partitionOf_mem t.leader_mem, hr⟩)

theorem fits_of_uniform (uniform : t.cluster.Uniform width)
    (owns : (t.partition t.leader).rows ≠ []) {peer : PeerName} (hp : peer ∈ t.cluster.names) :
    t.Fits peer := by
  have mem := Cluster.partitionOf_mem hp
  refine ⟨?_, fun row hr => ?_⟩
  · refine decide_eq_true ?_
    change (t.cluster.partitionOf peer).featureCount + 1 < wordLimit
    rw [uniform.featureCount _ mem]
    exact uniform.countable
  · rw [width_eq uniform owns]
    exact uniform.rows _ mem row hr

theorem probed_of_uniform (uniform : t.cluster.Uniform width)
    (owns : (t.partition t.leader).rows ≠ []) : t.Probed := by
  refine ⟨(fits_of_uniform uniform owns t.leader_mem).1, ?_⟩
  rw [width_eq uniform owns]
  exact uniform.pos

/-- If all rows fit, peers are over only when the loop ends. -/
theorem result_of_leaves (probed : t.Probed) (fit : ∀ peer ∈ t.cluster.names, t.Fits peer)
    {peer : PeerName} (hp : peer ∈ t.cluster.names) {k : Nat}
    {outcome : Outcome (TrainingError F) (Summary F)} (h : t.plan.leaves peer k outcome) :
    ∃ j result, t.loop.result j = some result ∧ outcome = t.outcome peer result := by
  rcases leaves_cases h with ⟨-, -, unprobed, -⟩ | ⟨j, -, misfits⟩ | ⟨j, result, hr, ho, -⟩
  · exact absurd probed unprobed
  · exact absurd misfits (not_misfits fit hp)
  · exact ⟨j, result, hr, ho⟩

/-! ### Every run -/

section Conduct

variable {marks : Nat → Mark} {chronicle : Chronicle (Payload F)}
  {y : Execution F (Payload F) (Stage F) (TrainingError F) (Summary F)}
  (h : Execution.Conduct t.plan (fun seat => t.Between seat.name) marks y chronicle)

include h

/-- The job ends when the loop ends. -/
theorem result_of_ending (probed : t.Probed) (fit : ∀ peer ∈ t.cluster.names, t.Fits peer)
    {ending : Ending (TrainingError F) (Summary F)} (he : y.ending? = some ending) :
    ∃ j result, t.loop.result j = some result ∧ ending = t.ending result := by
  cases ending with
  | values values =>
    obtain ⟨j, last, hr, he, -⟩ := exists_of_values h he
    exact ⟨j, .ok last, hr, he⟩
  | failed failure =>
    obtain ⟨s, hs, leaves⟩ := exists_of_failed h he
    obtain ⟨j, result, hr, ho⟩ := result_of_leaves probed fit (h.mem_peers hs) leaves
    cases result with
    | ok last => cases ho
    | error other =>
      obtain rfl := Outcome.failed.inj ho
      exact ⟨j, .error failure, hr, rfl⟩
  | crashed name =>
    obtain ⟨s, hs, leaves⟩ := exists_of_crashed h he
    obtain ⟨j, result, hr, ho⟩ := result_of_leaves probed fit (h.mem_peers hs) leaves
    cases result <;> cases ho

/-- **Peers that keep to the plan carry out the loop.** -/
theorem refines_of_conduct (probed : t.Probed) (fit : ∀ peer ∈ t.cluster.names, t.Fits peer) :
    t.Refines t.loop chronicle y := by
  have said : ∀ s ∈ y.stations, ∀ k < s.superstep,
      chronicle.said s.seat.name k = t.plan.sends s.seat.name k := by
    intro s hs k hk
    have := h.delivery.lockstep.superstep_le hs
    exact (h.kept_of_opened (by omega) hs).1
  refine
    { start := fun s hs ha => ?_
      scoring := fun s hs state sum ha => ?_
      descending := fun s hs state cost examples sum ha => ?_
      reached := fun s hs j hk => exists_state h hs hk
      opening := fun s hs hk => said s hs 0 hk
      costs := fun s hs j state hk hj => (said s hs _ hk).trans (sends_scoring hj)
      gradients := fun s hs j state hk hj => (said s hs _ hk).trans (sends_descending hj)
      silent := fun s hs j => ⟨fun hk => (said s hs _ hk).trans sends_judging,
        fun hk => (said s hs _ hk).trans sends_stepping⟩
      left := fun s hs outcome ha =>
        result_of_leaves probed fit (h.mem_peers hs) (h.mayLeave hs ha).1
      ended := fun ending he => result_of_ending h probed fit he }
  · exact congrArg Standing.superstep (h.inv hs ha)
  · obtain ⟨j, read, hj, amid, hsum⟩ := h.inv hs ha
    exact ⟨j, read, hj, amid.superstep, amid.rows.symm.trans amid.split, hsum⟩
  · obtain ⟨j, read, hj, amid, hsum, goesOn, hexamples, -⟩ := h.inv hs ha
    exact ⟨j, read, hj, amid.superstep, amid.rows.symm.trans amid.split, hsum, goesOn, hexamples⟩

end Conduct

/-! ### The end -/

/-- The job ends, or everybody gets as far as one likes. -/
theorem gets_on (t : Setting F) (supersteps : Nat) : t.execution.Inevitable fun y =>
    y.ending?.isSome ∨ ∀ s ∈ y.stations, supersteps ≤ s.superstep := by
  refine (Execution.conduct_ofCluster t.suits).inevitable t.concerted (fun s hs => ?_) supersteps
  obtain ⟨i, hs⟩ := List.mem_iff_getElem?.mp hs
  obtain ⟨name, partition, -, hp, rfl⟩ := Execution.exists_of_getElem?_ofCluster hs
  exact ⟨[], (t.unread partition (List.mem_of_getElem? hp)).symm⟩

/-- If the loop ends, the job does. -/
theorem inevitable_ending (probed : t.Probed) (fit : ∀ peer ∈ t.cluster.names, t.Fits peer)
    {j : Nat} {result : Except (TrainingError F) (RunState F)}
    (hr : t.loop.result j = some result) :
    t.execution.Inevitable fun y => y.ending? = some (t.ending result) := by
  refine (t.gets_on (4 * j + 4)).imp fun y reaches goal => ?_
  obtain ⟨chronicle, run⟩ := reaches
  obtain ⟨marks, h⟩ := conduct run
  -- nobody gets past the end of the loop, so it is the job that has ended
  rcases goal with ended | far
  · obtain ⟨ending, he⟩ := Option.isSome_iff_exists.mp ended
    obtain ⟨k, other, hk, rfl⟩ := result_of_ending h probed fit he
    obtain rfl := Loop.result_unique hr hk
    obtain rfl := Option.some.inj (hr.symm.trans hk)
    exact he
  · obtain ⟨s, hs, -⟩ := h.exists_station t.leader_mem
    have := superstep_le h hs hr
    have := far s hs
    omega

/-- If the loop does not end, the job does not, and goes on. -/
theorem inevitable_superstep (probed : t.Probed) (fit : ∀ peer ∈ t.cluster.names, t.Fits peer)
    (endless : ∀ j, t.loop.result j = none) (supersteps : Nat) : t.execution.Inevitable fun y =>
      y.ending? = none ∧ ∀ s ∈ y.stations, supersteps ≤ s.superstep := by
  refine (t.gets_on supersteps).imp fun y reaches goal => ?_
  obtain ⟨chronicle, run⟩ := reaches
  obtain ⟨marks, h⟩ := conduct run
  have running : y.ending? = none := by
    refine Option.eq_none_iff_forall_ne_some.mpr fun ending he => ?_
    obtain ⟨k, other, hk, -⟩ := result_of_ending h probed fit he
    rw [endless k] at hk
    cases hk
  refine ⟨running, goal.resolve_left fun ended => ?_⟩
  rw [running] at ended
  cases ended

/-- **Training with peers is training without peers.** If all rows have one width, the leader has a
row, and nobody has read anything yet (`Setting.unread`), all peers carry out the loop that adds up
the shares in the order of the names; the job ends as the loop does, and goes on if the loop goes
on, whichever turns are taken. -/
theorem refines (t : Setting F) (uniform : t.cluster.Uniform width)
    (owns : (t.partition t.leader).rows ≠ []) :
    (∀ chronicle y, t.execution.Runs chronicle y →
      t.Refines (.ofShares t.config t.model width t.cluster.shares) chronicle y) ∧
    (∀ j result, (Loop.ofShares t.config t.model width t.cluster.shares).result j = some result →
      t.execution.Inevitable fun y => y.ending? = some (t.ending result)) ∧
    ((∀ j, (Loop.ofShares t.config t.model width t.cluster.shares).result j = none) →
      ∀ supersteps, t.execution.Inevitable fun y =>
        y.ending? = none ∧ ∀ s ∈ y.stations, supersteps ≤ s.superstep) := by
  have probed := probed_of_uniform uniform owns
  have fit : ∀ peer ∈ t.cluster.names, t.Fits peer := fun peer hp =>
    fits_of_uniform uniform owns hp
  have loop : Loop.ofShares t.config t.model width t.cluster.shares = t.loop := by
    rw [Setting.loop, width_eq uniform owns]
  rw [loop]
  refine ⟨fun chronicle y run => ?_, fun j result hr => inevitable_ending probed fit hr,
    fun endless => inevitable_superstep probed fit endless⟩
  obtain ⟨marks, h⟩ := conduct run
  exact refines_of_conduct h probed fit

/-- Two peers with a row each, both on one line through the origin. -/
def line : Setting ℚ where
  cluster :=
    { names := ["a", "b"]
      partitions := [.ofRows 1 [⟨[1], 2⟩], .ofRows 1 [⟨[2], 4⟩]]
      names_ne_nil := by decide
      length_partitions := rfl
      nodup_names := by decide }
  config :=
    { initialTheta := 0, alpha := 1 / 5, threshold := 1 / 10, model := .linear,
      leader := .smallest }
  model := { cost := Linear.cost, hypothesis := Linear.hypothesis }
  leader := "a"
  unread := Cluster.unread_of_ofRows ⟨rfl, rfl⟩
  valid := by
    have alpha : ¬((!Scalar.isFinite (1 / 5 : ℚ) ||
        Scalar.atMost (1 / 5 : ℚ) Scalar.zero) = true) := by
      decide +kernel
    have threshold : ¬((!Scalar.isFinite (1 / 10 : ℚ) ||
        Scalar.less (1 / 10 : ℚ) Scalar.zero) = true) := by
      decide +kernel
    rw [Config.validate, if_neg alpha, if_neg threshold]
  elected := by decide

theorem uniform_line : line.cluster.Uniform 1 := by
  refine ⟨Nat.one_pos, by decide, ?_, ?_⟩ <;> simp [line, Partition.ofRows]

theorem owns_line : (line.partition line.leader).rows ≠ [] := by decide

/-- One step leads to the line. -/
theorem result_line : (Loop.ofShares line.config line.model 1 line.cluster.shares).result 1 =
    some (.ok { theta := [2], cost := 0, iteration := 2, examples := 2 }) := by
  rw [Loop.ofShares_eq_ofRows]
  decide +kernel

/-- The two peers find the line, whichever turns are taken. -/
theorem refines_line : line.execution.Inevitable fun y => y.ending? = some (.values
    [{ theta := [2], cost := 0, iterations := 2, examples := 2, role := .leader },
     { theta := [2], cost := 0, iterations := 2, examples := 2, role := .follower }]) :=
  (line.refines uniform_line owns_line).2.1 1 _ result_line

end Setting

end Superstep
