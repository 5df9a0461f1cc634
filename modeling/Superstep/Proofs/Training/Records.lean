import Superstep.Proofs.Training.Refinement
import Superstep.Proofs.Training.Stranded

/-!
# The records of a training job

The leader writes a record of every step, and one last record when the mean cost is small enough or
has gone up; nobody else writes anything. So the log of a job that is over can be told from the loop
it carried out (`Superstep.Loop.Wrote`), and is empty if the job failed for another reason
(`Superstep.Setting.Recorded`). Nothing is added to it afterwards: what follows the end of a job
cannot change how it ended, and the end alone says how many records there are.

That the last record is there when a job fails because the cost went up is the work of one more
barrier. Without it a follower could be over, and the job with it, before the leader has written.

Nothing is asked of the rows here. If they do not fit each other the job fails before anything is
written, and so it does if nobody can be elected.
-/

namespace Superstep

variable {F : Type} [Scalar F]

/-! ### What a loop writes -/

namespace Loop

/-- **The records of a loop** that has come to an end with so many iterations over: one for every
step, with the parameters after it and the mean cost before it, and a last one. -/
structure Wrote (loop : Loop F) (writer : PeerName) (j : Nat) (last : List F × F)
    (records : List (OutputRecord F)) : Prop where
  length : records.length = j + 1
  step : ∀ i < j, ∃ before after, loop.state i = some before ∧ loop.state (i + 1) = some after ∧
    (loop.total before.theta).mean? = some after.cost ∧
    records[i]? = some
      { writer, superstep := 4 * (i + 1), theta := after.theta, cost := after.cost }
  last : records[j]? = some { writer, superstep := 4 * j + 2, theta := last.1, cost := last.2 }

end Loop

namespace Setting

variable {t : Setting F} {j : Nat} {s : RunState F}

/-- What an iteration that is followed by another adds to the records. -/
theorem recordsOf_iteration {cost : F} (hs : t.loop.state j = some s)
    (goesOn : t.loop.turnout s = .goOn cost) :
    OutputLog.recordsOf t.leader (t.plan.writes t.leader) (4 * (j + 1) + 2) =
      OutputLog.recordsOf t.leader (t.plan.writes t.leader) (4 * j + 2) ++
        [{ writer := t.leader, superstep := 4 * (j + 1),
           theta := (t.loop.stepped s cost).theta, cost }] := by
  have stepped : t.loop.state (j + 1) = some (t.loop.stepped s cost) := by
    rw [Loop.state_succ hs, Loop.next, goesOn]
  have judging : t.plan.writes t.leader (4 * j + 2) = [] :=
    writes_judging_eq_nil hs (closing_of_goOn goesOn)
  have descending : t.plan.writes t.leader (4 * j + 2 + 1) = [] := writes_descending
  have stepping : t.plan.writes t.leader (4 * j + 2 + 1 + 1) = _ :=
    (writes_stepping stepped).trans (if_pos rfl)
  have scoring : t.plan.writes t.leader (4 * j + 2 + 1 + 1 + 1) = [] :=
    writes_scoring (j := j + 1)
  change OutputLog.recordsOf t.leader (t.plan.writes t.leader) (4 * j + 2 + 1 + 1 + 1 + 1) = _
  rw [OutputLog.recordsOf_succ, OutputLog.recordsOf_succ, OutputLog.recordsOf_succ,
    OutputLog.recordsOf_succ, judging, descending, stepping, scoring]
  simp [Loop.stepped, Nat.mul_succ]

/-- **The records of the steps**, in their order. -/
theorem recordsOf_steps (hs : t.loop.state j = some s) :
    (OutputLog.recordsOf t.leader (t.plan.writes t.leader) (4 * j + 2)).length = j ∧
      ∀ i < j, ∃ before after, t.loop.state i = some before ∧
        t.loop.state (i + 1) = some after ∧
        (t.loop.total before.theta).mean? = some after.cost ∧
        (OutputLog.recordsOf t.leader (t.plan.writes t.leader) (4 * j + 2))[i]? = some
          { writer := t.leader, superstep := 4 * (i + 1), theta := after.theta,
            cost := after.cost } := by
  induction j generalizing s with
  | zero =>
    refine ⟨?_, fun i hi => absurd hi i.not_lt_zero⟩
    have opening : t.plan.writes t.leader 0 = [] := writes_opening
    have scoring : t.plan.writes t.leader (4 * 0 + 1) = [] := writes_scoring
    simp [OutputLog.recordsOf, List.range_succ, opening, scoring]
  | succ j ih =>
    obtain ⟨u, hu, -⟩ := Option.bind_eq_some_iff.mp hs
    obtain ⟨cost, goesOn, stepped⟩ := Loop.goOn_of_lt hu hs (Nat.lt_succ_self j)
    obtain ⟨length, steps⟩ := ih hu
    rw [recordsOf_iteration hu goesOn]
    refine ⟨by simp [length], fun i hi => ?_⟩
    rcases Nat.lt_or_eq_of_le (Nat.le_of_lt_succ hi) with hlt | rfl
    · obtain ⟨before, after, hb, ha, mean, found⟩ := steps i hlt
      refine ⟨before, after, hb, ha, mean, ?_⟩
      rw [List.getElem?_append_left (by omega)]
      exact found
    · refine ⟨u, t.loop.stepped u cost, hu, stepped, Loop.mean_of_goOn goesOn, ?_⟩
      rw [List.getElem?_append_right (by omega), length]
      simp [Loop.stepped]

/-- The records of the steps and the closing one. -/
theorem wrote_closing (hs : t.loop.state j = some s) {last : List F × F}
    (hl : t.closing s = [last]) : t.loop.Wrote t.leader j last
      (OutputLog.recordsOf t.leader (t.plan.writes t.leader) (4 * j + 3)) := by
  obtain ⟨length, steps⟩ := recordsOf_steps hs
  have closing : t.plan.writes t.leader (4 * j + 2) = [last] := by
    rw [writes_judging hs, if_pos rfl, hl]
  rw [show 4 * j + 3 = 4 * j + 2 + 1 from rfl, OutputLog.recordsOf_succ, closing]
  refine ⟨by simp [length], fun i hi => ?_, ?_⟩
  · obtain ⟨before, after, hb, ha, mean, found⟩ := steps i hi
    refine ⟨before, after, hb, ha, mean, ?_⟩
    rw [List.getElem?_append_left (by omega)]
    exact found
  · rw [List.getElem?_append_right (by omega), length]
    simp

/-! ### The log of a job that is over -/

/-- **What the log of a training job says**, by how the job has ended. -/
structure Recorded (t : Setting F)
    (y : Execution F (Payload F) (Stage F) (TrainingError F) (Summary F)) : Prop where
  /-- Only the leader writes. -/
  alone : ∀ entry ∈ y.output.toList, entry.writer = t.leader
  /-- What the peers take for the parameters after so many updates is what the loop says. -/
  held : ∀ s ∈ y.stations, ∀ state sum,
    s.activity = .running (.done (.ok (.goOn (.scoring state sum)))) →
      t.loop.state state.iteration = some state
  converged : ∀ values, y.ending? = some (.values values) → ∃ j s cost,
    t.loop.state j = some s ∧ (t.loop.total s.theta).mean? = some cost ∧
    (values = t.cluster.names.map fun peer =>
      { theta := s.theta, cost, iterations := j + 1, examples := (t.loop.total s.theta).count,
        role := t.role peer }) ∧
    t.loop.Wrote t.leader j (s.theta, cost) y.output.toList
  diverged : ∀ alpha iteration cost previous,
    y.ending? = some (.failed (.diverged alpha iteration cost previous)) → ∃ j s,
      iteration = j + 1 ∧ t.loop.state j = some s ∧
      (t.loop.total s.theta).mean? = some cost ∧ previous = s.cost ∧
      (j = 0 → s.cost = Scalar.largest) ∧
      t.loop.Wrote t.leader j (s.theta, s.cost) y.output.toList
  /-- A job that fails for another reason has not written anything. -/
  failed : ∀ ending, y.ending? = some ending → (∀ values, ending ≠ .values values) →
    (∀ alpha iteration cost previous,
      ending ≠ .failed (.diverged alpha iteration cost previous)) →
    y.output.toList = []

/-- If there are no rows when an iteration is over, it was the first one. -/
theorem eq_zero_of_empty (hs : t.loop.state j = some s) (empty : t.loop.turnout s = .empty) :
    j = 0 := by
  by_contra later
  obtain ⟨cost, goesOn, -⟩ := Loop.goOn_of_lt (s := .start t.loop.start) rfl hs
    (Nat.pos_of_ne_zero later)
  have none := Loop.mean_of_empty empty
  have some := Loop.mean_of_goOn goesOn
  -- there are as many rows in every iteration
  have count : (t.loop.total s.theta).count =
      (t.loop.total (RunState.start t.loop.start).theta).count := by
    rw [loop, Loop.count_ofShares, Loop.count_ofShares]
  simp only [PartialCost.mean?, count] at none some
  split at none <;> simp_all

section Conduct

variable {marks : Nat → Mark} {chronicle : Chronicle (Payload F)}
  {y : Execution F (Payload F) (Stage F) (TrainingError F) (Summary F)}
  {u : Station F (Payload F) (Stage F) (TrainingError F) (Summary F)}
  (h : Execution.Conduct t.plan (fun seat => t.Between seat.name) marks y chronicle)

include h

/-- The log when somebody is over in a superstep in which the leader has nothing more to write. -/
theorem toList_of_leaves (hu : u ∈ y.stations)
    {outcome : Outcome (TrainingError F) (Summary F)}
    (leaves : t.plan.leaves u.seat.name u.superstep outcome)
    (whole : y.output.wrote t.leader u.superstep = t.plan.writes t.leader u.superstep) :
    y.output.toList =
      OutputLog.recordsOf t.leader (t.plan.writes t.leader) (u.superstep + 1) :=
  h.toList_eq t.leader_mem (fun _ _ follows => writes_of_ne follows) hu (Nat.le_refl _)
    (not_passes_of_leaves (h.mem_peers hu) leaves) whole

/-- What is not to be written is not written. -/
theorem wrote_leader_eq_nil {k : Nat} (silent : t.plan.writes t.leader k = []) :
    y.output.wrote t.leader k = [] := by
  obtain ⟨v, hv, named⟩ := h.exists_station t.leader_mem
  have sub := h.wrote_prefix hv k
  rw [named, silent] at sub
  exact List.prefix_nil.mp sub

/-- If somebody is over where the leader has not had anything to write, the log is empty. -/
theorem toList_eq_nil (hu : u ∈ y.stations) {outcome : Outcome (TrainingError F) (Summary F)}
    (leaves : t.plan.leaves u.seat.name u.superstep outcome)
    (silent : ∀ k ≤ u.superstep, t.plan.writes t.leader k = []) : y.output.toList = [] := by
  have none := silent u.superstep (Nat.le_refl _)
  rw [toList_of_leaves h hu leaves ((wrote_leader_eq_nil h none).trans none.symm),
    OutputLog.recordsOf, List.flatMap_eq_nil_iff]
  intro k hk
  rw [silent k (Nat.le_of_lt_succ (List.mem_range.mp hk)), List.map_nil]

/-- **The log of a job that fails for another reason is empty.** -/
theorem toList_of_failure (hu : u ∈ y.stations)
    {outcome : Outcome (TrainingError F) (Summary F)}
    (leaves : t.plan.leaves u.seat.name u.superstep outcome)
    (novalue : ∀ value, outcome ≠ .value value)
    (undiverged : ∀ alpha iteration cost previous,
      outcome ≠ .failed (.diverged alpha iteration cost previous)) : y.output.toList = [] := by
  have opening : t.plan.writes t.leader 0 = [] := writes_opening
  have scoring : t.plan.writes t.leader 1 = [] := writes_scoring (j := 0)
  refine toList_eq_nil h hu leaves fun k hk => ?_
  rcases leaves_cases leaves with ⟨hk', -⟩ | ⟨j, hk', misfits⟩ | ⟨j, result, hr, rfl, hk'⟩
  · obtain rfl : k = 0 := by omega
    exact opening
  · obtain rfl : j = 0 := by
      by_contra later
      have passes : t.plan.Passes (4 * 0 + 1) := h.passes_of_lt hu (by omega)
      exact not_misfits (fits_of_passes passes) (h.mem_peers hu) misfits
    obtain rfl | rfl : k = 0 ∨ k = 1 := by omega
    · exact opening
    · exact scoring
  · obtain ⟨s, hs, ⟨empty, rfl⟩ | ⟨failure, diverged, rfl⟩ | ⟨cost, -, rfl⟩⟩ :=
      Loop.result_cases hr
    · obtain rfl := eq_zero_of_empty hs empty
      have judging : t.plan.writes t.leader 2 = [] :=
        writes_judging_eq_nil hs (closing_of_empty empty)
      rcases hk' with ⟨hk', -⟩ | ⟨-, v, failure, hv, hd, -⟩
      · obtain rfl | rfl | rfl : k = 0 ∨ k = 1 ∨ k = 2 := by omega
        · exact opening
        · exact scoring
        · exact judging
      · obtain rfl := Option.some.inj (hs.symm.trans hv)
        rw [empty] at hd
        cases hd
    · obtain ⟨mean, -, rfl⟩ := Loop.mean_of_diverged diverged
      exact absurd rfl (undiverged _ _ _ _)
    · exact absurd rfl (novalue _)

/-- **The log of a job that ends well.** -/
theorem log_of_values {values : List (Summary F)} (he : y.ending? = some (.values values)) :
    ∃ j s cost, t.loop.state j = some s ∧ (t.loop.total s.theta).mean? = some cost ∧
      (values = t.cluster.names.map fun peer =>
        { theta := s.theta, cost, iterations := j + 1, examples := (t.loop.total s.theta).count,
          role := t.role peer }) ∧
      t.loop.Wrote t.leader j (s.theta, cost) y.output.toList := by
  obtain ⟨j, last, hr, hv, all⟩ := exists_of_values h he
  obtain ⟨s, hs, ⟨-, hl⟩ | ⟨failure, -, hl⟩ | ⟨cost, converged, hl⟩⟩ := Loop.result_cases hr
  · cases hl
  · cases hl
  · obtain rfl := Except.ok.inj hl
    obtain ⟨v, hv', named⟩ := h.exists_station t.leader_mem
    obtain ⟨superstep, gone⟩ := all v hv'
    obtain ⟨leaves, wrote⟩ := h.mayLeave hv' (.inr gone)
    have closing := closing_of_converged converged
    have log := toList_of_leaves h hv' leaves (named ▸ wrote)
    rw [superstep] at log
    refine ⟨j, s, cost, hs, Loop.mean_of_converged converged, ?_, log ▸ wrote_closing hs closing⟩
    rw [← Loop.iteration_of_state hs]
    exact Ending.values.inj hv

/-- **The log of a job that fails because the cost went up.** -/
theorem log_of_diverged {alpha cost previous : F} {iteration : Nat}
    (he : y.ending? = some (.failed (.diverged alpha iteration cost previous))) :
    ∃ j s, iteration = j + 1 ∧ t.loop.state j = some s ∧
      (t.loop.total s.theta).mean? = some cost ∧ previous = s.cost ∧
      (j = 0 → s.cost = Scalar.largest) ∧
      t.loop.Wrote t.leader j (s.theta, s.cost) y.output.toList := by
  obtain ⟨v, hv, leaves⟩ := exists_of_failed h he
  obtain ⟨j, s, superstep, hs, diverged⟩ := diverged_of_leaves leaves
  obtain ⟨mean, hm, hd⟩ := Loop.mean_of_diverged diverged
  obtain ⟨-, rfl, rfl, rfl⟩ := TrainingError.diverged.inj hd
  have closing := closing_of_diverged diverged
  -- the leader has nothing to write at the barrier in between, so its last record is not missing
  have silent : t.plan.writes t.leader (4 * j + 3) = [] := writes_descending
  have none := wrote_leader_eq_nil h silent
  have log := toList_of_leaves h hv leaves (by rw [superstep, none, silent])
  rw [superstep, OutputLog.recordsOf_succ, silent, List.map_nil, List.append_nil] at log
  refine ⟨j, s, ?_, hs, hm, rfl, ?_, log ▸ wrote_closing hs closing⟩
  · rw [Loop.iteration_of_state hs]
  · rintro rfl
    obtain rfl := Option.some.inj hs
    rfl

/-- **The log of a job whose rows fit**, when the job has ended: all that the leader was to
write. -/
theorem toList_of_ending (probed : t.Probed) (fit : ∀ peer ∈ t.cluster.names, t.Fits peer)
    {ending : Ending (TrainingError F) (Summary F)} (he : y.ending? = some ending) :
    ∃ j result, t.loop.result j = some result ∧ ending = t.ending result ∧
      y.output.toList = OutputLog.recordsOf t.leader (t.plan.writes t.leader) (4 * j + 3) := by
  cases ending with
  | values values =>
    obtain ⟨j, last, hr, hv, all⟩ := exists_of_values h he
    obtain ⟨v, hv', named⟩ := h.exists_station t.leader_mem
    obtain ⟨superstep, gone⟩ := all v hv'
    obtain ⟨leaves, wrote⟩ := h.mayLeave hv' (.inr gone)
    have log := toList_of_leaves h hv' leaves (named ▸ wrote)
    rw [superstep] at log
    exact ⟨j, .ok last, hr, hv, log⟩
  | failed failure =>
    obtain ⟨v, hv, leaves⟩ := exists_of_failed h he
    rcases leaves_cases leaves with ⟨-, -, unprobed, -⟩ | ⟨j, -, misfits⟩ | ⟨j, result, hr, ho, hk⟩
    · exact absurd probed unprobed
    · exact absurd misfits (not_misfits fit (h.mem_peers hv))
    · cases result with
      | ok last => cases ho
      | error other =>
        obtain rfl := Outcome.failed.inj ho
        refine ⟨j, .error failure, hr, rfl, ?_⟩
        -- the leader had nothing to write where somebody failed
        have silent : t.plan.writes t.leader v.superstep = [] := by
          rcases hk with ⟨hk, empty⟩ | ⟨hk, -⟩
          · obtain ⟨s, hs, ⟨none, -⟩ | ⟨other, diverged, hf⟩ | ⟨cost, -, hf⟩⟩ :=
              Loop.result_cases hr
            · rw [hk, writes_judging_eq_nil hs (closing_of_empty none)]
            · obtain rfl := Except.error.inj hf
              obtain ⟨mean, -, hd⟩ := Loop.mean_of_diverged diverged
              rw [empty _ rfl] at hd
              cases hd
            · cases hf
          · rw [hk, writes_descending]
        have log := toList_of_leaves h hv leaves
          ((wrote_leader_eq_nil h silent).trans silent.symm)
        rcases hk with ⟨hk, -⟩ | ⟨hk, -⟩
        · rw [hk] at log
          exact log
        · rw [OutputLog.recordsOf_succ, silent, hk] at log
          simpa using log
  | crashed name =>
    obtain ⟨j, result, -, hc⟩ := result_of_ending h probed fit he
    cases result <;> cases hc

/-- **Peers that keep to the plan leave the log as it is to be.** -/
theorem recorded_of_conduct : t.Recorded y where
  alone _ he := h.writer_eq (fun _ _ follows => writes_of_ne follows) he
  held s hs state sum ha := by
    obtain ⟨j, read, hj, -⟩ := h.inv hs ha
    rw [Loop.iteration_of_state hj]
    exact hj
  converged _ he := log_of_values h he
  diverged _ _ _ _ he := log_of_diverged h he
  failed ending he novalues undiverged := by
    cases ending with
    | values values => exact absurd rfl (novalues values)
    | failed failure =>
      obtain ⟨v, hv, leaves⟩ := exists_of_failed h he
      refine toList_of_failure h hv leaves ?_ ?_
      · rintro value ⟨⟩
      · rintro alpha iteration cost previous ⟨⟩
        exact undiverged alpha iteration cost previous rfl
    | crashed name =>
      obtain ⟨v, hv, leaves⟩ := exists_of_crashed h he
      refine toList_of_failure h hv leaves ?_ ?_
      · rintro value ⟨⟩
      · rintro alpha iteration cost previous ⟨⟩

end Conduct

/-- The end of a job says how many records there are. -/
theorem Recorded.length_eq
    {y z : Execution F (Payload F) (Stage F) (TrainingError F) (Summary F)} (hy : t.Recorded y)
    (hz : t.Recorded z) {ending : Ending (TrainingError F) (Summary F)}
    (ey : y.ending? = some ending) (ez : z.ending? = some ending) :
    y.output.toList.length = z.output.toList.length := by
  by_cases values : ∃ values, ending = .values values
  · obtain ⟨values, rfl⟩ := values
    obtain ⟨j, s, cost, -, -, hv, wrote⟩ := hy.converged values ey
    obtain ⟨j', s', cost', -, -, hv', wrote'⟩ := hz.converged values ez
    obtain ⟨first, rest, hn⟩ := List.exists_cons_of_ne_nil t.cluster.names_ne_nil
    have same := congrArg (fun list => list.head?.map Summary.iterations) (hv.symm.trans hv')
    simp only [hn, List.map_cons, List.head?_cons, Option.map_some, Option.some.injEq] at same
    rw [wrote.length, wrote'.length, same]
  · by_cases diverged : ∃ alpha iteration cost previous,
        ending = .failed (.diverged alpha iteration cost previous)
    · obtain ⟨alpha, iteration, cost, previous, rfl⟩ := diverged
      obtain ⟨j, s, hi, -, -, -, -, wrote⟩ := hy.diverged _ _ _ _ ey
      obtain ⟨j', s', hi', -, -, -, -, wrote'⟩ := hz.diverged _ _ _ _ ez
      rw [wrote.length, wrote'.length, ← hi, ← hi']
    · have none : ∀ v, ending ≠ .values v := fun v hv => values ⟨v, hv⟩
      have undiverged : ∀ alpha iteration cost previous,
          ending ≠ .failed (.diverged alpha iteration cost previous) :=
        fun alpha iteration cost previous he => diverged ⟨alpha, iteration, cost, previous, he⟩
      rw [hy.failed ending ey none undiverged, hz.failed ending ez none undiverged]

end Setting

/-! ### Who leads -/

/-- Whether the peer at a seat leads. -/
def Trainer.Leads (config : Config F) (model : Model F) (seat : Seat) : Prop :=
  ∃ trainer, Trainer.enlist config model seat = .ok trainer ∧ trainer.role = .leader

theorem Setting.leads_iff (t : Setting F) {seat : Seat} (hs : seat ∈ t.cluster.seats) :
    Trainer.Leads t.config t.model.model seat ↔ seat.name = t.leader := by
  have enlisted := Trainer.enlist_eq t.model.model t.valid
    (Cluster.peers_of_mem_seats hs ▸ t.elected)
  constructor
  · rintro ⟨trainer, ht, role⟩
    obtain rfl := Except.ok.inj (enlisted.symm.trans ht)
    by_contra other
    rw [Trainer.role, if_neg (Ne.symm other)] at role
    cases role
  · intro same
    exact ⟨_, enlisted, if_pos same.symm⟩

/-! ### Where nobody is elected -/

/-- **Where nobody is elected, nothing is written.** -/
theorem Execution.Reaches.unelected {cluster : Cluster F} {config : Config F} {model : Model F}
    {failure : ConfigError F}
    {y : Execution F (Payload F) (Stage F) (TrainingError F) (Summary F)}
    (h : (Execution.training cluster config model).Reaches y)
    (valid : config.validate = .ok config)
    (refused : config.leader.elect (F := F) cluster.names = .error failure) :
    y.output.toList = [] ∧
      ∀ ending, y.ending? = some ending → ending = .failed (.config failure) := by
  have appointed : config.appoint cluster.names = .error failure := by
    rw [Config.appoint, valid]
    exact refused
  have stalls := Execution.stalls_of_refused model appointed
  refine ⟨stalls.silent y h, fun ending he => ?_⟩
  obtain ⟨error, same, rfl⟩ | ⟨name, -, crashed, -⟩ := stalls.ended y h ending he
  · rw [Outcome.failed.inj same]
  · cases crashed

/-! ### All training jobs -/

/-- **The log of a training job.** One peer leads, and only it writes. If the job ends well or
because the cost went up, the log has one record for every iteration; if it fails for another
reason, the log is empty. When the job has ended the log does not change any more. -/
theorem training_log :
    (∀ t : Setting F,
      (∃ seat ∈ t.cluster.seats, seat.name = t.leader ∧
        ∀ other ∈ t.cluster.seats, Trainer.Leads t.config t.model.model other ↔ other = seat) ∧
      ∀ y, t.execution.Reaches y → t.Recorded y ∧
        (y.ending?.isSome → ∀ z, y.Reaches z → z.output = y.output)) ∧
    ∀ (cluster : Cluster F) (config : Config F) (model : Model F) (failure : ConfigError F),
      config.validate = .ok config →
      config.leader.elect (F := F) cluster.names = .error failure →
      (∀ seat ∈ cluster.seats, ¬Trainer.Leads config model seat) ∧
      ∀ y, (Execution.training cluster config model).Reaches y → y.output.toList = [] ∧
        ∀ ending, y.ending? = some ending → ending = .failed (.config failure) := by
  refine ⟨fun t => ⟨?_, fun y reaches => ?_⟩, fun cluster config model failure valid refused =>
    ⟨fun seat hs => ?_, fun y reaches => reaches.unelected valid refused⟩⟩
  · obtain ⟨i, hi⟩ := List.mem_iff_getElem?.mp t.leader_mem
    refine ⟨_, Cluster.mem_seats hi, rfl, fun other ho => (t.leads_iff ho).trans ?_⟩
    refine ⟨fun named => ?_, ?_⟩
    · obtain ⟨k, hk, rfl⟩ := List.mem_mapIdx.mp ho
      have hk' := (List.getElem?_eq_getElem hk).trans (congrArg some named)
      obtain rfl : k = i := (List.getElem?_inj hk t.cluster.nodup_names).mp (hk'.trans hi.symm)
      exact congrArg (fun name => (⟨name, k, t.cluster.names⟩ : Seat)) named
    · rintro rfl
      rfl
  · obtain ⟨chronicle, run⟩ := reaches
    obtain ⟨marks, h⟩ := Setting.conduct run
    have recorded := Setting.recorded_of_conduct h
    refine ⟨recorded, fun ended z further => ?_⟩
    obtain ⟨ending, he⟩ := Option.isSome_iff_exists.mp ended
    obtain ⟨chronicle', run'⟩ := Execution.Reaches.trans ⟨chronicle, run⟩ further
    obtain ⟨marks', h'⟩ := Setting.conduct run'
    -- the log only grows, and the end, which does not change, says how long it is
    have same := further.output_prefix.eq_of_length
      (recorded.length_eq (Setting.recorded_of_conduct h') he (further.ending_eq he))
    exact OutputLog.eq_of_toList_eq same.symm
  · rintro ⟨trainer, ht, -⟩
    rw [Trainer.enlist_eq_error model valid (Cluster.peers_of_mem_seats hs ▸ refused)] at ht
    cases ht

/-- The two peers that find the line after one step leave two records of it. -/
theorem training_log_line : ∃ y, Setting.line.execution.Reaches y ∧ y.output.toList =
    [{ writer := "a", superstep := 4, theta := [2], cost := 5 },
     { writer := "a", superstep := 6, theta := [2], cost := 0 }] := by
  have loop : Setting.line.loop = .ofRows Setting.line.config Setting.line.model 1
      [⟨[1], 2⟩, ⟨[2], 4⟩] := Loop.ofShares_eq_ofRows ..
  have first : Setting.line.loop.state 1 =
      some { theta := [2], cost := 5, iteration := 1, examples := 2 } := by
    rw [loop]
    decide +kernel
  have mean : (Setting.line.loop.total [2]).mean? = some 0 := by
    rw [loop]
    decide +kernel
  have ends := Setting.inevitable_ending
    (Setting.probed_of_uniform Setting.uniform_line Setting.owns_line)
    (fun peer hp => Setting.fits_of_uniform Setting.uniform_line Setting.owns_line hp)
    Setting.result_line
  obtain ⟨y, reaches, he⟩ := ends.exists_reaches
  obtain ⟨j, s, cost, hs, hm, hv, wrote⟩ :=
    ((training_log.1 Setting.line).2 y reaches).1.converged _ he
  -- the loop has only one end
  obtain rfl : 1 = j := by
    have same := congrArg (fun list => list.head?.map Summary.iterations) hv
    exact Nat.succ.inj (Option.some.inj same)
  obtain rfl := Option.some.inj (first.symm.trans hs)
  obtain rfl := Option.some.inj (mean.symm.trans hm)
  obtain ⟨before, after, -, ha, -, step⟩ := wrote.step 0 Nat.one_pos
  obtain rfl := Option.some.inj (first.symm.trans ha)
  refine ⟨y, reaches, List.ext_getElem? fun i => ?_⟩
  rcases i with _ | _ | i
  · exact step
  · exact wrote.last
  · have length := wrote.length
    rw [List.getElem?_eq_none (by omega), List.getElem?_eq_none (by simp)]

end Superstep
