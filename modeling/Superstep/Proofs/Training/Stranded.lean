import Superstep.Proofs.Cluster.Idle
import Superstep.Proofs.Training.Jobs

/-!
# Training jobs that come to nothing

A training job has a loop to carry out only if it can be told what the first parameters are. There
are two reasons why it cannot. If the settings are refused or name no leader, every peer finds this
out by itself and fails (`Superstep.Execution.stalls_of_refused`). And if the leader has no row with
a feature in it, or none it can read, it is over while the others wait for its parameters
(`Superstep.Setting.stalls`). Either way the job comes to nothing.
-/

namespace Superstep

open Program TrainingProgram

variable {F : Type} [Scalar F]

/-! ### Nobody leads -/

namespace Config

/-- Who is to lead, if the settings are accepted. -/
def appoint (config : Config F) (names : List PeerName) : Except (ConfigError F) PeerName := do
  let config ← config.validate
  config.leader.elect names

variable {config : Config F} {names : List PeerName} {failure : ConfigError F}

theorem validate_cases (config : Config F) :
    config.validate = .ok config ∨ ∃ failure, config.validate = .error failure := by
  unfold validate
  split
  · exact .inr ⟨_, rfl⟩
  · split
    · exact .inr ⟨_, rfl⟩
    · exact .inl rfl

/-- Who is appointed has been elected with accepted settings. -/
theorem appoint_eq_ok {leader : PeerName} (h : config.appoint names = .ok leader) :
    config.validate = .ok config ∧ config.leader.elect (F := F) names = .ok leader := by
  rcases config.validate_cases with valid | ⟨failure, invalid⟩
  · rw [appoint, valid] at h
    exact ⟨valid, h⟩
  · rw [appoint, invalid] at h
    cases h

end Config

/-- Where nobody is appointed, nobody is set to train. -/
theorem Trainer.enlist_of_refused {config : Config F} (model : Model F) {seat : Seat}
    {failure : ConfigError F} (refused : config.appoint seat.peers = .error failure) :
    Trainer.enlist config model seat = .error (.config failure) := by
  rcases config.validate_cases with valid | ⟨other, invalid⟩
  · rw [Config.appoint, valid] at refused
    exact Trainer.enlist_eq_error model valid refused
  · rw [Config.appoint, invalid] at refused
    obtain rfl := Except.error.inj refused
    simp [Trainer.enlist, invalid, Except.mapError, Bind.bind, Except.bind]

namespace Execution

section Refused

variable {cluster : Cluster F} {config : Config F} {failure : ConfigError F} (model : Model F)
  (refused : config.appoint cluster.names = .error failure)

include refused

theorem suits_of_refused :
    (Plan.idle cluster.names (fun _ => True) (.failed (.config failure))).Suits
      (fun _ stage now => stage = Stage.start ∧ now.superstep = 0 ∧ now.wrote = []) cluster
      fun seat => Trainer.processOf (Trainer.enlist config model seat) := by
  refine ⟨rfl, fun i name partition _ _ => ?_, fun i name _ stage now h => ?_⟩
  · rw [Trainer.enlist_of_refused model refused]
    exact ⟨rfl, rfl, rfl⟩
  · rw [Trainer.enlist_of_refused model refused]
    exact ⟨⟨h.2.1, trivial, rfl⟩, h.2.2⟩

/-- **Where nobody is appointed**, all peers fail at once. -/
theorem stalls_of_refused : (training cluster config model).Stalls .start (fun _ => True)
    (.failed (.config failure)) := by
  obtain ⟨name, hn⟩ := List.exists_mem_of_ne_nil _ cluster.names_ne_nil
  exact stalls_of_suits (suits_of_refused model refused) hn (fun _ h => by cases h)
    fun _ _ _ h => h.1

theorem ends_of_refused (unread : cluster.Unread) :
    (training cluster config model).Inevitable fun y => y.ending?.isSome := by
  obtain ⟨name, hn⟩ := List.exists_mem_of_ne_nil _ cluster.names_ne_nil
  exact ends_of_suits (suits_of_refused model refused) hn (fun _ h => by cases h) trivial unread

end Refused

end Execution

/-! ### The leader has nothing to start from -/

namespace Setting

/-- How the leader is over if it cannot tell how many parameters there are. -/
def stranding (t : Setting F) : Outcome (TrainingError F) (Summary F) :=
  if (t.partition t.leader).readable then .failed .dimensionProbe else .crashed

variable {t : Setting F} {seat : Seat}

/-- **The first round where there is nothing to start from**: the leader is over, and the others
wait. -/
theorem keeps_stranded (unprobed : ¬t.Probed) (mem : seat.name ∈ t.cluster.names)
    {Inv : Stage F → Standing F (Payload F) → Prop} (mark : Mark) :
    ((t.trainer seat).round .start).run.Keeps
      (.idle t.cluster.names (t.leader = ·) t.stranding) seat.name
      ((Plan.idle t.cluster.names (t.leader = ·) t.stranding).Settles seat.name Inv mark)
      (.fresh (t.partition seat.name) 0) := by
  have unread := t.unread _ (Cluster.partitionOf_mem mem)
  rw [Trainer.round, keeps_run_bind, keeps_say]
  simp only []
  rw [keeps_run_bind]
  by_cases leads : t.leader = seat.name
  · have role : (t.trainer seat).role = .leader := if_pos leads
    rw [role, Bootstrap.agree, Bootstrap.propose, keeps_run_bind]
    refine keeps_probe (congrArg t.partition leads) unread (fun probed => absurd probed unprobed)
      (fun readable _ => ⟨⟨rfl, leads, ?_⟩, rfl⟩) fun unreadable => ⟨⟨rfl, leads, ?_⟩, rfl⟩
    · rw [stranding, leads, if_pos readable]
    · rw [stranding, leads, unreadable]
      rfl
  · have role : (t.trainer seat).role = .follower := if_neg leads
    rw [role, Bootstrap.agree, Bootstrap.await, keeps_run_bind, keeps_say]
    simp only []
    rw [keeps_run_bind, keeps_sync]
    exact ⟨leads, fun passes => absurd passes (Plan.not_passes_idle t.leader_mem rfl 0)⟩

theorem stranding_ne_value (value : Summary F) : t.stranding ≠ .value value := by
  unfold stranding
  split <;> simp

section Stranded

variable (unprobed : ¬t.Probed)

include unprobed

theorem suits_stranded : (Plan.idle t.cluster.names (t.leader = ·) t.stranding).Suits
    (fun seat stage now => stage = Stage.start ∧ now = .fresh (t.partition seat.name) 0) t.cluster
    fun seat => Trainer.processOf (Trainer.enlist t.config t.model.model seat) := by
  refine ⟨rfl, fun i name partition hn hp => ?_, fun i name hn => ?_⟩
  · rw [Trainer.enlist_eq t.model.model t.valid t.elected]
    exact ⟨rfl, by rw [Setting.partition, Cluster.partitionOf_eq hn hp]⟩
  · rw [Trainer.enlist_eq t.model.model t.valid t.elected]
    rintro stage now ⟨rfl, rfl⟩
    have mem : (⟨name, i, t.cluster.names⟩ : Seat).name ∈ t.cluster.names :=
      List.mem_of_getElem? hn
    exact keeps_stranded unprobed mem _

/-- **Where there is nothing to start from**, the leader is over at once. -/
theorem stalls : t.execution.Stalls .start (t.leader = ·) t.stranding :=
  Execution.stalls_of_suits (suits_stranded unprobed) t.leader_mem stranding_ne_value
    fun _ _ _ h => h.1

theorem ends_stranded : t.execution.Inevitable fun y => y.ending?.isSome :=
  Execution.ends_of_suits (suits_stranded unprobed) t.leader_mem stranding_ne_value rfl
    t.unread

end Stranded

end Setting

end Superstep
