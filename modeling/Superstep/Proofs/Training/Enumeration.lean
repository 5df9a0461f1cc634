import Superstep.Proofs.Training.Mirror

/-!
# Enumeration and names

If all partitions of a job are of one width, it does not matter in which order its peers are
enumerated, nor what their names are as long as these compare alike: the jobs mirror each other
(`Superstep.training_mirrors`).

Most of it holds by the loop that both jobs carry out. What is left is that there is no loop in one
of the jobs if there is none in the other one, and this hangs on the leader alone: its partition has
the width of all others, so it can tell how many parameters there are unless it has no row. As the
policies that go by the name choose the same peer, it has rows in both jobs or in neither. The peer
in the middle of two enumerations need not be the same, and it has to be asked that both have rows.
-/

namespace Superstep

variable {F : Type}

/-- All partitions are of one width, and so are their rows. -/
def Cluster.OfWidth (cluster : Cluster F) (width : Nat) : Prop :=
  ∀ p ∈ cluster.partitions, p.featureCount = width ∧ ∀ row ∈ p.rows, row.features.length = width

theorem Cluster.Renames.ofWidth {cluster cluster' : Cluster F} {f : PeerName → PeerName}
    {width : Nat} (h : cluster.Renames f cluster') (one : cluster.OfWidth width) :
    cluster'.OfWidth width := fun p hp => one p (h.partitions_perm.mem_iff.mp hp)

variable [Scalar F]

/-! ### Settings for other names -/

namespace Config

variable {names names' : List PeerName} {f : PeerName → PeerName}

/-- Settings are accepted or refused whatever the names are. -/
theorem validate_rename (f : PeerName → PeerName) (config : Config F) :
    (config.validate = .ok config ∧ (config.rename f).validate = .ok (config.rename f)) ∨
      ∃ failure : ConfigError F, config.validate = .error failure ∧
        (config.rename f).validate = .error (failure.rename f) := by
  by_cases alpha : (!Scalar.isFinite config.alpha || Scalar.atMost config.alpha Scalar.zero) = true
  · exact .inr ⟨_, if_pos alpha, if_pos alpha⟩
  · by_cases threshold : (!Scalar.isFinite config.threshold ||
        Scalar.less config.threshold Scalar.zero) = true
    · exact .inr ⟨_, (if_neg alpha).trans (if_pos threshold),
        (if_neg alpha).trans (if_pos threshold)⟩
    · exact .inl ⟨(if_neg alpha).trans (if_neg threshold),
        (if_neg alpha).trans (if_neg threshold)⟩

/-- The same peer is appointed if it is elected. -/
theorem appoint_rename {config : Config F}
    (elect : (config.leader.rename f).elect (F := F) names' =
      ((config.leader.elect (F := F) names).map f).mapError (·.rename f)) :
    (config.rename f).appoint names' = ((config.appoint names).map f).mapError (·.rename f) := by
  rcases config.validate_rename f with ⟨valid, valid'⟩ | ⟨failure, invalid, invalid'⟩
  · rw [appoint, appoint, valid, valid']
    exact elect
  · rw [appoint, appoint, invalid, invalid']
    rfl

end Config

/-! ### Partitions of one width -/

namespace Setting

variable {t t' : Setting F} {width : Nat} {peer : PeerName}

section OfWidth

variable (one : t.cluster.OfWidth width)

include one

theorem width_of_ofWidth :
    t.width = if (t.partition t.leader).rows.isEmpty then 0 else width := by
  cases hr : (t.partition t.leader).rows with
  | nil => simp [Setting.width, hr]
  | cons row rest =>
    have mem : row ∈ (t.partition t.leader).rows := hr ▸ List.mem_cons_self
    simp only [Setting.width, hr]
    exact (one _ (Cluster.partitionOf_mem t.leader_mem)).2 row mem

theorem readable_of_ofWidth (hp : peer ∈ t.cluster.names) :
    (t.partition peer).readable = decide (width + 1 < wordLimit) := by
  rw [Partition.readable, partition, (one _ (Cluster.partitionOf_mem hp)).1]

/-- If the leader can tell how many parameters there are, all rows fit. -/
theorem fits_of_probed (probed : t.Probed) (hp : peer ∈ t.cluster.names) : t.Fits peer := by
  obtain ⟨readable, pos⟩ := probed
  have owns : ¬(t.partition t.leader).rows.isEmpty = true := fun none => by
    rw [width_of_ofWidth one, if_pos none] at pos
    exact Nat.lt_irrefl 0 pos
  refine ⟨?_, fun row hr => ?_⟩
  · rw [readable_of_ofWidth one hp, ← readable_of_ofWidth one t.leader_mem]
    exact readable
  · rw [width_of_ofWidth one, if_neg owns]
    exact (one _ (Cluster.partitionOf_mem hp)).2 row hr

end OfWidth

/-- **Jobs of one width mirror each other** if their leaders both have rows, or neither has. -/
theorem mirrors_of_ofWidth {f : PeerName → PeerName} {view : View}
    (renames : t.cluster.Renames f t'.cluster) (config : t'.config = t.config.rename f)
    (model : t'.model = t.model) (one : t.cluster.OfWidth width)
    (rows : (t'.partition t'.leader).rows.isEmpty = (t.partition t.leader).rows.isEmpty)
    (roles : ∀ peer ∈ t.cluster.names, view.role (t.role peer) = view.role (t'.role (f peer)))
    (leads : view.name (f t.leader) = view.name t'.leader) :
    t.execution.Mirrors view f t'.execution := by
  have one' : t'.cluster.OfWidth width := renames.ofWidth one
  have h : t.Renames f t' :=
    ⟨renames, config, model, by rw [width_of_ofWidth one', width_of_ofWidth one, rows]⟩
  have readable : (t'.partition t'.leader).readable = (t.partition t.leader).readable := by
    rw [readable_of_ofWidth one' t'.leader_mem, readable_of_ofWidth one t.leader_mem]
  have probed_iff : t'.Probed ↔ t.Probed := by rw [Probed, Probed, readable, h.width]
  by_cases probed : t.Probed
  · have probed' := probed_iff.mpr probed
    exact h.mirrors probed probed' (fun peer hp => fits_of_probed one probed hp)
      (fun peer hp => fits_of_probed one' probed' hp) roles leads
  · have unprobed' := mt probed_iff.mp probed
    have same : t.stranding.Mirrors view f t'.stranding := by
      rw [stranding, stranding, readable]
      split
      · exact .failed .dimensionProbe
      · exact .crashed
    refine (stalls probed).mirrors (stalls unprobed') (ends_stranded probed)
      (ends_stranded unprobed') same ?_
    rintro - name name' rfl rfl
    exact leads

end Setting

/-! ### All training jobs -/

section Clusters

open Execution

variable {cluster cluster' : Cluster F} {config : Config F} {f : PeerName → PeerName}
  {width : Nat} (m : TotalModel F) (renames : cluster.Renames f cluster')
  (unread : cluster.Unread)

include renames unread

/-- Jobs in which nobody is appointed mirror each other. -/
theorem mirrors_of_refused {view : View} {failure : ConfigError F}
    (refused : config.appoint cluster.names = .error failure)
    (refused' : (config.rename f).appoint cluster'.names = .error (failure.rename f)) :
    (training cluster config m.model).Mirrors view f
      (training cluster' (config.rename f) m.model) :=
  (stalls_of_refused m.model refused).mirrors (stalls_of_refused m.model refused')
    (ends_of_refused m.model refused unread)
    (ends_of_refused m.model refused' (renames.unread unread)) (.failed (.config failure))
    fun crashed => by cases crashed

variable (one : cluster.OfWidth width)

include one

/-- Jobs in which somebody is elected mirror each other. -/
theorem mirrors_of_elected {view : View} {leader leader' : PeerName}
    (elected : config.leader.elect (F := F) cluster.names = .ok leader)
    (elected' : (config.rename f).leader.elect (F := F) cluster'.names = .ok leader')
    (rows : (cluster'.partitionOf leader').rows.isEmpty = (cluster.partitionOf leader).rows.isEmpty)
    (roles : ∀ peer ∈ cluster.names, view.role (if leader = peer then .leader else .follower) =
      view.role (if leader' = f peer then .leader else .follower))
    (leads : view.name (f leader) = view.name leader') :
    (training cluster config m.model).Mirrors view f
      (training cluster' (config.rename f) m.model) := by
  rcases config.validate_rename f with ⟨valid, valid'⟩ | ⟨failure, invalid, invalid'⟩
  · let t : Setting F := ⟨cluster, config, m, leader, unread, valid, elected⟩
    let t' : Setting F :=
      ⟨cluster', config.rename f, m, leader', renames.unread unread, valid', elected'⟩
    have config_eq : t'.config = t.config.rename f := rfl
    have model_eq : t'.model = t.model := rfl
    exact Setting.mirrors_of_ofWidth renames config_eq model_eq one rows roles leads
  · have refused : config.appoint cluster.names = .error failure := by
      rw [Config.appoint, invalid]
      rfl
    have refused' : (config.rename f).appoint cluster'.names = .error (failure.rename f) := by
      rw [Config.appoint, invalid']
      rfl
    exact mirrors_of_refused m renames unread refused refused'

end Clusters

/-- **Neither the order of enumeration nor the names matter.** Let two jobs have the same
partitions, of one width and not read by anybody yet (`Cluster.Unread`), in any order and under
names that compare alike. If the leader is not elected for its place in the enumeration, or
everybody keeps its place, the same peer is elected and the jobs mirror each other. If another peer
may be in the middle, they do so but for who leads, as long as both leaders have rows. -/
theorem training_mirrors (m : TotalModel F) (config : Config F) (f : PeerName → PeerName)
    (cluster cluster' : Cluster F) (width : Nat) (unread : cluster.Unread)
    (one : cluster.OfWidth width) (order : KeepsOrder f (config.leader.named ++ cluster.names))
    (pairs : cluster'.pairs.Perm (cluster.pairs.map (Prod.map f id))) :
    (config.leader ≠ .middle ∨ cluster'.names = cluster.names.map f →
      (config.rename f).leader.elect (F := F) cluster'.names =
        ((config.leader.elect (F := F) cluster.names).map f).mapError (·.rename f) ∧
      (Execution.training cluster config m.model).Mirrors .whole f
        (.training cluster' (config.rename f) m.model)) ∧
    ∀ leader leader', config.leader.elect (F := F) cluster.names = .ok leader →
      (config.rename f).leader.elect (F := F) cluster'.names = .ok leader' →
      (cluster.partitionOf leader).rows ≠ [] → (cluster'.partitionOf leader').rows ≠ [] →
      (Execution.training cluster config m.model).Mirrors .unled f
        (.training cluster' (config.rename f) m.model) := by
  have renames : cluster.Renames f cluster' :=
    ⟨order.mono (List.subset_append_right ..), pairs⟩
  refine ⟨fun placed => ?_, fun leader leader' elected elected' owns owns' => ?_⟩
  · have elect := renames.elect_eq order placed
    refine ⟨elect, ?_⟩
    have appoint := Config.appoint_rename elect
    cases appointed : config.appoint cluster.names with
    | error failure =>
      rw [appointed] at appoint
      exact mirrors_of_refused m renames unread appointed appoint
    | ok leader =>
      have elected := (Config.appoint_eq_ok appointed).2
      have mem : leader ∈ cluster.names := LeaderPolicy.elect_mem elected
      rw [elected] at elect
      refine mirrors_of_elected m renames unread one elected elect ?_ (fun peer hp => ?_) rfl
      · rw [renames.partitionOf_eq mem]
      · have same : f leader = f peer ↔ leader = peer :=
          ⟨renames.order.inj mem hp, congrArg f⟩
        simp only [same]
  · have some {list : List (Sample F)} (owned : list ≠ []) : list.isEmpty = false :=
      Bool.not_eq_true _ ▸ mt List.isEmpty_iff.mp owned
    exact mirrors_of_elected m renames unread one elected elected'
      ((some owns').trans (some owns).symm) (fun _ _ => rfl) rfl

namespace Setting

/-- The two peers with a row each on one line, in the other order and under longer names. -/
def lineTurned : Cluster ℚ where
  names := ["peer-b", "peer-a"]
  partitions := [.ofRows 1 [⟨[2], 4⟩], .ofRows 1 [⟨[1], 2⟩]]
  names_ne_nil := by decide
  length_partitions := rfl
  nodup_names := by decide

/-- The peer with the smaller name leads in either order, but the one in the middle is another
one. -/
theorem training_mirrors_line :
    line.execution.Mirrors .whole ("peer-" ++ ·)
        (.training lineTurned line.config line.model.model) ∧
      (Execution.training line.cluster { line.config with leader := .middle }
          line.model.model).Mirrors .unled ("peer-" ++ ·)
        (.training lineTurned { line.config with leader := .middle } line.model.model) := by
  have one : line.cluster.OfWidth 1 := fun p hp =>
    ⟨uniform_line.featureCount p hp, uniform_line.rows p hp⟩
  have order : KeepsOrder ("peer-" ++ ·) line.cluster.names := by
    simp only [KeepsOrder]
    decide
  have pairs : lineTurned.pairs.Perm (line.cluster.pairs.map (Prod.map ("peer-" ++ ·) id)) :=
    List.Perm.swap ..
  constructor
  · exact ((training_mirrors line.model line.config ("peer-" ++ ·) line.cluster lineTurned 1
      line.unread one order pairs).1 (.inl (by decide))).2
  · exact (training_mirrors line.model { line.config with leader := .middle } ("peer-" ++ ·)
      line.cluster lineTurned 1 line.unread one order pairs).2 "b" "peer-a" rfl rfl
      (by decide) (by decide)

end Setting

end Superstep
