import Superstep.Data.Dataset
import Superstep.Proofs.Cluster.Conduct
import Superstep.Proofs.Training.Exchange
import Superstep.Proofs.Training.Programs
import Superstep.Proofs.Training.Sequential

/-!
# What a training job is about

A training job is given by a cluster, settings, a model and a leader (`Superstep.Setting`), and all
that its peers do is known from these in advance: there is a loop that they carry out together
(`Superstep.Setting.loop`), and in each superstep every peer has its part of it
(`Superstep.Setting.plan`).

After the first superstep, in which the leader proposes the first parameters, iterations of four
supersteps follow one another (`Superstep.Slot`).

| slot | a peer | and is over if |
|---|---|---|
| opening | waits for the parameters, which the leader sends | the leader has no row to probe |
| scoring | sends the costs of its rows | a row does not fit, or somebody left for that |
| judging | adds up all costs | there are no rows, or the cost is small enough |
| descending | sends the gradient of its rows | the cost went up |
| stepping | adds up all gradients and takes a step | never |

The leader also writes, where it judges if there is no other iteration, and else where it steps.
-/

namespace Superstep

variable {F : Type}

/-! ### Partitions by names -/

namespace Cluster

/-- The rows of each peer, by its name. -/
def shares (cluster : Cluster F) : List (PeerName × List (Sample F)) :=
  cluster.names.zip (cluster.partitions.map (·.rows))

/-- The partition of the peer of a name. -/
def partitionOf (cluster : Cluster F) (name : PeerName) : Partition F :=
  ((cluster.names.zip cluster.partitions).lookup name).getD (.empty 0)

/-- **Nobody has read any of the rows yet.** The theorems on whole training jobs assume it, since a
pass begins where its peer has got to: who had read some rows before would leave them out of its
first costs. Clusters are made so (`unread_of_ofRows`, `unread_of_split`,
`unread_of_toPartition`). -/
def Unread (cluster : Cluster F) : Prop := ∀ p ∈ cluster.partitions, p.unread = p.rows

section Unread

variable {cluster : Cluster F}

/-- Nobody has read anything if each partition is as it was made of its rows, be there any or
none. -/
theorem unread_of_ofRows
    (made : cluster.partitions.Forall fun p => p = .ofRows p.featureCount p.rows) :
    cluster.Unread :=
  fun p hp => Partition.unread_eq_rows_iff.mpr (List.forall_iff_forall_mem.mp made p hp)

/-- Nobody has read anything if a dataset has just been shared out. -/
theorem unread_of_split {d : Dataset F} {n : Nat} (split : cluster.partitions = d.split n) :
    cluster.Unread :=
  fun _ hp => Dataset.unread_of_mem_split (split ▸ hp)

/-- A single peer that has just been given a whole dataset has not read anything. -/
theorem unread_of_toPartition {d : Dataset F} (whole : cluster.partitions = [d.toPartition]) :
    cluster.Unread :=
  unread_of_ofRows (by rw [whole]; exact rfl)

end Unread

theorem lookup_zip {α : Type} {names : List PeerName} {list : List α} (nodup : names.Nodup)
    {i : Nat} {name : PeerName} {a : α} (hn : names[i]? = some name) (ha : list[i]? = some a) :
    (names.zip list).lookup name = some a := by
  induction names generalizing list i with
  | nil => simp at hn
  | cons first rest ih =>
    obtain ⟨absent, nodup⟩ := List.nodup_cons.mp nodup
    cases list with
    | nil => simp at ha
    | cons b more =>
      cases i with
      | zero =>
        obtain rfl : first = name := by simpa using hn
        obtain rfl : b = a := by simpa using ha
        simp
      | succ i =>
        have hn : rest[i]? = some name := by simpa using hn
        have hne : (name == first) = false := by
          rw [beq_eq_false_iff_ne]
          rintro rfl
          exact absent (List.mem_of_getElem? hn)
        rw [List.zip_cons_cons, List.lookup_cons, hne]
        exact ih nodup hn (by simpa using ha)

variable {cluster : Cluster F}

theorem partitionOf_eq {i : Nat} {name : PeerName} {p : Partition F}
    (hn : cluster.names[i]? = some name) (hp : cluster.partitions[i]? = some p) :
    cluster.partitionOf name = p := by
  rw [partitionOf, lookup_zip cluster.nodup_names hn hp, Option.getD_some]

theorem partitionOf_mem {name : PeerName} (h : name ∈ cluster.names) :
    cluster.partitionOf name ∈ cluster.partitions := by
  obtain ⟨i, hi⟩ := List.mem_iff_getElem?.mp h
  obtain ⟨hlt, -⟩ := List.getElem?_eq_some_iff.mp hi
  rw [← cluster.length_partitions] at hlt
  rw [partitionOf_eq hi (List.getElem?_eq_getElem hlt)]
  exact List.getElem_mem hlt

theorem shares_eq (cluster : Cluster F) :
    cluster.shares = cluster.names.map fun name => (name, (cluster.partitionOf name).rows) := by
  refine List.ext_getElem ?_ fun i hi hi' => ?_
  · simp [shares, cluster.length_partitions]
  · rw [List.length_map] at hi'
    have hp : i < cluster.partitions.length := by rw [cluster.length_partitions]; exact hi'
    simp [shares, partitionOf_eq (List.getElem?_eq_getElem hi') (List.getElem?_eq_getElem hp)]

/-- The rows of all shares are the rows of all partitions. -/
theorem flatMap_shares (cluster : Cluster F) :
    cluster.shares.flatMap (·.2) = cluster.partitions.flatMap (·.rows) := by
  have rows : cluster.shares.map (·.2) = cluster.partitions.map (·.rows) :=
    List.map_snd_zip (by simp [cluster.length_partitions])
  rw [List.flatMap_def, rows, List.flatMap_def]

section Shares

variable [Scalar F] (cluster : Cluster F) (config : Config F) (m : TotalModel F) (width : Nat)
  (theta : List F)

/-- The costs of all shares, by the peers. -/
theorem total_shares : (Loop.ofShares config m width cluster.shares).total theta =
    (byName (·.1) (cluster.names.map fun name =>
      (name, m.score theta (cluster.partitionOf name).rows))).foldl
        (fun total part => total.merge part.2) .zero := by
  have sorted : (byName (·.1) cluster.shares).map
      (fun share => (share.1, m.score theta share.2)) =
        byName (·.1) (cluster.names.map fun name =>
          (name, m.score theta (cluster.partitionOf name).rows)) := by
    rw [map_byName, shares_eq, List.map_map]
    rfl
  rw [← sorted, List.foldl_map]
  rfl

/-- The gradients of all shares, by the peers. -/
theorem gradient_shares : (Loop.ofShares config m width cluster.shares).gradient theta =
    (byName (·.1) (cluster.names.map fun name =>
      (name, m.slope theta (cluster.partitionOf name).rows))).foldl
        (fun total part => Totals.addEntries total part.2) (Pass.flat theta) := by
  have sorted : (byName (·.1) cluster.shares).map
      (fun share => (share.1, m.slope theta share.2)) =
        byName (·.1) (cluster.names.map fun name =>
          (name, m.slope theta (cluster.partitionOf name).rows)) := by
    rw [map_byName, shares_eq, List.map_map]
    rfl
  rw [← sorted, List.foldl_map]
  rfl

end Shares

theorem mem_seats {i : Nat} {name : PeerName} (h : cluster.names[i]? = some name) :
    (⟨name, i, cluster.names⟩ : Seat) ∈ cluster.seats := by
  refine List.mem_of_getElem? (i := i) ?_
  rw [seats, List.getElem?_mapIdx, h]
  rfl

theorem peers_of_mem_seats {seat : Seat} (h : seat ∈ cluster.seats) :
    seat.peers = cluster.names := by
  obtain ⟨i, hi, rfl⟩ := List.mem_mapIdx.mp h
  rfl

end Cluster

/-! ### Supersteps -/

/-- What a superstep of a training job is for. -/
inductive Slot
  | opening
  | scoring (iteration : Nat)
  | judging (iteration : Nat)
  | descending (iteration : Nat)
  | stepping (iteration : Nat)
  deriving DecidableEq, Repr

namespace Slot

/-- What the supersteps are for, in their order. -/
def of : Nat → Slot
  | 0 => opening
  | k + 1 =>
    match k % 4 with
    | 0 => scoring (k / 4)
    | 1 => judging (k / 4)
    | 2 => descending (k / 4)
    | _ => stepping (k / 4)

@[simp] theorem of_zero : of 0 = opening := rfl

@[simp] theorem of_scoring (j : Nat) : of (4 * j + 1) = scoring j := by
  have : 4 * j % 4 = 0 := by omega
  simp [of, this]

@[simp] theorem of_judging (j : Nat) : of (4 * j + 2) = judging j := by
  have : (4 * j + 1) % 4 = 1 := by omega
  have : (4 * j + 1) / 4 = j := by omega
  simp [of, *]

@[simp] theorem of_descending (j : Nat) : of (4 * j + 3) = descending j := by
  have : (4 * j + 2) % 4 = 2 := by omega
  have : (4 * j + 2) / 4 = j := by omega
  simp [of, *]

@[simp] theorem of_stepping (j : Nat) : of (4 * j + 4) = stepping j := by
  have : (4 * j + 3) % 4 = 3 := by omega
  have : (4 * j + 3) / 4 = j := by omega
  simp [of, *]

/-- Every superstep is for something. -/
theorem cases_of (k : Nat) : k = 0 ∨ ∃ j, k = 4 * j + 1 ∨ k = 4 * j + 2 ∨ k = 4 * j + 3 ∨
    k = 4 * j + 4 := by
  rcases Nat.eq_zero_or_pos k with rfl | hk
  · exact .inl rfl
  · exact .inr ⟨(k - 1) / 4, by omega⟩

end Slot

/-! ### The setting -/

/-- **What a training job is about**: peers that have not read anything yet (`Cluster.Unread`),
settings that are accepted, a model, and a leader that all agree on. Whatever is said of a setting
is said under these assumptions. -/
structure Setting (F : Type) [Scalar F] where
  cluster : Cluster F
  config : Config F
  model : TotalModel F
  leader : PeerName
  unread : cluster.Unread
  valid : config.validate = .ok config
  elected : config.leader.elect (F := F) cluster.names = .ok leader

namespace Setting

variable [Scalar F]

/-- The leader is one of the peers. -/
theorem leader_mem (t : Setting F) : t.leader ∈ t.cluster.names := LeaderPolicy.elect_mem t.elected

/-- The partition of a peer. -/
def partition (t : Setting F) (peer : PeerName) : Partition F := t.cluster.partitionOf peer

/-- The number of features the leader tells from its first row. -/
def width (t : Setting F) : Nat :=
  match (t.partition t.leader).rows with
  | row :: _ => row.features.length
  | [] => 0

/-- Whether the leader can tell how many parameters there are. -/
def Probed (t : Setting F) : Prop := (t.partition t.leader).readable = true ∧ 0 < t.width

/-- Whether the rows of a peer fit the parameters. -/
def Fits (t : Setting F) (peer : PeerName) : Prop :=
  (t.partition peer).readable = true ∧
    ∀ row ∈ (t.partition peer).rows, row.features.length = t.width

/-- What a peer does besides training. -/
def role (t : Setting F) (peer : PeerName) : Role := if t.leader = peer then .leader else .follower

/-- What a peer ends with if the mean cost is small enough. -/
def summary (t : Setting F) (peer : PeerName) (s : RunState F) : Summary F where
  theta := s.theta
  cost := s.cost
  iterations := s.iteration
  examples := s.examples
  role := t.role peer

/-- How a peer may be over when not all rows fit: by a row of its own, or because somebody else has
left. -/
def Misfits (t : Setting F) (peer : PeerName) (outcome : Outcome (TrainingError F) (Summary F)) :
    Prop :=
  (¬t.Fits peer ∧ (outcome = .crashed ∨ ∃ row ∈ (t.partition peer).rows,
    row.features.length ≠ t.width ∧
      outcome = .failed (.dimensionMismatch "features" row.features.length t.width))) ∨
  ((∃ other ∈ t.cluster.names, ¬t.Fits other) ∧ ∃ other ∈ t.cluster.names, other ≠ peer ∧
    outcome = .failed (.peer (.disconnected other)))

section Misfits

variable {t : Setting F} {peer : PeerName} {outcome : Outcome (TrainingError F) (Summary F)}

/-- If all rows fit, nobody is over before costs are known. -/
theorem not_misfits (fit : ∀ peer ∈ t.cluster.names, t.Fits peer) (hp : peer ∈ t.cluster.names) :
    ¬t.Misfits peer outcome := by
  rintro (⟨unfit, -⟩ | ⟨⟨other, ho, unfit⟩, -⟩)
  · exact unfit (fit peer hp)
  · exact unfit (fit other ho)

/-- If somebody is over before costs are known, a row does not fit. -/
theorem exists_unfit (hp : peer ∈ t.cluster.names) (h : t.Misfits peer outcome) :
    ∃ other ∈ t.cluster.names, ¬t.Fits other := by
  by_contra all
  simp only [not_exists, not_and, not_not] at all
  exact not_misfits all hp h

end Misfits

/-- The loop that the peers carry out together. -/
def loop (t : Setting F) : Loop F := .ofShares t.config t.model t.width t.cluster.shares

/-- What a peer finds the costs of its rows to be. -/
def score (t : Setting F) (peer : PeerName) (theta : List F) : PartialCost F :=
  t.model.score theta (t.partition peer).rows

/-- What a peer finds the gradients of its rows to be. -/
def slope (t : Setting F) (peer : PeerName) (theta : List F) : List F :=
  t.model.slope theta (t.partition peer).rows

/-- What the leader writes when all costs are known: the parameters accepted last, if this is the
end. -/
def closing (t : Setting F) (s : RunState F) : List (List F × F) :=
  match t.loop.turnout s with
  | .converged cost => [(s.theta, cost)]
  | .diverged _ => [(s.theta, s.cost)]
  | .empty | .goOn _ => []

section Closing

variable {t : Setting F} {s : RunState F} {cost : F}

theorem closing_of_converged (h : t.loop.turnout s = .converged cost) :
    t.closing s = [(s.theta, cost)] := by
  rw [closing, h]

theorem closing_of_diverged {failure : TrainingError F}
    (h : t.loop.turnout s = .diverged failure) : t.closing s = [(s.theta, s.cost)] := by
  rw [closing, h]

theorem closing_of_empty (h : t.loop.turnout s = .empty) : t.closing s = [] := by
  rw [closing, h]

theorem closing_of_goOn (h : t.loop.turnout s = .goOn cost) : t.closing s = [] := by
  rw [closing, h]

end Closing

/-- **What the peers of a training job are to do.** -/
def plan (t : Setting F) : Plan F (Payload F) (TrainingError F) (Summary F) where
  peers := t.cluster.names
  sends peer k :=
    match Slot.of k with
    | .opening =>
      if t.leader = peer then broadcast t.cluster.names peer (.theta t.loop.start) else []
    | .scoring j =>
      match t.loop.state j with
      | some s =>
        let sum := t.score peer s.theta
        broadcast t.cluster.names peer (.cost sum.sum sum.count)
      | none => []
    | .descending j =>
      match t.loop.state j with
      | some s => broadcast t.cluster.names peer (.gradient (t.slope peer s.theta))
      | none => []
    | .judging _ | .stepping _ => []
  writes peer k :=
    if t.leader = peer then
      match Slot.of k with
      | .judging j =>
        match t.loop.state j with
        | some s => t.closing s
        | none => []
      | .stepping j =>
        match t.loop.state (j + 1) with
        | some s => [(s.theta, s.cost)]
        | none => []
      | .opening | .scoring _ | .descending _ => []
    else []
  leaves peer k outcome :=
    match Slot.of k with
    | .opening =>
      t.leader = peer ∧ ¬t.Probed ∧ (outcome = .crashed ∨ outcome = .failed .dimensionProbe)
    | .scoring _ => t.Misfits peer outcome
    | .judging j => ∃ s, t.loop.state j = some s ∧
        ((t.loop.turnout s = .empty ∧ outcome = .failed .emptyDataset) ∨
          ∃ last, t.loop.outcome s = some (.ok last) ∧ outcome = .value (t.summary peer last))
    | .descending j => ∃ s failure, t.loop.state j = some s ∧
        t.loop.turnout s = .diverged failure ∧ outcome = .failed failure
    | .stepping _ => False
  syncs peer k :=
    match Slot.of k with
    | .opening => t.leader = peer → t.Probed
    | .scoring j => (∃ s, t.loop.state j = some s) ∧ t.Fits peer
    | .judging j => ∃ s, t.loop.state j = some s ∧
        ((∃ cost, t.loop.turnout s = .goOn cost) ∨ ∃ failure, t.loop.turnout s = .diverged failure)
    | .descending j | .stepping j =>
      ∃ s cost, t.loop.state j = some s ∧ t.loop.turnout s = .goOn cost

/-! ### The plan, slot by slot -/

section Slots

variable {t : Setting F} {peer : PeerName} {j : Nat} {s : RunState F}
  {outcome : Outcome (TrainingError F) (Summary F)}

theorem sends_opening : t.plan.sends peer 0 =
    if t.leader = peer then broadcast t.cluster.names peer (.theta t.loop.start) else [] := rfl

theorem sends_scoring (hs : t.loop.state j = some s) : t.plan.sends peer (4 * j + 1) =
    broadcast t.cluster.names peer (.cost (t.score peer s.theta).sum (t.score peer s.theta).count)
      := by
  simp [plan, hs]

@[simp] theorem sends_judging : t.plan.sends peer (4 * j + 2) = [] := by simp [plan]

theorem sends_descending (hs : t.loop.state j = some s) : t.plan.sends peer (4 * j + 3) =
    broadcast t.cluster.names peer (.gradient (t.slope peer s.theta)) := by
  simp [plan, hs]

@[simp] theorem sends_stepping : t.plan.sends peer (4 * j + 4) = [] := by simp [plan]

@[simp] theorem writes_opening : t.plan.writes peer 0 = [] := by simp [plan]

@[simp] theorem writes_scoring : t.plan.writes peer (4 * j + 1) = [] := by simp [plan]

theorem writes_judging (hs : t.loop.state j = some s) :
    t.plan.writes peer (4 * j + 2) = if t.leader = peer then t.closing s else [] := by
  simp [plan, hs]

/-- Where nothing ends, nothing is written. -/
theorem writes_judging_eq_nil (hs : t.loop.state j = some s) (closing : t.closing s = []) :
    t.plan.writes peer (4 * j + 2) = [] := by
  rw [writes_judging hs, closing, ite_self]

@[simp] theorem writes_descending : t.plan.writes peer (4 * j + 3) = [] := by simp [plan]

theorem writes_stepping (hs : t.loop.state (j + 1) = some s) :
    t.plan.writes peer (4 * j + 4) = if t.leader = peer then [(s.theta, s.cost)] else [] := by
  simp [plan, hs]

theorem writes_of_ne {k : Nat} (follows : t.leader ≠ peer) : t.plan.writes peer k = [] :=
  if_neg follows

theorem leaves_opening : t.plan.leaves peer 0 outcome ↔
    t.leader = peer ∧ ¬t.Probed ∧ (outcome = .crashed ∨ outcome = .failed .dimensionProbe) :=
  Iff.rfl

theorem leaves_scoring : t.plan.leaves peer (4 * j + 1) outcome ↔ t.Misfits peer outcome := by
  simp [plan]

theorem leaves_judging : t.plan.leaves peer (4 * j + 2) outcome ↔ ∃ s, t.loop.state j = some s ∧
    ((t.loop.turnout s = .empty ∧ outcome = .failed .emptyDataset) ∨
      ∃ last, t.loop.outcome s = some (.ok last) ∧ outcome = .value (t.summary peer last)) := by
  simp [plan]

theorem leaves_descending : t.plan.leaves peer (4 * j + 3) outcome ↔ ∃ s failure,
    t.loop.state j = some s ∧ t.loop.turnout s = .diverged failure ∧ outcome = .failed failure := by
  simp [plan]

theorem not_leaves_stepping : ¬t.plan.leaves peer (4 * j + 4) outcome := by
  simp [plan]

theorem syncs_opening : t.plan.syncs peer 0 ↔ (t.leader = peer → t.Probed) := Iff.rfl

theorem syncs_scoring : t.plan.syncs peer (4 * j + 1) ↔
    (∃ s, t.loop.state j = some s) ∧ t.Fits peer := by
  simp [plan]

theorem syncs_judging : t.plan.syncs peer (4 * j + 2) ↔ ∃ s, t.loop.state j = some s ∧
    ((∃ cost, t.loop.turnout s = .goOn cost) ∨
      ∃ failure, t.loop.turnout s = .diverged failure) := by
  simp [plan]

theorem syncs_descending : t.plan.syncs peer (4 * j + 3) ↔
    ∃ s cost, t.loop.state j = some s ∧ t.loop.turnout s = .goOn cost := by
  simp [plan]

theorem syncs_stepping : t.plan.syncs peer (4 * j + 4) ↔
    ∃ s cost, t.loop.state j = some s ∧ t.loop.turnout s = .goOn cost := by
  simp [plan]

/-- If the leader cannot tell the number of parameters, the opening is not passed. -/
theorem probed_of_passes (h : t.plan.Passes 0) : t.Probed := h t.leader t.leader_mem rfl

/-- If a row does not fit, no costs are exchanged. -/
theorem fits_of_passes (h : t.plan.Passes (4 * j + 1)) : ∀ peer ∈ t.cluster.names, t.Fits peer :=
  fun peer hp => (syncs_scoring.mp (h peer hp)).2

end Slots

/-! ### What all shares come to -/

/-- The costs of all rows, by the peers. -/
theorem total_loop (t : Setting F) (theta : List F) : t.loop.total theta =
    (byName (·.1) (t.cluster.names.map fun name => (name, t.score name theta))).foldl
      (fun total part => total.merge part.2) .zero :=
  t.cluster.total_shares t.config t.model t.width theta

/-- The gradients of all rows, by the peers. -/
theorem gradient_loop (t : Setting F) (theta : List F) : t.loop.gradient theta =
    (byName (·.1) (t.cluster.names.map fun name => (name, t.slope name theta))).foldl
      (fun total part => Totals.addEntries total part.2) (Pass.flat theta) :=
  t.cluster.gradient_shares t.config t.model t.width theta

/-- The gradient of all rows has as many entries as there are parameters. -/
theorem length_gradient (t : Setting F) {theta : List F} (hw : theta.length = t.width)
    (fit : ∀ peer ∈ t.cluster.names, t.Fits peer) :
    (t.loop.gradient theta).length = theta.length := by
  have fold : ∀ (parts : List (PeerName × List F)) (total : List F),
      (∀ part ∈ parts, part.2.length = theta.length) → total.length = theta.length →
      (parts.foldl (fun total part => Totals.addEntries total part.2) total).length =
        theta.length := by
    intro parts
    induction parts with
    | nil => exact fun total _ ht => ht
    | cons part rest ih =>
      intro total hp ht
      refine ih _ (fun p hp' => hp p (List.mem_cons_of_mem _ hp')) ?_
      change (List.zipWith _ total part.2).length = _
      rw [List.length_zipWith, ht, hp part List.mem_cons_self, Nat.min_self]
  rw [gradient_loop]
  refine fold _ _ (fun part hp => ?_) List.length_replicate
  obtain ⟨name, hn, rfl⟩ := List.mem_map.mp ((byName_perm _ _).mem_iff.mp hp)
  refine t.model.length_slope theta _ fun row hr => ?_
  rw [(fit name hn).2 row hr, hw]

end Setting

end Superstep
