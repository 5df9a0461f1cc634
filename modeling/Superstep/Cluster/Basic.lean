import Superstep.Data.Partition
import Superstep.Peer.Error
import Superstep.Peer.Order

/-!
# Clusters

A cluster is what a job runs on: the names of its peers, in the order in which the job enumerates
them, and a partition for each. There is at least one peer, no two have the same name, and every
peer has its partition; `Cluster.ofNames` checks this in that order – the number of peers, the
number of partitions, the names – and of several repeated names reports the smallest.
-/

namespace Superstep

/-- Why some names and partitions make no cluster. -/
inductive ClusterError
  | noPeers
  | countMismatch (names partitions : Nat)
  | repeatedName (name : PeerName)
  deriving DecidableEq, Repr

namespace ClusterError

/-- What is wrong, in words. -/
def detail : ClusterError → String
  | noPeers => "a job needs at least one peer"
  | countMismatch names partitions => s!"got {names} peer names for {partitions} partitions"
  | repeatedName name => s!"peer name {name} is used more than once"

/-- The error as one of a peer's surroundings. -/
def toPeerError (error : ClusterError) : PeerError := .invalidCluster error.detail

end ClusterError

/-- Peers and what they own. -/
structure Cluster (F : Type) where
  /-- The names of the peers, in the order of enumeration. -/
  names : List PeerName
  /-- Their partitions, in the same order. -/
  partitions : List (Partition F)
  names_ne_nil : names ≠ []
  length_partitions : partitions.length = names.length
  nodup_names : names.Nodup

namespace Cluster

variable {F : Type}

/-- The first name that stands twice in a row. -/
def firstRepeat : List PeerName → Option PeerName
  | first :: second :: rest =>
    if first = second then some first else firstRepeat (second :: rest)
  | _ => none

/-- The smallest name that is used more than once. -/
def repeated? (names : List PeerName) : Option PeerName :=
  firstRepeat (byName id names)

/-- In a list of names in order, a name that is used more than once stands twice in a row. -/
theorem nodup_of_firstRepeat {names : List PeerName} (sorted : names.Pairwise (· ≤ ·))
    (h : firstRepeat names = none) : names.Nodup := by
  induction names with
  | nil => exact List.nodup_nil
  | cons first rest ih =>
    cases rest with
    | nil => simp
    | cons second more =>
      unfold firstRepeat at h
      split at h
      · cases h
      · next different =>
        obtain ⟨least, sorted⟩ := List.pairwise_cons.mp sorted
        refine List.nodup_cons.mpr ⟨fun found => ?_, ih sorted h⟩
        rcases List.mem_cons.mp found with same | found
        · exact different same
        · have later : second ≤ first := (List.pairwise_cons.mp sorted).1 first found
          exact different (String.le_antisymm (least second List.mem_cons_self) later)

/-- Where no name is found to be used more than once, none is. -/
theorem nodup_of_repeated? {names : List PeerName} (h : repeated? names = none) :
    names.Nodup :=
  (byName_perm id names).nodup (nodup_of_firstRepeat (pairwise_byName id names) h)

/-- A cluster of peers with these names. -/
def ofNames (names : List PeerName) (partitions : List (Partition F)) :
    Except ClusterError (Cluster F) :=
  if named : names = [] then .error .noPeers
  else if counted : partitions.length = names.length then
    match distinct : repeated? names with
    | some name => .error (.repeatedName name)
    | none =>
      .ok {
        names, partitions
        names_ne_nil := named
        length_partitions := counted
        nodup_names := nodup_of_repeated? distinct }
  else .error (.countMismatch names.length partitions.length)

/-- The name of the peer at a position, where peers are not named. -/
def defaultName (index : Nat) : PeerName := s!"peer-{index}"

/-- The names of so many peers that are not named. -/
def defaultNames (count : Nat) : List PeerName := (List.range count).map defaultName

/-- A cluster of peers that are not named. -/
def ofPartitions (partitions : List (Partition F)) : Except ClusterError (Cluster F) :=
  ofNames (defaultNames partitions.length) partitions

/-- The seats of the peers, in the order of enumeration. -/
def seats (cluster : Cluster F) : List Seat :=
  cluster.names.mapIdx fun index name => { name, index, peers := cluster.names }

end Cluster

end Superstep
