import Superstep.Proofs.Training.Setting

/-!
# The same peers in another order or under other names

Two clusters can have the same partitions under the same names, enumerated in two ways, or under
names that compare alike (`Superstep.Cluster.Renames`). What depends on the order of the names alone
is the same on both: the rows of the peers, when they are put into that order
(`Superstep.Cluster.Renames.byName_shares`), and the peer that has the smallest name or a certain
one. The peer in the middle is the same if the enumeration is
(`Superstep.Cluster.Renames.elect_eq`).
-/

namespace Superstep

/-! ### Names that compare alike -/

/-- Other names for some names compare as these do. -/
def KeepsOrder (f : PeerName → PeerName) (names : List PeerName) : Prop :=
  ∀ a ∈ names, ∀ b ∈ names, a < b → f a < f b

namespace KeepsOrder

variable {f : PeerName → PeerName} {names : List PeerName} {a b : PeerName}

theorem le_iff (h : KeepsOrder f names) (ha : a ∈ names) (hb : b ∈ names) : f a ≤ f b ↔ a ≤ b := by
  refine ⟨fun le => ?_, fun le => ?_⟩
  · refine String.not_lt.mp fun lt => ?_
    exact String.not_le.mpr (h b hb a ha lt) le
  · rcases String.le_total (f a) (f b) with le' | le'
    · exact le'
    · -- the names are in order, so they are the same
      have same : a = b := by
        refine String.le_antisymm le (String.not_lt.mp fun lt => ?_)
        exact String.not_le.mpr (h a ha b hb lt) le'
      exact same ▸ String.le_refl _

/-- Other names for different names are different. -/
theorem inj (h : KeepsOrder f names) (ha : a ∈ names) (hb : b ∈ names) (same : f a = f b) :
    a = b :=
  String.le_antisymm ((h.le_iff ha hb).mp (same ▸ String.le_refl _))
    ((h.le_iff hb ha).mp (same ▸ String.le_refl _))

theorem mono {more : List PeerName} (h : KeepsOrder f more) (sub : names ⊆ more) :
    KeepsOrder f names := fun a ha b hb => h a (sub ha) b (sub hb)

/-- A name is among some names if the other name is among the other ones. -/
theorem mem_map_iff {known : List PeerName} (h : KeepsOrder f known) (sub : names ⊆ known)
    (ha : a ∈ known) : f a ∈ names.map f ↔ a ∈ names := by
  refine ⟨fun mem => ?_, List.mem_map_of_mem⟩
  obtain ⟨b, hb, same⟩ := List.mem_map.mp mem
  exact h.inj (sub hb) ha same ▸ hb

/-- Things can be put into the order of the names before or after these are replaced. -/
theorem map_byName {α : Type} {things : List (PeerName × α)}
    (h : KeepsOrder f (things.map (·.1))) :
    (byName (·.1) things).map (Prod.map f id) = byName (·.1) (things.map (Prod.map f id)) := by
  refine List.map_mergeSort fun a ha b hb => decide_eq_decide.mpr ?_
  exact (h.le_iff (List.mem_map_of_mem ha) (List.mem_map_of_mem hb)).symm

end KeepsOrder

/-! ### Clusters -/

namespace Cluster

variable {F : Type} {cluster cluster' : Cluster F} {f : PeerName → PeerName} {name : PeerName}

/-- The peers and their partitions, in the order of enumeration. -/
def pairs (cluster : Cluster F) : List (PeerName × Partition F) :=
  cluster.names.zip cluster.partitions

theorem map_fst_pairs (cluster : Cluster F) : cluster.pairs.map (·.1) = cluster.names :=
  List.map_fst_zip (Nat.le_of_eq cluster.length_partitions.symm)

theorem map_snd_pairs (cluster : Cluster F) : cluster.pairs.map (·.2) = cluster.partitions :=
  List.map_snd_zip (Nat.le_of_eq cluster.length_partitions)

theorem shares_eq_pairs (cluster : Cluster F) :
    cluster.shares = cluster.pairs.map fun pair => (pair.1, pair.2.rows) := by
  rw [shares, List.zip_map_right]
  rfl

theorem mem_pairs_iff {p : Partition F} :
    (name, p) ∈ cluster.pairs ↔ name ∈ cluster.names ∧ cluster.partitionOf name = p := by
  constructor
  · intro mem
    obtain ⟨i, hi⟩ := List.mem_iff_getElem?.mp mem
    obtain ⟨hn, hp⟩ := List.getElem?_zip_eq_some.mp hi
    exact ⟨List.mem_of_getElem? hn, partitionOf_eq hn hp⟩
  · rintro ⟨hn, rfl⟩
    obtain ⟨i, hi⟩ := List.mem_iff_getElem?.mp hn
    obtain ⟨hlt, -⟩ := List.getElem?_eq_some_iff.mp hi
    rw [← cluster.length_partitions] at hlt
    have hp := List.getElem?_eq_getElem hlt
    rw [partitionOf_eq hi hp]
    exact List.mem_of_getElem? (List.getElem?_zip_eq_some.mpr ⟨hi, hp⟩)

/-- **One cluster has the partitions of another**, in any order, under names that compare alike. -/
structure Renames (f : PeerName → PeerName) (cluster cluster' : Cluster F) : Prop where
  order : KeepsOrder f cluster.names
  pairs : cluster'.pairs.Perm (cluster.pairs.map (Prod.map f id))

namespace Renames

variable (h : Renames f cluster cluster')

include h

theorem names_perm : cluster'.names.Perm (cluster.names.map f) := by
  have perm := h.pairs.map Prod.fst
  rw [List.map_map] at perm
  rw [← map_fst_pairs, ← map_fst_pairs, List.map_map]
  exact perm

theorem partitions_perm : cluster'.partitions.Perm cluster.partitions := by
  have perm := h.pairs.map Prod.snd
  rw [List.map_map] at perm
  rw [← map_snd_pairs, ← map_snd_pairs]
  exact perm

theorem mem_names (hn : name ∈ cluster.names) : f name ∈ cluster'.names :=
  h.names_perm.mem_iff.mpr (List.mem_map_of_mem hn)

/-- A peer has the same rows under its other name. -/
theorem partitionOf_eq (hn : name ∈ cluster.names) :
    cluster'.partitionOf (f name) = cluster.partitionOf name := by
  have mem : (name, cluster.partitionOf name) ∈ cluster.pairs := mem_pairs_iff.mpr ⟨hn, rfl⟩
  have mem' := h.pairs.mem_iff.mpr (List.mem_map_of_mem (f := Prod.map f id) mem)
  exact (mem_pairs_iff.mp mem').2

theorem unread (unread : cluster.Unread) : cluster'.Unread := fun p hp =>
  unread p (h.partitions_perm.mem_iff.mp hp)

/-- **In the order of the names the rows are the same.** -/
theorem byName_shares : (byName (·.1) cluster'.shares).map (·.2) =
    (byName (·.1) cluster.shares).map (·.2) := by
  have names : cluster.shares.map (·.1) = cluster.names := by
    rw [shares_eq_pairs, List.map_map, ← map_fst_pairs]
    rfl
  have names' : cluster'.shares.map (·.1) = cluster'.names := by
    rw [shares_eq_pairs, List.map_map, ← map_fst_pairs]
    rfl
  have perm : cluster'.shares.Perm (cluster.shares.map (Prod.map f id)) := by
    have perm := h.pairs.map fun pair => (pair.1, pair.2.rows)
    rw [List.map_map] at perm
    rw [shares_eq_pairs, shares_eq_pairs, List.map_map]
    exact perm
  rw [byName_eq_of_perm perm (names' ▸ cluster'.nodup_names),
    ← (names ▸ h.order : KeepsOrder f (cluster.shares.map (·.1))).map_byName, List.map_map]
  rfl

end Renames

end Cluster

/-! ### Electing the same leader -/

/-- The error for other names. -/
def ConfigError.rename {F : Type} (f : PeerName → PeerName) : ConfigError F → ConfigError F
  | unknownLeader name => unknownLeader (f name)
  | other => other

namespace LeaderPolicy

/-- The policy for other names. -/
def rename (f : PeerName → PeerName) : LeaderPolicy → LeaderPolicy
  | middle => middle
  | smallest => smallest
  | fixed name => fixed (f name)

/-- The names a policy speaks of. -/
def named : LeaderPolicy → List PeerName
  | middle | smallest => []
  | fixed name => [name]

variable {names names' : List PeerName} {f : PeerName → PeerName} {policy : LeaderPolicy}

theorem smallest?_ne_none (nonempty : names ≠ []) : smallest? names ≠ none := by
  cases names with
  | nil => exact absurd rfl nonempty
  | cons name rest =>
    rw [smallest?]
    split
    · exact Option.some_ne_none _
    · split <;> exact Option.some_ne_none _

theorem smallest?_le {least : PeerName} (h : smallest? names = some least) :
    least ∈ names ∧ ∀ name ∈ names, least ≤ name := by
  induction names generalizing least with
  | nil => cases h
  | cons first rest ih =>
    rw [smallest?] at h
    split at h
    · next none =>
      obtain rfl := Option.some.inj h
      have empty : rest = [] := by
        by_contra nonempty
        exact smallest?_ne_none nonempty none
      simp [empty]
    · next other found =>
      obtain ⟨mem, le⟩ := ih found
      split at h
      · next smaller =>
        obtain rfl := Option.some.inj h
        refine ⟨List.mem_cons_self, fun name hn => ?_⟩
        rcases List.mem_cons.mp hn with rfl | hn
        · exact String.le_refl _
        · exact String.le_trans smaller (le name hn)
      · next larger =>
        obtain rfl := Option.some.inj h
        refine ⟨List.mem_cons_of_mem _ mem, fun name hn => ?_⟩
        rcases List.mem_cons.mp hn with rfl | hn
        · exact (String.le_total ..).resolve_left larger
        · exact le name hn

/-- The smallest name is the only one that no name is smaller than. -/
theorem smallest?_eq_some {least : PeerName} (mem : least ∈ names)
    (le : ∀ name ∈ names, least ≤ name) : smallest? names = some least := by
  obtain ⟨other, found⟩ := Option.ne_none_iff_exists'.mp
    (smallest?_ne_none (List.ne_nil_of_mem mem))
  obtain ⟨mem', le'⟩ := smallest?_le found
  rw [found, String.le_antisymm (le' least mem) (le other mem')]

end LeaderPolicy

namespace Cluster.Renames

variable {F : Type} {cluster cluster' : Cluster F} {f : PeerName → PeerName}

/-- **The same peer is elected**, if it is not elected for its place in the enumeration, or if the
enumeration is the same. -/
theorem elect_eq (h : Renames f cluster cluster') {policy : LeaderPolicy}
    (order : KeepsOrder f (policy.named ++ cluster.names))
    (placed : policy ≠ .middle ∨ cluster'.names = cluster.names.map f) :
    (policy.rename f).elect (F := F) cluster'.names =
      ((policy.elect (F := F) cluster.names).map f).mapError (·.rename f) := by
  cases policy with
  | middle =>
    have names := placed.resolve_left (not_not_intro rfl)
    have pos : 0 < cluster.names.length := List.length_pos_iff.mpr cluster.names_ne_nil
    have half : cluster.names.length / 2 < cluster.names.length := by omega
    simp [LeaderPolicy.rename, LeaderPolicy.elect, names, half, Except.map, Except.mapError]
  | smallest =>
    obtain ⟨least, found⟩ := Option.ne_none_iff_exists'.mp
      (LeaderPolicy.smallest?_ne_none cluster.names_ne_nil)
    obtain ⟨mem, le⟩ := LeaderPolicy.smallest?_le found
    have found' : LeaderPolicy.smallest? cluster'.names = some (f least) := by
      refine LeaderPolicy.smallest?_eq_some (h.mem_names mem) fun name hn => ?_
      obtain ⟨other, ho, rfl⟩ := List.mem_map.mp (h.names_perm.mem_iff.mp hn)
      exact (h.order.le_iff mem ho).mpr (le other ho)
    simp [LeaderPolicy.rename, LeaderPolicy.elect, found, found', Except.map, Except.mapError]
  | fixed name =>
    have mem : f name ∈ cluster'.names ↔ name ∈ cluster.names :=
      h.names_perm.mem_iff.trans (order.mem_map_iff (List.subset_append_right ..)
        (List.mem_append_left _ List.mem_cons_self))
    by_cases known : name ∈ cluster.names
    · simp [LeaderPolicy.rename, LeaderPolicy.elect, mem, known, Except.map, Except.mapError]
    · simp [LeaderPolicy.rename, LeaderPolicy.elect, mem, known, Except.map, Except.mapError,
        ConfigError.rename]

end Cluster.Renames

end Superstep
