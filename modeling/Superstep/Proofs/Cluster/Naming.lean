import Mathlib.Data.List.Nodup
import Superstep.Job.Basic
import Superstep.Proofs.Data.Sharing
import Superstep.Proofs.Data.Table
import Superstep.Proofs.Peer.Bytes

/-!
# Which names make a cluster

Names and partitions make a cluster if there is a name, there are as many names as partitions, and
no name is used twice. These are checked in this order (`Superstep.Cluster.ofNames_eq_ok_iff`,
`Superstep.Cluster.ofNames_eq_error_iff`).

That no name is used twice is found out by putting the names in their order and looking at
neighbours. In a list in order all uses of a name stand next to each other, and before those of any
greater name, so what is found first is the smallest name that is used more than once
(`Superstep.Cluster.repeated?_eq_some_iff`).

A job may leave the names to the program. Peers are then named by their positions, and as different
numbers are written differently there is nothing to refuse (`Superstep.Cluster.nodup_defaultNames`).
If it does not, its rows are shared out among as many peers as it names before anybody looks at the
names. That may be among no peers at all, and does no harm: the position at which the rows of a peer
begin is a quotient by the number of peers, but only peers have such a position
(`Superstep.Dataset.split?_eq`).

Limits of memory are left out. A job may ask for two to the sixty-third names, which nothing can
hold, and is given them here; and the rows of a job are shared out here among any number of peers,
where the program also needs the product of rows and peers to be a word
(`Superstep.Dataset.shares_faithfully`).
-/

namespace Superstep

namespace Cluster

variable {F : Type}

/-! ### Names that are used more than once -/

/-- A name that is used more than once. -/
def IsRepeated (names : List PeerName) (name : PeerName) : Prop := 2 ≤ names.count name

instance (names : List PeerName) (name : PeerName) : Decidable (IsRepeated names name) :=
  inferInstanceAs (Decidable (_ ≤ _))

theorem nodup_iff_not_isRepeated {names : List PeerName} :
    names.Nodup ↔ ∀ name, ¬IsRepeated names name := by
  rw [List.nodup_iff_count_le_one]
  exact forall_congr' fun name => by rw [IsRepeated, Nat.not_le, Nat.lt_succ_iff]

theorem isRepeated_congr {names others : List PeerName} (same : names.Perm others)
    {name : PeerName} : IsRepeated names name ↔ IsRepeated others name := by
  rw [IsRepeated, IsRepeated, same.count_eq]

/-- In a list in order, the name found first is used more than once, and none before it is. -/
theorem isRepeated_of_firstRepeat {names : List PeerName} {name : PeerName}
    (sorted : names.Pairwise (· ≤ ·)) (h : firstRepeat names = some name) :
    IsRepeated names name ∧ ∀ other, IsRepeated names other → name ≤ other := by
  induction names with
  | nil => cases h
  | cons first rest ih =>
    cases rest with
    | nil => cases h
    | cons second more =>
      obtain ⟨least, sorted⟩ := List.pairwise_cons.mp sorted
      unfold firstRepeat at h
      split at h
      · next same =>
        obtain rfl := Option.some.inj h
        refine ⟨by simp [IsRepeated, ← same], fun other repeated => ?_⟩
        -- the first name of all is the smallest
        have used : other ∈ first :: second :: more :=
          List.count_pos_iff.mp (Nat.lt_of_lt_of_le Nat.two_pos repeated)
        rcases List.mem_cons.mp used with rfl | used
        · exact String.le_refl _
        · exact least other used
      · next different =>
        obtain ⟨repeated, smallest⟩ := ih sorted h
        refine ⟨Nat.le_trans repeated List.count_le_count_cons, fun other again => ?_⟩
        -- the first name is used once, since its neighbour is another one
        have other_ne : first ≠ other := by
          rintro rfl
          have used : first ∈ second :: more := by
            rw [IsRepeated, List.count_cons_self] at again
            exact List.count_pos_iff.mp (Nat.le_of_succ_le_succ again)
          rcases List.mem_cons.mp used with same | used
          · exact different same
          · have later : second ≤ first := (List.pairwise_cons.mp sorted).1 first used
            exact different (String.le_antisymm (least second List.mem_cons_self) later)
        rw [IsRepeated, List.count_cons_of_ne other_ne] at again
        exact smallest other again

/-- **The smallest name that is used more than once** is found, if there is one. -/
theorem repeated?_eq_some_iff {names : List PeerName} {name : PeerName} :
    repeated? names = some name ↔
      IsRepeated names name ∧ ∀ other, IsRepeated names other → name ≤ other := by
  have same := byName_perm id names
  have sorted : (byName id names).Pairwise (· ≤ ·) := pairwise_byName id names
  constructor
  · intro h
    obtain ⟨repeated, smallest⟩ := isRepeated_of_firstRepeat sorted h
    exact ⟨(isRepeated_congr same).mp repeated,
      fun other again => smallest other ((isRepeated_congr same).mpr again)⟩
  · rintro ⟨repeated, smallest⟩
    cases found : repeated? names with
    | none => exact absurd repeated (nodup_iff_not_isRepeated.mp (nodup_of_repeated? found) name)
    | some other =>
      obtain ⟨again, least⟩ := isRepeated_of_firstRepeat sorted found
      exact congrArg some (String.le_antisymm
        (least name ((isRepeated_congr same).mpr repeated))
        (smallest other ((isRepeated_congr same).mp again)))

theorem repeated?_eq_none_iff {names : List PeerName} : repeated? names = none ↔ names.Nodup := by
  refine ⟨nodup_of_repeated?, fun distinct => ?_⟩
  by_contra found
  obtain ⟨name, found⟩ := Option.ne_none_iff_exists'.mp found
  exact nodup_iff_not_isRepeated.mp distinct name (repeated?_eq_some_iff.mp found).1

/-! ### What is accepted -/

variable {names : List PeerName} {partitions : List (Partition F)}

/-- **What makes a cluster**, and that it is kept as it is given. -/
theorem ofNames_eq_ok_iff {cluster : Cluster F} : ofNames names partitions = .ok cluster ↔
    (names ≠ [] ∧ partitions.length = names.length ∧ names.Nodup) ∧
      cluster.names = names ∧ cluster.partitions = partitions := by
  unfold ofNames
  split
  · next named => simp [named]
  · next named =>
    split
    · next counted =>
      split
      · next name found =>
        have repeated : ¬names.Nodup := fun distinct => by
          rw [repeated?_eq_none_iff.mpr distinct] at found
          cases found
        simp [repeated]
      · next found =>
        have distinct := repeated?_eq_none_iff.mp found
        cases cluster
        simp [named, counted, distinct, eq_comm]
    · next counted => simp [counted]

/-- **Why names and partitions make no cluster**: the first of the three checks that fails. -/
theorem ofNames_eq_error_iff {error : ClusterError} : ofNames names partitions = .error error ↔
    (names = [] ∧ error = .noPeers) ∨
      (names ≠ [] ∧ partitions.length ≠ names.length ∧
        error = .countMismatch names.length partitions.length) ∨
      (names ≠ [] ∧ partitions.length = names.length ∧ ∃ name, error = .repeatedName name ∧
        IsRepeated names name ∧ ∀ other, IsRepeated names other → name ≤ other) := by
  unfold ofNames
  split
  · next named => simp [named, eq_comm]
  · next named =>
    split
    · next counted =>
      split
      · next name found =>
        obtain ⟨repeated, smallest⟩ := repeated?_eq_some_iff.mp found
        simp only [named, counted, ne_eq, not_true_eq_false, false_and, and_false, false_or,
          not_false_eq_true, true_and, Except.error.injEq]
        constructor
        · rintro rfl
          exact ⟨name, rfl, repeated, smallest⟩
        · rintro ⟨other, rfl, again, least⟩
          rw [String.le_antisymm (smallest other again) (least name repeated)]
      · next found =>
        have distinct := nodup_iff_not_isRepeated.mp (repeated?_eq_none_iff.mp found)
        simp [named, counted, distinct]
    · next counted => simp [named, counted, eq_comm]

/-! ### Peers that are not named -/

theorem defaultName_injective : Function.Injective defaultName := by
  intro i j same
  have same : "peer-" ++ toString i = "peer-" ++ toString j := same
  have digits : Nat.toDigits 10 i = Nat.toDigits 10 j :=
    String.ofList_inj.mp ((String.append_right_inj _).mp same)
  -- the digits of a number can be read back
  rw [← Nat.ofDigitChars_ten_toDigits (n := i), digits, Nat.ofDigitChars_ten_toDigits]

theorem nodup_defaultNames (count : Nat) : (defaultNames count).Nodup :=
  List.nodup_range.map defaultName_injective

@[simp] theorem length_defaultNames (count : Nat) : (defaultNames count).length = count := by
  simp [defaultNames]

theorem defaultNames_ne_nil {count : Nat} (some_peer : count ≠ 0) : defaultNames count ≠ [] :=
  List.ne_nil_of_length_pos (by simpa using Nat.pos_of_ne_zero some_peer)

/-- **Partitions without names always make a cluster**, if there are any. -/
theorem exists_ofPartitions (some_peer : partitions ≠ []) : ∃ cluster : Cluster F,
    ofPartitions partitions = .ok cluster ∧ cluster.names = defaultNames partitions.length ∧
      cluster.partitions = partitions := by
  have named : defaultNames partitions.length ≠ [] :=
    defaultNames_ne_nil (mt List.length_eq_zero_iff.mp some_peer)
  have counted : partitions.length = (defaultNames partitions.length).length := by simp
  have distinct := nodup_defaultNames partitions.length
  exact ⟨⟨_, partitions, named, counted, distinct⟩,
    ofNames_eq_ok_iff.mpr ⟨⟨named, counted, distinct⟩, rfl, rfl⟩, rfl, rfl⟩

end Cluster

/-! ### Sharing out rows among any number of peers -/

namespace Dataset

variable {F : Type} (d : Dataset F)

/-- The first row that belongs to peer `i` of `n`. Nothing can be divided by zero. -/
def bound? (n i : Nat) : Option Nat := if n = 0 then none else some (d.bound n i)

/-- One partition for each of `n` peers, from bounds that have to exist. -/
def split? (n : Nat) : Option (List (Partition F)) :=
  (List.range n).mapM fun i => do
    let first ← d.bound? n i
    let last ← d.bound? n (i + 1)
    return Partition.ofRows d.featureCount ((d.rows.drop first).take (last - first))

/-- **Nothing is divided by zero** when rows are shared out, not even among nobody. -/
theorem split?_eq (n : Nat) : d.split? n = some (d.split n) := by
  refine mapM_eq_some_map fun i hi => ?_
  have peers : n ≠ 0 := Nat.ne_zero_of_lt (List.mem_range.mp hi)
  simp [bound?, peers, span]

end Dataset

/-! ### Clusters of jobs -/

namespace Job

variable {job : Job} {rows : Dataset Float} {cluster : Cluster Float}

/-- The number of peers that a description gives is not zero. -/
theorem peerCount?_ne_zero {input : String} (h : parse? input = some job) :
    job.peerCount? ≠ some 0 := by
  obtain ⟨tree, -, h⟩ := Option.bind_eq_some_iff.mp h
  obtain ⟨fields, -, h⟩ := Option.bind_eq_some_iff.mp h
  split at h
  · simp only [Option.pure_def, Option.bind_eq_bind, Option.bind_eq_some_iff,
      Option.some.injEq] at h
    obtain ⟨count?, counted, names, -, options, -, rows, -, output, -, rfl⟩ := h
    rintro rfl
    unfold Json.Field.optional at counted
    split at counted
    · cases counted
    · cases counted
    · simp [peerCountOfTree?, Option.bind_eq_some_iff] at counted
  · cases h

/-- **Which names a job may give**: none at all, or at least one, each once, and as many as there
are peers if that is said as well. -/
def WellNamed (job : Job) : Prop :=
  ∀ names ∈ job.peerNames?, names ≠ [] ∧ names.Nodup ∧
    ∀ count ∈ job.peerCount?, names.length = count

/-- The names of a job's peers, given or not. -/
def givenNames (job : Job) : List PeerName :=
  job.peerNames?.getD (Cluster.defaultNames (job.peerCount?.getD 1))

/-- Names are taken as they are given, unless their number is not the one that is given too. -/
theorem peerNames_eq_ok_iff {names : List PeerName} : job.peerNames = .ok names ↔
    names = job.givenNames ∧
      ∀ given ∈ job.peerNames?, ∀ count ∈ job.peerCount?, given.length = count := by
  unfold peerNames givenNames
  split
  · next given count names? count? =>
    split
    · next counted => simp [names?, count?, counted, eq_comm]
    · next counted => simp [names?, count?, counted]
  · next given names? count? => simp [names?, count?, eq_comm]
  · next names? => simp [names?, eq_comm]

theorem cluster_eq_ok_iff : job.cluster rows = .ok cluster ↔
    ∃ names, job.peerNames = .ok names ∧
      Cluster.ofNames names (rows.split names.length) = .ok cluster := by
  rw [Job.cluster, bind_eq_ok_iff]
  refine exists_congr fun names => and_congr_right fun _ => ?_
  cases Cluster.ofNames names (rows.split names.length) <;> simp [Except.mapError]

/-- Names that a job gives in order, and names that are made up for it, make a cluster. -/
theorem givenNames_wellFormed (named : job.WellNamed) (peers : job.peerCount? ≠ some 0) :
    job.givenNames ≠ [] ∧ job.givenNames.Nodup := by
  unfold givenNames
  cases names? : job.peerNames? with
  | some names => exact ⟨(named names names?).1, (named names names?).2.1⟩
  | none =>
    refine ⟨Cluster.defaultNames_ne_nil ?_, Cluster.nodup_defaultNames _⟩
    cases count? : job.peerCount? with
    | none => exact Nat.one_ne_zero
    | some count =>
      rintro rfl
      exact peers count?

/-- **When there is a cluster for a job.** -/
theorem exists_cluster_iff (peers : job.peerCount? ≠ some 0) :
    (∃ cluster, job.cluster rows = .ok cluster) ↔ job.WellNamed := by
  constructor
  · rintro ⟨cluster, h⟩ given found
    obtain ⟨names, taken, h⟩ := cluster_eq_ok_iff.mp h
    obtain ⟨rfl, counted⟩ := peerNames_eq_ok_iff.mp taken
    obtain ⟨some_peer, -, distinct⟩ := (Cluster.ofNames_eq_ok_iff.mp h).1
    have same : job.givenNames = given := by
      rw [givenNames, show job.peerNames? = some given from found, Option.getD_some]
    rw [same] at some_peer distinct
    exact ⟨some_peer, distinct, counted given found⟩
  · intro named
    obtain ⟨some_peer, distinct⟩ := givenNames_wellFormed named peers
    have taken : job.peerNames = .ok job.givenNames :=
      peerNames_eq_ok_iff.mpr ⟨rfl, fun given found => (named given found).2.2⟩
    have counted := rows.length_split job.givenNames.length
    exact ⟨⟨_, _, some_peer, counted, distinct⟩, cluster_eq_ok_iff.mpr
      ⟨_, taken, Cluster.ofNames_eq_ok_iff.mpr ⟨⟨some_peer, counted, distinct⟩, rfl, rfl⟩⟩⟩

/-- The cluster of a job has the names of the job, and its rows are shared out among them. -/
theorem eq_of_cluster (h : job.cluster rows = .ok cluster) :
    cluster.names = job.givenNames ∧ cluster.partitions = rows.split cluster.names.length := by
  obtain ⟨names, taken, h⟩ := cluster_eq_ok_iff.mp h
  obtain ⟨-, rfl, same⟩ := Cluster.ofNames_eq_ok_iff.mp h
  exact ⟨(peerNames_eq_ok_iff.mp taken).1, same⟩

end Job

/-! ### Names, partitions and jobs -/

variable {F : Type}

/-- **What names and partitions come to.** -/
structure Cluster.Checked (names : List PeerName) (partitions : List (Partition F)) : Prop where
  accepted : (∃ cluster, ofNames names partitions = .ok cluster) ↔
    names ≠ [] ∧ partitions.length = names.length ∧ names.Nodup
  /-- Names and partitions stay in the order in which they are given. -/
  kept : ∀ cluster, ofNames names partitions = .ok cluster →
    cluster.names = names ∧ cluster.partitions = partitions
  /-- What is reported is the first check that fails, and of several names that are used more than
  once the one with the smallest bytes. -/
  refused : ∀ error, ofNames names partitions = .error error ↔
    (names = [] ∧ error = .noPeers) ∨
      (names ≠ [] ∧ partitions.length ≠ names.length ∧
        error = .countMismatch names.length partitions.length) ∨
      (names ≠ [] ∧ partitions.length = names.length ∧ ∃ name, error = .repeatedName name ∧
        IsRepeated names name ∧ ∀ other, IsRepeated names other → utf8 name ≤ utf8 other)

theorem Cluster.checked (names : List PeerName) (partitions : List (Partition F)) :
    Checked names partitions where
  accepted := by
    constructor
    · rintro ⟨cluster, h⟩
      exact (ofNames_eq_ok_iff.mp h).1
    · rintro ⟨some_peer, counted, distinct⟩
      exact ⟨⟨names, partitions, some_peer, counted, distinct⟩,
        ofNames_eq_ok_iff.mpr ⟨⟨some_peer, counted, distinct⟩, rfl, rfl⟩⟩
  kept cluster h := (ofNames_eq_ok_iff.mp h).2
  refused error := by
    rw [ofNames_eq_error_iff]
    simp only [le_iff_utf8_le]

/-- **What a job's names come to.** -/
structure Job.Clustered (job : Job) (rows : Dataset Float) : Prop where
  accepted : (∃ cluster, job.cluster rows = .ok cluster) ↔ job.WellNamed
  names : ∀ cluster, job.cluster rows = .ok cluster → cluster.names = job.givenNames
  /-- The rows are shared out among the peers, so that none is lost or owned twice. Bounds are
  natural numbers, which are those of the program if the product of rows and peers is a word. -/
  shared : ∀ cluster, job.cluster rows = .ok cluster →
    cluster.partitions = rows.split cluster.names.length ∧ rows.SharedOut cluster.names.length
  /-- Nothing is divided by zero on the way, whatever names are given. -/
  divided : ∀ names, job.peerNames = .ok names → rows.split? names.length =
    some (rows.split names.length)

theorem Job.clustered {job : Job} (rows : Dataset Float) (peers : job.peerCount? ≠ some 0) :
    job.Clustered rows where
  accepted := exists_cluster_iff peers
  names cluster h := (eq_of_cluster h).1
  shared cluster h := by
    have some_peer := List.length_pos_iff.mpr cluster.names_ne_nil
    exact ⟨(eq_of_cluster h).2, rows.sharedOut some_peer⟩
  divided names _ := rows.split?_eq names.length

/-- **Names are checked as they should be**: those of a cluster, those that a cluster without names
is given, and those of a job. -/
theorem names_checked :
    (∀ (names : List PeerName) (partitions : List (Partition F)),
      Cluster.Checked names partitions) ∧
    (∀ partitions : List (Partition F), partitions ≠ [] → ∃ cluster,
      Cluster.ofPartitions partitions = .ok cluster ∧
        cluster.names = Cluster.defaultNames partitions.length ∧
          cluster.partitions = partitions) ∧
    (∀ input job, Job.parse? input = some job → job.peerCount? ≠ some 0) ∧
    ∀ (job : Job) (rows : Dataset Float), job.peerCount? ≠ some 0 → job.Clustered rows :=
  ⟨Cluster.checked, fun _ some_peer => Cluster.exists_ofPartitions some_peer,
    fun _ _ => Job.peerCount?_ne_zero, fun _ rows peers => Job.clustered rows peers⟩

/-- A job with names for its two peers. -/
def Job.twoNames : Job where
  peerCount? := some 2
  peerNames? := some ["b", "a"]
  options := {}
  rows := .inline [1, 2] 1
  output? := none

/-- Of two names that are used twice the smaller one is reported, and two different names are kept
in the order in which they are given. -/
theorem names_checked_two :
    Cluster.ofNames ["b", "a", "b", "a"] (List.replicate 4 (.empty 1 : Partition Float)) =
        .error (.repeatedName "a") ∧
      Job.twoNames.peerCount? ≠ some 0 ∧
        ∃ cluster, Job.twoNames.cluster ⟨1, [⟨[1], 2⟩]⟩ = .ok cluster ∧
          cluster.names = ["b", "a"] := by
  obtain ⟨checked, -, -, clustered⟩ := names_checked (F := Float)
  have peers : Job.twoNames.peerCount? ≠ some 0 := by decide
  have clustered := clustered Job.twoNames ⟨1, [⟨[1], 2⟩]⟩ peers
  refine ⟨?_, peers, ?_⟩
  · refine ((checked _ _).refused _).mpr (.inr (.inr ⟨by decide, rfl, "a", rfl, by decide, ?_⟩))
    intro other repeated
    have used : other ∈ ["b", "a", "b", "a"] :=
      List.count_pos_iff.mp (Nat.lt_of_lt_of_le Nat.two_pos repeated)
    have least : ∀ name ∈ ["b", "a", "b", "a"], "a" ≤ name := by decide
    exact le_iff_utf8_le.mp (least other used)
  · have named : Job.twoNames.WellNamed := by
      rintro names ⟨⟩
      exact ⟨by decide, by decide, fun count found => Option.some.inj found⟩
    obtain ⟨cluster, h⟩ := clustered.accepted.mpr named
    exact ⟨cluster, h, clustered.names cluster h⟩

end Superstep
