import Superstep.Cluster.Run
import Superstep.Peer.Script
import Superstep.Proofs.Data.Tape

/-!
# Sharing out rows, and reading them

The rows of a dataset are shared out among peers, and each peer then reads what it owns, again and
again. `Superstep.Dataset.shares_faithfully` says what one may rely on: no row is lost or owned
twice, the shares are as equal as whole rows allow, and a peer that reads its partition gets its
rows in order, each once, however often it starts over. All of this is said of rows, and also of the
values as they lie in memory (`Superstep.Tape`), where no position outside of them is ever looked
at.

One partition has to be left out. The width of a row is worked out before anything is looked at,
also where there are no rows, and a partition without rows may be said to have more features than
can be counted together with a label. Who reads from it breaks off
(`Superstep.Execution.breaks_off_hollow`).
-/

namespace Superstep

variable {F : Type}

/-- **The rows of a dataset are shared out** among `n` peers. -/
structure Dataset.SharedOut (d : Dataset F) (n : Nat) : Prop where
  length : (d.split n).length = n
  /-- Peer `i` owns the rows from `R * i / n` up to `R * (i + 1) / n` and no others. -/
  spans : ∀ i < n, ∃ p, (d.split n)[i]? = some p ∧ p.featureCount = d.featureCount ∧
    d.size * i / n + p.size = d.size * (i + 1) / n ∧
      ∀ j < p.size, p.rows[j]? = d.rows[d.size * i / n + j]?
  /-- No row is lost or owned twice. -/
  rows : (d.split n).flatMap (·.rows) = d.rows
  balanced : ∀ p ∈ d.split n, ∀ q ∈ d.split n, p.size ≤ q.size + 1
  /-- Nobody is left without a row where there are enough. -/
  owned : n ≤ d.size → ∀ p ∈ d.split n, p.rows ≠ []

/-- **The rows of a partition are read in order**, whatever is asked of it. -/
structure Partition.ReadInOrder (p : Partition F) (accesses : List Access) : Prop where
  /-- Since the last start, the answers are the rows and then nothing. -/
  answers : (p.play [] accesses).1 = (p.rows.take (Access.sinceReset accesses)).map some ++
    List.replicate (Access.sinceReset accesses - p.size) none
  position : (p.play [] accesses).2.position = min (Access.sinceReset accesses) p.size
  /-- Where there is nothing left to read, nothing moves. -/
  ended : p.size ≤ Access.sinceReset accesses →
    (p.play [] accesses).2.next = (none, (p.play [] accesses).2)
  /-- In memory the same happens, and no position outside of the values is looked at. -/
  tape : p.tape.play? [] accesses =
    some ((p.play [] accesses).1, (p.play [] accesses).2.tape)

theorem Dataset.sharedOut (d : Dataset F) {n : Nat} (peers : 0 < n) : d.SharedOut n where
  length := d.length_split n
  spans i hi := by
    have length := d.length_span hi
    have mono : d.bound n i ≤ d.bound n (i + 1) := d.bound_mono (Nat.le_succ i)
    refine ⟨_, d.getElem?_split hi, rfl, ?_, fun j hj => d.getElem?_span ?_⟩
    · change d.bound n i + (d.span n i).length = d.bound n (i + 1)
      omega
    · change j < (d.span n i).length at hj
      omega
  rows := d.flatMap_split peers
  balanced p hp q hq := by
    have most := (d.size_of_mem_split hp).2
    have least := (d.size_of_mem_split hq).1
    exact Nat.le_trans most (Nat.succ_le_succ least)
  owned enough p hp := d.rows_ne_nil_of_mem_split enough hp

theorem Partition.readInOrder {featureCount : Nat} {rows : List (Sample F)}
    (countable : featureCount + 1 < wordLimit)
    (even : ∀ row ∈ rows, row.features.length = featureCount) (accesses : List Access) :
    (ofRows featureCount rows).ReadInOrder accesses := by
  obtain ⟨reads, length⟩ := reads_play featureCount rows accesses
  constructor
  · have answered := reads.answers_eq
    rwa [length] at answered
  · have position := reads.position_eq
    rwa [length] at position
  · intro ended
    exact reads.next_eq (length ▸ ended)
  · have placed := wellPlaced_ofRows featureCount rows
    exact play?_tape placed (decide_eq_true countable) even [] accesses

/-- **Sharing out rows and reading them loses and doubles nothing**: the rows of every dataset that
is accepted are shared out among any number of peers, and every partition whose width can be
counted is read in order. -/
theorem Dataset.shares_faithfully {values : List F} {featureCount n : Nat} {d : Dataset F}
    (accepted : ofValues values featureCount = .ok d) (peers : 0 < n)
    (countable : d.size * n < wordLimit) :
    d.SharedOut n ∧ d.tape = { featureCount, values } ∧
      d.tape.cut? n = some ((d.split n).map Partition.tape) ∧
      (∀ p ∈ d.toPartition :: d.split n, ∀ accesses, p.ReadInOrder accesses) ∧
      ∀ (k : Nat) (rows : List (Sample F)), k + 1 < wordLimit →
        (∀ row ∈ rows, row.features.length = k) →
          ∀ accesses, (Partition.ofRows k rows).ReadInOrder accesses := by
  have regular := regular_of_ofValues accepted
  refine ⟨d.sharedOut peers, tape_of_ofValues accepted, cut?_tape regular countable, ?_,
    fun k rows countable even accesses => Partition.readInOrder countable even accesses⟩
  intro p hp accesses
  rcases List.mem_cons.mp hp with rfl | hp
  · exact Partition.readInOrder regular.countable regular.rows accesses
  · have mem := (d.of_mem_split hp).2
    obtain ⟨i, -, rfl⟩ := List.mem_map.mp hp
    exact Partition.readInOrder regular.countable (fun row hr => regular.rows row (mem row hr))
      accesses

/-- Three rows are shared out among two peers, and a partition is read to its end, started over and
read again. -/
theorem Dataset.shares_faithfully_three :
    let d : Dataset Nat := ⟨1, [⟨[1], 10⟩, ⟨[2], 20⟩, ⟨[3], 30⟩]⟩
    (ofValues [1, 10, 2, 20, 3, 30] 1 = .ok d ∧ 0 < 2 ∧ d.size * 2 < wordLimit) ∧
      d.SharedOut 2 ∧ d.split 2 = [.ofRows 1 [⟨[1], 10⟩], .ofRows 1 [⟨[2], 20⟩, ⟨[3], 30⟩]] ∧
        (Partition.ofRows 1 [⟨[2], 20⟩, (⟨[3], 30⟩ : Sample Nat)]).ReadInOrder
          [.next, .next, .next, .reset, .next] := by
  have accepted : ofValues [1, 10, 2, 20, 3, 30] 1 =
      .ok ⟨1, [⟨[1], 10⟩, ⟨[2], 20⟩, ⟨[3], (30 : Nat)⟩]⟩ := rfl
  obtain ⟨shared, -, -, -, read⟩ := shares_faithfully accepted (n := 2) (by decide) (by decide)
  exact ⟨⟨accepted, by decide, by decide⟩, shared, rfl, read 1 _ (by decide) (by decide) _⟩

/-- A single peer whose partition has no rows, but more features than can be counted together with
a label. -/
def Cluster.hollow : Cluster Float where
  names := ["peer-0"]
  partitions := [.empty 18446744073709551615]
  names_ne_nil := List.cons_ne_nil _ _
  length_partitions := rfl
  nodup_names := List.pairwise_singleton _ _

/-- **Who reads where the width of a row is too great breaks off**, though all rows, of which there
are none, are of that width, and there is nothing to read. -/
theorem Execution.breaks_off_hollow :
    ¬(Partition.empty 18446744073709551615 : Partition Float).ReadInOrder [.next] ∧
      ((Execution.ofCluster Cluster.hollow (Script.process [.read])).run).1 =
        .ended (.crashed "peer-0") := by
  refine ⟨fun inOrder => ?_, rfl⟩
  have unread : (Partition.empty 18446744073709551615 : Partition Float).tape.play? [] [.next] =
      none := rfl
  cases unread.symm.trans inOrder.tape

end Superstep
