import Superstep.Peer.Basic

/-!
# The order of names

What belongs to several peers is often wanted in an order that does not depend on when it came.
`byName` puts things into the order of the names of their peers; things of one peer stay in the
order in which they were.
-/

namespace Superstep

variable {α : Type}

/-- Things in the order of their peers' names. -/
def byName (name : α → PeerName) (things : List α) : List α :=
  things.mergeSort fun a b => decide (name a ≤ name b)

/-- Nothing is lost or added. -/
theorem byName_perm (name : α → PeerName) (things : List α) :
    (byName name things).Perm things :=
  List.mergeSort_perm ..

/-- No name stands before a smaller one. -/
theorem pairwise_byName (name : α → PeerName) (things : List α) :
    (byName name things).Pairwise fun a b => name a ≤ name b := by
  have trans (a b c : α) (hab : decide (name a ≤ name b)) (hbc : decide (name b ≤ name c)) :
      decide (name a ≤ name c) := by
    simp only [decide_eq_true_eq] at hab hbc ⊢
    exact String.le_trans hab hbc
  have total (a b : α) : decide (name a ≤ name b) || decide (name b ≤ name a) := by
    simpa using String.le_total (name a) (name b)
  exact (List.pairwise_mergeSort trans total things).imp fun h => of_decide_eq_true h

/-- Things are known, up to their order, if it is known what belongs to each name. -/
theorem perm_of_filter_eq (name : α → PeerName) {things things' : List α}
    (same : ∀ peer, things.filter (name · = peer) = things'.filter (name · = peer)) :
    things.Perm things' := by
  classical
  rw [List.perm_iff_count]
  intro thing
  have count : ∀ list : List α, list.count thing =
      (list.filter (name · = name thing)).count thing := fun list =>
    (List.count_filter (by simp)).symm
  rw [count things, count things', same]

end Superstep
