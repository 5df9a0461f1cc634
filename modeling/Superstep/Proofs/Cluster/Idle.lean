import Superstep.Proofs.Cluster.Progress

/-!
# Jobs that come to nothing

It may be that some peers are over before they have done anything, while all others wait at the
first barrier. Then nobody ever gets past it, nothing is sent or written, and the job ends the way
those peers do (`Superstep.Execution.Stalls`).
-/

namespace Superstep

variable {F M S ε α : Type}

namespace Plan

/-- **The plan of peers of which some are over at once**, all in the same way, while the others
wait. -/
def idle (peers : List PeerName) (quits : PeerName → Prop) (outcome : Outcome ε α) :
    Plan F M ε α where
  peers
  sends _ _ := []
  writes _ _ := []
  leaves peer k other := k = 0 ∧ quits peer ∧ other = outcome
  syncs peer _ := ¬quits peer

variable {peers : List PeerName} {quits : PeerName → Prop} {outcome : Outcome ε α}

/-- Nobody gets past a barrier that somebody does not come to. -/
theorem not_passes_idle {peer : PeerName} (hp : peer ∈ peers) (hq : quits peer) (k : Nat) :
    ¬(idle peers quits outcome : Plan F M ε α).Passes k := fun passes => passes peer hp hq

theorem concerted_idle (novalue : ∀ value, outcome ≠ .value value) :
    (idle peers quits outcome : Plan F M ε α).Concerted := by
  rintro k peer - value ⟨-, -, same⟩
  exact absurd same.symm (novalue value)

end Plan

namespace Execution

/-- **A job comes to nothing**: some peers are over at once, all in the same way. -/
structure Stalls (x : Execution F M S ε α) (start : S) (quits : PeerName → Prop)
    (outcome : Outcome ε α) : Prop where
  /-- Nobody gets beyond its beginning. -/
  untouched : ∀ y, x.Reaches y → ∀ s ∈ y.stations, ∀ state,
    s.activity = .running (.done (.ok (.goOn state))) → state = start
  silent : ∀ y, x.Reaches y → y.output.toList = []
  left : ∀ y, x.Reaches y → ∀ s ∈ y.stations, ∀ other,
    (s.activity = .leaving other ∨ s.activity = .gone other) →
      quits s.seat.name ∧ other = outcome
  ended : ∀ y, x.Reaches y → ∀ ending, y.ending? = some ending →
    (∃ error, outcome = .failed error ∧ ending = .failed error) ∨
      ∃ name, quits name ∧ outcome = .crashed ∧ ending = .crashed name

variable {cluster : Cluster F} {body : Seat → Process F M S ε α} {start : S} {peer : PeerName}
  {quits : PeerName → Prop} {outcome : Outcome ε α} {Inv : Seat → S → Standing F M → Prop}
  (suits : (Plan.idle cluster.names quits outcome).Suits Inv cluster body)
  (hp : peer ∈ cluster.names) (novalue : ∀ value, outcome ≠ .value value)

include suits hp novalue

/-- **A job comes to nothing** if some of its peers are over at once and the others wait. -/
theorem stalls_of_suits (untouched : ∀ seat state now, Inv seat state now → state = start) :
    (ofCluster cluster body).Stalls start quits outcome := by
  have left : ∀ y, (ofCluster cluster body).Reaches y → ∀ s ∈ y.stations, ∀ other,
      (s.activity = .leaving other ∨ s.activity = .gone other) →
        quits s.seat.name ∧ other = outcome := by
    rintro y ⟨chronicle, run⟩ s hs other ha
    obtain ⟨marks, h⟩ := run.conduct suits
    exact (h.mayLeave hs ha).1.2
  refine ⟨?_, ?_, left, ?_⟩
  · rintro y ⟨chronicle, run⟩ s hs state ha
    obtain ⟨marks, h⟩ := run.conduct suits
    exact untouched _ _ _ (h.inv hs ha)
  · rintro y ⟨chronicle, run⟩
    obtain ⟨marks, h⟩ := run.conduct suits
    exact List.eq_nil_iff_forall_not_mem.mpr fun entry he => List.not_mem_nil (h.mem_writes he)
  · rintro y ⟨chronicle, run⟩ ending he
    obtain ⟨marks, h⟩ := run.conduct suits
    have ended := h.accounts.ended ending he
    cases ending with
    | values values =>
      obtain ⟨s, hs, -⟩ := h.exists_station hp
      obtain ⟨value, gone⟩ := Ended.exists_gone ended hs
      exact absurd (left y ⟨chronicle, run⟩ s hs _ (.inr gone)).2.symm (novalue value)
    | failed error =>
      obtain ⟨s, hs, gone⟩ := ended
      exact .inl ⟨error, (left y ⟨chronicle, run⟩ s hs _ (.inr gone)).2.symm, rfl⟩
    | crashed name =>
      obtain ⟨s, hs, rfl, gone⟩ := ended
      obtain ⟨quit, same⟩ := left y ⟨chronicle, run⟩ s hs _ (.inr gone)
      exact .inr ⟨_, quit, same.symm, rfl⟩

/-- It ends, as nobody gets into the next superstep. -/
theorem ends_of_suits (hq : quits peer) (unread : ∀ p ∈ cluster.partitions, p.unread = p.rows) :
    (ofCluster cluster body).Inevitable fun y => y.ending?.isSome := by
  refine ((conduct_ofCluster suits).inevitable (Plan.concerted_idle novalue) (fun s hs => ?_)
    1).imp fun y reaches goal => goal.resolve_right fun far => ?_
  · obtain ⟨i, hs⟩ := List.mem_iff_getElem?.mp hs
    obtain ⟨name, partition, -, hp, rfl⟩ := exists_of_getElem?_ofCluster hs
    exact ⟨[], (unread partition (List.mem_of_getElem? hp)).symm⟩
  · obtain ⟨chronicle, run⟩ := reaches
    obtain ⟨marks, h⟩ := run.conduct suits
    obtain ⟨s, hs, -⟩ := h.exists_station hp
    exact Plan.not_passes_idle hp hq 0 (h.passes_of_lt hs (far s hs))

end Execution

end Superstep
