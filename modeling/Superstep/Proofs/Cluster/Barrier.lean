import Superstep.Proofs.Cluster.Delivery

/-!
# What the barrier does for the peers

A peer that ends a superstep meets the others twice, at one and the same barrier. Between the two
meetings it moves its messages, and the first thing to know about the barrier is that nobody is in
its program meanwhile, neither in the superstep that ends nor in the next one. The barrier has then
opened an odd number of times, and all peers are between the two meetings
(`Superstep.Station.InStep.isBetween_iff`).

The other thing is that nobody gets away. Supersteps differ by one at most, and where one peer is
over the others do not get any further than it did: who is over does not call any more
(`Superstep.Execution.Runs.waits_eq`), and the barrier opens only when all have called.

`Superstep.Execution.Runs.meets` puts this together.
-/

namespace Superstep

variable {F M S ε α : Type}

/-! ### Between the two meetings -/

namespace Station

/-- Whether a peer is between the two meetings at the end of a superstep, when the barrier has
opened so many times: the first one has let it go, and the second one has not. -/
def isBetween (openings : Nat) (s : Station F M S ε α) : Bool :=
  match s.activity with
  | .entering called _ => decide (called < openings)
  | .collecting _ => true
  | .departing called _ => decide (openings ≤ called)
  | .running _ | .leaving _ | .gone _ | .stopped => false

variable {x : Execution F M S ε α} {s s' : Station F M S ε α} {effect : Effect F M ε α}
  {deed : Option (Deed M)} {openings waits : Nat}

/-- **Peers are between the two meetings when the barrier has opened an odd number of times.** -/
theorem InStep.isBetween_iff (h : s.InStep openings waits) (unstopped : s.activity ≠ .stopped) :
    s.isBetween openings = true ↔ openings % 2 = 1 := by
  unfold InStep at h
  unfold isBetween
  split at h <;> simp_all <;> omega

theorem ne_stopped_of_isBetween (h : s.isBetween openings = true) : s.activity ≠ .stopped := by
  intro ha
  simp [isBetween, ha] at h

/-- **Between the two meetings a peer only moves messages**, and calls for the second one. -/
theorem Moves.quiet (h : s.Moves x s' effect deed)
    (between : s.isBetween x.barrier.openings = true) :
    (effect = .nothing ∨ effect = .arrival) ∧ (deed = none ∨ deed = some .called) := by
  cases h with
  | enter | collect => exact ⟨.inl rfl, .inl rfl⟩
  | depart => exact ⟨.inr rfl, .inr rfl⟩
  | wake ha isOpen =>
    simp only [isBetween, ha, decide_eq_true_eq] at between
    omega
  | begin ha | finish ha | fail ha | crash ha | tell ha | read ha | breakOff ha | reopen ha
    | send ha | refuse ha | sync ha | drain ha | write ha | report ha =>
    simp [isBetween, ha] at between

/-- Who is over does nothing but report it, and remains over. -/
theorem Moves.of_unreachable (h : s.Moves x s' effect deed) (away : s.isReachable = false) :
    deed = none ∧ s'.isReachable = false := by
  cases h with
  | report => exact ⟨rfl, rfl⟩
  | begin ha | finish ha | fail ha | crash ha | tell ha | read ha | breakOff ha | reopen ha
    | send ha | refuse ha | sync ha | drain ha | write ha | enter ha | collect ha | depart ha
    | wake ha => simp [isReachable, ha] at away

end Station

namespace Execution

variable {x y z : Execution F M S ε α} {chronicle more : Chronicle M}

/-- **All peers are between the two meetings together.** -/
theorem Lockstep.isBetween {s t : Station F M S ε α} (h : x.Lockstep chronicle)
    (hs : s ∈ x.stations) (ht : t ∈ x.stations) (between : s.isBetween x.barrier.openings = true)
    (unstopped : t.activity ≠ .stopped) : t.isBetween x.barrier.openings = true := by
  have odd := ((h.inStep s hs).isBetween_iff (Station.ne_stopped_of_isBetween between)).mp between
  exact ((h.inStep t ht).isBetween_iff unstopped).mpr odd

/-- While peers are between the two meetings, nothing is sent, looked at or written. -/
theorem Turns.quiet {noted : Option (Entry M)} (h : x.Turns noted y)
    (lockstep : x.Lockstep chronicle) {s : Station F M S ε α} (hs : s ∈ x.stations)
    (between : s.isBetween x.barrier.openings = true) :
    y.output = x.output ∧ ∀ entry, noted = some entry → entry.deed = .called := by
  cases h with
  | move ht move =>
    rename_i index t t' effect deed journal
    have unstopped : t.activity ≠ .stopped := by
      intro ha
      cases move <;> simp_all
    obtain ⟨nothing, called⟩ :=
      move.quiet (lockstep.isBetween hs (List.mem_of_getElem? ht) between unstopped)
    refine ⟨by rcases nothing with rfl | rfl <;> rfl, fun entry he => ?_⟩
    rcases called with rfl | rfl
    · cases he
    · obtain rfl := Option.some.inj he
      rfl
  | note => exact ⟨rfl, fun entry he => by cases he⟩
  | stop => exact ⟨rfl, fun entry he => by cases he⟩

/-! ### When a peer is over -/

/-- Who is over remains over, and does not call. -/
theorem Turns.unreachable {noted : Option (Entry M)} (h : x.Turns noted y)
    (nodup : (x.stations.map (·.seat.name)).Nodup) {i : Nat} {s : Station F M S ε α}
    (hs : x.stations[i]? = some s) (away : s.isReachable = false) :
    (∃ u, y.stations[i]? = some u ∧ u.seat = s.seat ∧ u.isReachable = false) ∧
      Chronicle.waits noted.toList s.seat.name = 0 := by
  cases h with
  | move ht move =>
    rename_i index t t' effect deed journal
    rcases eq_or_ne i index with rfl | hi
    · obtain rfl := Option.some.inj (hs.symm.trans ht)
      obtain ⟨rfl, away'⟩ := move.of_unreachable away
      exact ⟨⟨_, getElem?_after_self ht, move.seat_eq, away'⟩, rfl⟩
    · refine ⟨⟨_, getElem?_after_of_ne hs hi, rfl, away⟩, ?_⟩
      have other : t.seat.name ≠ s.seat.name := fun same =>
        hi (index_eq_of_name_eq nodup hs ht same.symm)
      cases deed with
      | none => rfl
      | some deed => cases deed <;> simp [Chronicle.waits, Station.entry, other]
  | note => exact ⟨⟨s, hs, rfl, away⟩, rfl⟩
  | stop ht running hgone hstopped =>
    rename_i index t
    refine ⟨?_, rfl⟩
    rcases eq_or_ne i index with rfl | hi
    · obtain rfl := Option.some.inj (hs.symm.trans ht)
      obtain ⟨hlt, -⟩ := List.getElem?_eq_some_iff.mp hs
      exact ⟨_, List.getElem?_set_self hlt, rfl, rfl⟩
    · exact ⟨s, (List.getElem?_set_ne hi.symm).trans hs, rfl, away⟩

theorem Runs.append (h : x.Runs chronicle y) (h' : y.Runs more z) :
    x.Runs (chronicle ++ more) z := by
  induction h' with
  | start => rwa [List.append_nil]
  | turn t _ hz ih =>
    rw [← List.append_assoc]
    exact ih.turn t hz

/-- **Who is over never calls at the barrier again.** -/
theorem Runs.waits_eq (run : x.Runs more y) (nodup : (x.stations.map (·.seat.name)).Nodup) {i : Nat}
    {s : Station F M S ε α} (hs : x.stations[i]? = some s) (away : s.isReachable = false) :
    (∃ u, y.stations[i]? = some u ∧ u.seat = s.seat ∧ u.isReachable = false) ∧
      more.waits s.seat.name = 0 := by
  induction run with
  | start => exact ⟨⟨s, hs, rfl, away⟩, rfl⟩
  | turn t run hz ih =>
    obtain ⟨⟨u, hu, seat, away⟩, none⟩ := ih
    have nodup := Reaches.names_eq ⟨_, run⟩ ▸ nodup
    obtain ⟨⟨v, hv, seat', away'⟩, none'⟩ := (turns_of_turn hz).unreachable nodup hu away
    rw [seat] at none'
    exact ⟨⟨v, hv, seat'.trans seat, away'⟩, by rw [Chronicle.waits_append, none, none']⟩

/-! ### In a job from its beginning -/

/-- **What the barrier does for the peers of a job.** -/
structure Meets (y : Execution F M S ε α) (chronicle : Chronicle M) : Prop where
  /-- A superstep is the number of barriers that a peer has got through. -/
  counted : ∀ s ∈ y.stations, chronicle.passed s.seat.name = s.superstep
  /-- Nobody is more than a superstep ahead. -/
  near : ∀ s ∈ y.stations, ∀ t ∈ y.stations, t.superstep ≤ s.superstep + 1
  /-- While one peer is between the two meetings everybody is, but for those that were stopped. -/
  together : ∀ s ∈ y.stations, s.isBetween y.barrier.openings = true → ∀ t ∈ y.stations,
    t.isBetween y.barrier.openings = true ∨ t.activity = .stopped
  /-- Meanwhile nothing is sent, looked at or written: all that happens is that peers call for the
  second meeting. -/
  quiet : ∀ s ∈ y.stations, s.isBetween y.barrier.openings = true → ∀ t z, y.turn t = some z →
    z.output = y.output ∧ ∀ entry, y.noted t = some entry → entry.deed = .called
  /-- Nobody ever gets any further than a peer that is over. -/
  final : ∀ s ∈ y.stations, ∀ outcome,
    (s.activity = .leaving outcome ∨ s.activity = .gone outcome) →
    ∀ more z, y.Runs more z → ∀ t ∈ z.stations,
      t.superstep ≤ s.superstep ∧ Chronicle.passed (chronicle ++ more) t.seat.name ≤ s.superstep

section Job

variable {cluster : Cluster F} {body : Seat → Process F M S ε α}

/-- Who is over has called at every barrier that has opened, and at no other. -/
theorem Runs.superstep_le_of_over (run : (ofCluster cluster body).Runs chronicle y)
    {s : Station F M S ε α} (hs : s ∈ y.stations) {outcome : Outcome ε α}
    (away : s.activity = .leaving outcome ∨ s.activity = .gone outcome)
    (further : y.Runs more z) {t : Station F M S ε α} (ht : t ∈ z.stations) :
    t.superstep ≤ s.superstep := by
  obtain ⟨i, found⟩ := List.mem_iff_getElem?.mp hs
  have waits : chronicle.waits s.seat.name = 2 * s.superstep := by
    have inStep := run.lockstep.inStep s hs
    rcases away with ha | ha <;> simp only [Station.InStep, ha] at inStep <;> exact inStep.1
  have unreachable : s.isReachable = false := by
    rcases away with ha | ha <;> simp [Station.isReachable, ha]
  obtain ⟨⟨u, hu, seat, -⟩, none⟩ := further.waits_eq run.lockstep.nodup found unreachable
  have lockstep := (run.append further).lockstep
  -- the barrier has not opened since without this peer's call
  have near := (lockstep.inStep u (List.mem_of_getElem? hu)).near
  rw [seat, Chronicle.waits_append, none, waits] at near
  have begun := lockstep.superstep_le ht
  omega

/-- **The barrier.** In every run of every job, supersteps differ by one at most; while a peer is
between the two meetings at the end of a superstep everybody is, and nobody sends, looks at or
writes anything; and nobody ever gets through more barriers than a peer that is over. -/
theorem Runs.meets (run : (ofCluster cluster body).Runs chronicle y) : y.Meets chronicle where
  counted := run.delivery.passed
  near s hs t ht := run.lockstep.superstep_le_succ hs ht
  together s hs between t ht := by
    by_cases stopped : t.activity = .stopped
    · exact .inr stopped
    · exact .inl (run.lockstep.isBetween hs ht between stopped)
  quiet s hs between t z hz := (turns_of_turn hz).quiet run.lockstep hs between
  final s hs outcome away more z further t ht := by
    have le := run.superstep_le_of_over hs away further ht
    exact ⟨le, (run.append further).delivery.passed t ht ▸ le⟩

end Job

/-- Turns of the two peers that write to each other, up to where the first one moves its
messages. -/
def meetingTurns : List Turn :=
  List.replicate 6 (.step 0) ++ List.replicate 6 (.step 1) ++ [.step 0, .step 0]

/-- When one of the two peers moves its messages, the other one is between the two meetings as well,
and neither can send anything. -/
theorem meets_correspondence : ∃ chronicle y, correspondence.Runs chronicle y ∧
    y.Meets chronicle ∧ y.stations.map (·.isBetween y.barrier.openings) = [true, true] ∧
    y.stations.map (·.inbox.length) = [1, 0] ∧ y.stations.map (·.mailbox.length) = [1, 2] := by
  have played : ((correspondence.play meetingTurns).map fun p =>
      (p.2.stations.map (·.isBetween p.2.barrier.openings), p.2.stations.map (·.inbox.length),
        p.2.stations.map (·.mailbox.length))) = some ([true, true], [1, 0], [1, 2]) := by
    decide +kernel
  obtain ⟨⟨chronicle, y⟩, hplay, heq⟩ := Option.map_eq_some_iff.mp played
  obtain ⟨between, heq⟩ := Prod.mk.inj heq
  obtain ⟨inboxes, mailboxes⟩ := Prod.mk.inj heq
  have run := runs_of_play hplay
  exact ⟨chronicle, y, run, Runs.meets run, between, inboxes, mailboxes⟩

end Execution

end Superstep
