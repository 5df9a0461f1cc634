import Superstep.Proofs.Cluster.Delivery
import Superstep.Proofs.Cluster.Ends
import Superstep.Proofs.Cluster.Log
import Superstep.Proofs.Cluster.Plan

/-!
# Jobs whose peers keep to a plan

Each peer of a job is looked at by itself: its rounds keep to a plan as long as the others do
(`Superstep.Plan.Guides`). Here it is shown that then all of them keep to it, in every run
(`Superstep.Execution.Runs.conduct`). There is no circle in this, as what a peer relies on was done
in the superstep before, or by a peer that is over.

What has been done is read off the chronicle and the log (`Superstep.Station.standing`). A peer in
its program still has to do the rest of its part of the plan, a peer on its way through the barrier
all of its part of the next superstep, and who is gone has left as the plan allows
(`Superstep.Station.Abides`). For the supersteps that are over `Superstep.Execution.Conduct` says
that everybody has sent and written what the plan says.
-/

namespace Superstep

variable {F M S ε α : Type}

/-! ### One peer -/

/-- The log after a move. -/
def Effect.log (effect : Effect F M ε α) (log : OutputLog F) : OutputLog F :=
  match effect with
  | .write entry => log.append entry
  | _ => log

/-- Where a round began: in which superstep, and with how many rows left to read. -/
structure Mark where
  superstep : Nat
  unread : Nat
  deriving DecidableEq, Repr

namespace Plan

/-- **How a round has to end.** If there is to be another one, an invariant holds, and a round that
did not get into another superstep has read a row. -/
def Settles (plan : Plan F M ε α) (me : PeerName) (Inv : S → Standing F M → Prop) (mark : Mark) :
    Except ε (Progress S α) → Standing F M → Prop
  | .ok (.goOn state), now =>
    Inv state now ∧ (now.superstep = mark.superstep → now.partition.unread.length < mark.unread)
  | .ok (.finish value), now => plan.MayLeave me now (.value value)
  | .error error, now => plan.MayLeave me now (.failed error)

/-- **A plan guides a process** if all rounds from states in which the invariant holds keep to it,
and bring the invariant about again. -/
def Guides (plan : Plan F M ε α) (me : PeerName) (Inv : S → Standing F M → Prop)
    (process : Process F M S ε α) : Prop :=
  ∀ state now, Inv state now → (process.round state).Keeps plan me
    (plan.Settles me Inv ⟨now.superstep, now.partition.unread.length⟩) now

end Plan

namespace Station

/-- What a peer has done in its superstep. -/
def standing (chronicle : Chronicle M) (log : OutputLog F) (s : Station F M S ε α) :
    Standing F M where
  partition := s.partition
  superstep := s.superstep
  sent := chronicle.said s.seat.name s.superstep
  looked := chronicle.looked s.seat.name s.superstep
  wrote := log.wrote s.seat.name s.superstep

/-- The mark of the round that a peer is in after its next move. -/
def nextMark (mark : Mark) (s : Station F M S ε α) : Mark :=
  match s.activity with
  | .running (.done (.ok (.goOn _))) => ⟨s.superstep, s.partition.unread.length⟩
  | _ => mark

/-- **What a peer has still to do keeps to the plan**, where `now` is its standing. -/
def Abides (plan : Plan F M ε α) (Inv : S → Standing F M → Prop) (mark : Mark)
    (now : Standing F M) (s : Station F M S ε α) : Prop :=
  match s.activity with
  | .running program => program.Keeps plan s.seat.name (plan.Settles s.seat.name Inv mark) now
  | .entering _ next | .collecting next | .departing _ next =>
    plan.Passes s.superstep → (next (.ok (s.superstep + 1))).Keeps plan s.seat.name
      (plan.Settles s.seat.name Inv mark) (.fresh s.partition (s.superstep + 1))
  | .leaving outcome | .gone outcome => plan.MayLeave s.seat.name now outcome
  | .stopped => True

/-- What a peer can rely on in an execution. -/
structure Relies (plan : Plan F M ε α) (x : Execution F M S ε α) (chronicle : Chronicle M)
    (s : Station F M S ε α) : Prop where
  /-- It finds in its inbox what the others were to send. -/
  inbox : ∀ program, s.activity = .running program →
    if chronicle.looked s.seat.name s.superstep then s.inbox = []
    else plan.Arrives s.seat.name s.superstep s.inbox
  peers : plan.peers = x.stations.map (·.seat.name)
  /-- Nobody is out of reach before somebody may be over. -/
  unreached : ∀ program, s.activity = .running program → ∀ t ∈ x.stations,
    t.isReachable = false → plan.MayEnd s.superstep
  /-- The barrier lets nobody go before all have come. -/
  passes : ∀ openings next, s.activity = .departing openings next → plan.Passes s.superstep
  /-- It has not done anything in the next superstep. -/
  unsaid : chronicle.said s.seat.name (s.superstep + 1) = []
  unlooked : chronicle.looked s.seat.name (s.superstep + 1) = false
  unwritten : x.output.wrote s.seat.name (s.superstep + 1) = []

variable {plan : Plan F M ε α} {Inv : S → Standing F M → Prop} {mark : Mark}
  {x : Execution F M S ε α} {s s' : Station F M S ε α} {effect : Effect F M ε α}
  {deed : Option (Deed M)} {chronicle : Chronicle M}

theorem standing_sent (s : Station F M S ε α) (chronicle : Chronicle M) (log : OutputLog F)
    (receiver : PeerName) (message : M) :
    s.standing (chronicle ++ [s.entry (.sent receiver message)]) log =
      { s.standing chronicle log with
        sent := (s.standing chronicle log).sent ++ [(receiver, message)] } := by
  rw [standing, Chronicle.said_append, Chronicle.looked_append]
  simp [standing, entry, Chronicle.said, Chronicle.looked]

theorem standing_took (s : Station F M S ε α) (chronicle : Chronicle M) (log : OutputLog F)
    (received : List (Envelope M)) :
    s.standing (chronicle ++ [s.entry (.took received)]) log =
      { s.standing chronicle log with looked := true } := by
  rw [standing, Chronicle.said_append, Chronicle.looked_append]
  simp [standing, entry, Chronicle.said, Chronicle.looked]

theorem standing_wrote (s : Station F M S ε α) (chronicle : Chronicle M) (log : OutputLog F)
    (theta : List F) (cost : F) :
    s.standing chronicle (log.append ⟨s.seat.name, s.superstep, theta, cost⟩) =
      { s.standing chronicle log with
        wrote := (s.standing chronicle log).wrote ++ [(theta, cost)] } := by
  rw [standing, OutputLog.wrote_append]
  simp [standing]

/-- Who comes into a superstep has not done anything in it. -/
theorem standing_woke (rely : s.Relies plan x chronicle) :
    ({ s with superstep := s.superstep + 1 } : Station F M S ε α).standing
      (chronicle ++ [s.entry (.woke s.inbox)]) x.output =
        .fresh s.partition (s.superstep + 1) := by
  rw [standing, Chronicle.said_append, Chronicle.looked_append, rely.unsaid, rely.unlooked,
    rely.unwritten]
  simp [Standing.fresh, Chronicle.said, Chronicle.looked, entry]

/-- **A peer that moves goes on keeping to the plan**, if it can rely on the others. -/
theorem Moves.abides (move : s.Moves x s' effect deed) (rely : s.Relies plan x chronicle)
    (guided : plan.Guides s.seat.name Inv s.process)
    (h : s.Abides plan Inv mark (s.standing chronicle x.output)) :
    s'.Abides plan Inv (s.nextMark mark) (s'.standing
      (chronicle ++ (deed.map s.entry).toList) (effect.log x.output)) := by
  cases move with
  | begin ha =>
    simp only [Abides, ha] at h
    simp only [Option.map_none, Option.toList_none, List.append_nil, nextMark, ha]
    exact guided _ _ h.1
  | finish ha | fail ha | crash ha | tell ha | reopen ha =>
    simp only [Abides, ha] at h
    simp only [Option.map_none, Option.toList_none, List.append_nil, nextMark, ha]
    exact h
  | read ha readable =>
    simp only [Abides, ha] at h
    simp only [Option.map_none, Option.toList_none, List.append_nil, nextMark, ha]
    exact h.of_read readable
  | breakOff ha unreadable =>
    simp only [Abides, ha] at h
    simp only [Option.map_none, Option.toList_none, List.append_nil, nextMark, ha]
    exact h.of_unreadable unreadable
  | send ha hp named reachable =>
    simp only [Abides, ha] at h
    simp only [nextMark, ha]
    have known : _ ∈ plan.peers := rely.peers ▸ List.mem_map_of_mem (List.mem_of_getElem? hp)
    have h := h.1 (named ▸ known)
    rw [← standing_sent] at h
    exact h
  | refuse ha refused =>
    simp only [Abides, ha] at h
    simp only [Option.map_none, Option.toList_none, List.append_nil, nextMark, ha]
    -- the receiver is no peer, or somebody may be over
    rcases Execution.of_deliver_error refused with ⟨rfl, absent⟩ | ⟨rfl, t, ht, -, away⟩
    · refine h.2.1 fun known => ?_
      rw [rely.peers] at known
      obtain ⟨t, ht, named⟩ := List.mem_map.mp known
      exact absent t ht named
    · exact h.2.2 (rely.unreached _ ha t ht away)
  | sync ha =>
    simp only [Abides, ha] at h
    simp only [nextMark, ha]
    exact fun passes => (h.2 passes).2.2
  | drain ha =>
    simp only [Abides, ha] at h
    simp only [nextMark, ha]
    have h := h.of_drain (rely.inbox _ ha)
    rw [← standing_took s chronicle x.output s.inbox] at h
    exact h
  | write ha =>
    simp only [Abides, ha] at h
    simp only [Option.map_none, Option.toList_none, List.append_nil, nextMark, ha]
    have h := h.2
    rw [← standing_wrote] at h
    exact h
  | enter ha | collect ha | depart ha =>
    simp only [Abides, ha] at h
    simp only [nextMark, ha]
    exact h
  | wake ha isOpen =>
    simp only [Abides, ha] at h
    simp only [nextMark, ha]
    -- the next superstep begins, and nothing has been done in it
    have h := h (rely.passes _ _ ha)
    rw [← standing_woke rely] at h
    exact h
  | report ha =>
    simp only [Abides, ha] at h
    simp only [Option.map_none, Option.toList_none, List.append_nil, nextMark, ha]
    exact h

end Station

/-! ### All peers -/

namespace Execution

/-- **All peers keep to the plan.** What they are to do in their supersteps is left to them; what
was to be done in supersteps that are over is done. -/
structure Conduct (plan : Plan F M ε α) (Inv : Seat → S → Standing F M → Prop)
    (marks : Nat → Mark) (x : Execution F M S ε α) (chronicle : Chronicle M) : Prop where
  delivery : x.Delivery chronicle
  accounts : x.Accounts
  logged : x.Logged
  peers : plan.peers = x.stations.map (·.seat.name)
  guided : ∀ s ∈ x.stations, plan.Guides s.seat.name (Inv s.seat) s.process
  abides : ∀ (i : Nat) (s : Station F M S ε α), x.stations[i]? = some s →
    s.Abides plan (Inv s.seat) (marks i) (s.standing chronicle x.output)
  /-- Who has called at the end of a superstep was to call. -/
  synced : ∀ s ∈ x.stations, ∀ k, 2 * k + 1 ≤ chronicle.waits s.seat.name →
    plan.syncs s.seat.name k
  /-- Who has called at the end of a superstep that all get through has done its part of it. -/
  kept : ∀ s ∈ x.stations, ∀ k, 2 * k + 1 ≤ chronicle.waits s.seat.name → plan.Passes k →
    chronicle.said s.seat.name k = plan.sends s.seat.name k ∧
      x.output.wrote s.seat.name k = plan.writes s.seat.name k
  /-- Nobody has written anything else than it was to write in its superstep. -/
  written : ∀ s ∈ x.stations,
    x.output.wrote s.seat.name s.superstep <+: plan.writes s.seat.name s.superstep

namespace Conduct

variable {plan : Plan F M ε α} {Inv : Seat → S → Standing F M → Prop} {marks : Nat → Mark}
  {x y : Execution F M S ε α} {chronicle : Chronicle M} {index : Nat} {s s' t : Station F M S ε α}
  {effect : Effect F M ε α} {deed : Option (Deed M)}

/-- A peer of the plan has its station. -/
theorem exists_station (h : Conduct plan Inv marks x chronicle) {peer : PeerName}
    (hp : peer ∈ plan.peers) : ∃ t ∈ x.stations, t.seat.name = peer :=
  List.mem_map.mp (h.peers ▸ hp)

theorem mem_peers (h : Conduct plan Inv marks x chronicle) (hs : s ∈ x.stations) :
    s.seat.name ∈ plan.peers :=
  h.peers ▸ List.mem_map_of_mem hs

/-- A superstep that the barrier has ended is one that all may get through. -/
theorem passes (h : Conduct plan Inv marks x chronicle) {k : Nat}
    (opened : 2 * k + 1 ≤ x.barrier.openings) : plan.Passes k := by
  intro peer hp
  obtain ⟨t, ht, rfl⟩ := h.exists_station hp
  refine h.synced t ht k ?_
  rcases (h.delivery.lockstep.inStep t ht).near with hw | hw <;> omega

/-- A superstep that somebody has left behind is one that all may get through. -/
theorem passes_of_lt (h : Conduct plan Inv marks x chronicle) (hs : s ∈ x.stations) {k : Nat}
    (hk : k < s.superstep) : plan.Passes k := by
  have := h.delivery.lockstep.superstep_le hs
  exact h.passes (by omega)

/-- What was done in a superstep that the barrier has ended. -/
theorem kept_of_opened (h : Conduct plan Inv marks x chronicle) {k : Nat}
    (opened : 2 * k + 1 ≤ x.barrier.openings) (ht : t ∈ x.stations) :
    chronicle.said t.seat.name k = plan.sends t.seat.name k ∧
      x.output.wrote t.seat.name k = plan.writes t.seat.name k := by
  refine h.kept t ht k ?_ (h.passes opened)
  rcases (h.delivery.lockstep.inStep t ht).near with hw | hw <;> omega

/-- Between two rounds the invariant holds. -/
theorem inv (h : Conduct plan Inv marks x chronicle) (hs : s ∈ x.stations) {state : S}
    (ha : s.activity = .running (.done (.ok (.goOn state)))) :
    Inv s.seat state (s.standing chronicle x.output) := by
  obtain ⟨i, found⟩ := List.mem_iff_getElem?.mp hs
  have abides := h.abides i s found
  simp only [Station.Abides, ha] at abides
  exact abides.1

/-- Who is over has left as the plan allows. -/
theorem mayLeave (h : Conduct plan Inv marks x chronicle) (hs : s ∈ x.stations)
    {outcome : Outcome ε α} (ha : s.activity = .leaving outcome ∨ s.activity = .gone outcome) :
    plan.MayLeave s.seat.name (s.standing chronicle x.output) outcome := by
  obtain ⟨i, found⟩ := List.mem_iff_getElem?.mp hs
  have abides := h.abides i s found
  rcases ha with ha | ha <;>
  · simp only [Station.Abides, ha] at abides
    exact abides

/-- Who is no peer has not said anything. -/
theorem said_of_not_mem (h : Conduct plan Inv marks x chronicle) {peer : PeerName}
    (hp : peer ∉ plan.peers) (k : Nat) : chronicle.said peer k = [] := by
  rw [Chronicle.said, List.filterMap_eq_nil_iff]
  intro entry he
  obtain ⟨t, ht, named, -⟩ := h.delivery.known entry he
  split
  · refine if_neg ?_
    rintro ⟨rfl, -⟩
    exact hp (named ▸ h.mem_peers ht)
  · rfl

/-- **What arrives with a superstep is what the plan says.** -/
theorem arrives (h : Conduct plan Inv marks x chronicle) {k : Nat}
    (opened : 2 * k ≤ x.barrier.openings) (receiver : PeerName) :
    plan.Arrives receiver k (chronicle.arriving receiver k) := by
  cases k with
  | zero => rfl
  | succ k =>
    intro sender
    refine (Chronicle.filter_mailed ..).trans ?_
    split
    · next hp =>
      obtain ⟨t, ht, rfl⟩ := h.exists_station hp
      rw [(h.kept_of_opened (by omega) ht).1]
      rfl
    · next hp =>
      rw [h.said_of_not_mem hp]
      rfl

section MayEnd

variable (h : Conduct plan Inv marks x chronicle) (hs : s ∈ x.stations)
  {program : Round F M S ε α} (ha : s.activity = .running program)

include h hs ha

/-- Who is over while a peer is in its program has left in the same superstep. -/
theorem mayEnd_of_left (ht : t ∈ x.stations) {outcome : Outcome ε α}
    (left : t.activity = .leaving outcome ∨ t.activity = .gone outcome) :
    plan.MayEnd s.superstep := by
  have inStep := h.delivery.lockstep.inStep s hs
  simp only [Station.InStep, ha] at inStep
  have beside := h.delivery.lockstep.beside (s := s) ht (by omega)
  have leaves := (h.mayLeave ht left).1
  rcases left with left | left <;>
  · simp only [Station.Beside, left] at beside
    exact ⟨_, h.mem_peers ht, outcome, beside ▸ leaves⟩

/-- If the job has ended while a peer is in its program, somebody was over. -/
theorem mayEnd_of_ended {ending : Ending ε α} (he : x.ending? = some ending) :
    plan.MayEnd s.superstep := by
  have ended := h.accounts.ended ending he
  cases ending with
  | values values =>
    obtain ⟨value, gone⟩ := Ended.exists_gone ended hs
    rw [ha] at gone
    cases gone
  | failed error =>
    obtain ⟨u, hu, hg⟩ := ended
    exact h.mayEnd_of_left hs ha hu (.inr hg)
  | crashed name =>
    obtain ⟨u, hu, -, hg⟩ := ended
    exact h.mayEnd_of_left hs ha hu (.inr hg)

/-- If somebody is out of reach while a peer is in its program, somebody may be over. -/
theorem mayEnd (ht : t ∈ x.stations) (away : t.isReachable = false) :
    plan.MayEnd s.superstep := by
  unfold Station.isReachable at away
  split at away
  · cases away
  · cases away
  · cases away
  · cases away
  · next outcome left => exact h.mayEnd_of_left hs ha ht (.inl left)
  · next outcome left => exact h.mayEnd_of_left hs ha ht (.inr left)
  · next stopped =>
    cases he : x.ending? with
    | none => exact absurd stopped (h.accounts.unstopped he t ht)
    | some ending => exact h.mayEnd_of_ended hs ha he

end MayEnd

/-- Nobody has written anything in a superstep that it has not come to. -/
theorem wrote_of_lt (h : Conduct plan Inv marks x chronicle) (hs : s ∈ x.stations) {k : Nat}
    (hk : s.superstep < k) : x.output.wrote s.seat.name k = [] := by
  rw [OutputLog.wrote, List.map_eq_nil_iff, List.filter_eq_nil_iff]
  intro entry he
  obtain ⟨t, ht, named, hle⟩ := h.logged.written entry he
  rw [decide_eq_true_eq]
  rintro ⟨hp, rfl⟩
  obtain rfl := eq_of_name_eq h.delivery.lockstep.nodup ht hs (named.trans hp)
  omega

/-- **Nobody has written anything else than it was to write.** -/
theorem wrote_prefix (h : Conduct plan Inv marks x chronicle) (hs : s ∈ x.stations) (k : Nat) :
    x.output.wrote s.seat.name k <+: plan.writes s.seat.name k := by
  rcases Nat.lt_trichotomy k s.superstep with hlt | rfl | hgt
  · have opened : 2 * k + 1 ≤ x.barrier.openings := by
      have := h.delivery.lockstep.superstep_le hs
      omega
    exact (h.kept_of_opened opened hs).2 ▸ List.prefix_rfl
  · exact h.written s hs
  · rw [h.wrote_of_lt hs hgt]
    exact List.nil_prefix

/-- What is in the log was to be written. -/
theorem mem_writes (h : Conduct plan Inv marks x chronicle) {entry : OutputRecord F}
    (he : entry ∈ x.output.toList) :
    (entry.theta, entry.cost) ∈ plan.writes entry.writer entry.superstep := by
  obtain ⟨t, ht, named, -⟩ := h.logged.written entry he
  refine (named ▸ h.wrote_prefix ht entry.superstep).subset ?_
  exact List.mem_map.mpr ⟨entry, List.mem_filter.mpr ⟨he, by simp⟩, rfl⟩

/-- If only one peer is to write, only that one has written. -/
theorem writer_eq (h : Conduct plan Inv marks x chronicle) {writer : PeerName}
    (alone : ∀ peer k, writer ≠ peer → plan.writes peer k = []) {entry : OutputRecord F}
    (he : entry ∈ x.output.toList) : entry.writer = writer := by
  by_contra other
  have mem := h.mem_writes he
  rw [alone _ _ (Ne.symm other)] at mem
  cases mem

/-- **The log of a job that does not get through a superstep**, if only one peer writes. -/
theorem toList_eq (h : Conduct plan Inv marks x chronicle) {writer : PeerName}
    (mem : writer ∈ plan.peers)
    (alone : ∀ peer k, writer ≠ peer → plan.writes peer k = []) {k : Nat} (hs : s ∈ x.stations)
    (hk : k ≤ s.superstep) (blocked : ¬plan.Passes k)
    (whole : x.output.wrote writer k = plan.writes writer k) :
    x.output.toList = OutputLog.recordsOf writer (plan.writes writer) (k + 1) := by
  have reached := h.delivery.lockstep.superstep_le hs
  have stays : x.barrier.openings < 2 * k + 1 := Nat.lt_of_not_le fun h' => blocked (h.passes h')
  obtain ⟨t, ht, rfl⟩ := h.exists_station mem
  -- nobody gets past `k`, the writer writes alone, and before `k` it has written all
  refine OutputLog.toList_eq_recordsOf h.logged.sorted (fun entry he => ?_)
    (fun entry he => h.writer_eq alone he) fun j hj => ?_
  · obtain ⟨u, hu, -, hle⟩ := h.logged.written entry he
    have := h.delivery.lockstep.superstep_le hu
    omega
  · rcases Nat.lt_or_eq_of_le (Nat.le_of_lt_succ hj) with hlt | rfl
    · exact (h.kept_of_opened (by omega) ht).2
    · exact whole

/-- The log, superstep by superstep, if only one peer writes: before its superstep that peer has
written all, and in it as far as it has got. -/
theorem toList_eq_append (h : Conduct plan Inv marks x chronicle) (ht : t ∈ x.stations)
    (alone : ∀ peer k, t.seat.name ≠ peer → plan.writes peer k = []) : x.output.toList =
      OutputLog.recordsOf t.seat.name (plan.writes t.seat.name) t.superstep ++
        (x.output.wrote t.seat.name t.superstep).map fun written =>
          { writer := t.seat.name, superstep := t.superstep, theta := written.1,
            cost := written.2 } := by
  have written : x.output.toList =
      OutputLog.recordsOf t.seat.name (x.output.wrote t.seat.name) (t.superstep + 1) := by
    refine OutputLog.toList_eq_recordsOf h.logged.sorted (fun entry he => ?_)
      (fun entry he => h.writer_eq alone he) fun _ _ => rfl
    obtain ⟨u, hu, named, hle⟩ := h.logged.written entry he
    obtain rfl := eq_of_name_eq h.delivery.lockstep.nodup hu ht (named.trans (h.writer_eq alone he))
    exact Nat.lt_succ_of_le hle
  have before : ∀ k < t.superstep,
      x.output.wrote t.seat.name k = plan.writes t.seat.name k := by
    intro k hk
    have := h.delivery.lockstep.superstep_le ht
    exact (h.kept_of_opened (by omega) ht).2
  rw [written, OutputLog.recordsOf_succ, OutputLog.recordsOf_congr _ before]

/-- **The log of a job is a beginning of what is to be written**, if only one peer writes. -/
theorem toList_prefix (h : Conduct plan Inv marks x chronicle) (ht : t ∈ x.stations)
    (alone : ∀ peer k, t.seat.name ≠ peer → plan.writes peer k = []) : x.output.toList <+:
      OutputLog.recordsOf t.seat.name (plan.writes t.seat.name) (t.superstep + 1) := by
  rw [h.toList_eq_append ht alone, OutputLog.recordsOf_succ, List.prefix_append_right_inj]
  exact (h.written t ht).map _

/-- **What was to be written before a superstep** has been written by those who have come to it. -/
theorem recordsOf_prefix_toList (h : Conduct plan Inv marks x chronicle) (ht : t ∈ x.stations)
    (alone : ∀ peer k, t.seat.name ≠ peer → plan.writes peer k = []) :
    OutputLog.recordsOf t.seat.name (plan.writes t.seat.name) t.superstep <+: x.output.toList := by
  rw [h.toList_eq_append ht alone]
  exact List.prefix_append ..

/-- **Everybody can rely on the others.** -/
theorem relies (h : Conduct plan Inv marks x chronicle) (hs : s ∈ x.stations) :
    s.Relies plan x chronicle where
  inbox program ha := by
    have inStep := h.delivery.lockstep.inStep s hs
    have holds := h.delivery.holds s hs
    simp only [Station.InStep, ha] at inStep
    simp only [Station.Holds, ha] at holds
    rw [holds.2]
    split
    · rfl
    · exact h.arrives (by omega) _
  peers := h.peers
  unreached program ha t ht away := h.mayEnd hs ha ht away
  passes openings next ha := by
    have inStep := h.delivery.lockstep.inStep s hs
    simp only [Station.InStep, ha] at inStep
    exact h.passes (by omega)
  unsaid := by
    rw [Chronicle.said, List.filterMap_eq_nil_iff]
    intro entry he
    obtain ⟨t, ht, named, hle⟩ := h.delivery.known entry he
    split
    · refine if_neg ?_
      rintro ⟨hp, hk⟩
      obtain rfl := eq_of_name_eq h.delivery.lockstep.nodup ht hs (named.trans hp)
      omega
    · rfl
  unlooked := h.delivery.unlooked hs
  unwritten := h.wrote_of_lt hs (Nat.lt_succ_self _)

/-! ### A turn -/

/-- What a move adds to the chronicle is nothing that others have sent, nor anything of another
superstep. -/
theorem said_append_entry (deed : Option (Deed M)) (s : Station F M S ε α)
    (chronicle : Chronicle M) {peer : PeerName} {k : Nat}
    (h : s.seat.name ≠ peer ∨ s.superstep ≠ k) :
    Chronicle.said (chronicle ++ (deed.map s.entry).toList) peer k = chronicle.said peer k := by
  rw [Chronicle.said_append]
  have hne : ¬(s.seat.name = peer ∧ s.superstep = k) := by
    rintro ⟨hp, hk⟩
    rcases h with h | h
    · exact h hp
    · exact h hk
  cases deed with
  | none => exact List.append_nil _
  | some deed => cases deed <;> simp [Chronicle.said, Station.entry, hne]

theorem looked_append_entry (deed : Option (Deed M)) (s : Station F M S ε α)
    (chronicle : Chronicle M) {peer : PeerName} {k : Nat} (h : s.seat.name ≠ peer) :
    Chronicle.looked (chronicle ++ (deed.map s.entry).toList) peer k =
      chronicle.looked peer k := by
  rw [Chronicle.looked_append]
  cases deed with
  | none => exact Bool.or_false _
  | some deed => cases deed <;> simp [Chronicle.looked, Station.entry, h]

theorem waits_append_entry (deed : Option (Deed M)) (s : Station F M S ε α)
    (chronicle : Chronicle M) {peer : PeerName} (h : s.seat.name ≠ peer) :
    Chronicle.waits (chronicle ++ (deed.map s.entry).toList) peer = chronicle.waits peer := by
  rw [Chronicle.waits_append]
  cases deed with
  | none => rfl
  | some deed => cases deed <;> simp [Chronicle.waits, Station.entry, h]

/-- What a move adds to the log is nothing that others have written, nor anything of another
superstep. -/
theorem wrote_log (move : s.Moves x s' effect deed) (log : OutputLog F) {peer : PeerName} {k : Nat}
    (h : s.seat.name ≠ peer ∨ s.superstep ≠ k) :
    (effect.log log).wrote peer k = log.wrote peer k := by
  cases move with
  | write ha =>
    have hne : ¬(s.seat.name = peer ∧ s.superstep = k) := by
      rintro ⟨hp, hk⟩
      rcases h with h | h
      · exact h hp
      · exact h hk
    refine (OutputLog.wrote_append ..).trans ?_
    simp [hne]
  | _ => rfl

theorem output_after (x : Execution F M S ε α) (index : Nat) (s' : Station F M S ε α)
    (effect : Effect F M ε α) : (x.after index s' effect).output = effect.log x.output := by
  cases effect <;> rfl

/-- **Who has called at the end of a superstep has done its part of it**, also if it has called just
now. -/
theorem kept_self (h : Conduct plan Inv marks x chronicle) (hs : x.stations[index]? = some s)
    (move : s.Moves x s' effect deed) {k : Nat}
    (hk : 2 * k + 1 ≤ Chronicle.waits (chronicle ++ (deed.map s.entry).toList) s.seat.name) :
    plan.syncs s.seat.name k ∧ (plan.Passes k →
      Chronicle.said (chronicle ++ (deed.map s.entry).toList) s.seat.name k =
        plan.sends s.seat.name k ∧
      (effect.log x.output).wrote s.seat.name k = plan.writes s.seat.name k) := by
  have mem := List.mem_of_getElem? hs
  have inStep := h.delivery.lockstep.inStep s mem
  have abides := h.abides index s hs
  by_cases called : deed = some .called
  · subst called
    have said : Chronicle.said (chronicle ++ [s.entry .called]) s.seat.name k =
        chronicle.said s.seat.name k := (Chronicle.said_append ..).trans (List.append_nil _)
    have waits : Chronicle.waits (chronicle ++ [s.entry .called]) s.seat.name =
        chronicle.waits s.seat.name + 1 := (Chronicle.waits_append_called ..).trans (by simp)
    simp only [Option.map_some, Option.toList_some, said, waits] at hk ⊢
    cases move with
    | sync ha =>
      simp only [Station.InStep, ha] at inStep
      simp only [Station.Abides, ha] at abides
      by_cases now : s.superstep = k
      · subst now
        exact ⟨abides.1, fun passes => ⟨(abides.2 passes).1, (abides.2 passes).2.1⟩⟩
      · exact ⟨h.synced s mem k (by omega), h.kept s mem k (by omega)⟩
    | depart ha _ =>
      -- the second call of two, which ends no other superstep than the first
      simp only [Station.InStep, ha] at inStep
      exact ⟨h.synced s mem k (by omega), h.kept s mem k (by omega)⟩
  · -- what is done now is done in a superstep whose end the peer has not called for
    rw [Chronicle.waits_append_of_ne _ called] at hk
    have said : Chronicle.said (chronicle ++ (deed.map s.entry).toList) s.seat.name k =
        chronicle.said s.seat.name k := by
      cases move with
      | send ha =>
        simp only [Station.InStep, ha] at inStep
        exact said_append_entry _ s chronicle (.inr (by omega))
      | _ => exact (Chronicle.said_append ..).trans (List.append_nil _)
    have wrote : (effect.log x.output).wrote s.seat.name k = x.output.wrote s.seat.name k := by
      cases move with
      | write ha =>
        simp only [Station.InStep, ha] at inStep
        exact wrote_log (Station.Moves.write (x := x) ha) x.output (.inr (by omega))
      | _ => rfl
    rw [said, wrote]
    exact ⟨h.synced s mem k hk, h.kept s mem k hk⟩

/-- What another peer does changes nothing in that. -/
theorem kept_other (h : Conduct plan Inv marks x chronicle) (move : s.Moves x s' effect deed)
    (ht : t ∈ x.stations) (other : s.seat.name ≠ t.seat.name) {k : Nat}
    (hk : 2 * k + 1 ≤ Chronicle.waits (chronicle ++ (deed.map s.entry).toList) t.seat.name) :
    plan.syncs t.seat.name k ∧ (plan.Passes k →
      Chronicle.said (chronicle ++ (deed.map s.entry).toList) t.seat.name k =
        plan.sends t.seat.name k ∧
      (effect.log x.output).wrote t.seat.name k = plan.writes t.seat.name k) := by
  rw [waits_append_entry deed s chronicle other] at hk
  rw [said_append_entry deed s chronicle (.inl other), wrote_log move x.output (.inl other)]
  exact ⟨h.synced t ht k hk, h.kept t ht k hk⟩

/-- Who did not move stands where it stood. -/
theorem standing_other (move : s.Moves x s' effect deed) (other : s.seat.name ≠ t.seat.name)
    (mail : List (Envelope M)) :
    (t.receiveAll mail).standing (chronicle ++ (deed.map s.entry).toList)
      (effect.log x.output) = t.standing chronicle x.output := by
  simp only [Station.standing, Station.seat_receiveAll, Station.superstep_receiveAll,
    Station.partition_receiveAll, said_append_entry deed s chronicle (.inl other),
    looked_append_entry deed s chronicle other, wrote_log move x.output (.inl other)]

/-- What a move changes in what a peer has done in its superstep is what the plan says. -/
theorem written_move (h : Conduct plan Inv marks x chronicle) (hs : x.stations[index]? = some s)
    (move : s.Moves x s' effect deed) : (effect.log x.output).wrote s.seat.name s'.superstep <+:
      plan.writes s.seat.name s'.superstep := by
  have mem := List.mem_of_getElem? hs
  have written := h.written s mem
  have abides := h.abides index s hs
  cases move with
  | write ha =>
    simp only [Station.Abides, ha] at abides
    refine Eq.subst (motive := fun list => list <+: _) ?_ abides.1
    refine Eq.trans ?_ (OutputLog.wrote_append ..).symm
    simp [Station.standing, Station.resume]
  | wake ha isOpen =>
    refine Eq.subst (motive := fun list => list <+: _) (h.relies mem).unwritten.symm ?_
    exact List.nil_prefix
  | _ => exact written

/-- **A move keeps to the plan.** -/
theorem move {journal : Array (PeerName × Event F)} (h : Conduct plan Inv marks x chronicle)
    (hs : x.stations[index]? = some s) (move : s.Moves x s' effect deed) :
    Conduct plan Inv (Function.update marks index (s.nextMark (marks index)))
      { x.after index s' effect with journal } (chronicle ++ (deed.map s.entry).toList) := by
  have mem := List.mem_of_getElem? hs
  have turn : x.Turns _ { x.after index s' effect with journal } := .move hs move
  have output := output_after x index s' effect
  have other : ∀ {i : Nat} {u : Station F M S ε α}, x.stations[i]? = some u → i ≠ index →
      s.seat.name ≠ u.seat.name := fun hu hi =>
    h.delivery.lockstep.name_ne hs hu (Ne.symm hi)
  have called : ∀ {u : Station F M S ε α}, u ∈ (x.after index s' effect).stations → ∀ k,
      2 * k + 1 ≤ Chronicle.waits (chronicle ++ (deed.map s.entry).toList) u.seat.name →
      plan.syncs u.seat.name k ∧ (plan.Passes k →
        Chronicle.said (chronicle ++ (deed.map s.entry).toList) u.seat.name k =
          plan.sends u.seat.name k ∧
        (effect.log x.output).wrote u.seat.name k = plan.writes u.seat.name k) := by
    intro u hu k hk
    obtain ⟨i, hu⟩ := List.mem_iff_getElem?.mp hu
    rcases of_getElem?_after hu with ⟨-, rfl⟩ | ⟨hi, v, hv, rfl⟩
    · rw [Station.seat_receiveAll, move.seat_eq] at hk ⊢
      exact h.kept_self hs move hk
    · exact h.kept_other move (List.mem_of_getElem? hv) (other hv hi) hk
  refine
    { delivery := h.delivery.turn turn
      accounts := h.accounts.turn turn
      logged := h.logged.turn h.delivery.lockstep turn
      peers := h.peers.trans turn.names_eq.symm
      guided := fun u hu => ?_
      abides := fun i u hu => ?_
      synced := fun u hu k hk => (called hu k hk).1
      kept := fun u hu k hk passes => output ▸ (called hu k hk).2 passes
      written := fun u hu => ?_ }
  · obtain ⟨i, hu⟩ := List.mem_iff_getElem?.mp hu
    rcases of_getElem?_after hu with ⟨-, rfl⟩ | ⟨-, v, hv, rfl⟩
    · simp only [Station.seat_receiveAll, Station.process_receiveAll, move.seat_eq,
        move.process_eq]
      exact h.guided s mem
    · exact h.guided v (List.mem_of_getElem? hv)
  · rw [output]
    rcases of_getElem?_after hu with ⟨rfl, rfl⟩ | ⟨hi, v, hv, rfl⟩
    · rw [Function.update_self]
      have abides := move.abides (h.relies mem) (h.guided s mem) (h.abides i s hs)
      rw [← move.seat_eq] at abides
      exact abides
    · rw [Function.update_of_ne hi, standing_other move (other hv hi)]
      exact h.abides i v hv
  · rw [output]
    obtain ⟨i, hu⟩ := List.mem_iff_getElem?.mp hu
    rcases of_getElem?_after hu with ⟨-, rfl⟩ | ⟨hi, v, hv, rfl⟩
    · simp only [Station.seat_receiveAll, Station.superstep_receiveAll, move.seat_eq]
      exact h.written_move hs move
    · simp only [Station.seat_receiveAll, Station.superstep_receiveAll,
        wrote_log move x.output (.inl (other hv hi))]
      exact h.written v (List.mem_of_getElem? hv)

/-- The job's taking note of an end is no business of the peers. -/
theorem note {seat : Seat} {outcome : Outcome ε α} {reports : List (Seat × Outcome ε α)}
    {journal : Array (PeerName × Event F)} (h : Conduct plan Inv marks x chronicle)
    (running : x.ending? = none) (hr : x.reports = (seat, outcome) :: reports) :
    Conduct plan Inv marks
      { x with
        reports, journal
        harvest := (x.harvest.take seat outcome).1
        ending? := (x.harvest.take seat outcome).2 } chronicle := by
  have turn : x.Turns none
      { x with
        reports, journal
        harvest := (x.harvest.take seat outcome).1
        ending? := (x.harvest.take seat outcome).2 } := .note running hr
  have delivery := h.delivery.turn turn
  rw [Option.toList_none, List.append_nil] at delivery
  exact
    { delivery
      accounts := h.accounts.turn turn
      logged := h.logged.turn h.delivery.lockstep turn
      peers := h.peers
      guided := h.guided
      abides := h.abides
      synced := h.synced
      kept := h.kept
      written := h.written }

/-- Who is stopped does not have to do anything any more. -/
theorem stop (h : Conduct plan Inv marks x chronicle) (hs : x.stations[index]? = some s)
    (ended : x.ending?.isSome) (hgone : ∀ outcome, s.activity ≠ .gone outcome)
    (hstopped : s.activity ≠ .stopped) :
    Conduct plan Inv marks (x.put index { s with activity := .stopped }) chronicle := by
  have mem := List.mem_of_getElem? hs
  have turn : x.Turns none _ := .stop hs ended hgone hstopped
  have delivery := h.delivery.turn turn
  rw [Option.toList_none, List.append_nil] at delivery
  -- what is true of all stations and not about their activities is true of the one that is stopped
  have all {P : Station F M S ε α → Prop} (hP : ∀ t ∈ x.stations, P t)
      (hs' : P { s with activity := .stopped }) :
      ∀ t ∈ (x.put index { s with activity := .stopped }).stations, P t := by
    intro t ht
    rcases List.mem_or_eq_of_mem_set ht with ht | rfl
    · exact hP t ht
    · exact hs'
  exact
    { delivery
      accounts := h.accounts.turn turn
      logged := h.logged.turn h.delivery.lockstep turn
      peers := h.peers.trans turn.names_eq.symm
      guided := all h.guided (h.guided s mem)
      abides := fun i t ht => by
        rcases eq_or_ne i index with rfl | hi
        · obtain ⟨hlt, -⟩ := List.getElem?_eq_some_iff.mp hs
          obtain rfl := Option.some.inj ((List.getElem?_set_self hlt).symm.trans ht)
          trivial
        · exact h.abides i t ((List.getElem?_set_ne hi.symm).symm.trans ht)
      synced := all h.synced (h.synced s mem)
      kept := all h.kept (h.kept s mem)
      written := all h.written (h.written s mem) }

/-- **Turns keep to the plan.** -/
theorem turn {noted : Option (Entry M)} (h : Conduct plan Inv marks x chronicle)
    (turn : x.Turns noted y) :
    ∃ marks', Conduct plan Inv marks' y (chronicle ++ noted.toList) := by
  cases turn with
  | move hs move =>
    exact ⟨_, h.move hs move⟩
  | note running hr =>
    rw [Option.toList_none, List.append_nil]
    exact ⟨marks, h.note running hr⟩
  | stop hs ended hgone hstopped =>
    rw [Option.toList_none, List.append_nil]
    exact ⟨marks, h.stop hs ended hgone hstopped⟩

end Conduct

end Execution

/-! ### In a job from its beginning -/

/-- **A plan suits a job**: it guides the processes of all peers, and the invariant holds at their
beginning. -/
structure Plan.Suits (plan : Plan F M ε α) (Inv : Seat → S → Standing F M → Prop)
    (cluster : Cluster F) (body : Seat → Process F M S ε α) : Prop where
  peers : plan.peers = cluster.names
  start : ∀ i name partition, cluster.names[i]? = some name →
    cluster.partitions[i]? = some partition →
    Inv ⟨name, i, cluster.names⟩ (body ⟨name, i, cluster.names⟩).start (.fresh partition 0)
  guides : ∀ i name, cluster.names[i]? = some name →
    plan.Guides name (Inv ⟨name, i, cluster.names⟩) (body ⟨name, i, cluster.names⟩)

namespace Execution

variable {plan : Plan F M ε α} {Inv : Seat → S → Standing F M → Prop} {cluster : Cluster F}
  {body : Seat → Process F M S ε α} {chronicle : Chronicle M} {y : Execution F M S ε α}

theorem conduct_ofCluster (suits : plan.Suits Inv cluster body) :
    Conduct plan Inv (fun _ => ⟨1, 0⟩) (ofCluster cluster body) [] where
  delivery := delivery_ofCluster
  accounts := accounts_ofCluster
  logged := logged_ofCluster
  peers := suits.peers.trans (names_ofCluster cluster body).symm
  guided s hs := by
    obtain ⟨i, hs⟩ := List.mem_iff_getElem?.mp hs
    obtain ⟨name, partition, hn, -, rfl⟩ := exists_of_getElem?_ofCluster hs
    exact suits.guides i name hn
  abides i s hs := by
    obtain ⟨name, partition, hn, hp, rfl⟩ := exists_of_getElem?_ofCluster hs
    exact ⟨suits.start i name partition hn hp, fun h => absurd h Nat.zero_ne_one⟩
  synced s hs k hk := absurd hk (by simp)
  kept s hs k hk := absurd hk (by simp)
  written s hs := List.nil_prefix

/-- **In every run of a job that a plan suits, all peers keep to the plan.** -/
theorem Runs.conduct (run : (ofCluster cluster body).Runs chronicle y)
    (suits : plan.Suits Inv cluster body) : ∃ marks, Conduct plan Inv marks y chronicle := by
  induction run with
  | start => exact ⟨_, conduct_ofCluster suits⟩
  | turn t _ hz ih =>
    obtain ⟨marks, ih⟩ := ih
    exact ih.turn (turns_of_turn hz)

end Execution

end Superstep
