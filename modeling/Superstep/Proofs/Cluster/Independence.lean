import Superstep.Proofs.Cluster.Progress
import Superstep.Proofs.Cluster.Solo

/-!
# Schedules do not matter

A job can run in many ways. If its peers do not care for the order in which the messages of
different senders arrive, and no peer fails and no sending is refused because its receiver is over,
then all these ways come to the same (`Superstep.Execution.independent`): when nothing can happen
any more, the same peers are over with the same values, the others wait at the same barrier, every
peer has made the same calls and been given the same replies, and the same records have been
written, those of each peer in the same order.

The proof looks at two runs, of which the first has come to its end. What is sent in the first one
is taken to be known, so that every peer has one way to go by itself (`Superstep.Solo.Trail`), and
the peers of the first run are somewhere on it. By induction on its turns, so are those of the
second (`Superstep.Execution.Transcribes.mailed_eq`): in a superstep that is over they have sent
what the others have sent, for they have all come as far, and nobody has come further than in the
first run (`Superstep.Execution.Displays.trail`).
-/

namespace Superstep

variable {F M S ε α : Type}

/-! ### One run -/

namespace Transcript

/-- No sending was refused because its receiver was over. -/
def Connected (transcript : Transcript F M) : Prop :=
  ∀ u ∈ transcript, ∀ peer, u.interaction.failure? ≠ some (.disconnected peer)

/-- What a peer sent is what it says to have sent. -/
theorem filter_mailed (transcript : Transcript F M) (sender receiver : PeerName) (k : Nat) :
    (transcript.mailed receiver k).filter (·.sender = sender) =
      (transcript.of sender).mailed receiver k := by
  rw [mailed, of, List.filter_filterMap, mailed, List.filterMap_filter]
  refine List.filterMap_congr fun u _ => ?_
  cases u.interaction.sent? with
  | none => simp
  | some sent => by_cases h : sent.1 = receiver ∧ u.superstep = k <;> simp [h, Option.filter]

/-- What a peer wrote is what it says to have written. -/
theorem filter_records (transcript : Transcript F M) (writer : PeerName) :
    transcript.records.filter (·.writer = writer) = (transcript.of writer).records := by
  rw [records, of, List.filter_filterMap, records, List.filterMap_filter]
  refine List.filterMap_congr fun u _ => ?_
  cases u.interaction.wrote? <;> simp [Option.filter]

end Transcript

namespace Execution

/-- Nobody has failed or broken off, as far as the job knows. -/
def Unfailed (x : Execution F M S ε α) : Prop :=
  ∀ s ∈ x.stations, ∀ outcome, s.activity = .gone outcome → ∃ value, outcome = .value value

variable {x y z : Execution F M S ε α} {transcript : Transcript F M}

theorem Turns.unfailed {noted : Option (Entry M)} (h : x.Turns noted y) (unfailed : y.Unfailed) :
    x.Unfailed := by
  intro s hs outcome gone
  obtain ⟨i, hs⟩ := List.mem_iff_getElem?.mp hs
  obtain ⟨u, hu, -, gone⟩ := h.gone hs gone
  exact unfailed u (List.mem_of_getElem? hu) outcome gone

/-- Where nobody has failed, a job that has ended has ended well. -/
theorem Accounts.exists_values (h : x.Accounts) (unfailed : x.Unfailed) {ending : Ending ε α}
    (he : x.ending? = some ending) : ∃ values, ending = .values values := by
  have ended := h.ended ending he
  cases ending with
  | values values => exact ⟨values, rfl⟩
  | failed error =>
    obtain ⟨t, ht, gone⟩ := ended
    obtain ⟨value, ⟨⟩⟩ := unfailed t ht _ gone
  | crashed name =>
    obtain ⟨t, ht, -, gone⟩ := ended
    obtain ⟨value, ⟨⟩⟩ := unfailed t ht _ gone

/-- Where nobody has failed, nobody is stopped. -/
theorem Accounts.ne_stopped (h : x.Accounts) (unfailed : x.Unfailed) :
    ∀ s ∈ x.stations, s.activity ≠ .stopped := by
  cases he : x.ending? with
  | none => exact h.unstopped he
  | some ending =>
    obtain ⟨values, rfl⟩ := h.exists_values unfailed he
    intro s hs stopped
    obtain ⟨value, gone⟩ := (h.ended _ he).exists_gone hs
    rw [gone] at stopped
    cases stopped

/-- The barrier opens once at a time. -/
theorem Turns.openings_le {noted : Option (Entry M)} (h : x.Turns noted y) :
    x.barrier.openings ≤ y.barrier.openings ∧ y.barrier.openings ≤ x.barrier.openings + 1 := by
  cases h with
  | move hs move =>
    rename_i index s s' effect deed journal
    cases effect with
    | arrival =>
      change _ ≤ x.barrier.arrive.openings ∧ x.barrier.arrive.openings ≤ _
      unfold Barrier.arrive
      split
      · exact ⟨Nat.le_succ _, Nat.le_refl _⟩
      · exact ⟨Nat.le_refl _, Nat.le_succ _⟩
    | _ => exact ⟨Nat.le_refl _, Nat.le_succ _⟩
  | note | stop => exact ⟨Nat.le_refl _, Nat.le_succ _⟩

/-- What is said is said by a peer. -/
theorem mem_names_of_heard {t : Turn} {u : Utterance F M} (h : x.heard t = some u) :
    u.peer ∈ x.stations.map (·.seat.name) := by
  cases t with
  | step index =>
    obtain ⟨s, hs, said⟩ := Option.bind_eq_some_iff.mp h
    rw [(peer_of_answered said).1]
    exact List.mem_map_of_mem (List.mem_of_getElem? hs)
  | note | stop => cases h

/-- Only peers say anything. -/
theorem Transcribes.mem_names (run : x.Transcribes transcript y) :
    ∀ u ∈ transcript, u.peer ∈ x.stations.map (·.seat.name) := by
  induction run with
  | start => exact fun u hu => absurd hu List.not_mem_nil
  | turn t before hz ih =>
    intro u hu
    rcases List.mem_append.mp hu with hu | hu
    · exact ih u hu
    · exact before.reaches.names_eq ▸ mem_names_of_heard (Option.mem_toList.mp hu)

/-- Who has sent something is in its program. -/
theorem running_of_sent {s : Station F M S ε α} {u : Utterance F M} (said : x.answered s = some u)
    (sent : u.interaction.sent? ≠ none) : ∃ program, s.activity = .running program := by
  unfold answered at said
  split at said
  case h_6 =>
    split at said <;> cases said
    exact absurd rfl sent
  case h_7 => cases said
  all_goals exact ⟨_, ‹_›⟩

/-- **What is sent in a superstep is sent before everybody has called for its end.** -/
theorem Lockstep.mailed_heard {chronicle : Chronicle M} (h : x.Lockstep chronicle) (t : Turn)
    {k : Nat} (past : 2 * k + 1 ≤ x.barrier.openings) (receiver : PeerName) :
    Transcript.mailed (x.heard t).toList receiver k = [] := by
  refine List.filterMap_eq_nil_iff.mpr fun u hu => ?_
  have hu := Option.mem_toList.mp hu
  cases sent : u.interaction.sent? with
  | none => rfl
  | some mail =>
    refine if_neg fun same => ?_
    cases t with
    | step index =>
      obtain ⟨s, hs, said⟩ := Option.bind_eq_some_iff.mp hu
      obtain ⟨program, ha⟩ := running_of_sent said (by simp [sent])
      have inStep := h.inStep s (List.mem_of_getElem? hs)
      simp only [Station.InStep, ha] at inStep
      have := (peer_of_answered said).2
      omega
    | note | stop => cases hu

/-! ### The one way of every peer -/

/-- A peer comes to this by itself, if it is known what is sent to each. -/
def Course (x : Execution F M S ε α) (mail : PeerName → Nat → List (Envelope M)) (seat : Seat)
    (solo : Solo F M S ε α) : Prop :=
  ∃ s ∈ x.stations, s.seat = seat ∧ Solo.Trail (mail seat.name) s.alone solo

/-- **Everybody shows what it comes to by itself.** -/
def Displays (x : Execution F M S ε α) (mail : PeerName → Nat → List (Envelope M))
    (transcript : Transcript F M) (y : Execution F M S ε α) : Prop :=
  ∀ s ∈ y.stations, ∃ solo, x.Course mail s.seat solo ∧
    s.Shows (mail s.seat.name) (transcript.of s.seat.name) solo

variable {mail : PeerName → Nat → List (Envelope M)} {a b : Solo F M S ε α} {seat : Seat}

theorem Course.trans (h : x.Course mail seat a) (trail : Solo.Trail (mail seat.name) a b) :
    x.Course mail seat b := by
  obtain ⟨s, hs, seat, way⟩ := h
  exact ⟨s, hs, seat, way.trans trail⟩

/-- There is only one way for each peer. -/
theorem Course.total (nodup : (x.stations.map (·.seat.name)).Nodup) (ha : x.Course mail seat a)
    (hb : x.Course mail seat b) :
    Solo.Trail (mail seat.name) a b ∨ Solo.Trail (mail seat.name) b a := by
  obtain ⟨s, hs, rfl, trail⟩ := ha
  obtain ⟨t, ht, same, trail'⟩ := hb
  obtain rfl := eq_of_name_eq nodup ht hs (congrArg Seat.name same)
  exact Solo.trail_total trail trail'

section Job

variable {cluster : Cluster F} {body : Seat → Process F M S ε α}

/-- **In every run everybody shows what it comes to by itself**, if it is known what is sent. -/
theorem Transcribes.displays (run : (ofCluster cluster body).Transcribes transcript y)
    (orderly : ∀ seat ∈ cluster.seats, (body seat).Orderly) (connected : transcript.Connected)
    (mailed : ∀ peer k, 2 * k + 2 ≤ y.barrier.openings →
      mail peer k = byName (·.sender) (transcript.mailed peer k)) :
    (ofCluster cluster body).Displays mail transcript y := by
  induction run with
  | start =>
    intro s hs
    refine ⟨s.alone, ⟨s, hs, rfl, .refl⟩, ?_⟩
    obtain ⟨seat, partition, rfl⟩ := exists_ready_of_mem hs
    exact ⟨rfl, rfl, rfl, rfl, rfl, rfl, trivial, List.mergeSort_nil⟩
  | turn t before hz ih =>
    rename_i transcript y z
    obtain ⟨chronicle, runs, same⟩ := before.exists_runs
    have delivery := runs.delivery
    have grows := (turns_of_turn hz).openings_le
    -- what was sent in a superstep that is over was known before
    have known (peer : PeerName) (k : Nat) (past : 2 * k + 2 ≤ y.barrier.openings) :
        mail peer k = byName (·.sender) (transcript.mailed peer k) := by
      rw [mailed peer k (by omega), Transcript.mailed_append,
        delivery.lockstep.mailed_heard t (by omega), List.append_nil]
    refine forall_told_turn (P := fun s told => ∃ solo,
      (ofCluster cluster body).Course mail s.seat solo ∧ s.Shows (mail s.seat.name) told solo)
      delivery.lockstep.nodup hz
      (ih (fun u hu => connected u (List.mem_append_left _ hu)) known) ?_ ?_ ?_
    · rintro index s s' effect hs move heard ⟨solo, course, shows⟩
      have mem := List.mem_of_getElem? hs
      obtain ⟨seat, process⟩ := before.reaches.process_eq s mem
      obtain ⟨solo', trail, shows'⟩ := move.shows shows (process ▸ orderly _ seat)
        (before.reaches.peers_eq s mem)
        (fun u said => connected u (List.mem_append_right _ (by rw [heard, said]; simp)))
        fun openings next ha isOpen => by
          have inStep := delivery.lockstep.inStep s mem
          have holds := delivery.holds s mem
          simp only [Station.InStep, ha] at inStep
          simp only [Station.Holds, ha] at holds
          rw [holds.1, same, known _ _ (by omega)]
      rw [move.seat_eq]
      exact ⟨solo', course.trans trail, shows'⟩
    · rintro s told list ⟨solo, course, shows⟩
      exact ⟨solo, course, shows.seat, shows.process, shows.partition, shows.superstep, shows.told,
        shows.busy⟩
    · rintro s told ⟨solo, course, shows⟩
      exact ⟨solo, course, shows.stop⟩

end Job

/-! ### Where nothing can happen any more -/

/-- Who is at rest: who waits at the barrier, or is over and has a value. -/
def Resting (x : Execution F M S ε α) (s : Station F M S ε α) : Prop :=
  s.Waits x.barrier.openings ∨ ∃ value, s.activity = .gone (.value value)

theorem Exhausted.resting (h : x.Exhausted) (accounts : x.Accounts) (unfailed : x.Unfailed) :
    ∀ s ∈ x.stations, x.Resting s := by
  intro s hs
  obtain ⟨i, found⟩ := List.mem_iff_getElem?.mp hs
  have step : x.step i s = none := by simpa [Execution.turn, found] using h (.step i)
  rcases waits_of_step_eq_none step with waits | ⟨outcome, gone⟩ | stopped
  · exact .inl waits
  · obtain ⟨value, rfl⟩ := unfailed s hs outcome gone
    exact .inr ⟨value, gone⟩
  · exact absurd stopped (accounts.ne_stopped unfailed s hs)

theorem ne_stopped_of_resting (resting : ∀ s ∈ x.stations, x.Resting s) :
    ∀ s ∈ x.stations, s.activity ≠ .stopped := by
  intro s hs stopped
  rcases resting s hs with waits | ⟨value, gone⟩
  · simp [Station.Waits, stopped] at waits
  · rw [stopped] at gone
    cases gone

/-- The barrier opens when the last peer calls. So if all are at rest and somebody waits, somebody
else is over, and the wait is for the end of the superstep. -/
theorem Lockstep.exists_gone {chronicle : Chronicle M} (h : x.Lockstep chronicle)
    (resting : ∀ s ∈ x.stations, x.Resting s) {s : Station F M S ε α} (hs : s ∈ x.stations)
    (waits : s.Waits x.barrier.openings) :
    (∃ next, s.activity = .entering (2 * s.superstep) next) ∧
      ∃ t ∈ x.stations, t.superstep = s.superstep ∧ ∃ value, t.activity = .gone (.value value) := by
  obtain ⟨t, ht, goes⟩ := h.exists_not_waits
  obtain ⟨value, gone⟩ := (resting t ht).resolve_left goes
  have inStep := h.inStep t ht
  simp only [Station.InStep, gone] at inStep
  have inStep' := h.inStep s hs
  have called := inStep'.waits_eq waits
  cases ha : s.activity with
  | entering openings next =>
    simp only [Station.InStep, ha] at inStep'
    obtain rfl : openings = 2 * s.superstep := by omega
    exact ⟨⟨next, rfl⟩, t, ht, by omega, value, gone⟩
  | departing =>
    simp only [Station.InStep, ha] at inStep'
    omega
  | running | collecting | leaving | gone | stopped => simp [Station.Waits, ha] at waits

/-! ### Two runs -/

/-- When everybody has called for the end of a superstep, everybody is through with it. -/
theorem Displays.through {chronicle : Chronicle M} (h : x.Displays mail transcript y)
    (lockstep : y.Lockstep chronicle) (unstopped : ∀ s ∈ y.stations, s.activity ≠ .stopped)
    {k : Nat} (past : 2 * k + 1 ≤ y.barrier.openings) {s : Station F M S ε α}
    (hs : s ∈ y.stations) : ∃ solo, x.Course mail s.seat solo ∧
      s.Shows (mail s.seat.name) (transcript.of s.seat.name) solo ∧ solo.Through k := by
  obtain ⟨solo, course, shows⟩ := h s hs
  refine ⟨solo, course, shows, ?_⟩
  have inStep := lockstep.inStep s hs
  have busy := shows.busy
  unfold Solo.Through
  rw [shows.superstep]
  cases ha : s.activity with
  | running | leaving | gone =>
    simp only [Station.InStep, ha] at inStep
    exact .inl (by omega)
  | entering openings next | collecting next | departing openings next =>
    simp only [Station.InStep, ha] at inStep
    simp only [Station.Busy, ha] at busy
    rcases Nat.lt_or_eq_of_le (show k ≤ s.superstep by omega) with hlt | heq
    · exact .inl hlt
    · exact .inr ⟨heq, _, busy.1⟩
  | stopped => exact absurd ha (unstopped s hs)

/-- What a peer that is at rest does next by itself: it passes the barrier that it waits at, or
nothing. -/
theorem Resting.superstep_lt {s : Station F M S ε α} {told : Transcript F M}
    {mail : Nat → List (Envelope M)} (resting : x.Resting s) (shows : s.Shows mail told a)
    (h : a.next mail = some b) : s.Waits x.barrier.openings ∧ a.superstep < b.superstep := by
  have busy := shows.busy
  rcases resting with waits | ⟨value, gone⟩
  · refine ⟨waits, ?_⟩
    cases ha : s.activity with
    | entering openings next | departing openings next =>
      simp only [Station.Busy, ha] at busy
      rw [Solo.next_of_call busy.1] at h
      cases h
      exact Nat.lt_succ_self _
    | running | collecting | leaving | gone | stopped => simp [Station.Waits, ha] at waits
  · simp only [Station.Busy, gone, Outcome.Ends] at busy
    simp [Solo.next, busy] at h

/-- **Nobody comes further than in a run in which nothing can happen any more.** -/
theorem Displays.trail {transcript' : Transcript F M} {z : Execution F M S ε α}
    {chronicle chronicle' : Chronicle M} (nodup : (x.stations.map (·.seat.name)).Nodup)
    (h : x.Displays mail transcript y) (h' : x.Displays mail transcript' z)
    (lockstep : y.Lockstep chronicle) (lockstep' : z.Lockstep chronicle')
    (resting : ∀ s ∈ y.stations, y.Resting s)
    (unstopped : ∀ s ∈ z.stations, s.activity ≠ .stopped)
    (seats : y.stations.map (·.seat) = z.stations.map (·.seat)) {s t : Station F M S ε α}
    (hs : s ∈ y.stations) (ht : t ∈ z.stations) (seat : s.seat = t.seat)
    (ha : x.Course mail s.seat a) (hb : x.Course mail t.seat b)
    (shows : s.Shows (mail s.seat.name) (transcript.of s.seat.name) a)
    (shows' : t.Shows (mail t.seat.name) (transcript'.of t.seat.name) b) :
    Solo.Trail (mail s.seat.name) b a := by
  rcases Course.total nodup ha (seat ▸ hb) with trail | trail
  swap
  · exact trail
  rcases trail.cases_head with rfl | ⟨c, hc, onward⟩
  · exact .refl
  exfalso
  -- in the other run the barrier is passed that is waited at here, and so all have called at it
  obtain ⟨waits, further⟩ := (resting s hs).superstep_lt shows hc
  have past : 2 * s.superstep + 1 ≤ z.barrier.openings := by
    have := Solo.Trail.superstep_le onward
    have := lockstep'.superstep_le ht
    rw [shows.superstep] at further
    rw [shows'.superstep] at *
    omega
  -- but who is over in that superstep never calls
  obtain ⟨-, u, hu, same, value, gone⟩ := lockstep.exists_gone resting hs waits
  obtain ⟨v, hv, seat'⟩ : ∃ v ∈ z.stations, v.seat = u.seat :=
    List.mem_map.mp (seats ▸ List.mem_map_of_mem hu)
  obtain ⟨solo, course, shown⟩ := h u hu
  obtain ⟨solo', course', -, through⟩ := h'.through lockstep' unstopped past hv
  rw [seat'] at course'
  have busy := shown.busy
  simp only [Station.Busy, gone, Outcome.Ends] at busy
  have goes : ¬solo.Through s.superstep := by
    rintro (past | ⟨-, next, program⟩)
    · rw [shown.superstep] at past
      omega
    · rw [busy] at program
      cases program
  rcases Course.total nodup course course' with trail | trail
  · obtain rfl := Solo.Trail.eq_of_next_eq_none trail (by simp [Solo.next, busy])
    exact goes through
  · exact goes (Solo.Trail.through trail through).1

section Job

variable {cluster : Cluster F} {body : Seat → Process F M S ε α} {transcript' : Transcript F M}

/-- Who does not take part says nothing. -/
theorem Transcribes.of_eq_nil (run : x.Transcribes transcript y) {peer : PeerName}
    (unknown : peer ∉ x.stations.map (·.seat.name)) : transcript.of peer = [] := by
  refine List.filter_eq_nil_iff.mpr fun u hu => ?_
  rw [decide_eq_true_eq]
  rintro rfl
  exact unknown (run.mem_names u hu)

/-- **In a superstep that is over the same is sent in all runs**, if one of them has come to its
end. -/
theorem Transcribes.mailed_eq (orderly : ∀ seat ∈ cluster.seats, (body seat).Orderly)
    (run : (ofCluster cluster body).Transcribes transcript y) (connected : transcript.Connected)
    (resting : ∀ s ∈ y.stations, y.Resting s)
    (run' : (ofCluster cluster body).Transcribes transcript' z) (connected' : transcript'.Connected)
    (unfailed : z.Unfailed) : ∀ peer k, 2 * k + 1 ≤ z.barrier.openings →
      byName (·.sender) (transcript.mailed peer k) =
        byName (·.sender) (transcript'.mailed peer k) := by
  induction run' with
  | start =>
    intro peer k past
    change 2 * k + 1 ≤ 0 at past
    omega
  | turn t before hz ih =>
    rename_i transcript' w z
    have after := before.turn t hz
    have turns := turns_of_turn hz
    obtain ⟨chronicle, lockstep⟩ := before.exists_lockstep
    have known (peer : PeerName) (k : Nat) (past : 2 * k + 1 ≤ w.barrier.openings) :
        byName (·.sender) (transcript.mailed peer k) =
          byName (·.sender) (Transcript.mailed (transcript' ++ (w.heard t).toList) peer k) := by
      rw [Transcript.mailed_append, lockstep.mailed_heard t past, List.append_nil]
      exact ih (fun u hu => connected' u (List.mem_append_left _ hu)) (turns.unfailed unfailed)
        peer k past
    intro peer k past
    have displays : (ofCluster cluster body).Displays
        (fun peer k => byName (·.sender) (transcript.mailed peer k)) transcript y :=
      run.displays orderly connected fun _ _ _ => rfl
    have displays' : (ofCluster cluster body).Displays
        (fun peer k => byName (·.sender) (transcript.mailed peer k))
        (transcript' ++ (w.heard t).toList) z :=
      after.displays orderly connected' fun peer j past => known peer j (by
        have := turns.openings_le
        omega)
    have seats := run.reaches.seats_eq.trans after.reaches.seats_eq.symm
    have nodup := names_ofCluster cluster body ▸ cluster.nodup_names
    obtain ⟨chronicle, lockstep⟩ := run.exists_lockstep
    obtain ⟨chronicle', lockstep'⟩ := after.exists_lockstep
    have unstopped := after.reaches.accounts.ne_stopped unfailed
    refine byName_eq_of_filter_eq fun sender => ?_
    rw [Transcript.filter_mailed, Transcript.filter_mailed]
    by_cases member : sender ∈ (ofCluster cluster body).stations.map (·.seat.name)
    · rw [← run.reaches.names_eq] at member
      obtain ⟨s, hs, rfl⟩ := List.mem_map.mp member
      obtain ⟨u, hu, seat⟩ : ∃ u ∈ z.stations, u.seat = s.seat :=
        List.mem_map.mp (seats ▸ List.mem_map_of_mem hs)
      obtain ⟨a, course, shows⟩ := displays s hs
      obtain ⟨b, course', shows', through⟩ := displays'.through lockstep' unstopped past hu
      have trail := displays.trail nodup displays' lockstep lockstep' resting unstopped seats hs hu
        seat.symm course course' shows shows'
      rw [← Transcript.mailed_tidy, ← shows.told, ← Transcript.mailed_tidy (Transcript.of _ _),
        ← seat, ← shows'.told]
      exact (Solo.Trail.through trail through).2 peer
    · rw [run.of_eq_nil member, after.of_eq_nil member]

end Job

/-! ### What two runs come to -/

/-- **Two runs come to the same.** -/
structure Agree (transcript : Transcript F M) (y : Execution F M S ε α)
    (transcript' : Transcript F M) (z : Execution F M S ε α) : Prop where
  /-- Every peer has made the same calls, in the same supersteps, and been given the same replies,
  messages in the order of their senders. -/
  told : ∀ peer, (transcript.of peer).tidy = (transcript'.of peer).tidy
  /-- Every peer is where it is in the other run, and has come as far with its rows. -/
  stations : y.stations.map (fun s => (s.seat, s.superstep, s.partition, s.activity)) =
    z.stations.map fun s => (s.seat, s.superstep, s.partition, s.activity)
  /-- Every peer is over with a value or waits for the end of its superstep. -/
  resting : ∀ s ∈ y.stations, (∃ value, s.activity = .gone (.value value)) ∨
    ∃ next, s.activity = .entering (2 * s.superstep) next
  /-- The job has ended with the values of all peers, or it has not, and somebody waits. -/
  ending : y.ending? = z.ending? ∧ ((∃ values, y.ending? = some (.values values) ∧
      y.stations.map (·.activity) = values.map fun value => .gone (.value value)) ∨
    y.ending? = none ∧ ∃ s ∈ y.stations, ∃ next, s.activity = .entering (2 * s.superstep) next)
  /-- The same records are in the log, those of each peer in the same order. -/
  records : y.output.toList.Perm z.output.toList ∧ ∀ writer,
    y.output.toList.filter (·.writer = writer) = z.output.toList.filter (·.writer = writer)

/-- A job at rest has ended with the values of all peers, or it has not, and somebody waits. -/
theorem Accounts.ending_of_resting (h : x.Accounts) (exhausted : x.Exhausted)
    (unfailed : x.Unfailed) :
    (∃ values, x.ending? = some (.values values) ∧
      x.stations.map (·.activity) = values.map fun value => .gone (.value value)) ∨
    x.ending? = none ∧ ∃ s ∈ x.stations, s.Waits x.barrier.openings := by
  cases he : x.ending? with
  | some ending =>
    obtain ⟨values, rfl⟩ := h.exists_values unfailed he
    exact .inl ⟨values, rfl, h.ended _ he⟩
  | none =>
    refine .inr ⟨rfl, ?_⟩
    by_contra! nobody
    have gone : ∀ s ∈ x.stations, ∃ outcome, s.activity = .gone outcome := fun s hs => by
      obtain ⟨value, gone⟩ := (exhausted.resting h unfailed s hs).resolve_left (nobody s hs)
      exact ⟨_, gone⟩
    -- all are over, so there is something to be taken note of
    obtain ⟨⟨seat, outcome⟩, reports, hr⟩ :=
      List.exists_cons_of_ne_nil (h.exists_report he gone)
    have := exhausted .note
    simp [Execution.turn, noteReport, he, hr] at this

/-- Jobs at rest whose peers are busy with the same have ended in the same way, or have not
ended. -/
theorem ending_of_activities (accounts : y.Accounts) (accounts' : z.Accounts)
    (exhausted : y.Exhausted) (exhausted' : z.Exhausted) (unfailed : y.Unfailed)
    (unfailed' : z.Unfailed)
    (waits : ∀ s ∈ y.stations, (∃ value, s.activity = .gone (.value value)) ∨
      ∃ next, s.activity = .entering (2 * s.superstep) next)
    (same : y.stations.map (·.activity) = z.stations.map (·.activity)) :
    y.ending? = z.ending? ∧ ((∃ values, y.ending? = some (.values values) ∧
      y.stations.map (·.activity) = values.map fun value => .gone (.value value)) ∨
    y.ending? = none ∧
      ∃ s ∈ y.stations, ∃ next, s.activity = .entering (2 * s.superstep) next) := by
  -- nobody waits where all are over
  have idle {w : Execution F M S ε α} {values : List α} (ended : w.Ended (.values values))
      {s : Station F M S ε α} (hs : s ∈ w.stations) : ¬s.Waits w.barrier.openings := by
    obtain ⟨value, gone⟩ := ended.exists_gone hs
    simp [Station.Waits, gone]
  rcases accounts.ending_of_resting exhausted unfailed with ⟨values, he, gone⟩ | ⟨he, s, hs, hw⟩ <;>
    rcases accounts'.ending_of_resting exhausted' unfailed' with
      ⟨values', he', gone'⟩ | ⟨he', t, ht, hw'⟩
  · have values_eq : values = values' := by
      refine List.map_injective_iff.mpr (fun a b h => ?_) (gone.symm.trans (same.trans gone'))
      simpa using h
    exact ⟨by rw [he, he', values_eq], .inl ⟨values, he, gone⟩⟩
  · have ended : z.Ended (.values values) := same.symm.trans gone
    exact absurd hw' (idle ended ht)
  · have ended : y.Ended (.values values') := same.trans gone'
    exact absurd hw (idle ended hs)
  · refine ⟨he.trans he'.symm, .inr ⟨he, s, hs, (waits s hs).resolve_left ?_⟩⟩
    rintro ⟨value, gone⟩
    simp [Station.Waits, gone] at hw

/-- Peers of two runs in which nothing can happen any more have come as far by themselves. -/
theorem Displays.exists_solo {transcript' : Transcript F M} {chronicle chronicle' : Chronicle M}
    (nodup : (x.stations.map (·.seat.name)).Nodup)
    (h : x.Displays mail transcript y) (h' : x.Displays mail transcript' z)
    (lockstep : y.Lockstep chronicle) (lockstep' : z.Lockstep chronicle')
    (resting : ∀ s ∈ y.stations, y.Resting s) (resting' : ∀ s ∈ z.stations, z.Resting s)
    (seats : y.stations.map (·.seat) = z.stations.map (·.seat)) {s t : Station F M S ε α}
    (hs : s ∈ y.stations) (ht : t ∈ z.stations) (seat : s.seat = t.seat) :
    ∃ solo, s.Shows (mail s.seat.name) (transcript.of s.seat.name) solo ∧
      t.Shows (mail s.seat.name) (transcript'.of s.seat.name) solo := by
  obtain ⟨a, course, shows⟩ := h s hs
  obtain ⟨b, course', shows'⟩ := h' t ht
  have ba := h.trail nodup h' lockstep lockstep' resting (ne_stopped_of_resting resting') seats hs
    ht seat course course' shows shows'
  have ab := h'.trail nodup h lockstep' lockstep resting' (ne_stopped_of_resting resting) seats.symm
    ht hs seat.symm course' course shows' shows
  rw [← seat] at ab shows'
  refine ⟨a, shows, ?_⟩
  rcases ab.cases_head with rfl | ⟨c, hc, onward⟩
  · exact shows'
  · -- whoever goes on gets into another superstep, and there is no way back
    have := ((resting s hs).superstep_lt shows hc).2
    have := Solo.Trail.superstep_le onward
    have := Solo.Trail.superstep_le ba
    omega

/-- Peers that have come as far by themselves are where they are in the other run. -/
theorem Resting.activity_eq {chronicle chronicle' : Chronicle M} {s t : Station F M S ε α}
    {told told' : Transcript F M} {mail : Nat → List (Envelope M)} (lockstep : y.Lockstep chronicle)
    (lockstep' : z.Lockstep chronicle') (all : ∀ s ∈ y.stations, y.Resting s)
    (all' : ∀ s ∈ z.stations, z.Resting s) (hs : s ∈ y.stations) (ht : t ∈ z.stations)
    (shows : s.Shows mail told a) (shows' : t.Shows mail told' a) :
    s.activity = t.activity ∧ ((∃ value, s.activity = .gone (.value value)) ∨
      ∃ next, s.activity = .entering (2 * s.superstep) next) := by
  have busy := shows.busy
  have busy' := shows'.busy
  have superstep : s.superstep = t.superstep := shows.superstep.symm.trans shows'.superstep
  rcases all s hs with waits | ⟨value, gone⟩ <;> rcases all' t ht with waits' | ⟨value', gone'⟩
  · obtain ⟨⟨next, ha⟩, -⟩ := lockstep.exists_gone all hs waits
    obtain ⟨⟨next', ha'⟩, -⟩ := lockstep'.exists_gone all' ht waits'
    simp only [Station.Busy, ha] at busy
    simp only [Station.Busy, ha'] at busy'
    cases busy.1.symm.trans busy'.1
    exact ⟨by rw [ha, ha', superstep], .inr ⟨next, ha⟩⟩
  · obtain ⟨⟨next, ha⟩, -⟩ := lockstep.exists_gone all hs waits
    simp only [Station.Busy, ha] at busy
    simp [Station.Busy, gone', Outcome.Ends, busy.1] at busy'
  · obtain ⟨⟨next', ha'⟩, -⟩ := lockstep'.exists_gone all' ht waits'
    simp only [Station.Busy, ha'] at busy'
    simp [Station.Busy, gone, Outcome.Ends, busy'.1] at busy
  · simp only [Station.Busy, gone, Outcome.Ends] at busy
    simp only [Station.Busy, gone', Outcome.Ends] at busy'
    obtain rfl : value = value' := by simpa [busy] using busy'
    exact ⟨gone.trans gone'.symm, .inl ⟨value, gone⟩⟩

section Job

variable {cluster : Cluster F} {body : Seat → Process F M S ε α} {transcript' : Transcript F M}

/-- **Two runs in which nothing can happen any more come to the same.** -/
theorem Transcribes.agree (orderly : ∀ seat ∈ cluster.seats, (body seat).Orderly)
    (run : (ofCluster cluster body).Transcribes transcript y)
    (run' : (ofCluster cluster body).Transcribes transcript' z)
    (exhausted : y.Exhausted) (exhausted' : z.Exhausted) (unfailed : y.Unfailed)
    (unfailed' : z.Unfailed) (connected : transcript.Connected)
    (connected' : transcript'.Connected) : Agree transcript y transcript' z := by
  have nodup := names_ofCluster cluster body ▸ cluster.nodup_names
  have accounts := run.reaches.accounts
  have accounts' := run'.reaches.accounts
  have resting := exhausted.resting accounts unfailed
  have resting' := exhausted'.resting accounts' unfailed'
  have seats := run.reaches.seats_eq.trans run'.reaches.seats_eq.symm
  obtain ⟨chronicle, lockstep⟩ := run.exists_lockstep
  obtain ⟨chronicle', lockstep'⟩ := run'.exists_lockstep
  have displays : (ofCluster cluster body).Displays
      (fun peer k => byName (·.sender) (transcript.mailed peer k)) transcript y :=
    run.displays orderly connected fun _ _ _ => rfl
  have displays' : (ofCluster cluster body).Displays
      (fun peer k => byName (·.sender) (transcript.mailed peer k)) transcript' z :=
    run'.displays orderly connected' fun peer k past =>
      run.mailed_eq orderly connected resting run' connected' unfailed' peer k (by omega)
  have partner {s : Station F M S ε α} (hs : s ∈ y.stations) : ∃ t ∈ z.stations, t.seat = s.seat :=
    List.mem_map.mp (seats ▸ List.mem_map_of_mem hs)
  have solo {s t : Station F M S ε α} (hs : s ∈ y.stations) (ht : t ∈ z.stations)
      (seat : s.seat = t.seat) := displays.exists_solo nodup displays' lockstep lockstep' resting
    resting' seats hs ht seat
  have told (peer : PeerName) : (transcript.of peer).tidy = (transcript'.of peer).tidy := by
    by_cases member : peer ∈ (ofCluster cluster body).stations.map (·.seat.name)
    · rw [← run.reaches.names_eq] at member
      obtain ⟨s, hs, rfl⟩ := List.mem_map.mp member
      obtain ⟨t, ht, seat⟩ := partner hs
      obtain ⟨a, shows, shows'⟩ := solo hs ht seat.symm
      exact shows.told.symm.trans shows'.told
    · rw [run.of_eq_nil member, run'.of_eq_nil member]
  have records (writer : PeerName) : y.output.toList.filter (·.writer = writer) =
      z.output.toList.filter (·.writer = writer) := by
    rw [run.records, run'.records]
    change transcript.records.filter _ = transcript'.records.filter _
    rw [Transcript.filter_records, Transcript.filter_records, ← Transcript.records_tidy, told,
      Transcript.records_tidy]
  have stations : y.stations.map (fun s => (s.seat, s.superstep, s.partition, s.activity)) =
      z.stations.map fun s => (s.seat, s.superstep, s.partition, s.activity) := by
    refine List.ext_getElem (by simpa using congrArg List.length seats) fun i hi hi' => ?_
    rw [List.length_map] at hi hi'
    rw [List.getElem_map, List.getElem_map]
    have hs := List.getElem_mem hi
    have ht := List.getElem_mem hi'
    have seat : y.stations[i].seat = z.stations[i].seat := by
      have := List.getElem_of_eq seats (i := i) (by simpa using hi)
      simpa using this
    obtain ⟨a, shows, shows'⟩ := solo hs ht seat
    have same := (Resting.activity_eq lockstep lockstep' resting resting' hs ht shows shows').1
    rw [seat, same, ← shows.superstep, ← shows.partition, shows'.superstep, shows'.partition]
  have waits : ∀ s ∈ y.stations, (∃ value, s.activity = .gone (.value value)) ∨
      ∃ next, s.activity = .entering (2 * s.superstep) next := by
    intro s hs
    obtain ⟨t, ht, seat⟩ := partner hs
    obtain ⟨a, shows, shows'⟩ := solo hs ht seat.symm
    exact (Resting.activity_eq lockstep lockstep' resting resting' hs ht shows shows').2
  have same : y.stations.map (·.activity) = z.stations.map (·.activity) := by
    simpa [Function.comp_def] using congrArg (List.map (·.2.2.2)) stations
  exact ⟨told, stations, waits,
    ending_of_activities accounts accounts' exhausted exhausted' unfailed unfailed' waits same,
    perm_of_filter_eq _ records, records⟩

/-- **Schedules do not matter.** Take a job whose peers do not care for the order in which the
messages of different senders arrive, and two of its runs in which nothing can happen any more,
nobody has failed and no sending was refused because its receiver was over. The two runs come to the
same. And wherever a run leads, the log is in the order of the supersteps. -/
theorem independent (cluster : Cluster F) (body : Seat → Process F M S ε α) :
    ((∀ seat ∈ cluster.seats, (body seat).Orderly) → ∀ transcript transcript' y z,
      (ofCluster cluster body).Transcribes transcript y →
      (ofCluster cluster body).Transcribes transcript' z → y.Exhausted → z.Exhausted →
      y.Unfailed → z.Unfailed → transcript.Connected → transcript'.Connected →
      Agree transcript y transcript' z) ∧
    ∀ y, (ofCluster cluster body).Reaches y →
      y.output.toList.Pairwise fun a b => a.superstep ≤ b.superstep :=
  ⟨fun orderly _ _ _ _ run run' exhausted exhausted' unfailed unfailed' connected connected' =>
    run.agree orderly run' exhausted exhausted' unfailed unfailed' connected connected',
    fun _ ⟨_, run⟩ => run.logged.sorted⟩

end Job

end Execution

/-! ### Peers that follow a script -/

/-- **Peers that follow a script** do not care for the order in which the messages of different
senders arrive. -/
theorem Script.orderly (steps : List (Script.Step F)) (seat : Seat) :
    (Script.process steps seat).Orderly := by
  rintro ⟨rest, superstep, notes⟩
  cases rest with
  | nil => trivial
  | cons step rest =>
    cases step with
    | drain =>
      intro received
      have again : byName (·.sender) (byName (·.sender) received) = byName (·.sender) received :=
        byName_byName
      exact ⟨congrArg (fun sorted => Program.done (Except.ok (Progress.goOn
        (⟨rest, superstep, .took sorted :: notes⟩ : Script.Position F)))) again.symm, trivial⟩
    | fail | crash | info | wait => trivial
    | read | reopen | sync | write | send | trySend =>
      intro reply
      refine ⟨rfl, ?_⟩
      cases reply <;> trivial

namespace Execution

/-- Two peers that write to each other and to themselves, look, and leave a record. -/
def exchange : Execution Nat String (Script.Position Nat) PeerError (List (Script.Note Nat)) :=
  .ofCluster
    { names := ["left", "right"]
      partitions := [.empty 1, .empty 1]
      names_ne_nil := by decide
      length_partitions := by decide
      nodup_names := by decide }
    (Script.process [.send "left" "one", .send "right" "two", .sync, .drain, .write [] 0])

/-- One of the two goes ahead as far as it can, then the other, again and again. -/
def exchangeTurns (first second : Nat) : List Turn :=
  [6, 4, 8].flatMap (fun far =>
    List.replicate far (.step first) ++ List.replicate far (.step second)) ++ [.note, .note]

/-- Whether all peers are over with values, the job has ended, and no sending was refused because
its receiver was over. -/
def endedWell (recited : Transcript Nat String ×
    Execution Nat String (Script.Position Nat) PeerError (List (Script.Note Nat))) : Bool :=
  (recited.1.all fun u => match u.interaction.failure? with
    | some (.disconnected _) => false
    | _ => true) &&
  (recited.2.stations.all fun s => match s.activity with
    | .gone (.value _) => true
    | _ => false) && recited.2.ending?.isSome

theorem of_endedWell {recited : Transcript Nat String ×
    Execution Nat String (Script.Position Nat) PeerError (List (Script.Note Nat))}
    (h : endedWell recited) :
    recited.1.Connected ∧ recited.2.Unfailed ∧ recited.2.Exhausted := by
  simp only [endedWell, Bool.and_eq_true, List.all_eq_true] at h
  obtain ⟨⟨connected, gone⟩, ended⟩ := h
  have gone : ∀ s ∈ recited.2.stations, ∃ value, s.activity = .gone (.value value) := by
    intro s hs
    have := gone s hs
    split at this
    · exact ⟨_, ‹_›⟩
    · cases this
  refine ⟨fun u hu peer failed => ?_, fun s hs outcome ha => ?_,
    exhausted_of_gone ended fun s hs => (gone s hs).imp' _ fun _ ha => ha⟩
  · have := connected u hu
    rw [failed] at this
    cases this
  · obtain ⟨value, ha'⟩ := gone s hs
    rw [ha'] at ha
    exact ⟨value, by simpa using ha.symm⟩

/-- The messages of the two arrive in one order or in the other, and the runs come to the same. -/
theorem independent_exchange : ∃ transcript transcript' y z,
    exchange.Transcribes transcript y ∧ exchange.Transcribes transcript' z ∧
      transcript.mailed "left" 0 = [⟨"left", "one"⟩, ⟨"right", "one"⟩] ∧
      transcript'.mailed "left" 0 = [⟨"right", "one"⟩, ⟨"left", "one"⟩] ∧
      Agree transcript y transcript' z := by
  have recited : ((exchange.recite (exchangeTurns 0 1)).map fun r =>
      (endedWell r, r.1.mailed "left" 0)) = some (true, [⟨"left", "one"⟩, ⟨"right", "one"⟩]) := by
    decide +kernel
  have recited' : ((exchange.recite (exchangeTurns 1 0)).map fun r =>
      (endedWell r, r.1.mailed "left" 0)) = some (true, [⟨"right", "one"⟩, ⟨"left", "one"⟩]) := by
    decide +kernel
  obtain ⟨⟨transcript, y⟩, run, same⟩ := Option.map_eq_some_iff.mp recited
  obtain ⟨⟨transcript', z⟩, run', same'⟩ := Option.map_eq_some_iff.mp recited'
  obtain ⟨well, mailed⟩ := Prod.mk.inj same
  obtain ⟨well', mailed'⟩ := Prod.mk.inj same'
  have run := transcribes_of_recite run
  have run' := transcribes_of_recite run'
  obtain ⟨connected, unfailed, exhausted⟩ := of_endedWell well
  obtain ⟨connected', unfailed', exhausted'⟩ := of_endedWell well'
  exact ⟨transcript, transcript', y, z, run, run', mailed, mailed',
    (independent _ _).1 (fun seat _ => Script.orderly _ seat) _ _ _ _ run run' exhausted exhausted'
      unfailed unfailed' connected connected'⟩

end Execution

end Superstep
