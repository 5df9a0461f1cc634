import Superstep.Proofs.Cluster.Ends
import Superstep.Proofs.Cluster.Transcript

/-!
# Who is to blame

A peer may fail because another one has failed before it: nobody can send to a peer that is over. A
job that fails should tell the first of these failures and not the second.

Errors that a peer takes over from a call that failed are *borrowed*, the others are its own, and so
is breaking off. The processes of a job are asked for three things
(`Superstep.Process.Traceable`): a borrowed error is never made up, messages are sent to peers of
the job only, and nobody sends anything in a superstep in which somebody may be over with a value.
The last one is what makes sure that a peer is not refused by one that has done all its work.

In every run, where a call fails, its receiver has failed, and somebody has failed of itself
(`Superstep.Execution.Transcribes.exists_cause`); so it is where the job ends with a failure
(`Superstep.Execution.Transcribes.hasCause_of_ending`). Whether the job ends with the failure of
that peer depends on the run, see `Superstep.Execution.Promptly`.
-/

namespace Superstep

variable {F M S ε α : Type}

/-! ### Failures -/

/-- Whether a peer that is over so has failed. -/
def Outcome.isFailure : Outcome ε α → Bool
  | .value _ => false
  | .failed _ | .crashed => true

/-- Whether a peer that is over so has failed of itself. -/
def Outcome.IsOwn (borrowed : ε → Prop) : Outcome ε α → Prop
  | .value _ => False
  | .failed failure => ¬borrowed failure
  | .crashed => True

/-- Whether a job has ended with what a peer has failed of by itself. -/
def Ending.IsOwn (borrowed : ε → Prop) : Ending ε α → Prop
  | .values _ => False
  | .failed failure => ¬borrowed failure
  | .crashed _ => True

/-- A failure is a peer's own or borrowed. -/
theorem Outcome.own_or_borrowed {borrowed : ε → Prop} {outcome : Outcome ε α}
    (h : outcome.isFailure) :
    outcome.IsOwn borrowed ∨ ∃ failure, outcome = .failed failure ∧ borrowed failure := by
  cases outcome with
  | value => cases h
  | crashed => exact .inl trivial
  | failed failure => exact (Classical.em (borrowed failure)).elim (fun b => .inr ⟨_, rfl, b⟩) .inl

/-- How often a peer has called at the barrier. -/
def Dialogue.barriers (dialogue : Dialogue F M) : Nat :=
  dialogue.countP fun i => match i.request with
    | .sync => true
    | _ => false

theorem Dialogue.barriers_append (dialogue more : Dialogue F M) :
    Dialogue.barriers (dialogue ++ more) = dialogue.barriers + Dialogue.barriers more :=
  List.countP_append

/-- **What is asked of a process so that failures can be traced.** In the supersteps `last` it may
be over with a value. -/
structure Process.Traceable (process : Process F M S ε α) (seat : Seat) (borrowed : ε → Prop)
    (last : Nat → Prop) : Prop where
  /-- Who ends with a borrowed error has made a call that failed. -/
  failed : ∀ dialogue failure, process.Talks dialogue (.done (.error failure)) →
    borrowed failure → ∃ i ∈ dialogue, i.failure? ≠ none
  value : ∀ dialogue value, process.Talks dialogue (.done (.ok (.finish value))) →
    last dialogue.barriers
  /-- Messages are sent to peers of the job, and not when somebody may be over with a value. -/
  send : ∀ dialogue receiver message next,
    process.Talks dialogue (.call (.send receiver message) next) →
      receiver ∈ seat.peers ∧ ¬last dialogue.barriers

/-- Whether the peer at a station is over, and how. -/
def Station.IsOver (s : Station F M S ε α) (outcome : Outcome ε α) : Prop :=
  s.activity = .leaving outcome ∨ s.activity = .gone outcome

/-- The peer at a station has failed. -/
def Station.HasFailed (s : Station F M S ε α) : Prop :=
  ∃ outcome, s.IsOver outcome ∧ outcome.isFailure

namespace Station

variable {x : Execution F M S ε α} {s s' : Station F M S ε α} {effect : Effect F M ε α}
  {told : Transcript F M} {outcome : Outcome ε α}

/-- A peer is in the superstep that follows from how often it was let go. -/
theorem Moves.barriers_eq (move : s.Moves x s' effect (x.deedOf s))
    (h : told.dialogue.barriers = s.superstep) :
    (Transcript.dialogue (told ++ (x.answered s).toList)).barriers = s'.superstep := by
  rw [Transcript.dialogue, List.map_append, Dialogue.barriers_append]
  change told.dialogue.barriers + _ = _
  rw [h]
  generalize hd : x.deedOf s = deed at move
  cases move with
  | read ha readable => rw [Execution.answered_read ha readable]; rfl
  | breakOff ha unreadable => rw [Execution.answered_unreadable ha unreadable]; rfl
  | send ha => rw [Execution.answered_send ha hd]; rfl
  | refuse ha refused => rw [Execution.answered_refuse ha refused]; rfl
  | wake ha isOpen => rw [Execution.answered_wake ha isOpen]; rfl
  | begin ha | finish ha | fail ha | crash ha | tell ha | reopen ha | sync ha | drain ha | write ha
    | enter ha | collect ha | depart ha | report ha =>
    rw [Execution.answered, ha]
    rfl

/-- Who is over moves only to be reported. -/
theorem Moves.isOver {deed : Option (Deed M)} (move : s.Moves x s' effect deed)
    (h : s.IsOver outcome) : s'.IsOver outcome := by
  rcases h with leaving | gone
  · cases move <;> simp_all [IsOver]
  · cases move <;> simp_all

end Station

namespace Execution

variable {x y z : Execution F M S ε α} {transcript : Transcript F M} {outcome : Outcome ε α}
  {borrowed : ε → Prop} {last : Nat → Prop}

/-- Somebody has failed of itself. -/
def HasCause (borrowed : ε → Prop) (x : Execution F M S ε α) : Prop :=
  ∃ s ∈ x.stations, ∃ outcome, s.IsOver outcome ∧ outcome.IsOwn borrowed

theorem Turns.unended {noted : Option (Entry M)} (h : x.Turns noted y)
    (running : y.ending? = none) : x.ending? = none := by
  cases ended : x.ending? with
  | none => rfl
  | some ending => exact absurd (h.ending_eq ended) (by simp [running])

/-- Until the job has ended, who is over stays over. -/
theorem Turns.isOver {noted : Option (Entry M)} (h : x.Turns noted y) (running : y.ending? = none)
    {s : Station F M S ε α} (hs : s ∈ x.stations) (isOver : s.IsOver outcome) :
    ∃ t ∈ y.stations, t.seat = s.seat ∧ t.IsOver outcome := by
  obtain ⟨i, hs⟩ := List.mem_iff_getElem?.mp hs
  cases h with
  | move hs' move =>
    rename_i index s₀ s' effect deed journal
    rcases eq_or_ne i index with rfl | hi
    · obtain rfl := Option.some.inj (hs'.symm.trans hs)
      refine ⟨_, List.mem_of_getElem? (getElem?_after_self hs'), move.seat_eq, ?_⟩
      exact move.isOver isOver
    · exact ⟨_, List.mem_of_getElem? (getElem?_after_of_ne hs hi), rfl, isOver⟩
  | note => exact ⟨s, List.mem_of_getElem? hs, rfl, isOver⟩
  | stop _ ended =>
    change x.ending? = none at running
    rw [running] at ended
    cases ended

/-- A job ends in a turn in which nobody moves. -/
theorem Turns.stations_eq {noted : Option (Entry M)} (h : x.Turns noted y)
    (running : x.ending? = none) (ended : y.ending?.isSome) : y.stations = x.stations := by
  cases h with
  | note => rfl
  | move =>
    change x.ending?.isSome at ended
    rw [running] at ended
    cases ended
  | stop _ before => simp [running] at before

theorem HasCause.turn {noted : Option (Entry M)} (h : x.HasCause borrowed) (turn : x.Turns noted y)
    (running : y.ending? = none) : y.HasCause borrowed := by
  obtain ⟨s, hs, outcome, isOver, own⟩ := h
  obtain ⟨t, ht, -, isOver⟩ := turn.isOver running hs isOver
  exact ⟨t, ht, outcome, isOver, own⟩

/-- Only messages are refused. -/
theorem exists_send_of_failure {s : Station F M S ε α} {u : Utterance F M} {error : PeerError}
    (said : x.answered s = some u) (failed : u.interaction.failure? = some error) :
    ∃ receiver message next, s.activity = .running (.call (.send receiver message) next) ∧
      x.deliver receiver ⟨s.seat.name, message⟩ = .error error := by
  unfold answered at said
  split at said
  case h_3 receiver message next ha =>
    cases said
    cases delivered : x.deliver receiver ⟨s.seat.name, message⟩ with
    | ok => simp [Station.utterance, Interaction.failure?, Call.failure?, delivered, Except.map]
        at failed
    | error e =>
      refine ⟨receiver, message, next, ha, ?_⟩
      simpa [Station.utterance, Interaction.failure?, Call.failure?, delivered, Except.map]
        using failed
  case h_1 | h_6 => split at said <;> cases said; cases failed
  case h_7 => cases said
  all_goals cases said; cases failed

section Job

variable {cluster : Cluster F} {body : Seat → Process F M S ε α}

/-- Everybody is in the superstep that follows from how often it was let go. -/
theorem Transcribes.barriers_eq (run : (ofCluster cluster body).Transcribes transcript x) :
    ∀ s ∈ x.stations, (transcript.of s.seat.name).dialogue.barriers = s.superstep := by
  induction run with
  | start =>
    intro s hs
    obtain ⟨seat, partition, rfl⟩ := exists_ready_of_mem hs
    rfl
  | turn t before hz ih =>
    obtain ⟨chronicle, lockstep⟩ := before.exists_lockstep
    exact forall_told_turn (P := fun s told => told.dialogue.barriers = s.superstep)
      lockstep.nodup hz ih (fun _ _ _ _ _ move _ h => move.barriers_eq h) (fun _ _ _ h => h)
      fun _ _ h => h

/-- Who is over has come to the end of its process. -/
theorem Transcribes.exists_ends (run : (ofCluster cluster body).Transcribes transcript x)
    {s : Station F M S ε α} (hs : s ∈ x.stations) (isOver : s.IsOver outcome) :
    ∃ program, (body s.seat).Talks (transcript.of s.seat.name).dialogue program ∧
      outcome.Ends program := by
  have telling := run.telling s hs
  rw [← (run.reaches.process_eq s hs).2]
  rcases isOver with ha | ha <;> simpa only [Station.Telling, ha] using telling

variable (run : (ofCluster cluster body).Transcribes transcript x)
  (traceable : ∀ seat ∈ cluster.seats, (body seat).Traceable seat borrowed last)

include run traceable

/-- Who is over with a borrowed error has made a call that failed. -/
theorem Transcribes.exists_failed {s : Station F M S ε α} {failure : ε} (hs : s ∈ x.stations)
    (isOver : s.IsOver (.failed failure)) (taken : borrowed failure) :
    ∃ u ∈ transcript, u.interaction.failure? ≠ none := by
  obtain ⟨_, talks, rfl⟩ := run.exists_ends hs isOver
  obtain ⟨i, hi, failed⟩ :=
    (traceable _ (run.reaches.process_eq s hs).1).failed _ _ talks taken
  obtain ⟨u, hu, rfl⟩ := List.mem_map.mp hi
  exact ⟨u, List.mem_of_mem_filter hu, failed⟩

/-- Who is over cannot be sent to while somebody else sends, unless it has failed. -/
theorem Transcribes.isFailure_of_isOver {s t : Station F M S ε α} (hs : s ∈ x.stations)
    (ht : t ∈ x.stations) {receiver : PeerName} {message : M} {next}
    (ha : s.activity = .running (.call (.send receiver message) next)) (isOver : t.IsOver outcome) :
    outcome.isFailure := by
  cases outcome with
  | failed | crashed => rfl
  | value value =>
    -- the two are in one superstep, and it is one in which nothing is sent
    obtain ⟨chronicle, lockstep⟩ := run.exists_lockstep
    have inStep := lockstep.inStep s hs
    have inStep' := lockstep.inStep t ht
    have talks := run.telling s hs
    obtain ⟨seat, process⟩ := run.reaches.process_eq s hs
    simp only [Station.InStep, ha] at inStep
    simp only [Station.Telling, ha, process] at talks
    have same : t.superstep = s.superstep := by
      rcases isOver with ha' | ha' <;> simp only [Station.InStep, ha'] at inStep' <;> omega
    obtain ⟨_, talks', rfl⟩ := run.exists_ends ht isOver
    have late := (traceable _ (run.reaches.process_eq t ht).1).value _ _ talks'
    rw [run.barriers_eq t ht, same, ← run.barriers_eq s hs] at late
    exact absurd late ((traceable _ seat).send _ _ _ _ talks).2

/-- **Who refuses has failed.** -/
theorem Transcribes.exists_refuser (running : x.ending? = none) {s : Station F M S ε α}
    (hs : s ∈ x.stations) {receiver : PeerName} {message : M} {next} {error : PeerError}
    (ha : s.activity = .running (.call (.send receiver message) next))
    (refused : x.deliver receiver ⟨s.seat.name, message⟩ = .error error) :
    error = .disconnected receiver ∧ ∃ t ∈ x.stations, t.seat.name = receiver ∧ t.HasFailed := by
  obtain ⟨seat, process⟩ := run.reaches.process_eq s hs
  have talks := run.telling s hs
  simp only [Station.Telling, ha, process] at talks
  have known := ((traceable _ seat).send _ _ _ _ talks).1
  rw [run.reaches.peers_eq s hs] at known
  obtain ⟨member, hm, named⟩ := List.mem_map.mp known
  rcases of_deliver_error refused with ⟨-, absent⟩ | ⟨rfl, t, ht, rfl, unreachable⟩
  · exact absurd named (absent member hm)
  refine ⟨rfl, t, ht, rfl, ?_⟩
  obtain ⟨outcome, isOver⟩ : ∃ outcome, t.IsOver outcome := by
    unfold Station.isReachable at unreachable
    split at unreachable
    case h_5 | h_6 => simp [Station.IsOver, *]
    case h_7 => exact absurd ‹_› (run.reaches.accounts.unstopped running t ht)
    all_goals cases unreachable
  exact ⟨outcome, isOver, run.isFailure_of_isOver traceable hs ht ha isOver⟩

/-- **Where a call has failed, its receiver has failed, and somebody has failed of itself.** -/
theorem Transcribes.exists_cause : x.ending? = none → ∀ u ∈ transcript, ∀ error,
    u.interaction.failure? = some error →
      (∃ s ∈ x.stations, error = .disconnected s.seat.name ∧ s.HasFailed) ∧
        x.HasCause borrowed := by
  induction run with
  | start => exact fun _ u hu => absurd hu List.not_mem_nil
  | turn t before hz ih =>
    rename_i transcript x z
    intro running u hu error failed
    have turns := turns_of_turn hz
    have unended := turns.unended running
    -- until the job has ended, what is known of ends stays known
    have keep (h : (∃ s ∈ x.stations, error = .disconnected s.seat.name ∧ s.HasFailed) ∧
        x.HasCause borrowed) :
        (∃ s ∈ z.stations, error = .disconnected s.seat.name ∧ s.HasFailed) ∧
          z.HasCause borrowed := by
      obtain ⟨⟨s, hs, rfl, outcome, isOver, failure⟩, cause⟩ := h
      obtain ⟨s', hs', seat, isOver'⟩ := turns.isOver running hs isOver
      exact ⟨⟨s', hs', seat ▸ rfl, outcome, isOver', failure⟩, cause.turn turns running⟩
    rcases List.mem_append.mp hu with hu | hu
    · exact keep (ih unended u hu error failed)
    have said := Option.mem_toList.mp hu
    cases t with
    | note | stop => cases said
    | step index =>
      obtain ⟨s, hs, said⟩ := Option.bind_eq_some_iff.mp said
      obtain ⟨receiver, message, next, ha, refused⟩ := exists_send_of_failure said failed
      obtain ⟨rfl, r, hr, rfl, outcome, isOver, failure⟩ :=
        before.exists_refuser traceable unended (List.mem_of_getElem? hs) ha refused
      refine keep ⟨⟨r, hr, rfl, outcome, isOver, failure⟩, ?_⟩
      rcases outcome.own_or_borrowed failure with own | ⟨failure, rfl, taken⟩
      · exact ⟨r, hr, _, isOver, own⟩
      · -- it has been refused itself before
        obtain ⟨v, hv, failed⟩ := before.exists_failed traceable hr isOver taken
        obtain ⟨error, failed⟩ := Option.ne_none_iff_exists'.mp failed
        exact (ih unended v hv error failed).2

/-- **A job that ends with a failure has somebody who has failed of itself.** -/
theorem Transcribes.hasCause_of_ending {t : Turn} {ending : Ending ε α} (running : x.ending? = none)
    (hz : x.turn t = some z) (ended : z.ending? = some ending) :
    (∃ values, ending = .values values) ∨ x.HasCause borrowed := by
  have same := (turns_of_turn hz).stations_eq running (by simp [ended])
  have whole := (run.turn t hz).reaches.accounts.ended ending ended
  cases ending with
  | values values => exact .inl ⟨values, rfl⟩
  | crashed name =>
    obtain ⟨s, hs, -, ha⟩ := whole
    exact .inr ⟨s, same ▸ hs, .crashed, .inr ha, trivial⟩
  | failed failure =>
    obtain ⟨s, hs, ha⟩ := whole
    rw [same] at hs
    rcases Classical.em (borrowed failure) with taken | own
    · obtain ⟨u, hu, failed⟩ := run.exists_failed traceable hs (.inr ha) taken
      obtain ⟨error, failed⟩ := Option.ne_none_iff_exists'.mp failed
      exact .inr (run.exists_cause traceable running u hu error failed).2
    · exact .inr ⟨s, hs, _, .inr ha, own⟩

end Job

/-- **Where somebody has failed and nothing can happen any more, the job has failed.** -/
theorem Accounts.exists_ending (h : x.Accounts) (exhausted : x.Exhausted) {s : Station F M S ε α}
    (hs : s ∈ x.stations) (failed : s.HasFailed) :
    ∃ ending, x.ending? = some ending ∧ ∀ values, ending ≠ .values values := by
  obtain ⟨outcome, isOver, failure⟩ := failed
  obtain ⟨i, found⟩ := List.mem_iff_getElem?.mp hs
  cases ended : x.ending? with
  | some ending =>
    refine ⟨ending, rfl, ?_⟩
    rintro values rfl
    obtain ⟨value, ha⟩ := (h.ended _ ended).exists_gone hs
    rcases isOver with ha' | ha' <;> cases ha.symm.trans ha'
    cases failure
  | none =>
    rcases isOver with leaving | gone
    · -- it could be reported
      have := exhausted (.step i)
      simp [Execution.turn, found, step, leaving] at this
    · -- the job could take note of a report
      rcases h.pending ended i s outcome found gone with reported | ⟨_, rfl, -⟩
      · obtain ⟨⟨seat, outcome⟩, reports, hr⟩ :=
          List.exists_cons_of_ne_nil (List.ne_nil_of_mem reported)
        have := exhausted .note
        simp [Execution.turn, noteReport, ended, hr] at this
      · cases failure

end Execution

end Superstep
