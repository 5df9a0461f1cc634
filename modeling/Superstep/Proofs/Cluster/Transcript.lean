import Superstep.Proofs.Cluster.Log
import Superstep.Proofs.Cluster.Delivery
import Superstep.Proofs.Peer.Dialogue

/-!
# What the peers of a job say

A chronicle keeps what bears on the delivery of messages. A *transcript* keeps all: every call that
any of the peers has made and what it was answered with, in the order in which the answers were
given, each with its peer and the superstep the call was made in
(`Superstep.Execution.Transcribes`). Waiting at the barrier is answered when the peer is let go; a
call that makes its peer break off is never answered.

What is known of messages and records can be read off a transcript as well
(`Superstep.Execution.Transcribes.exists_runs`, `Superstep.Execution.Transcribes.records`). And for
each peer by itself, its part of the transcript is a dialogue in the sense of
`Superstep.Process.Talks`: a job is one kind of surroundings
(`Superstep.Execution.Transcribes.telling`).
-/

namespace Superstep

variable {F M S ε α : Type}

/-! ### Transcripts -/

/-- A call of a peer and its answer. -/
structure Utterance (F M : Type) where
  peer : PeerName
  /-- The superstep the call was made in. -/
  superstep : Nat
  interaction : Interaction F M

/-- The message that was sent, if this was it and the sending did not fail, and to whom. -/
def Interaction.sent? : Interaction F M → Option (PeerName × M)
  | ⟨.send receiver message, .ok ()⟩ => some (receiver, message)
  | _ => none

/-- The record that was written, if this was it and the writing did not fail. -/
def Interaction.wrote? : Interaction F M → Option (List F × F)
  | ⟨.write theta cost, .ok ()⟩ => some (theta, cost)
  | _ => none

/-- All calls of all peers and their answers, in the order of the answers. -/
abbrev Transcript (F M : Type) := List (Utterance F M)

namespace Transcript

/-- What a peer has said. -/
def of (transcript : Transcript F M) (peer : PeerName) : Transcript F M :=
  transcript.filter (·.peer = peer)

/-- The calls and their answers alone. -/
def dialogue (transcript : Transcript F M) : Dialogue F M := transcript.map (·.interaction)

/-- What was sent to a peer in a superstep, and by whom. -/
def mailed (transcript : Transcript F M) (receiver : PeerName) (superstep : Nat) :
    List (Envelope M) :=
  transcript.filterMap fun u =>
    match u.interaction.sent? with
    | some (addressee, message) =>
      if addressee = receiver ∧ u.superstep = superstep then some ⟨u.peer, message⟩ else none
    | none => none

/-- The records that were written. -/
def records (transcript : Transcript F M) : List (OutputRecord F) :=
  transcript.filterMap fun u => u.interaction.wrote?.map fun record =>
    { writer := u.peer, superstep := u.superstep, theta := record.1, cost := record.2 }

theorem of_append (transcript more : Transcript F M) (peer : PeerName) :
    Transcript.of (transcript ++ more) peer = transcript.of peer ++ Transcript.of more peer :=
  List.filter_append ..

theorem mailed_append (transcript more : Transcript F M) (receiver : PeerName) (k : Nat) :
    Transcript.mailed (transcript ++ more) receiver k =
      transcript.mailed receiver k ++ Transcript.mailed more receiver k :=
  List.filterMap_append

theorem records_append (transcript more : Transcript F M) :
    Transcript.records (transcript ++ more) = transcript.records ++ Transcript.records more :=
  List.filterMap_append

end Transcript

/-! ### What a turn adds -/

/-- What is put down of a call of the peer at a station. -/
def Station.utterance (s : Station F M S ε α) (request : Call F M) (reply : request.Reply) :
    Utterance F M :=
  { peer := s.seat.name, superstep := s.superstep, interaction := ⟨request, reply⟩ }

namespace Execution

/-- The call that the next step of the peer at a station answers, and how. -/
def answered (x : Execution F M S ε α) (s : Station F M S ε α) : Option (Utterance F M) :=
  match s.activity with
  | .running (.call .read _) =>
    if s.partition.readable then some (s.utterance .read (.ok s.partition.next.1)) else none
  | .running (.call .reopen _) => some (s.utterance .reopen (.ok ()))
  | .running (.call (.send receiver message) _) =>
    some (s.utterance (.send receiver message)
      ((x.deliver receiver ⟨s.seat.name, message⟩).map fun _ => ()))
  | .running (.call .drain _) => some (s.utterance .drain s.inbox)
  | .running (.call (.write theta cost) _) => some (s.utterance (.write theta cost) (.ok ()))
  | .departing openings _ =>
    if x.barrier.isOpen openings then some (s.utterance .sync (.ok (s.superstep + 1))) else none
  | _ => none

/-- The call that a turn answers, and how. -/
def heard (x : Execution F M S ε α) : Turn → Option (Utterance F M)
  | .step index => x.stations[index]?.bind x.answered
  | _ => none

/-- **The runs from an execution**: what is said in them, and where they lead. -/
inductive Transcribes (x : Execution F M S ε α) : Transcript F M → Execution F M S ε α → Prop
  | start : Transcribes x [] x
  | turn {transcript y z} (t : Turn) : Transcribes x transcript y → y.turn t = some z →
    Transcribes x (transcript ++ (y.heard t).toList) z

variable {x y z : Execution F M S ε α} {transcript : Transcript F M} {index : Nat}
  {s s' : Station F M S ε α} {effect : Effect F M ε α} {deed : Option (Deed M)}

/-- Whose call is answered. -/
theorem peer_of_answered {u : Utterance F M} (h : x.answered s = some u) :
    u.peer = s.seat.name ∧ u.superstep = s.superstep := by
  unfold answered at h
  split at h
  case h_1 | h_6 => split at h <;> cases h; exact ⟨rfl, rfl⟩
  case h_7 => cases h
  all_goals cases h; exact ⟨rfl, rfl⟩

/-- **What a turn does, and what is said**: a station moves and something may be said, or a report
is taken note of, or a peer is stopped. -/
theorem cases_of_turn {t : Turn} (h : x.turn t = some y) :
    (∃ index s s' effect journal, x.stations[index]? = some s ∧
      s.Moves x s' effect (x.deedOf s) ∧ x.noted t = (x.deedOf s).map s.entry ∧
        x.heard t = x.answered s ∧ y = { x.after index s' effect with journal }) ∨
    (x.noted t = none ∧ x.heard t = none ∧ y.stations = x.stations ∧ y.output = x.output) ∨
    (x.noted t = none ∧ x.heard t = none ∧ ∃ index s, x.stations[index]? = some s ∧
      x.ending?.isSome ∧ y = x.put index { s with activity := .stopped }) := by
  have turns := turns_of_turn h
  cases t with
  | step index =>
    obtain ⟨s, hs, h⟩ := Option.bind_eq_some_iff.mp h
    obtain ⟨s', effect, journal, move, rfl⟩ := moves_of_step hs h
    exact .inl ⟨index, s, s', effect, journal, hs, move, by simp [noted, hs], by simp [heard, hs],
      rfl⟩
  | note =>
    refine .inr (.inl ⟨rfl, rfl, ?_⟩)
    change x.noteReport = some y at h
    unfold noteReport at h
    split at h <;> cases h
    exact ⟨rfl, rfl⟩
  | stop index =>
    refine .inr (.inr ⟨rfl, rfl, ?_⟩)
    obtain ⟨s, hs, h⟩ := Option.bind_eq_some_iff.mp h
    change x.stop index s = some y at h
    unfold stop at h
    split at h
    · cases h
    · cases h
    · cases h
    · next ending he _ _ =>
      exact ⟨index, s, hs, by simp [he], (Option.some.inj h).symm⟩

section Answered

variable {receiver : PeerName} {message : M}

theorem answered_read {next} (ha : s.activity = .running (.call .read next))
    (readable : s.partition.readable = true) :
    x.answered s = some (s.utterance .read (.ok s.partition.next.1)) := by
  simp [answered, ha, readable]

/-- Who breaks off does not say so. -/
theorem answered_unreadable {next} (ha : s.activity = .running (.call .read next))
    (unreadable : s.partition.readable = false) : x.answered s = none := by
  simp [answered, ha, unreadable]

/-- What is sent is said to be. -/
theorem answered_send {next} (ha : s.activity = .running (.call (.send receiver message) next))
    (hd : x.deedOf s = some (.sent receiver message)) :
    x.answered s = some (s.utterance (.send receiver message) (.ok ())) := by
  cases delivered : x.deliver receiver ⟨s.seat.name, message⟩ with
  | ok => simp [answered, ha, delivered, Except.map]
  | error => simp [deedOf, ha, delivered] at hd

theorem answered_refuse {next} {error : PeerError}
    (ha : s.activity = .running (.call (.send receiver message) next))
    (refused : x.deliver receiver ⟨s.seat.name, message⟩ = .error error) :
    x.answered s = some (s.utterance (.send receiver message) (.error error)) := by
  simp [answered, ha, refused, Except.map]

theorem answered_wake {openings next} (ha : s.activity = .departing openings next)
    (isOpen : openings < x.barrier.openings) :
    x.answered s = some (s.utterance .sync (.ok (s.superstep + 1))) := by
  simp [answered, ha, Barrier.isOpen, isOpen]

/-- The message that is sent in a move, if there is one, is what its peer says. -/
theorem mailed_answered (move : s.Moves x s' effect (x.deedOf s)) (receiver : PeerName) (k : Nat) :
    Chronicle.mailed ((x.deedOf s).map s.entry).toList receiver k =
      Transcript.mailed (x.answered s).toList receiver k := by
  generalize hd : x.deedOf s = deed at move ⊢
  cases move with
  | read ha readable => rw [answered_read ha readable]; rfl
  | breakOff ha unreadable => rw [answered_unreadable ha unreadable]; rfl
  | send ha => rw [answered_send ha hd]; rfl
  | refuse ha refused => rw [answered_refuse ha refused]; rfl
  | wake ha isOpen => rw [answered_wake ha isOpen]; rfl
  | begin ha | finish ha | fail ha | crash ha | tell ha | reopen ha | sync ha | drain ha | write ha
    | enter ha | collect ha | depart ha | report ha =>
    rw [answered, ha]
    rfl

/-- What a move adds to the log is what its peer says. -/
theorem output_after_eq (index : Nat) (move : s.Moves x s' effect (x.deedOf s)) :
    (x.after index s' effect).output.toList =
      x.output.toList ++ Transcript.records (x.answered s).toList := by
  generalize hd : x.deedOf s = deed at move
  cases move with
  | read ha readable => rw [answered_read ha readable]; exact (List.append_nil _).symm
  | breakOff ha unreadable =>
    rw [answered_unreadable ha unreadable]
    exact (List.append_nil _).symm
  | send ha => rw [answered_send ha hd]; exact (List.append_nil _).symm
  | refuse ha refused => rw [answered_refuse ha refused]; exact (List.append_nil _).symm
  | wake ha isOpen => rw [answered_wake ha isOpen]; exact (List.append_nil _).symm
  | write ha =>
    rw [answered, ha]
    exact OutputLog.toList_append ..
  | begin ha | finish ha | fail ha | crash ha | tell ha | reopen ha | sync ha | drain ha
    | enter ha | collect ha | depart ha | report ha =>
    rw [answered, ha]
    exact (List.append_nil _).symm

end Answered

/-! ### Runs and transcripts -/

theorem Transcribes.reaches (h : x.Transcribes transcript y) : x.Reaches y := by
  induction h with
  | start => exact .refl _
  | turn t _ hz ih => exact ih.tail t hz

/-- **A run has a chronicle and a transcript**, which agree on what was sent to whom. -/
theorem Transcribes.exists_runs (h : x.Transcribes transcript y) : ∃ chronicle,
    x.Runs chronicle y ∧ ∀ receiver k, chronicle.mailed receiver k =
      transcript.mailed receiver k := by
  induction h with
  | start => exact ⟨[], .start, fun _ _ => rfl⟩
  | turn t _ hz ih =>
    obtain ⟨chronicle, run, same⟩ := ih
    refine ⟨_, run.turn t hz, fun receiver k => ?_⟩
    rw [Chronicle.mailed_append, Transcript.mailed_append, same]
    rcases cases_of_turn hz with ⟨index, s, s', effect, journal, hs, move, noted, heard, rfl⟩ |
      ⟨noted, heard, -⟩ | ⟨noted, heard, -⟩
    · rw [noted, heard, mailed_answered move]
    · rw [noted, heard]
      rfl
    · rw [noted, heard]
      rfl

/-- A run has a transcript. -/
theorem Runs.exists_transcribes {chronicle : Chronicle M} (h : x.Runs chronicle y) :
    ∃ transcript, x.Transcribes transcript y := by
  induction h with
  | start => exact ⟨_, .start⟩
  | turn t _ hz ih =>
    obtain ⟨transcript, transcribed⟩ := ih
    exact ⟨_, transcribed.turn t hz⟩

theorem Transcribes.cons {t : Turn} (hy : x.turn t = some y) (h : y.Transcribes transcript z) :
    x.Transcribes ((x.heard t).toList ++ transcript) z := by
  induction h with
  | start =>
    rw [List.append_nil]
    exact Transcribes.start.turn t hy
  | turn t' _ hz ih =>
    rw [← List.append_assoc]
    exact ih.turn t' hz

/-- Takes some turns, one after the other, and keeps the transcript. -/
def recite (x : Execution F M S ε α) : List Turn → Option (Transcript F M × Execution F M S ε α)
  | [] => some ([], x)
  | t :: turns =>
    (x.turn t).bind fun y =>
      (y.recite turns).map fun recited => ((x.heard t).toList ++ recited.1, recited.2)

/-- To take some turns is to run. -/
theorem transcribes_of_recite {turns : List Turn} (h : x.recite turns = some (transcript, y)) :
    x.Transcribes transcript y := by
  induction turns generalizing x transcript with
  | nil =>
    obtain ⟨rfl, rfl⟩ := Prod.mk.inj (Option.some.inj h)
    exact .start
  | cons t turns ih =>
    obtain ⟨z, hz, h⟩ := Option.bind_eq_some_iff.mp h
    obtain ⟨⟨more, y'⟩, recited, heq⟩ := Option.map_eq_some_iff.mp h
    obtain ⟨rfl, rfl⟩ := Prod.mk.inj heq
    exact (ih recited).cons hz

/-- **The log is what was said to be written.** -/
theorem Transcribes.records (h : x.Transcribes transcript y) :
    y.output.toList = x.output.toList ++ transcript.records := by
  induction h with
  | start => exact (List.append_nil _).symm
  | turn t _ hz ih =>
    rw [Transcript.records_append, ← List.append_assoc, ← ih]
    rcases cases_of_turn hz with ⟨index, s, s', effect, journal, hs, move, -, heard, rfl⟩ |
      ⟨-, heard, -, output⟩ | ⟨-, heard, index, s, hs, -, rfl⟩
    · rw [heard]
      exact output_after_eq index move
    · rw [heard, output]
      exact (List.append_nil _).symm
    · rw [heard]
      exact (List.append_nil _).symm

/-- **What a turn does to what is known of a station and of what its peer has said**: it keeps it if
moves do, and mail and a stop do not touch it. -/
theorem forall_told_turn {P : Station F M S ε α → Transcript F M → Prop} {t : Turn}
    (nodup : (x.stations.map (·.seat.name)).Nodup) (hy : x.turn t = some y)
    (h : ∀ s ∈ x.stations, P s (transcript.of s.seat.name))
    (move : ∀ (index : Nat) (s s' : Station F M S ε α) (effect : Effect F M ε α),
      x.stations[index]? = some s → s.Moves x s' effect (x.deedOf s) → x.heard t = x.answered s →
      P s (transcript.of s.seat.name) →
      P s' (transcript.of s.seat.name ++ (x.answered s).toList))
    (mail : ∀ s told list, P s told → P (s.receiveAll list) told)
    (stop : ∀ s told, P s told → P { s with activity := .stopped } told) :
    ∀ s ∈ y.stations, P s (Transcript.of (transcript ++ (x.heard t).toList) s.seat.name) := by
  rcases cases_of_turn hy with ⟨index, s, s', effect, journal, hs, moved, -, heard, rfl⟩ |
    ⟨-, heard, stations, -⟩ | ⟨-, heard, index, s, hs, -, rfl⟩
  · intro u hu
    obtain ⟨i, hu⟩ := List.mem_iff_getElem?.mp hu
    rw [heard, Transcript.of_append]
    rcases of_getElem?_after hu with ⟨rfl, rfl⟩ | ⟨hi, v, hv, rfl⟩
    · have own : Transcript.of (x.answered s).toList s.seat.name = (x.answered s).toList := by
        refine List.filter_eq_self.mpr fun u hu => ?_
        simpa using (peer_of_answered (Option.mem_toList.mp hu)).1
      simp only [Station.seat_receiveAll, moved.seat_eq, own]
      exact mail _ _ _ (move i s s' effect hs moved heard (h s (List.mem_of_getElem? hs)))
    · have foreign : Transcript.of (x.answered s).toList v.seat.name = [] := by
        refine List.filter_eq_nil_iff.mpr fun u hu => ?_
        rw [(peer_of_answered (Option.mem_toList.mp hu)).1, decide_eq_true_eq]
        exact fun same => hi (index_eq_of_name_eq nodup hs hv same).symm
      simp only [Station.seat_receiveAll, foreign, List.append_nil]
      exact mail _ _ _ (h v (List.mem_of_getElem? hv))
  · rw [heard, stations]
    simpa using h
  · rw [heard]
    intro u hu
    rw [Option.toList_none, List.append_nil]
    rcases List.mem_or_eq_of_mem_set hu with hu | rfl
    · exact h u hu
    · exact stop _ _ (h s (List.mem_of_getElem? hs))

end Execution

/-! ### What each peer says by itself -/

/-- How a program comes to an end. A peer may also break off where it reads. -/
def Outcome.Ends (outcome : Outcome ε α) (program : Round F M S ε α) : Prop :=
  match outcome with
  | .value result => program = .done (.ok (.finish result))
  | .failed error => program = .done (.error error)
  | .crashed => program = .crash ∨ ∃ next, program = .call .read next

/-- **What the peer at a station has said is a dialogue** of its process, which goes on with what
the peer still has to do. -/
def Station.Telling (s : Station F M S ε α) (told : Transcript F M) : Prop :=
  match s.activity with
  | .running program => s.process.Talks told.dialogue program
  | .entering _ next | .collecting next | .departing _ next =>
    s.process.Talks told.dialogue (.call .sync next)
  | .leaving outcome | .gone outcome =>
    ∃ program, s.process.Talks told.dialogue program ∧ outcome.Ends program
  | .stopped => ∃ program, s.process.Talks told.dialogue program

namespace Station

variable {x : Execution F M S ε α} {s s' : Station F M S ε α} {effect : Effect F M ε α}
  {told : Transcript F M}

/-- A dialogue goes on with a call that is answered. -/
theorem talks_append {request : Call F M} {next : request.Reply → Round F M S ε α}
    (talks : s.process.Talks told.dialogue (.call request next)) (reply : request.Reply) :
    s.process.Talks (Transcript.dialogue (told ++ [s.utterance request reply])) (next reply) := by
  rw [Transcript.dialogue, List.map_append]
  exact talks.call reply

/-- **A peer that moves goes on with its dialogue.** -/
theorem Moves.telling (move : s.Moves x s' effect (x.deedOf s)) (h : s.Telling told) :
    s'.Telling (told ++ (x.answered s).toList) := by
  -- what is not said does not count
  have silent {s' : Station F M S ε α} (unsaid : x.answered s = none) (h : s'.Telling told) :
      s'.Telling (told ++ (x.answered s).toList) := by
    rw [unsaid]
    exact (List.append_nil told).symm ▸ h
  generalize hd : x.deedOf s = deed at move
  cases move with
  | begin ha =>
    simp only [Telling, ha] at h
    exact silent (by rw [Execution.answered, ha]) h.begin
  | tell ha =>
    simp only [Telling, ha] at h
    exact silent (by rw [Execution.answered, ha]) h.tell
  | finish ha | fail ha =>
    simp only [Telling, ha] at h
    exact silent (by rw [Execution.answered, ha]) ⟨_, h, rfl⟩
  | crash ha =>
    simp only [Telling, ha] at h
    exact silent (by rw [Execution.answered, ha]) ⟨_, h, .inl rfl⟩
  | breakOff ha unreadable =>
    simp only [Telling, ha] at h
    exact silent (Execution.answered_unreadable ha unreadable) ⟨_, h, .inr ⟨_, rfl⟩⟩
  | collect ha =>
    refine silent (by rw [Execution.answered, ha]) ?_
    simpa only [Telling, ha] using h
  | sync ha | enter ha | depart ha | report ha =>
    simp only [Telling, ha] at h
    exact silent (by rw [Execution.answered, ha]) h
  | read ha readable =>
    simp only [Telling, ha] at h
    rw [Execution.answered_read ha readable]
    exact talks_append h _
  | send ha =>
    simp only [Telling, ha] at h
    rw [Execution.answered_send ha hd]
    exact talks_append h (Except.ok ())
  | refuse ha refused =>
    simp only [Telling, ha] at h
    rw [Execution.answered_refuse ha refused]
    exact talks_append h (Except.error _)
  | wake ha isOpen =>
    simp only [Telling, ha] at h
    rw [Execution.answered_wake ha isOpen]
    exact talks_append h (Except.ok _)
  | reopen ha | drain ha | write ha =>
    simp only [Telling, ha] at h
    rw [Execution.answered, ha]
    exact talks_append h _

/-- Whose call is answered is in its program afterwards. -/
theorem Moves.running_of_answered {u : Utterance F M} (move : s.Moves x s' effect (x.deedOf s))
    (said : x.answered s = some u) : ∃ program, s'.activity = .running program := by
  generalize hd : x.deedOf s = deed at move
  cases move with
  | read | reopen | send | refuse | drain | write | wake => exact ⟨_, rfl⟩
  | breakOff ha unreadable =>
    rw [Execution.answered_unreadable ha unreadable] at said
    cases said
  | begin ha | finish ha | fail ha | crash ha | tell ha | sync ha | enter ha | collect ha
    | depart ha | report ha =>
    rw [Execution.answered, ha] at said
    cases said

/-- Who is stopped leaves its dialogue where it is. -/
theorem Telling.stop (h : s.Telling told) :
    ({ s with activity := .stopped } : Station F M S ε α).Telling told := by
  unfold Telling at h
  split at h
  · exact ⟨_, h⟩
  · exact ⟨_, h⟩
  · exact ⟨_, h⟩
  · exact ⟨_, h⟩
  · exact h.imp fun _ h => h.1
  · exact h.imp fun _ h => h.1
  · exact h

end Station

namespace Execution

variable {cluster : Cluster F} {body : Seat → Process F M S ε α} {y : Execution F M S ε α}
  {transcript : Transcript F M}

/-- **In every run, what each peer has said is a dialogue of its process.** -/
theorem Transcribes.telling (h : (ofCluster cluster body).Transcribes transcript y) :
    ∀ s ∈ y.stations, s.Telling (transcript.of s.seat.name) := by
  induction h with
  | start =>
    intro s hs
    obtain ⟨seat, partition, rfl⟩ := exists_ready_of_mem hs
    exact Process.Talks.start
  | turn t before hz ih =>
    obtain ⟨chronicle, run, -⟩ := before.exists_runs
    exact forall_told_turn run.lockstep.nodup hz ih (fun _ _ _ _ _ move _ h => move.telling h)
      (fun _ _ _ h => h) fun _ _ h => h.stop

/-- **Who is answered goes on** with its program, in a dialogue that the answer is part of. -/
theorem Transcribes.exists_talks {x z : Execution F M S ε α} {t : Turn} {u : Utterance F M}
    (before : (ofCluster cluster body).Transcribes transcript x) (hz : x.turn t = some z)
    (said : x.heard t = some u) :
    ∃ s ∈ z.stations, ∃ program dialogue, s.activity = .running program ∧
      s.process.Talks dialogue program ∧ u.interaction ∈ dialogue := by
  have telling := (before.turn t hz).telling
  rcases cases_of_turn hz with ⟨index, s, s', effect, journal, hs, move, -, heard, rfl⟩ |
    ⟨-, heard, -⟩ | ⟨-, heard, -⟩
  · rw [heard] at said
    obtain ⟨program, running⟩ := move.running_of_answered said
    have here : s'.receiveAll (effect.mail index) ∈ (x.after index s' effect).stations :=
      List.mem_of_getElem? (getElem?_after_self hs)
    have talks := telling _ here
    simp only [Station.Telling, Station.activity_receiveAll, running] at talks
    refine ⟨_, here, program, _, running, talks, List.mem_map_of_mem (List.mem_filter.mpr ⟨?_, ?_⟩)⟩
    · simp [heard, said]
    · simp [(peer_of_answered said).1, move.seat_eq]
  · rw [heard] at said
    cases said
  · rw [heard] at said
    cases said

/-- Everybody carries out the process that is its own from the beginning. -/
theorem Reaches.process_eq (h : (ofCluster cluster body).Reaches y) :
    ∀ s ∈ y.stations, s.seat ∈ cluster.seats ∧ s.process = body s.seat := by
  refine h.keeps (P := fun y => ∀ s ∈ y.stations,
    s.seat ∈ cluster.seats ∧ s.process = body s.seat) (fun s hs => ?_) fun {u entry v} ih turn => ?_
  · obtain ⟨i, hs⟩ := List.mem_iff_getElem?.mp hs
    obtain ⟨name, partition, hn, -, rfl⟩ := exists_of_getElem?_ofCluster hs
    refine ⟨List.mem_of_getElem? (i := i) ?_, rfl⟩
    rw [Cluster.seats, List.getElem?_mapIdx, hn]
    rfl
  · cases turn with
    | move hs move =>
      intro t ht
      obtain ⟨i, ht⟩ := List.mem_iff_getElem?.mp ht
      rcases of_getElem?_after ht with ⟨-, rfl⟩ | ⟨-, w, hw, rfl⟩
      · simp only [Station.seat_receiveAll, Station.process_receiveAll, move.seat_eq,
          move.process_eq]
        exact ih _ (List.mem_of_getElem? hs)
      · exact ih w (List.mem_of_getElem? hw)
    | note => exact ih
    | @stop index s hs =>
      intro t ht
      rcases List.mem_or_eq_of_mem_set ht with ht | rfl
      · exact ih t ht
      · exact ih s (List.mem_of_getElem? hs)

/-- Everybody knows the names of all. -/
theorem Reaches.peers_eq (h : (ofCluster cluster body).Reaches y) :
    ∀ s ∈ y.stations, s.seat.peers = y.stations.map (·.seat.name) := by
  intro s hs
  have mem : s.seat ∈ (ofCluster cluster body).stations.map (·.seat) :=
    h.seats_eq ▸ List.mem_map_of_mem hs
  obtain ⟨s₀, hs₀, seat⟩ := List.mem_map.mp mem
  obtain ⟨i, hs₀⟩ := List.mem_iff_getElem?.mp hs₀
  obtain ⟨name, partition, -, -, rfl⟩ := exists_of_getElem?_ofCluster hs₀
  rw [h.names_eq, names_ofCluster, ← seat]
  rfl

/-- Whatever is said in a run, its peers are in step with the barrier. -/
theorem Transcribes.exists_lockstep (run : (ofCluster cluster body).Transcribes transcript y) :
    ∃ chronicle : Chronicle M, y.Lockstep chronicle := by
  obtain ⟨chronicle, runs, -⟩ := run.exists_runs
  exact ⟨chronicle, runs.lockstep⟩

end Execution

end Superstep
