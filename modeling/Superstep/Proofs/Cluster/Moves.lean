import Mathlib.Data.List.Basic
import Superstep.Cluster.Execution

/-!
# What a turn does

`Superstep.Execution.step` computes the next step of a peer from what the peer is busy with. To
reason about jobs it is better to have the same thing as a relation, said once: the station moves
to another one, something that is shared may change, and perhaps a deed is done that bears on the
delivery of messages. `Superstep.Station.Moves` lists all moves there are, and
`Superstep.Execution.moves_of_step` says that there are no others.

A move touches its own station and at most one of these: the mailbox of another station (or its
own), the barrier, the output, the reports. `Superstep.Execution.after` puts the two together.
-/

namespace Superstep

/-! ### Moves of one station -/

/-- What a move changes besides its own station. -/
inductive Effect (F M ε α : Type)
  | nothing
  /-- A message is put into the mailbox of the station at a position. -/
  | post (position : Nat) (envelope : Envelope M)
  /-- The barrier is called at. -/
  | arrival
  /-- A record is written. -/
  | write (entry : OutputRecord F)
  /-- An outcome is reported. -/
  | report (outcome : Outcome ε α)

/-- The messages an effect puts into the mailbox at a position. -/
def Effect.mail {F M ε α : Type} (effect : Effect F M ε α) (position : Nat) : List (Envelope M) :=
  match effect with
  | .post there envelope => if there = position then [envelope] else []
  | _ => []

/-- Something a peer does that bears on the delivery of messages. -/
inductive Deed (M : Type)
  /-- The peer has called at the barrier, which happens twice between two supersteps. -/
  | called
  /-- A message was sent, and the sending did not fail. -/
  | sent (receiver : PeerName) (message : M)
  /-- The barrier has let the peer go, which finds this in its inbox. -/
  | woke (inbox : List (Envelope M))
  /-- The peer took this from its inbox. -/
  | took (received : List (Envelope M))
  deriving DecidableEq, Repr

variable {F M S ε α : Type}

/-- **A move of a station**: in the execution `x`, the station `s` becomes another one, with an
effect on what is shared and, perhaps, a deed. -/
inductive Station.Moves (x : Execution F M S ε α) (s : Station F M S ε α) :
    Station F M S ε α → Effect F M ε α → Option (Deed M) → Prop
  | begin {state : S} : s.activity = .running (.done (.ok (.goOn state))) →
    Moves x s (s.resume (s.process.round state)) .nothing none
  | finish {value : α} : s.activity = .running (.done (.ok (.finish value))) →
    Moves x s (s.leave (.value value)) .nothing none
  | fail {error : ε} : s.activity = .running (.done (.error error)) →
    Moves x s (s.leave (.failed error)) .nothing none
  | crash : s.activity = .running .crash → Moves x s (s.leave .crashed) .nothing none
  | tell {event next} : s.activity = .running (.tell event next) →
    Moves x s (s.resume next) .nothing none
  | read {next} : s.activity = .running (.call .read next) → s.partition.readable = true →
    Moves x s
      ({ s with partition := s.partition.next.2 }.resume (next (.ok s.partition.next.1)))
      .nothing none
  | breakOff {next} : s.activity = .running (.call .read next) → s.partition.readable = false →
    Moves x s (s.leave .crashed) .nothing none
  | reopen {next} : s.activity = .running (.call .reopen next) →
    Moves x s ({ s with partition := s.partition.reset }.resume (next (.ok ()))) .nothing none
  | send {receiver message next position t} :
    s.activity = .running (.call (.send receiver message) next) →
    x.stations[position]? = some t → t.seat.name = receiver → t.isReachable = true →
    Moves x s (s.resume (next (.ok ()))) (.post position ⟨s.seat.name, message⟩)
      (some (.sent receiver message))
  | refuse {receiver message next error} :
    s.activity = .running (.call (.send receiver message) next) →
    x.deliver receiver ⟨s.seat.name, message⟩ = .error error →
    Moves x s (s.resume (next (.error error))) .nothing none
  | sync {next} : s.activity = .running (.call .sync next) →
    Moves x s { s with activity := .entering x.barrier.openings next } .arrival (some .called)
  | drain {next} : s.activity = .running (.call .drain next) →
    Moves x s ({ s with inbox := [] }.resume (next s.inbox)) .nothing (some (.took s.inbox))
  | write {theta cost next} : s.activity = .running (.call (.write theta cost) next) →
    Moves x s (s.resume (next (.ok ())))
      (.write { writer := s.seat.name, superstep := s.superstep, theta, cost }) none
  | enter {openings next} : s.activity = .entering openings next →
    openings < x.barrier.openings →
    Moves x s { s with activity := .collecting next, inbox := [] } .nothing none
  | collect {next envelope rest} : s.activity = .collecting next → s.mailbox = envelope :: rest →
    Moves x s { s with mailbox := rest, inbox := s.inbox ++ [envelope] } .nothing none
  | depart {next} : s.activity = .collecting next → s.mailbox = [] →
    Moves x s { s with activity := .departing x.barrier.openings next } .arrival (some .called)
  | wake {openings next} : s.activity = .departing openings next →
    openings < x.barrier.openings →
    Moves x s ({ s with superstep := s.superstep + 1 }.resume (next (.ok (s.superstep + 1))))
      .nothing (some (.woke s.inbox))
  | report {outcome} : s.activity = .leaving outcome →
    Moves x s { s with activity := .gone outcome } (.report outcome) none

namespace Station

variable {x : Execution F M S ε α} {s s' : Station F M S ε α} {effect : Effect F M ε α}
  {deed : Option (Deed M)}

/-- A station keeps its seat. -/
theorem Moves.seat_eq (h : s.Moves x s' effect deed) : s'.seat = s.seat := by
  cases h <;> rfl

/-- A station keeps its process. -/
theorem Moves.process_eq (h : s.Moves x s' effect deed) : s'.process = s.process := by
  cases h <;> rfl

/-- A superstep is only ever left for the next one. -/
theorem Moves.superstep_le (h : s.Moves x s' effect deed) : s.superstep ≤ s'.superstep := by
  cases h with
  | wake => exact Nat.le_succ _
  | _ => exact Nat.le_refl _

/-- The unread rows remain the last ones. -/
theorem Moves.wellPlaced (h : s.Moves x s' effect deed) (placed : s.partition.WellPlaced) :
    s'.partition.WellPlaced := by
  cases h with
  | read => exact placed.next
  | reopen => exact Partition.WellPlaced.reset _
  | _ => exact placed

/-- Gets some messages into the mailbox. -/
def receiveAll (s : Station F M S ε α) (mail : List (Envelope M)) : Station F M S ε α :=
  { s with mailbox := s.mailbox ++ mail }

@[simp] theorem seat_receiveAll (s : Station F M S ε α) (mail : List (Envelope M)) :
    (s.receiveAll mail).seat = s.seat := rfl

@[simp] theorem activity_receiveAll (s : Station F M S ε α) (mail : List (Envelope M)) :
    (s.receiveAll mail).activity = s.activity := rfl

@[simp] theorem superstep_receiveAll (s : Station F M S ε α) (mail : List (Envelope M)) :
    (s.receiveAll mail).superstep = s.superstep := rfl

@[simp] theorem partition_receiveAll (s : Station F M S ε α) (mail : List (Envelope M)) :
    (s.receiveAll mail).partition = s.partition := rfl

@[simp] theorem process_receiveAll (s : Station F M S ε α) (mail : List (Envelope M)) :
    (s.receiveAll mail).process = s.process := rfl

@[simp] theorem inbox_receiveAll (s : Station F M S ε α) (mail : List (Envelope M)) :
    (s.receiveAll mail).inbox = s.inbox := rfl

@[simp] theorem mailbox_receiveAll (s : Station F M S ε α) (mail : List (Envelope M)) :
    (s.receiveAll mail).mailbox = s.mailbox ++ mail := rfl

@[simp] theorem receiveAll_nil (s : Station F M S ε α) : s.receiveAll [] = s := by
  simp [receiveAll]

end Station

/-! ### Moves in an execution -/

namespace Execution

/-- The stations after one of them has become `s'` with an effect. -/
def stationsAfter (x : Execution F M S ε α) (index : Nat) (s' : Station F M S ε α) :
    Effect F M ε α → List (Station F M S ε α)
  | .post position envelope =>
    (x.stations.set index s').modify position (·.receive envelope)
  | _ => x.stations.set index s'

/-- An execution after one of its stations has become `s'` with an effect. -/
def after (x : Execution F M S ε α) (index : Nat) (s' : Station F M S ε α)
    (effect : Effect F M ε α) : Execution F M S ε α :=
  { x with
    stations := x.stationsAfter index s' effect
    barrier := match effect with
      | .arrival => x.barrier.arrive
      | _ => x.barrier
    output := match effect with
      | .write entry => x.output.append entry
      | _ => x.output
    reports := match effect with
      | .report outcome => x.reports ++ [(s'.seat, outcome)]
      | _ => x.reports }

theorem getElem?_stationsAfter (x : Execution F M S ε α) (index : Nat) (s' : Station F M S ε α)
    (effect : Effect F M ε α) (i : Nat) :
    (x.stationsAfter index s' effect)[i]? =
      (x.stations.set index s')[i]?.map (·.receiveAll (effect.mail i)) := by
  cases effect with
  | post position envelope =>
    simp only [stationsAfter, Effect.mail, List.getElem?_modify]
    split
    · rfl
    · simp
  | _ => simp [stationsAfter, Effect.mail]

/-- **Who is where after a move**: the station that moved is the new one, and the others are what
they were, except that mail may have come. -/
theorem of_getElem?_after {x : Execution F M S ε α} {index i : Nat} {s' t : Station F M S ε α}
    {effect : Effect F M ε α} (h : (x.after index s' effect).stations[i]? = some t) :
    (i = index ∧ t = s'.receiveAll (effect.mail i)) ∨
      (i ≠ index ∧ ∃ u, x.stations[i]? = some u ∧ t = u.receiveAll (effect.mail i)) := by
  change (x.stationsAfter index s' effect)[i]? = some t at h
  rw [getElem?_stationsAfter] at h
  obtain ⟨u, hu, rfl⟩ := Option.map_eq_some_iff.mp h
  rcases eq_or_ne i index with rfl | hi
  · rw [List.getElem?_set_self'] at hu
    obtain ⟨v, -, rfl⟩ := Option.map_eq_some_iff.mp hu
    exact .inl ⟨rfl, rfl⟩
  · rw [List.getElem?_set_ne hi.symm] at hu
    exact .inr ⟨hi, u, hu, rfl⟩

@[simp] theorem length_after (x : Execution F M S ε α) (index : Nat) (s' : Station F M S ε α)
    (effect : Effect F M ε α) : (x.after index s' effect).stations.length = x.stations.length := by
  cases effect <;> simp [after, stationsAfter]

/-- The deed of the next step of a station, if there is one. -/
def deedOf (x : Execution F M S ε α) (s : Station F M S ε α) : Option (Deed M) :=
  match s.activity with
  | .running (.call (.send receiver message) _) =>
    match x.deliver receiver ⟨s.seat.name, message⟩ with
    | .ok _ => some (.sent receiver message)
    | .error _ => none
  | .running (.call .sync _) => some .called
  | .running (.call .drain _) => some (.took s.inbox)
  | .collecting _ => if s.mailbox.isEmpty then some .called else none
  | .departing openings _ => if x.barrier.isOpen openings then some (.woke s.inbox) else none
  | _ => none

variable {x y : Execution F M S ε α}

/-- A message is delivered to a station of the name it is sent to, which can be reached. -/
theorem exists_of_deliver_ok {receiver : PeerName} {envelope : Envelope M}
    (h : x.deliver receiver envelope = .ok y) :
    ∃ position t, x.stations[position]? = some t ∧ t.seat.name = receiver ∧
      t.isReachable = true ∧ y = x.put position (t.receive envelope) := by
  unfold deliver at h
  split at h
  · cases h
  · next position found =>
    split at h
    · next t ht =>
      split at h
      · next reachable =>
        obtain ⟨hlt, named, -⟩ := List.findIdx?_eq_some_iff_getElem.mp found
        obtain ⟨hlt', rfl⟩ := List.getElem?_eq_some_iff.mp ht
        refine ⟨position, _, ht, of_decide_eq_true named, reachable, ?_⟩
        exact (Except.ok.inj h).symm
      · cases h
    · cases h

/-- Messages that cannot be delivered are sent to nobody, or to somebody who cannot be reached. -/
theorem of_deliver_error {receiver : PeerName} {envelope : Envelope M} {error : PeerError}
    (h : x.deliver receiver envelope = .error error) :
    (error = .unknownPeer receiver ∧ ∀ t ∈ x.stations, t.seat.name ≠ receiver) ∨
      (error = .disconnected receiver ∧
        ∃ t ∈ x.stations, t.seat.name = receiver ∧ t.isReachable = false) := by
  unfold deliver at h
  split at h
  · next absent =>
    refine .inl ⟨(Except.error.inj h).symm, fun t ht => ?_⟩
    simpa using List.findIdx?_eq_none_iff.mp absent t ht
  · next position found =>
    obtain ⟨hlt, named, -⟩ := List.findIdx?_eq_some_iff_getElem.mp found
    rw [List.getElem?_eq_getElem hlt] at h
    by_cases reachable : x.stations[position].isReachable = true
    · simp [reachable] at h
    · refine .inr ⟨by simpa [reachable] using h.symm, _, List.getElem_mem hlt,
        of_decide_eq_true named, by simpa using reachable⟩

/-- The answer to a call is a move. -/
theorem moves_of_answer {index : Nat} {s : Station F M S ε α} {request : Call F M}
    {next : request.Reply → Round F M S ε α} (hs : x.stations[index]? = some s)
    (ha : s.activity = .running (.call request next)) :
    ∃ s' effect, s.Moves x s' effect (x.deedOf s) ∧
      x.answer index s request next = x.after index s' effect := by
  cases request with
  | read =>
    have hd : x.deedOf s = none := by simp [deedOf, ha]
    rw [hd, answer]
    cases readable : s.partition.readable
    · exact ⟨_, _, .breakOff ha readable, by simp [after, stationsAfter, put]⟩
    · exact ⟨_, _, .read ha readable, by simp [after, stationsAfter, put]⟩
  | reopen =>
    have hd : x.deedOf s = none := by simp [deedOf, ha]
    rw [hd]
    exact ⟨_, _, .reopen ha, rfl⟩
  | send receiver message =>
    cases delivered : x.deliver receiver ⟨s.seat.name, message⟩ with
    | error error =>
      have hd : x.deedOf s = none := by simp [deedOf, ha, delivered]
      rw [hd]
      exact ⟨_, _, .refuse ha delivered, by simp [answer, delivered, after, stationsAfter, put]⟩
    | ok z =>
      have hd : x.deedOf s = some (.sent receiver message) := by simp [deedOf, ha, delivered]
      obtain ⟨position, t, ht, named, reachable, rfl⟩ := exists_of_deliver_ok delivered
      rw [hd]
      refine ⟨_, _, .send ha ht named reachable, ?_⟩
      have stations : (x.stations.set position (t.receive ⟨s.seat.name, message⟩)).modify index
          (·.resume (next (.ok ()))) = (x.stations.set index (s.resume (next (.ok ())))).modify
            position (·.receive ⟨s.seat.name, message⟩) := by
        obtain ⟨hlt, hs⟩ := List.getElem?_eq_some_iff.mp hs
        obtain ⟨hlt', ht⟩ := List.getElem?_eq_some_iff.mp ht
        refine List.ext_getElem? fun i => ?_
        rcases eq_or_ne i index with rfl | hi <;> rcases eq_or_ne i position with rfl | hp
        · obtain rfl : s = t := hs.symm.trans ht
          simp [hlt, Station.resume, Station.receive]
        · simp [hp.symm, hs, hlt]
        · simp [hi.symm, ht, hlt']
        · simp [hi.symm, hp.symm]
      simp only [answer, delivered, put, after, stationsAfter, stations]
  | sync =>
    have hd : x.deedOf s = some .called := by simp [deedOf, ha]
    rw [hd]
    exact ⟨_, _, .sync ha, rfl⟩
  | drain =>
    have hd : x.deedOf s = some (.took s.inbox) := by simp [deedOf, ha]
    rw [hd]
    exact ⟨_, _, .drain ha, rfl⟩
  | write theta cost =>
    have hd : x.deedOf s = none := by simp [deedOf, ha]
    rw [hd]
    exact ⟨_, _, .write ha, rfl⟩

/-- **Every step is a move**, and its deed is the deed of the step. -/
theorem moves_of_step {index : Nat} {s : Station F M S ε α} (hs : x.stations[index]? = some s)
    (h : x.step index s = some y) :
    ∃ s' effect journal, s.Moves x s' effect (x.deedOf s) ∧
      y = { x.after index s' effect with journal } := by
  have quiet : ∀ {s' effect journal}, x.deedOf s = none → s.Moves x s' effect none →
      y = { x.after index s' effect with journal } →
      ∃ s' effect journal, s.Moves x s' effect (x.deedOf s) ∧
        y = { x.after index s' effect with journal } := by
    intro s' effect journal hd move hy
    exact ⟨s', effect, journal, hd ▸ move, hy⟩
  unfold step at h
  split at h
  · next state ha => exact quiet (by simp [deedOf, ha]) (.begin ha) (Option.some.inj h).symm
  · next value ha => exact quiet (by simp [deedOf, ha]) (.finish ha) (Option.some.inj h).symm
  · next error ha => exact quiet (by simp [deedOf, ha]) (.fail ha) (Option.some.inj h).symm
  · next ha => exact quiet (by simp [deedOf, ha]) (.crash ha) (Option.some.inj h).symm
  · next event next ha => exact quiet (by simp [deedOf, ha]) (.tell ha) (Option.some.inj h).symm
  · next request next ha =>
    obtain ⟨s', effect, move, hy⟩ := moves_of_answer hs ha
    exact ⟨s', effect, x.journal, move, (Option.some.inj h).symm.trans hy⟩
  · next openings next ha =>
    split at h
    · next isOpen =>
      have hd : x.deedOf s = none := by simp [deedOf, ha]
      rw [hd]
      refine ⟨_, _, y.journal, .enter ha (of_decide_eq_true isOpen), ?_⟩
      obtain rfl := Option.some.inj h
      unfold beginCollecting
      split <;> rfl
    · cases h
  · next next ha =>
    split at h
    · next envelope rest hm =>
      exact quiet (by simp [deedOf, ha, hm]) (.collect ha hm) (Option.some.inj h).symm
    · next hm =>
      have hd : x.deedOf s = some .called := by simp [deedOf, ha, hm]
      rw [hd]
      exact ⟨_, _, _, .depart ha hm, (Option.some.inj h).symm⟩
  · next openings next ha =>
    split at h
    · next isOpen =>
      have hd : x.deedOf s = some (.woke s.inbox) := by simp [deedOf, ha, isOpen]
      rw [hd]
      exact ⟨_, _, _, .wake ha (of_decide_eq_true isOpen), (Option.some.inj h).symm⟩
    · cases h
  · next outcome ha => exact quiet (by simp [deedOf, ha]) (.report ha) (Option.some.inj h).symm
  · cases h
  · cases h

end Execution

end Superstep
