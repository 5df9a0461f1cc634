import Mathlib.Logic.Relation
import Superstep.Proofs.Cluster.Transcript

/-!
# A peer left to itself

What a peer does depends on the others only by what arrives for it. Let it be known for every
superstep what is sent to a peer, put in the order of the senders. Then the peer can be left to
itself: all its calls can be answered without looking at anybody else (`Superstep.Solo.next`), and
there is only one way for it to go (`Superstep.Solo.trail_total`).

This presupposes a peer that does not care for the order in which the messages of different senders
arrive (`Superstep.Process.Orderly`), and that no sending is refused because its receiver is over.
A peer in a job then shows a peer left to itself, with every move it makes
(`Superstep.Station.Moves.shows`). Waiting for the others is what it does besides.
-/

namespace Superstep

variable {F M S ε α β : Type}

/-! ### The order of names -/

section Order

variable (name : β → PeerName) (things : List β)

/-- Things of one peer stay in the order in which they were. -/
theorem filter_byName (peer : PeerName) :
    (byName name things).filter (name · = peer) = things.filter (name · = peer) := by
  have trans (a b c : β) (hab : decide (name a ≤ name b)) (hbc : decide (name b ≤ name c)) :
      decide (name a ≤ name c) :=
    decide_eq_true (String.le_trans (of_decide_eq_true hab) (of_decide_eq_true hbc))
  have total (a b : β) : decide (name a ≤ name b) || decide (name b ≤ name a) := by
    simpa using String.le_total (name a) (name b)
  have level : (things.filter (name · = peer)).Pairwise fun a b => decide (name a ≤ name b) := by
    refine List.pairwise_of_forall_mem_list fun a ha b hb => ?_
    have ha := of_decide_eq_true (List.mem_filter.mp ha).2
    have hb := of_decide_eq_true (List.mem_filter.mp hb).2
    rw [ha, hb]
    exact decide_eq_true (String.le_refl peer)
  have kept := (List.sublist_mergeSort trans total level List.filter_sublist).filter (name · = peer)
  rw [List.filter_filter] at kept
  simp only [Bool.and_self] at kept
  exact (kept.eq_of_length ((byName_perm name things).filter _).length_eq.symm).symm

variable {name things} {things' : List β}

theorem mem_of_filter_eq (same : ∀ peer, things.filter (name · = peer) =
    things'.filter (name · = peer)) {a : β} (ha : a ∈ things) : a ∈ things' := by
  have own : a ∈ things.filter (name · = name a) := List.mem_filter.mpr ⟨ha, by simp⟩
  rw [same] at own
  exact (List.mem_filter.mp own).1

/-- In what order things in the order of names are is told by what belongs to each name. -/
theorem eq_of_pairwise_of_filter_eq (sorted : things.Pairwise fun a b => name a ≤ name b)
    (sorted' : things'.Pairwise fun a b => name a ≤ name b)
    (same : ∀ peer, things.filter (name · = peer) = things'.filter (name · = peer)) :
    things = things' := by
  have back (peer : PeerName) := (same peer).symm
  induction things generalizing things' with
  | nil =>
    refine (List.eq_nil_iff_forall_not_mem.mpr fun a ha => ?_).symm
    exact List.not_mem_nil (mem_of_filter_eq back ha)
  | cons a rest ih =>
    cases things' with
    | nil => exact absurd (mem_of_filter_eq same List.mem_cons_self) List.not_mem_nil
    | cons b rest' =>
      obtain ⟨least, sorted⟩ := List.pairwise_cons.mp sorted
      obtain ⟨least', sorted'⟩ := List.pairwise_cons.mp sorted'
      -- the first ones are of the least name, which is the same
      have le : name a ≤ name b := by
        rcases List.mem_cons.mp (mem_of_filter_eq back List.mem_cons_self) with h | h
        · exact h ▸ String.le_refl _
        · exact least b h
      have ge : name b ≤ name a := by
        rcases List.mem_cons.mp (mem_of_filter_eq same List.mem_cons_self) with h | h
        · exact h ▸ String.le_refl _
        · exact least' a h
      have named : name b = name a := String.le_antisymm ge le
      have own := same (name a)
      rw [List.filter_cons_of_pos (by simp), List.filter_cons_of_pos (by simp [named])] at own
      obtain ⟨rfl, others⟩ := List.cons.inj own
      have tails (peer : PeerName) :
          rest.filter (name · = peer) = rest'.filter (name · = peer) := by
        by_cases h : name a = peer
        · exact h ▸ others
        · have := same peer
          rwa [List.filter_cons_of_neg (by simpa using h),
            List.filter_cons_of_neg (by simpa using h)] at this
      rw [ih ‹_› ‹_› tails fun peer => (tails peer).symm]

/-- What is put in the order of names is told by what belongs to each name. -/
theorem byName_eq_of_filter_eq
    (same : ∀ peer, things.filter (name · = peer) = things'.filter (name · = peer)) :
    byName name things = byName name things' :=
  eq_of_pairwise_of_filter_eq (pairwise_byName name things) (pairwise_byName name things')
    fun peer => by rw [filter_byName, filter_byName, same]

@[simp] theorem byName_byName : byName name (byName name things) = byName name things :=
  byName_eq_of_filter_eq (filter_byName name things)

end Order

/-! ### Peers that do not care for the order of senders -/

/-- What a reply is if messages are looked at in the order of their senders. -/
def Call.tidy : (request : Call F M) → request.Reply → request.Reply
  | .drain, received => byName (fun envelope : Envelope M => envelope.sender) received
  | .read, reply | .reopen, reply | .send _ _, reply | .sync, reply | .write _ _, reply => reply

/-- A program that goes on in the same way if messages are put in the order of their senders. -/
def Program.Orderly : Program F M β → Prop
  | .done _ | .crash => True
  | .tell _ next => next.Orderly
  | .call request next =>
    ∀ reply, next reply = next (request.tidy reply) ∧ (next reply).Orderly

/-- **A peer that does not care for the order** in which the messages of different senders
arrive. -/
def Process.Orderly (process : Process F M S ε α) : Prop := ∀ state, (process.round state).Orderly

/-- What was said, with messages in the order of their senders. -/
def Utterance.tidy (u : Utterance F M) : Utterance F M :=
  { u with interaction := ⟨u.interaction.request, u.interaction.request.tidy u.interaction.reply⟩ }

/-- All that was said, with messages in the order of their senders. -/
def Transcript.tidy (transcript : Transcript F M) : Transcript F M := transcript.map (·.tidy)

@[simp] theorem Transcript.tidy_append (transcript more : Transcript F M) :
    Transcript.tidy (transcript ++ more) = transcript.tidy ++ Transcript.tidy more :=
  List.map_append

/-- The order of what arrives does not bear on what is sent. -/
theorem Utterance.sent?_tidy (u : Utterance F M) :
    u.tidy.interaction.sent? = u.interaction.sent? := by
  obtain ⟨peer, superstep, request, reply⟩ := u
  cases request <;> rfl

theorem Utterance.wrote?_tidy (u : Utterance F M) :
    u.tidy.interaction.wrote? = u.interaction.wrote? := by
  obtain ⟨peer, superstep, request, reply⟩ := u
  cases request <;> rfl

@[simp] theorem Transcript.mailed_tidy (transcript : Transcript F M) (receiver : PeerName)
    (k : Nat) : transcript.tidy.mailed receiver k = transcript.mailed receiver k := by
  rw [tidy, mailed, List.filterMap_map, mailed]
  refine List.filterMap_congr fun u _ => ?_
  simp only [Function.comp_apply, Utterance.sent?_tidy]
  rfl

@[simp] theorem Transcript.records_tidy (transcript : Transcript F M) :
    transcript.tidy.records = transcript.records := by
  rw [tidy, records, List.filterMap_map, records]
  refine List.filterMap_congr fun u _ => ?_
  simp only [Function.comp_apply, Utterance.wrote?_tidy]
  rfl

/-! ### What a peer does by itself -/

/-- **A peer left to itself**, and what it has said so far. -/
structure Solo (F M S ε α : Type) where
  seat : Seat
  process : Process F M S ε α
  partition : Partition F
  program : Round F M S ε α
  superstep : Nat := 0
  /-- Whether it has taken what arrived with the superstep. -/
  looked : Bool := false
  told : Transcript F M := []

namespace Solo

/-- What arrives with a superstep, if it is known what is sent in each. -/
def arrived (mail : Nat → List (Envelope M)) : Nat → List (Envelope M)
  | 0 => []
  | superstep + 1 => mail superstep

/-- A call is answered. -/
def hear (solo : Solo F M S ε α) (request : Call F M) (next : request.Reply → Round F M S ε α)
    (reply : request.Reply) : Solo F M S ε α :=
  { solo with
    program := next reply
    told := solo.told ++ [⟨solo.seat.name, solo.superstep, ⟨request, reply⟩⟩] }

/-- How calls are answered without looking at anybody else. -/
def answer (mail : Nat → List (Envelope M)) (solo : Solo F M S ε α) :
    (request : Call F M) → (request.Reply → Round F M S ε α) → Option (Solo F M S ε α)
  | .read, next =>
    if solo.partition.readable then
      some { solo.hear .read next (.ok solo.partition.next.1) with
        partition := solo.partition.next.2 }
    else none
  | .reopen, next =>
    some { solo.hear .reopen next (.ok ()) with partition := solo.partition.reset }
  | .send receiver message, next =>
    some (solo.hear (.send receiver message) next
      (if receiver ∈ solo.seat.peers then .ok () else .error (.unknownPeer receiver)))
  | .sync, next =>
    some { solo.hear .sync next (.ok (solo.superstep + 1)) with
      superstep := solo.superstep + 1, looked := false }
  | .drain, next =>
    some { solo.hear .drain next (if solo.looked then [] else arrived mail solo.superstep) with
      looked := true }
  | .write theta cost, next => some (solo.hear (.write theta cost) next (.ok ()))

/-- The next thing that a peer does, unless it is over. -/
def next (mail : Nat → List (Envelope M)) (solo : Solo F M S ε α) : Option (Solo F M S ε α) :=
  match solo.program with
  | .done (.ok (.goOn state)) => some { solo with program := solo.process.round state }
  | .done (.ok (.finish _)) | .done (.error _) | .crash => none
  | .tell _ next => some { solo with program := next }
  | .call request next => solo.answer mail request next

/-- The one way that a peer goes. -/
abbrev Trail (mail : Nat → List (Envelope M)) : Solo F M S ε α → Solo F M S ε α → Prop :=
  Relation.ReflTransGen fun solo solo' => solo.next mail = some solo'

variable {mail : Nat → List (Envelope M)} {a b c : Solo F M S ε α}

theorem next_of_goOn {state : S} (h : a.program = .done (.ok (.goOn state))) :
    a.next mail = some { a with program := a.process.round state } := by
  rw [next, h]

theorem next_of_tell {event : Event F} {next : Round F M S ε α} (h : a.program = .tell event next) :
    a.next mail = some { a with program := next } := by
  rw [Solo.next, h]

theorem next_of_call {request : Call F M} {next : request.Reply → Round F M S ε α}
    (h : a.program = .call request next) : a.next mail = a.answer mail request next := by
  rw [Solo.next, h]

theorem answer_read {next} (readable : a.partition.readable = true) :
    a.answer mail .read next = some { a.hear .read next (.ok a.partition.next.1) with
      partition := a.partition.next.2 } :=
  if_pos readable

theorem answer_send {receiver : PeerName} {message : M} {next} (known : receiver ∈ a.seat.peers) :
    a.answer mail (.send receiver message) next =
      some (a.hear (.send receiver message) next (.ok ())) :=
  congrArg (fun reply => some (a.hear (.send receiver message) next reply)) (if_pos known)

theorem answer_send_unknown {receiver : PeerName} {message : M} {next}
    (unknown : receiver ∉ a.seat.peers) : a.answer mail (.send receiver message) next =
      some (a.hear (.send receiver message) next (.error (.unknownPeer receiver))) :=
  congrArg (fun reply => some (a.hear (.send receiver message) next reply)) (if_neg unknown)

theorem answer_drain {received : List (Envelope M)} {next}
    (h : received = if a.looked then [] else arrived mail a.superstep) :
    a.answer mail .drain next = some { a.hear .drain next received with looked := true } := by
  subst h
  rfl

/-- **There is only one way to go.** -/
theorem trail_total (hb : Trail mail a b) (hc : Trail mail a c) :
    Trail mail b c ∨ Trail mail c b :=
  Relation.ReflTransGen.total_of_right_unique
    (fun _ _ _ h h' => Option.some.inj (h.symm.trans h')) hb hc

/-- Who is over stays where it is. -/
theorem Trail.eq_of_next_eq_none (h : Trail mail a b) (final : a.next mail = none) : a = b := by
  rcases h.cases_head with rfl | ⟨c, hc, -⟩
  · rfl
  · rw [final] at hc
    cases hc

/-- A peer that says nothing any more in a superstep: it waits for its end, or has left it. -/
def Through (k : Nat) (solo : Solo F M S ε α) : Prop :=
  k < solo.superstep ∨ k = solo.superstep ∧ ∃ next, solo.program = .call .sync next

/-- What is done next is done in the superstep that the peer is in. -/
theorem exists_told (h : a.next mail = some b) : ∃ more, b.told = a.told ++ more ∧
    a.superstep ≤ b.superstep ∧ ∀ u ∈ more, u.superstep = a.superstep := by
  have silent {solo : Solo F M S ε α} (told : solo.told = a.told)
      (superstep : solo.superstep = a.superstep) : ∃ more, solo.told = a.told ++ more ∧
        a.superstep ≤ solo.superstep ∧ ∀ u ∈ more, u.superstep = a.superstep :=
    ⟨[], by rw [told, List.append_nil], Nat.le_of_eq superstep.symm,
      fun u hu => absurd hu List.not_mem_nil⟩
  unfold next at h
  split at h
  · cases h
    exact silent rfl rfl
  · cases h
  · cases h
  · cases h
  · cases h
    exact silent rfl rfl
  · next request next _ =>
    cases request with
    | read =>
      obtain ⟨-, h⟩ := Option.ite_none_right_eq_some.mp h
      cases h
      exact ⟨_, rfl, Nat.le_refl _, fun u hu => List.mem_singleton.mp hu ▸ rfl⟩
    | sync =>
      cases h
      exact ⟨_, rfl, Nat.le_succ _, fun u hu => List.mem_singleton.mp hu ▸ rfl⟩
    | reopen | send | drain | write =>
      cases h
      exact ⟨_, rfl, Nat.le_refl _, fun u hu => List.mem_singleton.mp hu ▸ rfl⟩

theorem Trail.superstep_le (h : Trail mail a b) : a.superstep ≤ b.superstep := by
  induction h with
  | refl => exact Nat.le_refl _
  | tail _ hc ih =>
    obtain ⟨-, -, le, -⟩ := exists_told hc
    exact Nat.le_trans ih le

/-- What is done next does not bear on supersteps that the peer is through with. -/
theorem through_of_next {k : Nat} (h : a.next mail = some b) (through : a.Through k) :
    b.Through k ∧ ∀ receiver, b.told.mailed receiver k = a.told.mailed receiver k := by
  rcases through with past | ⟨rfl, next, program⟩
  · obtain ⟨more, told, le, stamped⟩ := exists_told h
    refine ⟨.inl (by omega), fun receiver => ?_⟩
    have silent : Transcript.mailed more receiver k = [] := by
      refine List.filterMap_eq_nil_iff.mpr fun u hu => ?_
      have := stamped u hu
      split
      · exact if_neg (by omega)
      · rfl
    rw [told, Transcript.mailed_append, silent, List.append_nil]
  · simp only [Solo.next, program, answer, Option.some.injEq] at h
    subst h
    refine ⟨.inl (Nat.lt_succ_self _), fun receiver => ?_⟩
    exact (Transcript.mailed_append ..).trans (List.append_nil _)

theorem Trail.through {k : Nat} (h : Trail mail a b) (through : a.Through k) :
    b.Through k ∧ ∀ receiver, b.told.mailed receiver k = a.told.mailed receiver k := by
  induction h with
  | refl => exact ⟨through, fun _ => rfl⟩
  | tail _ hc ih =>
    obtain ⟨through, same⟩ := ih
    obtain ⟨through, same'⟩ := through_of_next hc through
    exact ⟨through, fun receiver => (same' receiver).trans (same receiver)⟩

end Solo

/-! ### What a peer in a job shows -/

namespace Station

/-- A peer that is left to itself from now on. -/
def alone (s : Station F M S ε α) : Solo F M S ε α :=
  { seat := s.seat
    process := s.process
    partition := s.partition
    program := .done (.ok (.goOn s.process.start)) }

/-- A peer in a job is as busy as it is by itself. -/
def Busy (mail : Nat → List (Envelope M)) (s : Station F M S ε α) (solo : Solo F M S ε α) : Prop :=
  match s.activity with
  | .running program =>
    solo.program = program ∧ program.Orderly ∧
      byName (·.sender) s.inbox = if solo.looked then [] else Solo.arrived mail s.superstep
  | .entering _ next | .collecting next | .departing _ next =>
    solo.program = .call .sync next ∧ ∀ reply, (next reply).Orderly
  | .leaving outcome | .gone outcome => outcome.Ends solo.program
  | .stopped => True

/-- **A peer in a job shows what it does by itself.** -/
structure Shows (mail : Nat → List (Envelope M)) (s : Station F M S ε α) (told : Transcript F M)
    (solo : Solo F M S ε α) : Prop where
  seat : solo.seat = s.seat
  process : solo.process = s.process
  partition : solo.partition = s.partition
  superstep : solo.superstep = s.superstep
  told : solo.told = told.tidy
  busy : s.Busy mail solo

variable {mail : Nat → List (Envelope M)} {x : Execution F M S ε α} {s s' : Station F M S ε α}
  {effect : Effect F M ε α} {told : Transcript F M} {solo : Solo F M S ε α}

theorem Busy.running {program : Round F M S ε α} (h : s.Busy mail solo)
    (ha : s.activity = .running program) : solo.program = program ∧ program.Orderly ∧
      byName (·.sender) s.inbox = if solo.looked then [] else Solo.arrived mail s.superstep := by
  simpa only [Busy, ha] using h

/-- Who is stopped shows what it has done until then. -/
theorem Shows.stop (h : s.Shows mail told solo) :
    ({ s with activity := .stopped } : Station F M S ε α).Shows mail told solo :=
  ⟨h.seat, h.process, h.partition, h.superstep, h.told, trivial⟩

/-- What a call that is answered adds. -/
theorem tidy_answered (told : Transcript F M) {request : Call F M} {reply : request.Reply}
    (said : x.answered s = some (s.utterance request reply)) :
    told.tidy ++ [⟨s.seat.name, s.superstep, ⟨request, request.tidy reply⟩⟩] =
      Transcript.tidy (told ++ (x.answered s).toList) := by
  rw [said, Transcript.tidy_append]
  rfl

/-- **A peer that moves shows the next thing that it does by itself**, or nothing new. -/
theorem Moves.shows (move : s.Moves x s' effect (x.deedOf s)) (h : s.Shows mail told solo)
    (orderly : s.process.Orderly) (peers : s.seat.peers = x.stations.map (·.seat.name))
    (connected : ∀ u, x.answered s = some u → ∀ peer,
      u.interaction.failure? ≠ some (.disconnected peer))
    (mailed : ∀ openings next, s.activity = .departing openings next →
      openings < x.barrier.openings → byName (·.sender) s.inbox = mail s.superstep) :
    ∃ solo', Solo.Trail mail solo solo' ∧ s'.Shows mail (told ++ (x.answered s).toList) solo' := by
  obtain ⟨seat, process, partition, program, superstep, looked, list⟩ := solo
  obtain ⟨rfl, rfl, rfl, rfl, rfl, busy⟩ := h
  -- who only waits, or comes to its end, says nothing and does nothing new
  have silent (unsaid : x.answered s = none) :
      told.tidy = Transcript.tidy (told ++ (x.answered s).toList) := by
    rw [unsaid, Option.toList_none, List.append_nil]
  generalize hd : x.deedOf s = deed at move
  cases move with
  | begin ha =>
    obtain ⟨rfl, -, inbox⟩ := busy.running ha
    exact ⟨_, .single (Solo.next_of_goOn rfl), rfl, rfl, rfl, rfl,
      silent (by rw [Execution.answered, ha]), rfl, orderly _, inbox⟩
  | tell ha =>
    obtain ⟨rfl, orderly, inbox⟩ := busy.running ha
    exact ⟨_, .single (Solo.next_of_tell rfl), rfl, rfl, rfl, rfl,
      silent (by rw [Execution.answered, ha]), rfl, orderly, inbox⟩
  | finish ha | fail ha =>
    obtain ⟨ended, -⟩ := busy.running ha
    exact ⟨_, .refl, rfl, rfl, rfl, rfl, silent (by rw [Execution.answered, ha]), ended⟩
  | crash ha =>
    obtain ⟨crashed, -⟩ := busy.running ha
    exact ⟨_, .refl, rfl, rfl, rfl, rfl, silent (by rw [Execution.answered, ha]), .inl crashed⟩
  | breakOff ha unreadable =>
    obtain ⟨broken, -⟩ := busy.running ha
    exact ⟨_, .refl, rfl, rfl, rfl, rfl, silent (Execution.answered_unreadable ha unreadable),
      .inr ⟨_, broken⟩⟩
  | sync ha =>
    obtain ⟨called, orderly, -⟩ := busy.running ha
    exact ⟨_, .refl, rfl, rfl, rfl, rfl, silent (by rw [Execution.answered, ha]), called,
      fun reply => (orderly reply).2⟩
  | collect ha =>
    refine ⟨_, .refl, rfl, rfl, rfl, rfl, silent (by rw [Execution.answered, ha]), ?_⟩
    simpa only [Busy, ha] using busy
  | enter ha | depart ha | report ha =>
    simp only [Busy, ha] at busy
    exact ⟨_, .refl, rfl, rfl, rfl, rfl, silent (by rw [Execution.answered, ha]), busy⟩
  | read ha readable =>
    obtain ⟨rfl, orderly, inbox⟩ := busy.running ha
    have said := tidy_answered told (Execution.answered_read (x := x) ha readable)
    refine ⟨_, .single ((Solo.next_of_call rfl).trans (Solo.answer_read readable)), ?_⟩
    exact ⟨rfl, rfl, rfl, rfl, said, rfl, (orderly _).2, inbox⟩
  | reopen ha =>
    obtain ⟨rfl, orderly, inbox⟩ := busy.running ha
    have said : x.answered s = some (s.utterance .reopen (.ok ())) := by
      rw [Execution.answered, ha]
    refine ⟨_, .single rfl, ?_⟩
    exact ⟨rfl, rfl, rfl, rfl, tidy_answered told said, rfl, (orderly _).2, inbox⟩
  | write ha =>
    rename_i theta cost next
    obtain ⟨rfl, orderly, inbox⟩ := busy.running ha
    have said : x.answered s = some (s.utterance (.write theta cost) (.ok ())) := by
      rw [Execution.answered, ha]
    refine ⟨_, .single rfl, ?_⟩
    exact ⟨rfl, rfl, rfl, rfl, tidy_answered told said, rfl, (orderly _).2, inbox⟩
  | send ha ht named =>
    rename_i receiver message next position t reachable
    obtain ⟨rfl, orderly, inbox⟩ := busy.running ha
    have known : receiver ∈ s.seat.peers := by
      rw [peers, ← named]
      exact List.mem_map_of_mem (List.mem_of_getElem? ht)
    have said := tidy_answered told (Execution.answered_send ha hd)
    refine ⟨_, .single ((Solo.next_of_call rfl).trans (Solo.answer_send known)), ?_⟩
    exact ⟨rfl, rfl, rfl, rfl, said, rfl, (orderly _).2, inbox⟩
  | refuse ha refused =>
    rename_i receiver message next error
    obtain ⟨rfl, orderly, inbox⟩ := busy.running ha
    have said := Execution.answered_refuse ha refused
    rcases Execution.of_deliver_error refused with ⟨rfl, unknown⟩ | ⟨rfl, -⟩
    · have unknown : receiver ∉ s.seat.peers := by
        rw [peers, List.mem_map]
        rintro ⟨t, ht, named⟩
        exact unknown t ht named
      have said := tidy_answered told said
      refine ⟨_, .single ((Solo.next_of_call rfl).trans (Solo.answer_send_unknown unknown)), ?_⟩
      exact ⟨rfl, rfl, rfl, rfl, said, rfl, (orderly _).2, inbox⟩
    · exact absurd rfl (connected _ said receiver)
  | drain ha =>
    rename_i next
    obtain ⟨rfl, orderly, inbox⟩ := busy.running ha
    have said : x.answered s = some (s.utterance .drain s.inbox) := by
      rw [Execution.answered, ha]
    have said := tidy_answered told said
    refine ⟨_, .single ((Solo.next_of_call rfl).trans (Solo.answer_drain inbox)), ?_⟩
    exact ⟨rfl, rfl, rfl, rfl, said, (orderly _).1.symm, (orderly _).2, List.mergeSort_nil⟩
  | wake ha isOpen =>
    simp only [Busy, ha] at busy
    obtain ⟨rfl, orderly⟩ := busy
    have said := tidy_answered told (Execution.answered_wake ha isOpen)
    refine ⟨_, .single rfl, ?_⟩
    exact ⟨rfl, rfl, rfl, rfl, said, rfl, orderly _, mailed _ _ ha isOpen⟩

end Station

end Superstep
