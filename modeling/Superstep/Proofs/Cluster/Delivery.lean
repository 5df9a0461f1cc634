import Superstep.Peer.Script
import Superstep.Proofs.Cluster.Lockstep

/-!
# The delivery of messages

A message sent in a superstep is found by its receiver when the barrier lets it go into the next
superstep, and is not found at any other time. What is found is all that was sent to the receiver
in the superstep before, by anybody, the receiver included, in the order in which it was sent.

The proof keeps account of where the messages of a superstep are. Those of the superstep that a
peer is in gather in its mailbox; while it collects, they are partly in the inbox and partly still
in the mailbox; while it departs, they are all in the inbox, and the mailbox gathers what faster
peers already send in the superstep that follows (`Superstep.Station.Holds`). Both meetings at the
barrier are needed for this. The first makes sure that nobody sends any more in the superstep that
ends, the second that nobody sends in the next one before all have collected
(`Superstep.Execution.Lockstep.beside`).

## Main result

`Superstep.Execution.Runs.delivers`: in every run, `Superstep.Chronicle.Delivers`.
-/

namespace Superstep

variable {F M S ε α : Type}

/-! ### What a chronicle says of the delivery of messages -/

namespace Chronicle

/-- What a peer finds when it comes into a superstep: what was sent to it in the one before. -/
def arriving (chronicle : Chronicle M) (receiver : PeerName) : Nat → List (Envelope M)
  | 0 => []
  | superstep + 1 => chronicle.mailed receiver superstep

/-- Something is true of every entry of a chronicle and of what comes before it. -/
def Throughout (P : Chronicle M → Entry M → Prop) (chronicle : Chronicle M) : Prop :=
  ∀ before entry after, chronicle = before ++ entry :: after → P before entry

theorem throughout_nil (P : Chronicle M → Entry M → Prop) : Throughout P [] := by
  intro before entry after h
  simp at h

/-- To be true throughout is to have been true all along and to be true of the last entry. -/
theorem throughout_concat {P : Chronicle M → Entry M → Prop} {chronicle : Chronicle M}
    {entry : Entry M} :
    Throughout P (chronicle ++ [entry]) ↔ Throughout P chronicle ∧ P chronicle entry := by
  refine ⟨fun h => ⟨fun before e after split => ?_, h chronicle entry [] rfl⟩, ?_⟩
  · exact h before e (after ++ [entry]) (by simp [split])
  · rintro ⟨h, last⟩ before e after split
    rcases List.eq_nil_or_concat after with rfl | ⟨more, e', rfl⟩
    · obtain ⟨rfl, heq⟩ := List.append_inj' split rfl
      obtain rfl := List.singleton_inj.mp heq
      exact last
    · have split : chronicle ++ [entry] = (before ++ e :: more) ++ [e'] := by simpa using split
      exact h before e more (List.append_inj' split rfl).1

/-- What is true throughout may be weakened entry by entry. -/
theorem Throughout.imp {P Q : Chronicle M → Entry M → Prop} {chronicle : Chronicle M}
    (h : Throughout P chronicle)
    (weaken : ∀ before, ∀ entry ∈ chronicle, P before entry → Q before entry) :
    Throughout Q chronicle := by
  intro before entry after split
  exact weaken before entry (by simp [split]) (h before entry after split)

/-- **What a chronicle says of the delivery of messages.** -/
structure Delivers (chronicle : Chronicle M) : Prop where
  /-- A deed belongs to the superstep that its peer was let go into last. -/
  numbered : chronicle.Throughout fun before entry =>
    entry.superstep = Chronicle.passed (before ++ [entry]) entry.peer
  /-- Who is let go finds everything that was ever sent to it in the superstep before, and nothing
  else. -/
  woke : chronicle.Throughout fun _ entry => ∀ inbox, entry.deed = .woke inbox →
    inbox = chronicle.arriving entry.peer entry.superstep
  /-- Who looks for the first time in a superstep takes just that, and then there is nothing. -/
  took : chronicle.Throughout fun before entry => ∀ received, entry.deed = .took received →
    received = if before.looked entry.peer entry.superstep then []
      else chronicle.arriving entry.peer entry.superstep

/-- Who was sent what: what one peer sends to another is part of all that is sent to the other. -/
theorem filter_mailed (chronicle : Chronicle M) (sender receiver : PeerName) (superstep : Nat) :
    (chronicle.mailed receiver superstep).filter (·.sender = sender) =
      ((chronicle.said sender superstep).filter (·.1 = receiver)).map fun mail =>
        ⟨sender, mail.2⟩ := by
  induction chronicle with
  | nil => rfl
  | cons entry rest ih =>
    have split : ∀ list : Chronicle M, Chronicle.mailed (entry :: list) receiver superstep =
        Chronicle.mailed [entry] receiver superstep ++ list.mailed receiver superstep :=
      fun list => mailed_append [entry] list receiver superstep
    have split' : ∀ list : Chronicle M, Chronicle.said (entry :: list) sender superstep =
        Chronicle.said [entry] sender superstep ++ list.said sender superstep :=
      fun list => said_append [entry] list sender superstep
    rw [split, split', List.filter_append, List.filter_append, List.map_append, ih]
    congr 1
    obtain ⟨peer, k, deed⟩ := entry
    cases deed with
    | sent addressee message =>
      by_cases hp : peer = sender <;> by_cases hk : k = superstep <;>
        by_cases ha : addressee = receiver <;> simp [mailed, said, hp, hk, ha]
    | _ => simp [mailed, said]

end Chronicle

/-! ### Where the messages are -/

/-- **Where the messages of a superstep are**, depending on how far their receiver has come. -/
def Station.Holds (chronicle : Chronicle M) (s : Station F M S ε α) : Prop :=
  match s.activity with
  | .running _ | .leaving _ | .gone _ =>
    s.mailbox = chronicle.mailed s.seat.name s.superstep ∧
      s.inbox = if chronicle.looked s.seat.name s.superstep then []
        else chronicle.arriving s.seat.name s.superstep
  | .entering .. => s.mailbox = chronicle.mailed s.seat.name s.superstep
  | .collecting _ => s.inbox ++ s.mailbox = chronicle.mailed s.seat.name s.superstep
  | .departing .. =>
    s.inbox = chronicle.mailed s.seat.name s.superstep ∧
      s.mailbox = chronicle.mailed s.seat.name (s.superstep + 1)
  | .stopped => True

namespace Station

variable {x : Execution F M S ε α} {s s' t : Station F M S ε α} {effect : Effect F M ε α}
  {deed : Option (Deed M)} {chronicle more : Chronicle M}

/-- What is no news to a station does not change what it holds. -/
theorem holds_append (mail : ∀ k, Chronicle.mailed more t.seat.name k = [])
    (looks : Chronicle.looked more t.seat.name t.superstep = false) :
    t.Holds (chronicle ++ more) ↔ t.Holds chronicle := by
  have mailed (k : Nat) : Chronicle.mailed (chronicle ++ more) t.seat.name k =
      chronicle.mailed t.seat.name k := by
    rw [Chronicle.mailed_append, mail, List.append_nil]
  have arriving (k : Nat) : Chronicle.arriving (chronicle ++ more) t.seat.name k =
      chronicle.arriving t.seat.name k := by
    cases k with
    | zero => rfl
    | succ k => exact mailed k
  unfold Holds
  rw [Chronicle.looked_append, looks, Bool.or_false, mailed, mailed, arriving]

/-- A message that is sent while its receiver is beside the sender ends up where the receiver holds
the messages of that superstep. -/
theorem Holds.hear {k : Nat} {sender receiver : PeerName} {message : M} (h : t.Holds chronicle)
    (beside : t.Beside k) :
    (t.receiveAll (if t.seat.name = receiver then [⟨sender, message⟩] else [])).Holds
      (chronicle ++ [⟨sender, k, .sent receiver message⟩]) := by
  by_cases named : t.seat.name = receiver
  · subst named
    have mailed (j : Nat) : Chronicle.mailed (chronicle ++ [⟨sender, k, .sent t.seat.name message⟩])
        t.seat.name j = chronicle.mailed t.seat.name j ++
          if k = j then [⟨sender, message⟩] else [] := by
      rw [Chronicle.mailed_append]
      by_cases hj : k = j <;> simp [Chronicle.mailed, hj]
    have looked : Chronicle.looked (chronicle ++ [⟨sender, k, .sent t.seat.name message⟩])
        t.seat.name t.superstep = chronicle.looked t.seat.name t.superstep := by
      rw [Chronicle.looked_append]
      simp [Chronicle.looked]
    -- what arrived with the superstep was sent in the one before, and so is not changed
    have arriving (hk : t.superstep ≤ k) :
        Chronicle.arriving (chronicle ++ [⟨sender, k, .sent t.seat.name message⟩]) t.seat.name
          t.superstep = chronicle.arriving t.seat.name t.superstep := by
      cases hs : t.superstep with
      | zero => rfl
      | succ j =>
        have hj : k ≠ j := by omega
        simp [Chronicle.arriving, mailed, hj]
    unfold Holds Beside at *
    simp only [activity_receiveAll, seat_receiveAll, superstep_receiveAll, mailbox_receiveAll,
      inbox_receiveAll, if_true, mailed, looked]
    split at h <;> simp_all
    omega
  · simp only [named, if_false, receiveAll_nil]
    refine (holds_append (fun j => ?_) ?_).mpr h
    · simp [Chronicle.mailed, Ne.symm named]
    · simp [Chronicle.looked]

/-- **A move that sends nothing leaves messages where they belong**, provided that the peer has not
looked into the next superstep yet and that nobody sends into it while the peer collects. -/
theorem Moves.holds (move : s.Moves x s' effect deed) (h : s.Holds chronicle)
    (quiet : ∀ receiver message, deed ≠ some (.sent receiver message))
    (unlooked : chronicle.looked s.seat.name (s.superstep + 1) = false)
    (unsent : ∀ next, s.activity = .collecting next →
      chronicle.mailed s.seat.name (s.superstep + 1) = []) :
    s'.Holds (chronicle ++ (deed.map s.entry).toList) := by
  -- to call and to wake up is no news of messages
  have silent {e : Entry M} (he : e.deed = .called ∨ ∃ inbox, e.deed = .woke inbox) :
      s'.Holds (chronicle ++ [e]) ↔ s'.Holds chronicle := by
    rcases he with he | ⟨inbox, he⟩ <;>
      exact holds_append (by simp [Chronicle.mailed, he]) (by simp [Chronicle.looked, he])
  cases move with
  | send => exact absurd rfl (quiet _ _)
  | begin ha | finish ha | fail ha | crash ha | tell ha | read ha | breakOff ha | reopen ha
    | refuse ha | write ha | report ha =>
    simpa [Holds, ha, resume, leave] using h
  | sync ha =>
    rw [Option.map_some, Option.toList_some, silent (.inl rfl)]
    simp only [Holds, ha] at h ⊢
    exact h.1
  | drain ha =>
    have mailed : Chronicle.mailed (chronicle ++ [s.entry (.took s.inbox)]) s.seat.name
        s.superstep = chronicle.mailed s.seat.name s.superstep := by
      rw [Chronicle.mailed_append]
      simp [Chronicle.mailed, entry]
    have looked : Chronicle.looked (chronicle ++ [s.entry (.took s.inbox)]) s.seat.name
        s.superstep = true := by
      rw [Chronicle.looked_append]
      simp [Chronicle.looked, entry]
    simp only [Holds, ha] at h
    exact ⟨h.1.trans mailed.symm, (if_pos looked).symm⟩
  | enter ha isOpen =>
    simpa [Holds, ha] using h
  | collect ha hm =>
    simp only [Option.map_none, Option.toList_none, List.append_nil, Holds, ha, hm] at h ⊢
    simpa using h
  | depart ha hm =>
    rw [Option.map_some, Option.toList_some, silent (.inl rfl)]
    simp only [Holds, ha, hm, List.append_nil] at h ⊢
    exact ⟨h, (unsent _ ha).symm⟩
  | wake ha isOpen =>
    rw [Option.map_some, Option.toList_some, silent (.inr ⟨_, rfl⟩)]
    simp only [Holds, ha, resume] at h ⊢
    refine ⟨h.2, ?_⟩
    simp [unlooked, Chronicle.arriving, h.1]

end Station

/-! ### All messages of a job -/

namespace Execution

/-- **Every message is where it belongs**, and the chronicle bears it out. -/
structure Delivery (x : Execution F M S ε α) (chronicle : Chronicle M) : Prop where
  lockstep : x.Lockstep chronicle
  holds : ∀ s ∈ x.stations, s.Holds chronicle
  passed : ∀ s ∈ x.stations, chronicle.passed s.seat.name = s.superstep
  /-- Deeds are those of peers, and none was done in a superstep to come. -/
  known : ∀ entry ∈ chronicle, ∃ t ∈ x.stations,
    t.seat.name = entry.peer ∧ entry.superstep ≤ t.superstep
  delivers : chronicle.Delivers

variable {x y : Execution F M S ε α} {chronicle : Chronicle M}

/-- Peers of one name are one station. -/
theorem eq_of_name_eq {s t : Station F M S ε α} (nodup : (x.stations.map (·.seat.name)).Nodup)
    (hs : s ∈ x.stations) (ht : t ∈ x.stations) (h : s.seat.name = t.seat.name) : s = t := by
  obtain ⟨i, hi⟩ := List.mem_iff_getElem?.mp hs
  obtain ⟨j, hj⟩ := List.mem_iff_getElem?.mp ht
  obtain rfl := index_eq_of_name_eq nodup hi hj h
  exact Option.some.inj (hi.symm.trans hj)

namespace Delivery

variable {index : Nat} {s s' : Station F M S ε α} {effect : Effect F M ε α}
  {deed : Option (Deed M)}

/-- Nothing was done in a superstep that has not begun. -/
theorem superstep_le (h : x.Delivery chronicle) {entry : Entry M} (he : entry ∈ chronicle) :
    2 * entry.superstep ≤ x.barrier.openings := by
  obtain ⟨t, ht, -, hle⟩ := h.known entry he
  have := h.lockstep.superstep_le ht
  omega

/-- Nobody has looked into an inbox that is still to be filled. -/
theorem unlooked (h : x.Delivery chronicle) (hs : s ∈ x.stations) :
    chronicle.looked s.seat.name (s.superstep + 1) = false := by
  rw [Chronicle.looked, List.any_eq_false]
  intro entry he
  obtain ⟨t, ht, named, hle⟩ := h.known entry he
  split
  · rw [decide_eq_true_eq]
    rintro ⟨hp, hk⟩
    obtain rfl := eq_of_name_eq h.lockstep.nodup ht hs (named.trans hp)
    omega
  · exact Bool.false_ne_true

/-- Nobody has sent anything in a superstep that has not begun. -/
theorem unsent (h : x.Delivery chronicle) {k : Nat} (later : x.barrier.openings < 2 * k)
    (receiver : PeerName) : chronicle.mailed receiver k = [] := by
  rw [Chronicle.mailed, List.filterMap_eq_nil_iff]
  intro entry he
  have := h.superstep_le he
  split
  · refine if_neg fun hk => ?_
    omega
  · rfl

/-- Who sends something is in its program. -/
theorem talking (h : x.Delivery chronicle) (hs : s ∈ x.stations) {receiver : PeerName}
    {message : M} (move : s.Moves x s' effect (some (.sent receiver message))) :
    x.barrier.openings = 2 * s.superstep := by
  have inStep := h.lockstep.inStep s hs
  cases move with
  | send ha =>
    simp only [Station.InStep, ha] at inStep
    omega

/-- What happens now does not change what arrived with the superstep of an earlier deed. -/
theorem arriving_append (h : x.Delivery chronicle) (hs : s ∈ x.stations)
    (move : s.Moves x s' effect deed) {k : Nat} (hk : 2 * k ≤ x.barrier.openings)
    (receiver : PeerName) :
    Chronicle.arriving (chronicle ++ (deed.map s.entry).toList) receiver k =
      chronicle.arriving receiver k := by
  cases k with
  | zero => rfl
  | succ k =>
    refine (Chronicle.mailed_append ..).trans ?_
    cases deed with
    | none => exact List.append_nil _
    | some deed =>
      cases deed with
      | sent receiver message =>
        have := h.talking hs move
        have hne : s.superstep ≠ k := by omega
        simp [Chronicle.arriving, Chronicle.mailed, Station.entry, hne]
      | _ => exact List.append_nil _

/-- After a move, a station holds the messages that it should. -/
theorem holds_move (h : x.Delivery chronicle) (hs : x.stations[index]? = some s)
    (move : s.Moves x s' effect deed) :
    ∀ t ∈ (x.after index s' effect).stations,
      t.Holds (chronicle ++ (deed.map s.entry).toList) := by
  have mem := List.mem_of_getElem? hs
  intro t ht
  obtain ⟨i, found⟩ := List.mem_iff_getElem?.mp ht
  clear ht
  -- a move that is no sending changes no mailbox but, perhaps, that of who moves
  by_cases sent : ∃ receiver message, deed = some (.sent receiver message)
  · obtain ⟨receiver, message, rfl⟩ := sent
    have talking := h.talking mem move
    cases move with
    | send ha hp named reachable =>
      rename_i position r next
      -- the message goes to the one station of that name
      have mail : ∀ u, x.stations[i]? = some u → Effect.mail
          (.post position ⟨s.seat.name, message⟩ : Effect F M ε α) i =
            if u.seat.name = receiver then [⟨s.seat.name, message⟩] else [] := by
        intro u hu
        by_cases hn : u.seat.name = receiver
        · obtain rfl := index_eq_of_name_eq h.lockstep.nodup hu hp (hn.trans named.symm)
          simp [Effect.mail, hn]
        · have hi : position ≠ i := by
            rintro rfl
            obtain rfl := Option.some.inj (hp.symm.trans hu)
            exact hn named
          simp [Effect.mail, hn, hi]
      rcases of_getElem?_after found with ⟨rfl, rfl⟩ | ⟨-, u, hu, rfl⟩
      · rw [mail s hs]
        have holds := h.holds s mem
        simp only [Station.Holds, ha] at holds
        have resumed : (s.resume (next (.ok ()))).Holds chronicle := holds
        exact resumed.hear rfl
      · rw [mail u hu]
        have mem := List.mem_of_getElem? hu
        exact (h.holds u mem).hear (h.lockstep.beside mem talking)
  · have silent : effect.mail i = [] := by
      cases move with
      | send => exact absurd ⟨_, _, rfl⟩ sent
      | _ => rfl
    rcases of_getElem?_after found with ⟨rfl, rfl⟩ | ⟨hi, u, hu, rfl⟩
    · rw [silent, Station.receiveAll_nil]
      refine move.holds (h.holds s mem) (fun receiver message hd => sent ⟨_, _, hd⟩)
        (h.unlooked mem) fun next ha => h.unsent ?_ _
      have inStep := h.lockstep.inStep s mem
      simp only [Station.InStep, ha] at inStep
      omega
    · rw [silent, Station.receiveAll_nil]
      have other := h.lockstep.name_ne hs hu (Ne.symm hi)
      refine (Station.holds_append ?_ ?_).mpr (h.holds u (List.mem_of_getElem? hu))
      · intro k
        cases deed with
        | none => rfl
        | some deed =>
          cases deed with
          | sent receiver message => exact absurd ⟨receiver, message, rfl⟩ sent
          | _ => rfl
      · cases deed with
        | none => rfl
        | some deed => cases deed <;> simp [Chronicle.looked, Station.entry, other]

/-- After a move, the barriers that let a station go are still counted by its superstep. -/
theorem passed_move (h : x.Delivery chronicle) (hs : x.stations[index]? = some s)
    (move : s.Moves x s' effect deed) :
    ∀ t ∈ (x.after index s' effect).stations,
      Chronicle.passed (chronicle ++ (deed.map s.entry).toList) t.seat.name = t.superstep := by
  have mem := List.mem_of_getElem? hs
  intro t ht
  obtain ⟨i, found⟩ := List.mem_iff_getElem?.mp ht
  rw [Chronicle.passed_append]
  rcases of_getElem?_after found with ⟨-, rfl⟩ | ⟨hi, u, hu, rfl⟩
  · rw [Station.seat_receiveAll, Station.superstep_receiveAll, move.seat_eq, h.passed s mem]
    cases move <;> simp [Chronicle.passed, Station.entry, Station.resume, Station.leave]
  · have other := h.lockstep.name_ne hs hu (Ne.symm hi)
    rw [Station.seat_receiveAll, Station.superstep_receiveAll, h.passed u (List.mem_of_getElem? hu)]
    cases deed with
    | none => rfl
    | some deed => cases deed <;> simp [Chronicle.passed, Station.entry, other]

/-- **After a move, the chronicle still says of the delivery of messages what it should.** -/
theorem delivers_move (h : x.Delivery chronicle) (hs : s ∈ x.stations)
    (move : s.Moves x s' effect deed) :
    Chronicle.Delivers (chronicle ++ (deed.map s.entry).toList) := by
  -- what is said of earlier deeds stays true, so only the new one is to be looked at
  have known : ∀ entry ∈ chronicle, ∀ receiver, Chronicle.arriving
      (chronicle ++ (deed.map s.entry).toList) receiver entry.superstep =
        chronicle.arriving receiver entry.superstep :=
    fun entry he receiver => h.arriving_append hs move (h.superstep_le he) receiver
  have inStep := h.lockstep.inStep s hs
  have holds := h.holds s hs
  have passed := h.passed s hs
  obtain ⟨numbered, woke, took⟩ := h.delivers
  cases deed with
  | none => simpa using h.delivers
  | some deed =>
    simp only [Option.map_some, Option.toList_some] at known ⊢
    refine ⟨Chronicle.throughout_concat.mpr ⟨numbered, ?_⟩,
      Chronicle.throughout_concat.mpr ⟨woke.imp fun before entry he hw inbox hd => ?_, ?_⟩,
      Chronicle.throughout_concat.mpr ⟨took.imp fun before entry he ht received hd => ?_, ?_⟩⟩
    · rw [Chronicle.passed_append]
      change _ = chronicle.passed s.seat.name + _
      rw [passed]
      cases deed <;> simp [Chronicle.passed, Station.entry]
    · rw [known entry he]
      exact hw inbox hd
    · intro inbox hd
      obtain rfl : deed = .woke inbox := hd
      have arriving := h.arriving_append hs move (k := s.superstep + 1)
      cases move with
      | wake ha isOpen =>
        simp only [Station.InStep, ha] at inStep
        simp only [Station.Holds, ha] at holds
        exact holds.1.trans (arriving (by omega) s.seat.name).symm
    · rw [known entry he]
      exact ht received hd
    · intro received hd
      obtain rfl : deed = .took received := hd
      have arriving := h.arriving_append hs move (k := s.superstep)
      cases move with
      | drain ha =>
        simp only [Station.InStep, ha] at inStep
        simp only [Station.Holds, ha] at holds
        refine holds.2.trans ?_
        exact congrArg (ite _ []) (arriving (by omega) s.seat.name).symm

/-- **Turns leave every message where it belongs.** -/
theorem turn {noted : Option (Entry M)} (h : x.Delivery chronicle) (turn : x.Turns noted y) :
    y.Delivery (chronicle ++ noted.toList) := by
  have lockstep := h.lockstep.turn turn
  have known : ∀ entry ∈ chronicle, ∃ t ∈ y.stations,
      t.seat.name = entry.peer ∧ entry.superstep ≤ t.superstep := by
    intro entry he
    obtain ⟨t, ht, named, hle⟩ := h.known entry he
    obtain ⟨i, ht⟩ := List.mem_iff_getElem?.mp ht
    obtain ⟨u, hu, seat, hle'⟩ := turn.grows ht
    exact ⟨u, List.mem_of_getElem? hu, seat ▸ named, Nat.le_trans hle hle'⟩
  cases turn with
  | move hs move =>
    rename_i index s s' effect deed journal
    have mem := List.mem_of_getElem? hs
    refine ⟨lockstep, h.holds_move hs move, h.passed_move hs move, fun entry he => ?_,
      h.delivers_move mem move⟩
    rcases List.mem_append.mp he with he | he
    · exact known entry he
    · obtain ⟨d, rfl, rfl⟩ := Option.map_eq_some_iff.mp (Option.mem_toList.mp he)
      refine ⟨_, List.mem_of_getElem? (getElem?_after_self hs), ?_, move.entry_superstep_le⟩
      exact congrArg Seat.name move.seat_eq
  | note =>
    rw [Option.toList_none, List.append_nil] at lockstep ⊢
    exact ⟨lockstep, h.holds, h.passed, h.known, h.delivers⟩
  | stop hs running hgone hstopped =>
    rename_i index s
    rw [Option.toList_none, List.append_nil] at lockstep ⊢
    refine ⟨lockstep, fun t ht => ?_, fun t ht => ?_, known, h.delivers⟩
    · rcases List.mem_or_eq_of_mem_set ht with ht | rfl
      · exact h.holds t ht
      · trivial
    · rcases List.mem_or_eq_of_mem_set ht with ht | rfl
      · exact h.passed t ht
      · exact h.passed s (List.mem_of_getElem? hs)

end Delivery

/-! ### In a job from its beginning -/

section Job

variable {cluster : Cluster F} {body : Seat → Process F M S ε α}

theorem delivery_ofCluster : (ofCluster cluster body).Delivery [] where
  lockstep := lockstep_ofCluster
  holds s hs := by
    obtain ⟨seat, partition, rfl⟩ := exists_ready_of_mem hs
    exact ⟨rfl, rfl⟩
  passed s hs := by
    obtain ⟨seat, partition, rfl⟩ := exists_ready_of_mem hs
    rfl
  known _ he := by cases he
  delivers :=
    ⟨Chronicle.throughout_nil _, Chronicle.throughout_nil _, Chronicle.throughout_nil _⟩

/-- In every run every message is where it belongs. -/
theorem Runs.delivery (run : (ofCluster cluster body).Runs chronicle y) :
    y.Delivery chronicle := by
  induction run with
  | start => exact delivery_ofCluster
  | turn t _ hz ih => exact ih.turn (turns_of_turn hz)

/-- **The delivery of messages.** In every run of every job the chronicle says of the delivery of
messages what it should; and while a peer is in its program, it has been let go by as many barriers
as its superstep says, and its inbox holds what the last of them delivered, or nothing once it has
looked. -/
theorem Runs.delivers (run : (ofCluster cluster body).Runs chronicle y) :
    chronicle.Delivers ∧ ∀ s ∈ y.stations, ∀ program, s.activity = .running program →
      chronicle.passed s.seat.name = s.superstep ∧
        s.inbox = if chronicle.looked s.seat.name s.superstep then []
          else chronicle.arriving s.seat.name s.superstep := by
  have h := run.delivery
  refine ⟨h.delivers, fun s hs program ha => ⟨h.passed s hs, ?_⟩⟩
  have holds := h.holds s hs
  simp only [Station.Holds, ha] at holds
  exact holds.2

end Job

/-- Two peers that write to each other; the first one also writes to itself, and looks twice. -/
def correspondence :
    Execution Nat String (Script.Position Nat) PeerError (List (Script.Note Nat)) :=
  .ofCluster
    { names := ["p", "q"]
      partitions := [.empty 1, .empty 1]
      names_ne_nil := by decide
      length_partitions := rfl
      nodup_names := by decide }
    (Script.process [.send "p" "one", .send "q" "two", .sync, .drain, .drain])

/-- Turns of the two peers, up to where the first one has looked twice. -/
def correspondenceTurns : List Turn :=
  List.replicate 6 (.step 0) ++ List.replicate 6 (.step 1) ++ List.replicate 4 (.step 0) ++
    List.replicate 4 (.step 1) ++ List.replicate 5 (.step 0)

/-- In a run of the two, the first one finds a message of each, in the order in which they were
sent, when it first looks, and then nothing. -/
theorem delivers_correspondence : ∃ chronicle y, correspondence.Runs chronicle y ∧
    chronicle.Delivers ∧
    chronicle.filter (·.peer = "p") =
      [⟨"p", 0, .sent "p" "one"⟩, ⟨"p", 0, .sent "q" "two"⟩, ⟨"p", 0, .called⟩,
        ⟨"p", 0, .called⟩, ⟨"p", 1, .woke [⟨"p", "one"⟩, ⟨"q", "one"⟩]⟩,
        ⟨"p", 1, .took [⟨"p", "one"⟩, ⟨"q", "one"⟩]⟩, ⟨"p", 1, .took []⟩] := by
  have played : ((correspondence.play correspondenceTurns).map fun p =>
      p.1.filter (·.peer = "p")) =
        some [⟨"p", 0, .sent "p" "one"⟩, ⟨"p", 0, .sent "q" "two"⟩, ⟨"p", 0, .called⟩,
          ⟨"p", 0, .called⟩, ⟨"p", 1, .woke [⟨"p", "one"⟩, ⟨"q", "one"⟩]⟩,
          ⟨"p", 1, .took [⟨"p", "one"⟩, ⟨"q", "one"⟩]⟩, ⟨"p", 1, .took []⟩] := by
    decide +kernel
  obtain ⟨⟨chronicle, y⟩, hplay, heq⟩ := Option.map_eq_some_iff.mp played
  have run := runs_of_play hplay
  exact ⟨chronicle, y, run, run.delivers.1, heq⟩

end Execution

end Superstep
