import Superstep.Proofs.Cluster.Moves

/-!
# Runs of a job

A run is any sequence of turns, each possible where it is taken. Along a run a *chronicle* is kept
of the deeds that bear on the delivery of messages: who did them, and in which superstep. The
chronicle is no part of a job – nothing a job does depends on it – but what is said about the
delivery of messages is said of it.

A superstep of a peer begins when the barrier lets the peer go, so a deed `woke` belongs to the
superstep it begins.

`Superstep.Execution.Inevitable` says that a job comes to a goal whichever turns are taken, and
that it never gets stuck before. It is an inductive predicate, so that it also says that no run
goes on for ever without coming to the goal.
-/

namespace Superstep

/-- A deed, whose it is, and the superstep it belongs to. -/
structure Entry (M : Type) where
  peer : PeerName
  superstep : Nat
  deed : Deed M
  deriving DecidableEq, Repr

variable {F M S ε α : Type}

/-- What is noted of a deed of a station. -/
def Station.entry (s : Station F M S ε α) (deed : Deed M) : Entry M :=
  { peer := s.seat.name
    superstep := match deed with
      | .woke _ => s.superstep + 1
      | _ => s.superstep
    deed }

/-- A deed belongs to a superstep that its peer has come to. -/
theorem Station.Moves.entry_superstep_le {x : Execution F M S ε α} {s s' : Station F M S ε α}
    {effect : Effect F M ε α} {deed : Deed M} (h : s.Moves x s' effect (some deed)) :
    (s.entry deed).superstep ≤ s'.superstep := by
  cases h <;> exact Nat.le_refl _

/-! ### Chronicles -/

/-- The deeds of a run, in the order in which they were done. -/
abbrev Chronicle (M : Type) := List (Entry M)

namespace Chronicle

/-- How often a peer has called at the barrier. -/
def waits (chronicle : Chronicle M) (peer : PeerName) : Nat :=
  chronicle.countP fun entry =>
    match entry.deed with
    | .called => entry.peer = peer
    | _ => false

/-- What a peer has sent in a superstep, and to whom. -/
def said (chronicle : Chronicle M) (peer : PeerName) (superstep : Nat) : List (PeerName × M) :=
  chronicle.filterMap fun entry =>
    match entry.deed with
    | .sent receiver message =>
      if entry.peer = peer ∧ entry.superstep = superstep then some (receiver, message) else none
    | _ => none

/-- Whether a peer has looked into its inbox in a superstep. -/
def looked (chronicle : Chronicle M) (peer : PeerName) (superstep : Nat) : Bool :=
  chronicle.any fun entry =>
    match entry.deed with
    | .took _ => entry.peer = peer ∧ entry.superstep = superstep
    | _ => false

/-- What was sent to a peer in a superstep, in the order in which it was sent, and by whom. -/
def mailed (chronicle : Chronicle M) (receiver : PeerName) (superstep : Nat) :
    List (Envelope M) :=
  chronicle.filterMap fun entry =>
    match entry.deed with
    | .sent addressee message =>
      if addressee = receiver ∧ entry.superstep = superstep then some ⟨entry.peer, message⟩
      else none
    | _ => none

/-- How many barriers have let a peer go. -/
def passed (chronicle : Chronicle M) (peer : PeerName) : Nat :=
  chronicle.countP fun entry =>
    match entry.deed with
    | .woke _ => entry.peer = peer
    | _ => false

@[simp] theorem waits_nil (peer : PeerName) : Chronicle.waits ([] : Chronicle M) peer = 0 := rfl

theorem waits_append (chronicle more : Chronicle M) (peer : PeerName) :
    Chronicle.waits (chronicle ++ more) peer = chronicle.waits peer + Chronicle.waits more peer :=
  List.countP_append

theorem said_append (chronicle more : Chronicle M) (peer : PeerName) (superstep : Nat) :
    Chronicle.said (chronicle ++ more) peer superstep =
      chronicle.said peer superstep ++ Chronicle.said more peer superstep :=
  List.filterMap_append

theorem looked_append (chronicle more : Chronicle M) (peer : PeerName) (superstep : Nat) :
    Chronicle.looked (chronicle ++ more) peer superstep =
      (chronicle.looked peer superstep || Chronicle.looked more peer superstep) :=
  List.any_append

theorem mailed_append (chronicle more : Chronicle M) (receiver : PeerName) (superstep : Nat) :
    Chronicle.mailed (chronicle ++ more) receiver superstep =
      chronicle.mailed receiver superstep ++ Chronicle.mailed more receiver superstep :=
  List.filterMap_append

theorem passed_append (chronicle more : Chronicle M) (peer : PeerName) :
    Chronicle.passed (chronicle ++ more) peer =
      chronicle.passed peer + Chronicle.passed more peer :=
  List.countP_append

/-- Only a call adds to the waits. -/
theorem waits_append_of_ne (chronicle : Chronicle M) {deed : Option (Deed M)}
    (quiet : deed ≠ some .called) (s : Station F M S ε α) (peer : PeerName) :
    Chronicle.waits (chronicle ++ (deed.map s.entry).toList) peer = chronicle.waits peer := by
  rw [waits_append]
  cases deed with
  | none => rfl
  | some deed =>
    cases deed with
    | called => exact absurd rfl quiet
    | _ => rfl

/-- A call adds one to the waits of the caller. -/
theorem waits_append_called (chronicle : Chronicle M) (s : Station F M S ε α) (peer : PeerName) :
    Chronicle.waits (chronicle ++ [s.entry .called]) peer =
      chronicle.waits peer + if s.seat.name = peer then 1 else 0 := by
  rw [waits_append]
  simp [waits, Station.entry, List.countP_cons]

end Chronicle

namespace Execution

/-- What is noted of a turn. -/
def noted (x : Execution F M S ε α) : Turn → Option (Entry M)
  | .step index => x.stations[index]?.bind fun s => (x.deedOf s).map s.entry
  | _ => none

/-- **The runs from an execution**: what their chronicles are, and where they lead. -/
inductive Runs (x : Execution F M S ε α) : Chronicle M → Execution F M S ε α → Prop
  | start : Runs x [] x
  | turn {chronicle y z} (t : Turn) : Runs x chronicle y → y.turn t = some z →
    Runs x (chronicle ++ (y.noted t).toList) z

/-- One execution can become the other. -/
def Reaches (x y : Execution F M S ε α) : Prop := ∃ chronicle, x.Runs chronicle y

/-- Whichever turns are taken, the goal is reached, and until then some turn can be taken. -/
inductive Inevitable (goal : Execution F M S ε α → Prop) : Execution F M S ε α → Prop
  | reached {x} : goal x → Inevitable goal x
  | turn {x} : (∃ t y, x.turn t = some y) → (∀ t y, x.turn t = some y → Inevitable goal y) →
    Inevitable goal x

/-- Nothing can happen any more. -/
def Exhausted (x : Execution F M S ε α) : Prop := ∀ t, x.turn t = none

variable {x y z : Execution F M S ε α} {chronicle : Chronicle M}

/-- Where all are over and the job has ended, nothing can happen any more. -/
theorem exhausted_of_gone (ended : x.ending?.isSome)
    (gone : ∀ s ∈ x.stations, ∃ outcome, s.activity = .gone outcome) : x.Exhausted := by
  obtain ⟨ending, he⟩ := Option.isSome_iff_exists.mp ended
  intro t
  cases t with
  | note => simp [Execution.turn, noteReport, he]
  | step i | stop i =>
    refine Option.bind_eq_none_iff.mpr fun s hs => ?_
    obtain ⟨outcome, ha⟩ := gone s (List.mem_of_getElem? hs)
    simp [step, stop, ha, he]

theorem Reaches.refl (x : Execution F M S ε α) : x.Reaches x := ⟨[], .start⟩

theorem Reaches.tail (h : x.Reaches y) (t : Turn) (hz : y.turn t = some z) : x.Reaches z := by
  obtain ⟨chronicle, run⟩ := h
  exact ⟨_, run.turn t hz⟩

theorem Reaches.trans (h : x.Reaches y) (h' : y.Reaches z) : x.Reaches z := by
  obtain ⟨chronicle, run⟩ := h'
  induction run with
  | start => exact h
  | turn t _ hz ih => exact ih.tail t hz

/-- What a goal brings with it is inevitable too. -/
theorem Inevitable.imp {goal goal' : Execution F M S ε α → Prop} (h : x.Inevitable goal)
    (weaken : ∀ y, x.Reaches y → goal y → goal' y) : x.Inevitable goal' := by
  induction h with
  | reached found => exact .reached (weaken _ (.refl _) found)
  | turn enabled _ ih =>
    refine .turn enabled fun t y hy => ih t y hy fun z reaches found => ?_
    exact weaken z (((Reaches.refl _).tail t hy).trans reaches) found

/-- What is inevitable happens in some run. -/
theorem Inevitable.exists_reaches {goal : Execution F M S ε α → Prop} (h : x.Inevitable goal) :
    ∃ y, x.Reaches y ∧ goal y := by
  induction h with
  | reached found => exact ⟨_, .refl _, found⟩
  | turn enabled _ ih =>
    obtain ⟨t, y, hy⟩ := enabled
    obtain ⟨z, reaches, found⟩ := ih t y hy
    exact ⟨z, ((Reaches.refl _).tail t hy).trans reaches, found⟩

theorem Runs.cons {t : Turn} (hy : x.turn t = some y) (h : y.Runs chronicle z) :
    x.Runs ((x.noted t).toList ++ chronicle) z := by
  induction h with
  | start =>
    rw [List.append_nil]
    exact Runs.start.turn t hy
  | turn t' _ hz ih =>
    rw [← List.append_assoc]
    exact ih.turn t' hz

/-- Takes some turns, one after the other, and keeps the chronicle. -/
def play (x : Execution F M S ε α) : List Turn → Option (Chronicle M × Execution F M S ε α)
  | [] => some ([], x)
  | t :: turns =>
    (x.turn t).bind fun y =>
      (y.play turns).map fun played => ((x.noted t).toList ++ played.1, played.2)

/-- To play some turns is to run. -/
theorem runs_of_play {turns : List Turn} (h : x.play turns = some (chronicle, y)) :
    x.Runs chronicle y := by
  induction turns generalizing x chronicle with
  | nil =>
    obtain ⟨rfl, rfl⟩ := Prod.mk.inj (Option.some.inj h)
    exact .start
  | cons t turns ih =>
    obtain ⟨z, hz, h⟩ := Option.bind_eq_some_iff.mp h
    obtain ⟨⟨more, y'⟩, hplay, heq⟩ := Option.map_eq_some_iff.mp h
    obtain ⟨rfl, rfl⟩ := Prod.mk.inj heq
    exact (ih hplay).cons hz

/-! ### The kinds of turns -/

/-- **What a turn does**: a station moves, or the end of a peer is taken note of, or a peer is
stopped because the job has ended. -/
inductive Turns (x : Execution F M S ε α) : Option (Entry M) → Execution F M S ε α → Prop
  | move {index s s' effect deed journal} : x.stations[index]? = some s →
    s.Moves x s' effect deed →
    Turns x (deed.map s.entry) { x.after index s' effect with journal }
  | note {seat outcome reports journal} : x.ending? = none →
    x.reports = (seat, outcome) :: reports →
    Turns x none
      { x with
        reports, journal
        harvest := (x.harvest.take seat outcome).1
        ending? := (x.harvest.take seat outcome).2 }
  | stop {index s} : x.stations[index]? = some s → x.ending?.isSome →
    (∀ outcome, s.activity ≠ .gone outcome) → s.activity ≠ .stopped →
    Turns x none (x.put index { s with activity := .stopped })

/-- **Every turn is of one of these kinds.** -/
theorem turns_of_turn {t : Turn} (h : x.turn t = some y) : x.Turns (x.noted t) y := by
  cases t with
  | step index =>
    obtain ⟨s, hs, h⟩ := Option.bind_eq_some_iff.mp h
    obtain ⟨s', effect, journal, move, rfl⟩ := moves_of_step hs h
    have he : x.noted (.step index) = (x.deedOf s).map s.entry := by simp [noted, hs]
    rw [he]
    exact .move hs move
  | note =>
    change x.noteReport = some y at h
    unfold noteReport at h
    split at h
    · next seat outcome reports running hr =>
      obtain rfl := Option.some.inj h
      exact .note running hr
    · cases h
  | stop index =>
    obtain ⟨s, hs, h⟩ := Option.bind_eq_some_iff.mp h
    change x.stop index s = some y at h
    cases he : x.ending? with
    | none => simp [stop, he] at h
    | some ending =>
      have hgone : ∀ outcome, s.activity ≠ .gone outcome := by
        intro outcome ha
        simp [stop, he, ha] at h
      have hstopped : s.activity ≠ .stopped := by
        intro ha
        simp [stop, he, ha] at h
      obtain rfl : x.put index { s with activity := .stopped } = y := by
        unfold stop at h
        split at h <;> simp_all
      exact .stop hs (by simp [he]) hgone hstopped

/-- A fact that turns keep holds wherever a run leads. -/
theorem Reaches.keeps {P : Execution F M S ε α → Prop} (h : x.Reaches y) (start : P x)
    (step : ∀ {u entry v}, P u → u.Turns entry v → P v) : P y := by
  obtain ⟨chronicle, run⟩ := h
  induction run with
  | start => exact start
  | turn t _ hz ih => exact step ih (turns_of_turn hz)

/-! ### What turns keep -/

/-- Nobody changes seats. -/
theorem Turns.seats_eq {entry : Option (Entry M)} (h : x.Turns entry y) :
    y.stations.map (·.seat) = x.stations.map (·.seat) := by
  refine List.ext_getElem? fun i => ?_
  cases h with
  | move hs move =>
    rename_i index s s' effect deed journal
    change ((x.stationsAfter index s' effect).map (·.seat))[i]? = _
    rw [List.getElem?_map, getElem?_stationsAfter, List.getElem?_map, List.getElem?_set]
    split
    · next hi =>
      obtain ⟨hlt, hs⟩ := List.getElem?_eq_some_iff.mp hs
      simp [← hi, hs, hlt, move.seat_eq]
    · cases x.stations[i]? <;> rfl
  | note => rfl
  | stop hs =>
    rename_i index s _ _
    simp only [put, List.getElem?_map, List.getElem?_set]
    split
    · next hi =>
      obtain ⟨hlt, hs⟩ := List.getElem?_eq_some_iff.mp hs
      simp [← hi, hs, hlt]
    · rfl

theorem Reaches.seats_eq (h : x.Reaches y) : y.stations.map (·.seat) = x.stations.map (·.seat) :=
  h.keeps (P := fun y => y.stations.map (·.seat) = x.stations.map (·.seat)) rfl
    fun ih turn => turn.seats_eq.trans ih

theorem Reaches.names_eq (h : x.Reaches y) :
    y.stations.map (·.seat.name) = x.stations.map (·.seat.name) := by
  simpa [Function.comp_def] using congrArg (List.map (·.name)) h.seats_eq

/-- Where the station that moves is, after it has moved. -/
theorem getElem?_after_self {index : Nat} {s s' : Station F M S ε α} {effect : Effect F M ε α}
    (hs : x.stations[index]? = some s) :
    (x.after index s' effect).stations[index]? = some (s'.receiveAll (effect.mail index)) := by
  obtain ⟨hlt, -⟩ := List.getElem?_eq_some_iff.mp hs
  change (x.stationsAfter index s' effect)[index]? = _
  rw [getElem?_stationsAfter, List.getElem?_set_self hlt]
  rfl

/-- Where a station that does not move is, after another has moved. -/
theorem getElem?_after_of_ne {index i : Nat} {s' t : Station F M S ε α} {effect : Effect F M ε α}
    (ht : x.stations[i]? = some t) (hi : i ≠ index) :
    (x.after index s' effect).stations[i]? = some (t.receiveAll (effect.mail i)) := by
  change (x.stationsAfter index s' effect)[i]? = _
  rw [getElem?_stationsAfter, List.getElem?_set_ne hi.symm, ht]
  rfl

/-- Supersteps are never left for earlier ones. -/
theorem Turns.grows {entry : Option (Entry M)} (h : x.Turns entry y) {i : Nat}
    {t : Station F M S ε α} (ht : x.stations[i]? = some t) :
    ∃ u, y.stations[i]? = some u ∧ u.seat = t.seat ∧ t.superstep ≤ u.superstep := by
  cases h with
  | move hs move =>
    rename_i index s s' effect deed journal
    rcases eq_or_ne i index with rfl | hi
    · obtain rfl := Option.some.inj (hs.symm.trans ht)
      exact ⟨_, getElem?_after_self hs, move.seat_eq, move.superstep_le⟩
    · exact ⟨_, getElem?_after_of_ne ht hi, rfl, Nat.le_refl _⟩
  | note => exact ⟨t, ht, rfl, Nat.le_refl _⟩
  | stop hs running hgone hstopped =>
    rename_i index s
    rcases eq_or_ne i index with rfl | hi
    · obtain rfl := Option.some.inj (hs.symm.trans ht)
      obtain ⟨hlt, -⟩ := List.getElem?_eq_some_iff.mp hs
      exact ⟨_, List.getElem?_set_self hlt, rfl, Nat.le_refl _⟩
    · exact ⟨t, (List.getElem?_set_ne hi.symm).trans ht, rfl, Nat.le_refl _⟩

/-- An ending is final. -/
theorem Turns.ending_eq {entry : Option (Entry M)} {ending : Ending ε α} (h : x.Turns entry y)
    (he : x.ending? = some ending) : y.ending? = some ending := by
  cases h with
  | move => exact he
  | note running => rw [running] at he; cases he
  | stop => exact he

theorem Reaches.ending_eq {ending : Ending ε α} (h : x.Reaches y) (he : x.ending? = some ending) :
    y.ending? = some ending :=
  h.keeps (P := fun y => y.ending? = some ending) he fun ih turn => turn.ending_eq ih

/-! ### A job in which nothing has happened -/

section Job

variable {cluster : Cluster F} {body : Seat → Process F M S ε α}

/-- **Who is where at the beginning**: at every position the peer of that name, with its partition,
before its first round. -/
theorem exists_of_getElem?_ofCluster {i : Nat} {s : Station F M S ε α}
    (hs : (ofCluster cluster body).stations[i]? = some s) :
    ∃ name partition, cluster.names[i]? = some name ∧ cluster.partitions[i]? = some partition ∧
      s = Station.ready ⟨name, i, cluster.names⟩ partition (body ⟨name, i, cluster.names⟩) := by
  obtain ⟨seat, partition, hseat, hp, rfl⟩ := List.getElem?_zipWith_eq_some.mp hs
  rw [Cluster.seats, List.getElem?_mapIdx] at hseat
  obtain ⟨name, hn, rfl⟩ := Option.map_eq_some_iff.mp hseat
  exact ⟨name, partition, hn, hp, rfl⟩

/-- Nobody has begun. -/
theorem exists_ready_of_mem {s : Station F M S ε α} (hs : s ∈ (ofCluster cluster body).stations) :
    ∃ seat partition, s = Station.ready seat partition (body seat) := by
  obtain ⟨i, hs⟩ := List.mem_iff_getElem?.mp hs
  obtain ⟨name, partition, -, -, rfl⟩ := exists_of_getElem?_ofCluster hs
  exact ⟨_, partition, rfl⟩

variable (cluster body)

/-- The stations have the names of the peers. -/
theorem names_ofCluster :
    (ofCluster cluster body).stations.map (·.seat.name) = cluster.names := by
  refine List.ext_getElem ?_ fun i hi hi' => ?_
  · simp [ofCluster, Cluster.seats, cluster.length_partitions]
  · simp [ofCluster, Cluster.seats, Station.ready]

theorem length_ofCluster :
    (ofCluster cluster body).stations.length = cluster.names.length := by
  rw [← names_ofCluster cluster body, List.length_map]

end Job

end Execution

end Superstep
