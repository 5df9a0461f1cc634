import Superstep.Proofs.Cluster.Harvest

/-!
# What a job makes of its peers' ends

In every run of a job the ends of the peers are taken note of in the order in which they came, so
that what has been taken note of is in the harvest, and what has not is still reported
(`Superstep.Execution.Collected`). Therefore the job ends as is due
(`Superstep.Execution.Completes.ending_iff`), and if an ending is due, taking note of what is
reported is enough to come to it (`Superstep.Execution.Completes.exists_ending`).
`Superstep.Execution.collects` puts this together with what is known of harvests.
-/

namespace Superstep

variable {F M S ε α : Type}

namespace Cluster

variable {cluster : Cluster F}

/-- A seat tells its position and the name of the peer that is there. -/
theorem seated {i : Nat} {seat : Seat} (h : cluster.seats[i]? = some seat) :
    seat.index = i ∧ cluster.names[i]? = some seat.name := by
  rw [seats, List.getElem?_mapIdx] at h
  obtain ⟨name, hn, rfl⟩ := Option.map_eq_some_iff.mp h
  exact ⟨rfl, hn⟩

theorem seats_ne_nil (cluster : Cluster F) : cluster.seats ≠ [] := by
  simpa [seats] using cluster.names_ne_nil

theorem length_seats (cluster : Cluster F) : cluster.seats.length = cluster.names.length := by
  rw [seats, List.length_mapIdx]

end Cluster

namespace Execution

/-- The end of a peer that a turn reports. -/
def endOf (x : Execution F M S ε α) : Turn → Option (Seat × Outcome ε α)
  | .step index => x.stations[index]?.bind fun s =>
    match s.activity with
    | .leaving outcome => some (s.seat, outcome)
    | _ => none
  | .note | .stop _ => none

/-- **The runs of a job**, with the ends of its peers in the order in which they come. -/
inductive Completes (origin : Execution F M S ε α) :
    List (Seat × Outcome ε α) → Execution F M S ε α → Prop
  | start : Completes origin [] origin
  | turn {ends : List (Seat × Outcome ε α)} {y z : Execution F M S ε α} (t : Turn) :
    Completes origin ends y → y.turn t = some z → Completes origin (ends ++ (y.endOf t).toList) z

variable {x y z : Execution F M S ε α} {ends : List (Seat × Outcome ε α)}

theorem Completes.reaches (h : x.Completes ends y) : x.Reaches y := by
  induction h with
  | start => exact .refl x
  | turn t _ hz ih => exact ih.tail t hz

/-- Every run brings some ends of peers. -/
theorem Reaches.exists_completes (h : x.Reaches y) : ∃ ends, x.Completes ends y := by
  obtain ⟨chronicle, run⟩ := h
  induction run with
  | start => exact ⟨[], .start⟩
  | turn t _ hz ih =>
    obtain ⟨ends, completes⟩ := ih
    exact ⟨_, completes.turn t hz⟩

/-- **What has come of the ends of peers**: those that have been taken note of are in the harvest,
or have ended the job, and the others are reported. -/
structure Collected (origin : Harvest α) (ends : List (Seat × Outcome ε α))
    (x : Execution F M S ε α) : Prop where
  gone : ∀ e ∈ ends, ∃ t ∈ x.stations, t.seat = e.1 ∧ t.activity = .gone e.2
  nodup : (ends.map (·.1)).Nodup
  noted : ∃ noted, ends = noted ++ x.reports ∧ ∀ rest : List (Seat × Outcome ε α),
    origin.takeAll (noted ++ rest) = x.ending?.or (x.harvest.takeAll rest)

namespace Collected

variable {origin : Harvest α}

/-- Who is gone is gone after any turn. -/
theorem gone_turn (h : x.Collected origin ends) {noted : Option (Entry M)}
    (turn : x.Turns noted y) :
    ∀ e ∈ ends, ∃ t ∈ y.stations, t.seat = e.1 ∧ t.activity = .gone e.2 := by
  intro e he
  obtain ⟨t, ht, seated, hg⟩ := h.gone e he
  obtain ⟨i, ht⟩ := List.mem_iff_getElem?.mp ht
  obtain ⟨u, hu, same, hg⟩ := turn.gone ht hg
  exact ⟨u, List.mem_of_getElem? hu, same.trans seated, hg⟩

/-- A peer that moves is reported to have ended, or leaves the ends as they are. -/
theorem move (h : x.Collected origin ends) (distinct : (x.stations.map (·.seat)).Nodup)
    {index : Nat} {s s' : Station F M S ε α} {effect : Effect F M ε α} {deed : Option (Deed M)}
    {journal : Array (PeerName × Event F)} (hs : x.stations[index]? = some s)
    (move : s.Moves x s' effect deed) :
    Collected origin (ends ++ (x.endOf (.step index)).toList)
      { x.after index s' effect with journal } := by
  have turn : x.Turns _ { x.after index s' effect with journal } := .move hs move
  have gone := h.gone_turn turn
  obtain ⟨noted, rfl, taken⟩ := h.noted
  -- All steps but one report nothing, and leave what is reported as it was.
  have quiet (silent : x.endOf (.step index) = none)
      (reports : (x.after index s' effect).reports = x.reports) :
      Collected origin (noted ++ x.reports ++ (x.endOf (.step index)).toList)
        { x.after index s' effect with journal } := by
    rw [silent, Option.toList_none, List.append_nil]
    exact ⟨gone, h.nodup, noted, congrArg (noted ++ ·) reports.symm, taken⟩
  cases move with
  | report ha =>
    rename_i outcome
    have ended : x.endOf (.step index) = some (s.seat, outcome) := by simp [endOf, hs, ha]
    rw [ended, Option.toList_some]
    -- Who is about to leave is not gone, so this is its first end.
    have new : s.seat ∉ (noted ++ x.reports).map (·.1) := by
      intro before
      obtain ⟨e, he, same⟩ := List.mem_map.mp before
      obtain ⟨t, ht, seated, hg⟩ := h.gone e he
      obtain rfl : t = s := List.inj_on_of_nodup_map distinct ht (List.mem_of_getElem? hs)
        (seated.trans same)
      rw [ha] at hg
      cases hg
    refine ⟨?_, ?_, noted, List.append_assoc .., taken⟩
    · intro e he
      rcases List.mem_append.mp he with he | he
      · exact gone e he
      · rw [List.mem_singleton.mp he]
        have self : (x.after index { s with activity := .gone outcome }
            (.report outcome)).stations[index]? = some _ := getElem?_after_self hs
        exact ⟨_, List.mem_of_getElem? self, rfl, rfl⟩
    · rw [List.map_append, List.map_singleton]
      refine List.nodup_append.mpr ⟨h.nodup, List.nodup_singleton _, fun a ha b hb => ?_⟩
      rw [List.mem_singleton.mp hb]
      rintro rfl
      exact new ha
  | begin ha | finish ha | fail ha | crash ha | tell ha | read ha | breakOff ha | reopen ha
    | send ha | refuse ha | sync ha | drain ha | write ha | enter ha | collect ha | depart ha
    | wake ha => exact quiet (by simp [endOf, hs, ha]) rfl

/-- The first end that is reported is taken note of. -/
theorem note (h : x.Collected origin ends) (hy : x.noteReport = some y) :
    y.Collected origin ends := by
  obtain ⟨noted, rfl, taken⟩ := h.noted
  unfold noteReport at hy
  split at hy
  · next seat outcome reports running hr =>
    obtain rfl := Option.some.inj hy
    refine ⟨h.gone, h.nodup, noted ++ [(seat, outcome)], ?_, fun rest => ?_⟩
    · rw [List.append_assoc, hr]
      rfl
    · rw [List.append_assoc, List.singleton_append, taken, running, Option.none_or,
        Harvest.takeAll]
      change _ = (x.harvest.take seat outcome).2.or ((x.harvest.take seat outcome).1.takeAll rest)
      split
      · next ending found => rw [found, Option.some_or]
      · next harvest found => rw [found, Option.none_or]
  · cases hy

/-- **Every turn** brings at most one end, and takes note of the ends in their order. -/
theorem turn (h : x.Collected origin ends) (distinct : (x.stations.map (·.seat)).Nodup) {t : Turn}
    (hy : x.turn t = some y) : y.Collected origin (ends ++ (x.endOf t).toList) := by
  cases t with
  | step index =>
    obtain ⟨s, hs, stepped⟩ := Option.bind_eq_some_iff.mp hy
    obtain ⟨s', effect, journal, move, rfl⟩ := moves_of_step hs stepped
    exact h.move distinct hs move
  | note =>
    rw [endOf, Option.toList_none, List.append_nil]
    exact h.note hy
  | stop index =>
    have gone := h.gone_turn (turns_of_turn hy)
    obtain ⟨s, hs, stopped⟩ := Option.bind_eq_some_iff.mp hy
    rw [endOf, Option.toList_none, List.append_nil]
    change x.stop index s = some y at stopped
    unfold stop at stopped
    split at stopped
    · cases stopped
    · cases stopped
    · cases stopped
    · obtain rfl := Option.some.inj stopped
      exact ⟨gone, h.nodup, h.noted⟩

end Collected

section Job

variable {cluster : Cluster F} {body : Seat → Process F M S ε α}

theorem seats_ofCluster (cluster : Cluster F) (body : Seat → Process F M S ε α) :
    (ofCluster cluster body).stations.map (·.seat) = cluster.seats := by
  refine List.ext_getElem ?_ fun i hi hi' => ?_
  · rw [List.length_map, length_ofCluster, Cluster.length_seats]
  · simp [ofCluster, Station.ready]

theorem nodup_seats (cluster : Cluster F) : cluster.seats.Nodup := by
  have names : cluster.seats.map (·.name) = cluster.names := by
    refine List.ext_getElem ?_ fun i hi hi' => ?_
    · rw [List.length_map, Cluster.length_seats]
    · simp [Cluster.seats]
  exact List.Nodup.of_map _ (names ▸ cluster.nodup_names)

theorem Completes.collected (h : (ofCluster cluster body).Completes ends y) :
    y.Collected (.expecting cluster.seats.length) ends := by
  induction h with
  | start =>
    refine ⟨fun e he => absurd he List.not_mem_nil, List.nodup_nil, [], rfl, fun rest => ?_⟩
    rw [Cluster.length_seats, ← length_ofCluster cluster body]
    rfl
  | turn t before hy ih =>
    refine ih.turn ?_ hy
    rw [before.reaches.seats_eq, seats_ofCluster]
    exact nodup_seats cluster

theorem Completes.orderly (h : (ofCluster cluster body).Completes ends y) :
    Orderly cluster.seats ends := by
  refine ⟨h.collected.nodup, fun e he => ?_⟩
  obtain ⟨t, ht, seated, -⟩ := h.collected.gone e he
  rw [← seats_ofCluster cluster body, ← h.reaches.seats_eq, ← seated]
  exact List.mem_map_of_mem ht

/-- After the ends of a run an ending is due exactly if taking note of all of them comes to it. -/
theorem Completes.takeAll_iff (h : (ofCluster cluster body).Completes ends y)
    {ending : Ending ε α} :
    (Harvest.expecting cluster.seats.length).takeAll ends = some ending ↔
      ending.IsDue cluster.seats ends :=
  Harvest.takeAll_eq_some_iff (fun _ _ hi => (Cluster.seated hi).1) cluster.seats_ne_nil h.orderly

/-- **A job ends as its peers' ends call for** in the order in which they came, and if all have been
taken note of, then as soon as they call for it. -/
theorem Completes.ending_iff (h : (ofCluster cluster body).Completes ends y) {ending : Ending ε α} :
    (y.ending? = some ending → ending.IsDue cluster.seats ends) ∧
      (y.reports = [] → ending.IsDue cluster.seats ends → y.ending? = some ending) := by
  have due : _ = some ending ↔ ending.IsDue cluster.seats ends := h.takeAll_iff
  obtain ⟨noted, rfl, taken⟩ := h.collected.noted
  constructor
  · intro ended
    rw [← due, taken, ended, Option.some_or]
  · intro none_left owed
    have taken := taken []
    rw [← due, none_left, taken] at owed
    simpa [Harvest.takeAll] using owed

/-- **What is reported can be taken note of** as long as the job has not ended, and no peer is
asked for anything. -/
theorem exists_note {e : Seat × Outcome ε α} {rest : List (Seat × Outcome ε α)}
    (running : y.ending? = none) (hr : y.reports = e :: rest) :
    ∃ z, y.turn .note = some z ∧ z.reports = rest ∧ z.stations = y.stations := by
  change ∃ z, y.noteReport = some z ∧ _
  unfold noteReport
  rw [running, hr]
  exact ⟨_, rfl, rfl, rfl⟩

/-- **An ending that is due is come to** by taking note of what is reported. -/
theorem Completes.exists_ending (h : (ofCluster cluster body).Completes ends y)
    {ending : Ending ε α} (due : ending.IsDue cluster.seats ends) :
    ∃ z, (ofCluster cluster body).Completes ends z ∧ z.stations = y.stations ∧
      z.ending? = some ending := by
  induction hr : y.reports generalizing y with
  | nil => exact ⟨y, h, rfl, h.ending_iff.2 hr due⟩
  | cons e rest ih =>
    cases ended : y.ending? with
    | some other =>
      have same := (h.takeAll_iff.mpr (h.ending_iff.1 ended)).symm.trans (h.takeAll_iff.mpr due)
      exact ⟨y, h, rfl, ended.trans same⟩
    | none =>
      obtain ⟨z, noted, left, same⟩ := exists_note ended hr
      have completes := h.turn .note noted
      rw [endOf, Option.toList_none, List.append_nil] at completes
      exact same ▸ ih completes left

/-- **How a job collects what its peers end with.** -/
structure Collects (cluster : Cluster F) (body : Seat → Process F M S ε α) : Prop where
  /-- Whatever the peers end with and in whatever order, an ending is due and come to, also if
  values are collected in slots and names are looked up by tasks. -/
  ending : ∀ (outcome : Seat → Outcome ε α) (order : List Seat), order.Perm cluster.seats →
    ∃ ending : Ending ε α,
      ending.IsDue cluster.seats (order.map fun seat => (seat, outcome seat)) ∧
      (Harvest.expecting cluster.names.length).takeAll
          (order.map fun seat => (seat, outcome seat)) = some ending ∧
      ∀ (T : Type) [DecidableEq T] (task : Nat → T),
        (∀ i < cluster.names.length, ∀ j < cluster.names.length, task i = task j → i = j) →
        TaskEnd.collect cluster.names task (List.replicate cluster.names.length none)
          ((order.map fun seat => (seat, outcome seat)).map (TaskEnd.ofEnd task)) = ending
  /-- What comes after an end that is no value is not looked at. -/
  later : ∀ (harvest : Harvest α) (before after : List (Seat × Outcome ε α)) seat outcome ending,
    outcome.ending? seat = some ending →
      harvest.takeAll (before ++ (seat, outcome) :: after) =
        harvest.takeAll (before ++ [(seat, outcome)])
  /-- Every run brings some ends, each of a peer that is gone and none of them twice. -/
  brings : ∀ y, (ofCluster cluster body).Reaches y →
    ∃ ends, (ofCluster cluster body).Completes ends y
  ends : ∀ ends y, (ofCluster cluster body).Completes ends y → Orderly cluster.seats ends ∧
    ∀ e ∈ ends, ∃ t ∈ y.stations, t.seat = e.1 ∧ t.activity = .gone e.2
  /-- The job ends in no other way than is due, and as soon as it has taken note of enough ends. -/
  due : ∀ ends y, (ofCluster cluster body).Completes ends y →
    ∀ ending, (y.ending? = some ending → ending.IsDue cluster.seats ends) ∧
      (y.reports = [] → ending.IsDue cluster.seats ends → y.ending? = some ending)
  /-- As long as it has not ended, it can take note of the first end that is reported. -/
  heeds : ∀ y, (ofCluster cluster body).Reaches y → y.ending? = none →
    ∀ e rest, y.reports = e :: rest →
      ∃ z, y.turn .note = some z ∧ z.reports = rest ∧ z.stations = y.stations
  /-- An ending that is due is come to, and nothing else needs to happen at the peers before. -/
  settles : ∀ ends y, (ofCluster cluster body).Completes ends y →
    ∀ ending : Ending ε α, ending.IsDue cluster.seats ends →
      ∃ z, (ofCluster cluster body).Completes ends z ∧ z.stations = y.stations ∧
        z.ending? = some ending

/-- **A job collects what its peers end with**: the values of all in the order of the peers, or what
the first one ended with that did not end with a value. -/
theorem collects (cluster : Cluster F) (body : Seat → Process F M S ε α) :
    Collects cluster body where
  ending outcome order perm := by
    have numbered : ∀ (i : Nat) seat, cluster.seats[i]? = some seat → seat.index = i :=
      fun i seat hi => (Cluster.seated hi).1
    have seats : (order.map fun seat => (seat, outcome seat)).map (·.1) = order := by
      rw [List.map_map]
      exact List.map_id order
    have orderly : Orderly cluster.seats (order.map fun seat => (seat, outcome seat)) := by
      constructor
      · rw [seats]
        exact perm.nodup_iff.mpr (nodup_seats cluster)
      · intro e he
        rw [← perm.mem_iff, ← seats]
        exact List.mem_map_of_mem he
    obtain ⟨ending, due⟩ := Harvest.exists_isDue numbered orderly fun seat mem => by
      rw [seats]
      exact perm.mem_iff.mpr mem
    rw [← cluster.length_seats]
    refine ⟨ending, due, ?_, fun T _ task distinct => ?_⟩
    · exact (Harvest.takeAll_eq_some_iff numbered cluster.seats_ne_nil orderly).mpr due
    · rw [cluster.length_seats] at distinct
      exact TaskEnd.collect_eq (fun i seat hi => Cluster.seated hi) distinct orderly due
  later harvest before after seat outcome ending h := Harvest.takeAll_first h harvest before after
  brings y reaches := reaches.exists_completes
  ends ends y completes := ⟨completes.orderly, completes.collected.gone⟩
  due ends y completes ending := completes.ending_iff
  heeds y _ running e rest reported := exists_note running reported
  settles ends y completes ending due := completes.exists_ending due

end Job

/-- Three peers, whose names are in no order. -/
def trio : Cluster Nat where
  names := ["c", "a", "b"]
  partitions := [.empty 1, .empty 1, .empty 1]
  names_ne_nil := by decide
  length_partitions := rfl
  nodup_names := by decide

/-- The last of three peers ends first. If all end with values, these are in the order of the peers;
if the other two do not, it matters which of them ends first. -/
theorem collects_trio :
    let seat (i : Nat) : Seat := ⟨trio.names.getD i "", i, trio.names⟩
    let order := [seat 2, seat 0, seat 1]
    let mixed (seat : Seat) : Outcome String Nat :=
      if seat.index = 0 then .crashed else if seat.index = 1 then .failed "late" else .value 7
    order.Perm trio.seats ∧
      (Ending.values [0, 10, 20]).IsDue trio.seats
        (order.map fun seat => (seat, (.value (10 * seat.index) : Outcome String Nat))) ∧
      (Ending.crashed "c").IsDue trio.seats (order.map fun seat => (seat, mixed seat)) := by
  intro seat order mixed
  have perm : order.Perm trio.seats := by decide
  have collected := (collects (ε := String) (α := Nat) trio fun seat =>
    (⟨(), fun _ => .done (.ok (.finish seat.index))⟩ : Process Nat Unit Unit String Nat)).ending
  obtain ⟨ending, due, taken, -⟩ := collected (fun seat => .value (10 * seat.index)) order perm
  obtain ⟨ending', due', taken', -⟩ := collected mixed order perm
  obtain rfl : Ending.values [0, 10, 20] = ending := Option.some.inj taken
  obtain rfl : Ending.crashed "c" = ending' := Option.some.inj taken'
  exact ⟨perm, due, due'⟩

end Execution

end Superstep
