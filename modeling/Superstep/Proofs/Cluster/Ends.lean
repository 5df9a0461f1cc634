import Superstep.Proofs.Cluster.Runs

/-!
# What a job knows of its peers' ends

A peer that is over is reported, the job takes note of the report, and when it has taken note of
enough it has ended itself. `Superstep.Execution.Accounts` says that nothing is lost or made up on
this way: what is reported, what is in the harvest and what the job ended with are ends of peers,
and as long as the job has not ended, every peer that is gone is in the reports or in the harvest.

Two things follow from this. An ending tells the truth about the peers
(`Superstep.Execution.Accounts.ended`), and a job all of whose peers are gone has a report to take
note of, or has ended (`Superstep.Execution.Accounts.exists_report`).
-/

namespace Superstep

variable {F M S ε α : Type}

namespace Harvest

/-- All values are known if each one is. -/
theorem all?_eq_some {harvest : Harvest α} {values : List α} :
    harvest.all? = some values ↔ harvest.values = values.map some := by
  obtain ⟨list⟩ := harvest
  change list.mapM id = some values ↔ list = values.map some
  induction list generalizing values with
  | nil => cases values <;> simp
  | cons value? rest ih =>
    rw [List.mapM_cons]
    cases value? with
    | none => cases values <;> simp
    | some value =>
      cases values with
      | nil => simp [Option.bind_eq_some_iff]
      | cons first more =>
        have ih := @ih more
        simp only [id_eq, Option.pure_def, Option.bind_eq_bind, Option.bind_some,
          Option.bind_eq_some_iff, Option.some.injEq, List.cons.injEq, List.map_cons]
        constructor
        · rintro ⟨_, found, rfl, rfl⟩
          exact ⟨rfl, ih.mp found⟩
        · rintro ⟨rfl, same⟩
          exact ⟨more, ih.mpr same, rfl, rfl⟩

theorem exists_all?_of_forall_isSome {harvest : Harvest α}
    (all : ∀ value? ∈ harvest.values, value?.isSome) : ∃ values, harvest.all? = some values := by
  obtain ⟨list⟩ := harvest
  simp only [all?_eq_some]
  induction list with
  | nil => exact ⟨[], rfl⟩
  | cons value? rest ih =>
    obtain ⟨values, rfl⟩ := ih fun v hv => all v (List.mem_cons_of_mem _ hv)
    obtain ⟨value, rfl⟩ := Option.isSome_iff_exists.mp (all value? List.mem_cons_self)
    exact ⟨value :: values, rfl⟩

/-- Of nobody anything is known. -/
theorem all?_expecting {count : Nat} (h : 0 < count) :
    (expecting count : Harvest α).all? = none := by
  rw [Option.eq_none_iff_forall_ne_some]
  intro values hv
  have hv := all?_eq_some.mp hv
  have found : (List.replicate count (none : Option α))[0]? = (values.map some)[0]? :=
    congrArg (·[0]?) hv
  rw [List.getElem?_replicate_of_lt h, List.getElem?_map] at found
  cases hf : values[0]? <;> simp [hf] at found

end Harvest

namespace Execution

/-- What an ending says of the peers. -/
def Ended (x : Execution F M S ε α) : Ending ε α → Prop
  | .values values => x.stations.map (·.activity) = values.map fun value => .gone (.value value)
  | .failed error => ∃ t ∈ x.stations, t.activity = .gone (.failed error)
  | .crashed name => ∃ t ∈ x.stations, t.seat.name = name ∧ t.activity = .gone .crashed

/-- **The job's accounts of its peers' ends are in order.** -/
structure Accounts (x : Execution F M S ε α) : Prop where
  seated : ∀ (i : Nat) (t : Station F M S ε α), x.stations[i]? = some t → t.seat.index = i
  length : x.harvest.values.length = x.stations.length
  /-- Only ends are reported. -/
  reported : ∀ seat outcome, (seat, outcome) ∈ x.reports →
    ∃ t ∈ x.stations, t.seat = seat ∧ t.activity = Activity.gone outcome
  /-- Only values that peers ended with are in the harvest. -/
  harvested : ∀ (i : Nat) value, x.harvest.values[i]? = some (some value) →
    ∃ t : Station F M S ε α, x.stations[i]? = some t ∧ t.activity = .gone (.value value)
  /-- Nobody who is gone is forgotten. -/
  pending : x.ending? = none → ∀ (i : Nat) (t : Station F M S ε α) outcome,
    x.stations[i]? = some t → t.activity = .gone outcome → (t.seat, outcome) ∈ x.reports ∨
      ∃ value, outcome = .value value ∧ x.harvest.values[i]? = some (some value)
  unended : x.ending? = none → x.harvest.all? = none
  /-- Nobody is stopped before the job has ended. -/
  unstopped : x.ending? = none → ∀ t ∈ x.stations, t.activity ≠ .stopped
  /-- **An ending tells the truth.** -/
  ended : ∀ ending, x.ending? = some ending → x.Ended ending

variable {x y : Execution F M S ε α}

section Values

variable {values : List α} (h : x.Ended (.values values))

include h

theorem Ended.length_eq : x.stations.length = values.length := by
  have same := congrArg List.length (show x.stations.map (·.activity) = _ from h)
  rwa [List.length_map, List.length_map] at same

/-- In a job that ended well every peer has ended with its value. -/
theorem Ended.exists_value {i : Nat} {t : Station F M S ε α} (ht : x.stations[i]? = some t) :
    ∃ value, values[i]? = some value ∧ t.activity = .gone (.value value) := by
  have same := congrArg (·[i]?) (show x.stations.map (·.activity) = _ from h)
  simp only [List.getElem?_map, ht, Option.map_some] at same
  obtain ⟨value, hv, hg⟩ := Option.map_eq_some_iff.mp same.symm
  exact ⟨value, hv, hg.symm⟩

theorem Ended.exists_gone {t : Station F M S ε α} (ht : t ∈ x.stations) :
    ∃ value, t.activity = .gone (.value value) := by
  obtain ⟨i, found⟩ := List.mem_iff_getElem?.mp ht
  obtain ⟨value, -, hg⟩ := h.exists_value found
  exact ⟨value, hg⟩

end Values

/-! ### Who is gone stays gone -/

/-- Stations that are gone are what they were, and so are seats. -/
theorem Turns.gone {noted : Option (Entry M)} (h : x.Turns noted y) {i : Nat}
    {t : Station F M S ε α} {outcome : Outcome ε α} (ht : x.stations[i]? = some t)
    (hg : t.activity = .gone outcome) :
    ∃ u, y.stations[i]? = some u ∧ u.seat = t.seat ∧ u.activity = .gone outcome := by
  cases h with
  | move hs move =>
    rename_i index s s' effect deed journal
    rcases eq_or_ne i index with rfl | hi
    · obtain rfl := Option.some.inj (hs.symm.trans ht)
      cases move <;> simp_all
    · exact ⟨_, getElem?_after_of_ne ht hi, rfl, hg⟩
  | note => exact ⟨t, ht, rfl, hg⟩
  | stop hs running hgone hstopped =>
    rename_i index s
    rcases eq_or_ne i index with rfl | hi
    · obtain rfl := Option.some.inj (hs.symm.trans ht)
      exact absurd hg (hgone outcome)
    · exact ⟨t, (List.getElem?_set_ne hi.symm).trans ht, rfl, hg⟩

/-- What an ending says stays true. -/
theorem Turns.ended {noted : Option (Entry M)} (h : x.Turns noted y) {ending : Ending ε α}
    (he : x.Ended ending) : y.Ended ending := by
  cases ending with
  | values values =>
    refine List.ext_getElem? fun i => ?_
    have hi := congrArg (·[i]?) he
    simp only [List.getElem?_map] at hi ⊢
    cases hv : values[i]? with
    | none =>
      have hlen : y.stations.length = x.stations.length := by
        simpa using congrArg List.length h.seats_eq
      rw [hv, Option.map_none, Option.map_eq_none_iff, List.getElem?_eq_none_iff] at hi
      rw [Option.map_none, Option.map_eq_none_iff, List.getElem?_eq_none_iff, hlen]
      exact hi
    | some value =>
      rw [hv, Option.map_some, Option.map_eq_some_iff] at hi
      obtain ⟨t, ht, hg⟩ := hi
      obtain ⟨u, hu, -, hg'⟩ := h.gone ht hg
      simp [hu, hg']
  | failed error =>
    obtain ⟨t, ht, hg⟩ := he
    obtain ⟨i, ht⟩ := List.mem_iff_getElem?.mp ht
    obtain ⟨u, hu, -, hg'⟩ := h.gone ht hg
    exact ⟨u, List.mem_of_getElem? hu, hg'⟩
  | crashed name =>
    obtain ⟨t, ht, named, hg⟩ := he
    obtain ⟨i, ht⟩ := List.mem_iff_getElem?.mp ht
    obtain ⟨u, hu, seat, hg'⟩ := h.gone ht hg
    exact ⟨u, List.mem_of_getElem? hu, seat ▸ named, hg'⟩

/-! ### The accounts stay in order -/

namespace Accounts

section Turns

variable {noted : Option (Entry M)} (h : x.Accounts) (turn : x.Turns noted y)

include h turn

/-- Seats stay numbered. -/
theorem seated_turn {i : Nat} {t : Station F M S ε α} (ht : y.stations[i]? = some t) :
    t.seat.index = i := by
  have seats : (x.stations.map (·.seat))[i]? = some t.seat := by
    rw [← turn.seats_eq, List.getElem?_map, ht, Option.map_some]
  rw [List.getElem?_map] at seats
  obtain ⟨u, hu, same⟩ := Option.map_eq_some_iff.mp seats
  rw [← same]
  exact h.seated i u hu

/-- What has been reported stays true. -/
theorem reported_turn {seat : Seat} {outcome : Outcome ε α} (hr : (seat, outcome) ∈ x.reports) :
    ∃ t ∈ y.stations, t.seat = seat ∧ t.activity = .gone outcome := by
  obtain ⟨t, ht, seated, hg⟩ := h.reported seat outcome hr
  obtain ⟨i, ht⟩ := List.mem_iff_getElem?.mp ht
  obtain ⟨u, hu, same, hg'⟩ := turn.gone ht hg
  exact ⟨u, List.mem_of_getElem? hu, same.trans seated, hg'⟩

/-- What has been harvested stays true. -/
theorem harvested_turn {i : Nat} {value : α}
    (hv : x.harvest.values[i]? = some (some value)) :
    ∃ t : Station F M S ε α, y.stations[i]? = some t ∧ t.activity = .gone (.value value) := by
  obtain ⟨t, ht, hg⟩ := h.harvested i value hv
  obtain ⟨u, hu, -, hg'⟩ := turn.gone ht hg
  exact ⟨u, hu, hg'⟩

end Turns

/-- A move that reports nothing and leaves nobody gone is no business of the accounts. -/
theorem move {index : Nat} {s s' : Station F M S ε α} {effect : Effect F M ε α}
    {deed : Option (Deed M)} (h : x.Accounts) (hs : x.stations[index]? = some s)
    (move : s.Moves x s' effect deed) : (x.after index s' effect).Accounts := by
  have turn : x.Turns (deed.map s.entry) (x.after index s' effect) := .move hs move
  have reports : ∀ seat outcome, (seat, outcome) ∈ (x.after index s' effect).reports ↔
      (seat, outcome) ∈ x.reports ∨ effect = .report outcome ∧ seat = s.seat := by
    intro seat outcome
    rw [← move.seat_eq]
    cases effect <;> simp [after, eq_comm, and_comm]
  have self : (x.after index s' effect).stations[index]? =
      some (s'.receiveAll (effect.mail index)) := getElem?_after_self hs
  have gone : ∀ outcome, s'.activity = .gone outcome ↔ effect = .report outcome := by
    intro outcome
    cases move with
    | report ha => simp
    | begin | finish | fail | crash | tell | read | breakOff | reopen | send | refuse | sync
      | drain | write | enter | collect | depart | wake => simp_all [Station.resume, Station.leave]
  refine ⟨fun i t ht => h.seated_turn turn ht, ?_, fun seat outcome hr => ?_,
    fun i value hv => h.harvested_turn turn hv, ?_, h.unended, ?_,
    fun ending he => turn.ended (h.ended ending he)⟩
  · rw [length_after]
    exact h.length
  · rcases (reports seat outcome).mp hr with hr | ⟨heff, rfl⟩
    · exact h.reported_turn turn hr
    · exact ⟨_, List.mem_of_getElem? self, move.seat_eq, (gone outcome).mpr heff⟩
  · intro running i t outcome ht hg
    rcases of_getElem?_after ht with ⟨rfl, rfl⟩ | ⟨hi, u, hu, rfl⟩
    · exact .inl ((reports _ _).mpr (.inr ⟨(gone outcome).mp hg, move.seat_eq⟩))
    · rcases h.pending running i u outcome hu hg with hr | hv
      · exact .inl ((reports _ _).mpr (.inl hr))
      · exact .inr hv
  · intro running t ht hstopped
    obtain ⟨i, ht⟩ := List.mem_iff_getElem?.mp ht
    rcases of_getElem?_after ht with ⟨rfl, rfl⟩ | ⟨hi, u, hu, rfl⟩
    · cases move <;> simp_all [Station.resume, Station.leave]
    · exact h.unstopped running u (List.mem_of_getElem? hu) hstopped

/-- Taking note of a value keeps the accounts in order. -/
theorem noteValue {seat : Seat} {value : α} {reports : List (Seat × Outcome ε α)}
    (h : x.Accounts) (running : x.ending? = none)
    (hr : x.reports = (seat, .value value) :: reports) {harvest : Harvest α}
    (hh : harvest = x.harvest.put seat.index value) :
    (∀ (i : Nat) w, harvest.values[i]? = some (some w) →
      ∃ t : Station F M S ε α, x.stations[i]? = some t ∧ t.activity = .gone (.value w)) ∧
    (∀ (i : Nat) (t : Station F M S ε α) outcome, x.stations[i]? = some t →
      t.activity = .gone outcome → (t.seat, outcome) ∈ reports ∨
        ∃ w, outcome = .value w ∧ harvest.values[i]? = some (some w)) := by
  obtain ⟨t, ht, rfl, hg⟩ := h.reported seat (.value value) (hr ▸ List.mem_cons_self)
  obtain ⟨i, ht⟩ := List.mem_iff_getElem?.mp ht
  have hi := h.seated i t ht
  obtain ⟨hlt, -⟩ := List.getElem?_eq_some_iff.mp ht
  rw [← h.length] at hlt
  have get (j : Nat) : harvest.values[j]? =
      if j = i then some (some value) else x.harvest.values[j]? := by
    rw [hh, Harvest.put, hi, List.getElem?_set]
    split
    · next hij => simp [← hij]
    · next hij => simp [Ne.symm hij]
  refine ⟨fun j w hw => ?_, fun j u outcome hu hg' => ?_⟩
  · rw [get] at hw
    split at hw
    · next hj =>
      obtain rfl : value = w := by simpa using hw
      exact ⟨t, hj ▸ ht, hg⟩
    · exact h.harvested j w hw
  · rw [get]
    split
    · next hj =>
      obtain rfl : t = u := Option.some.inj (ht.symm.trans (hj ▸ hu))
      obtain rfl : Outcome.value value = outcome := by simpa using hg.symm.trans hg'
      exact .inr ⟨value, rfl, rfl⟩
    · next hj =>
      rcases h.pending running j u outcome hu hg' with hm | hv
      · rw [hr] at hm
        rcases List.mem_cons.mp hm with heq | hm
        · refine absurd ?_ hj
          rw [← h.seated j u hu, (Prod.mk.inj heq).1, hi]
        · exact .inl hm
      · exact .inr hv

/-- If the values of all peers are in a harvest, all peers have ended with them. -/
theorem ended_of_harvested {harvest : Harvest α} {values : List α}
    (length : harvest.values.length = x.stations.length)
    (harvested : ∀ (i : Nat) value, harvest.values[i]? = some (some value) →
      ∃ t : Station F M S ε α, x.stations[i]? = some t ∧ t.activity = .gone (.value value))
    (all : harvest.all? = some values) : x.Ended (.values values) := by
  have hv := Harvest.all?_eq_some.mp all
  rw [hv, List.length_map] at length
  refine List.ext_getElem? fun i => ?_
  rw [List.getElem?_map, List.getElem?_map]
  cases found : values[i]? with
  | none =>
    rw [List.getElem?_eq_none_iff, length] at found
    rw [List.getElem?_eq_none found, Option.map_none, Option.map_none]
  | some value =>
    obtain ⟨t, ht, hg⟩ := harvested i value (by rw [hv, List.getElem?_map, found, Option.map_some])
    rw [ht, Option.map_some, hg, Option.map_some]

/-- **Turns keep the accounts in order.** -/
theorem turn {noted : Option (Entry M)} (h : x.Accounts) (turn : x.Turns noted y) :
    y.Accounts := by
  cases turn with
  | move hs move =>
    obtain ⟨h1, h2, h3, h4, h5, h6, h7, h8⟩ := h.move hs move
    exact ⟨h1, h2, h3, h4, h5, h6, h7, h8⟩
  | note running hr =>
    rename_i seat outcome reports journal
    have reported : ∀ seat outcome, (seat, outcome) ∈ reports →
        ∃ t ∈ x.stations, t.seat = seat ∧ t.activity = .gone outcome := fun seat outcome hm =>
      h.reported seat outcome (hr ▸ List.mem_cons_of_mem _ hm)
    obtain ⟨t, ht, rfl, hg⟩ := h.reported seat outcome (hr ▸ List.mem_cons_self)
    cases outcome with
    | failed error =>
      refine ⟨h.seated, h.length, reported, h.harvested, ?_, ?_, ?_, ?_⟩
      · rintro ⟨⟩
      · rintro ⟨⟩
      · rintro ⟨⟩
      · rintro _ ⟨⟩
        exact ⟨t, ht, hg⟩
    | crashed =>
      refine ⟨h.seated, h.length, reported, h.harvested, ?_, ?_, ?_, ?_⟩
      · rintro ⟨⟩
      · rintro ⟨⟩
      · rintro ⟨⟩
      · rintro _ ⟨⟩
        exact ⟨t, ht, rfl, hg⟩
    | value value =>
      obtain ⟨harvested, pending⟩ := h.noteValue running hr rfl
      refine ⟨h.seated, ?_, reported, harvested, fun _ => pending, fun he => ?_,
        fun _ => h.unstopped running, ?_⟩
      · exact (List.length_set ..).trans h.length
      · exact Option.map_eq_none_iff.mp he
      · intro ending he
        obtain ⟨values, hv, rfl⟩ := Option.map_eq_some_iff.mp he
        exact ended_of_harvested ((List.length_set ..).trans h.length) harvested hv
  | stop hs running hgone hstopped =>
    have turn := Turns.stop hs running hgone hstopped
    have ended : x.ending? ≠ none := Option.isSome_iff_ne_none.mp running
    exact ⟨fun i t ht => h.seated_turn turn ht, h.length.trans (List.length_set ..).symm,
      fun seat outcome hr => h.reported_turn turn hr,
      fun i value hv => h.harvested_turn turn hv,
      fun he => absurd he ended, fun he => absurd he ended, fun he => absurd he ended,
      fun ending he => turn.ended (h.ended ending he)⟩

/-- While a job has not ended, somebody is not gone, or somebody's end is reported. -/
theorem exists_report (h : x.Accounts) (running : x.ending? = none)
    (gone : ∀ t ∈ x.stations, ∃ outcome, t.activity = .gone outcome) : x.reports ≠ [] := by
  intro silent
  have all : ∀ value? ∈ x.harvest.values, value?.isSome := by
    intro value? hv
    obtain ⟨i, hv⟩ := List.mem_iff_getElem?.mp hv
    obtain ⟨hlt, -⟩ := List.getElem?_eq_some_iff.mp hv
    rw [h.length] at hlt
    obtain ⟨outcome, hg⟩ := gone _ (List.getElem_mem hlt)
    rcases h.pending running i _ outcome (List.getElem?_eq_getElem hlt) hg with hr | ⟨w, -, hw⟩
    · rw [silent] at hr
      cases hr
    · obtain rfl := Option.some.inj (hv.symm.trans hw)
      rfl
  obtain ⟨values, hv⟩ := Harvest.exists_all?_of_forall_isSome all
  rw [h.unended running] at hv
  cases hv

end Accounts

section Job

variable {cluster : Cluster F} {body : Seat → Process F M S ε α}

theorem accounts_ofCluster : (ofCluster cluster body).Accounts := by
  have length := length_ofCluster cluster body
  refine ⟨fun i t ht => ?_, List.length_replicate, ?_, fun i value hv => ?_, ?_, fun _ => ?_,
    fun _ t ht hstopped => ?_, ?_⟩
  · obtain ⟨name, partition, -, -, rfl⟩ := exists_of_getElem?_ofCluster ht
    rfl
  · intro seat outcome hr
    exact absurd hr List.not_mem_nil
  · simp [ofCluster, Harvest.expecting, List.getElem?_replicate] at hv
  · intro _ i t outcome ht hg
    obtain ⟨name, partition, -, -, rfl⟩ := exists_of_getElem?_ofCluster ht
    cases hg
  · refine Harvest.all?_expecting ?_
    change 0 < (ofCluster cluster body).stations.length
    rw [length]
    exact List.length_pos_iff.mpr cluster.names_ne_nil
  · obtain ⟨seat, partition, rfl⟩ := exists_ready_of_mem ht
    cases hstopped
  · rintro _ ⟨⟩

/-- The accounts of every job are in order. -/
theorem Reaches.accounts (h : (ofCluster cluster body).Reaches y) : y.Accounts :=
  h.keeps accounts_ofCluster fun accounts turn => accounts.turn turn

end Job

end Execution

end Superstep
