import Mathlib.Data.List.Nodup
import Superstep.Cluster.Harvest
import Superstep.Proofs.Cluster.Ends

/-!
# The ending that is due

Peers end in any order, with values, with errors, or by breaking off. How their job ends by that is
`Superstep.Ending.IsDue`: with all values in the order of the peers, whatever the order in which
they came, or as the first peer did that did not end with a value. What comes after that peer does
not matter. A harvest comes to the ending that is due, and to none before there is one
(`Superstep.Harvest.takeAll_eq_some_iff`).

## Slots and tasks

There is a plainer way to collect values: into slots, one for each peer, which are looked at when
nobody is left, the empty ones being passed over; and of a peer that has broken off nothing is known
but the task it was, so that its name has to be looked up (`Superstep.TaskEnd.collect`). This is
right only if no slot stays empty and every task is found, which is shown here: it comes to the
same ending (`Superstep.TaskEnd.collect_eq`).
-/

namespace Superstep

variable {F M S ε α : Type}

/-! ### The ending that is due -/

/-- These peers have all ended with values. -/
def AllValues (ends : List (Seat × Outcome ε α)) : Prop := ∀ e ∈ ends, ∃ value, e.2 = .value value

/-- How a job ends by the end of a peer, if that is no value. -/
def Outcome.ending? (seat : Seat) : Outcome ε α → Option (Ending ε α)
  | .value _ => none
  | .failed error => some (.failed error)
  | .crashed => some (.crashed seat.name)

/-- **The ending that the ends of peers call for**, in the order in which they came. -/
inductive Ending.IsDue (seats : List Seat) (ends : List (Seat × Outcome ε α)) :
    Ending ε α → Prop
  /-- All have ended with values, and these are the values, each at the position of its peer. -/
  | values {values : List α} : AllValues ends → values.length = seats.length →
    (∀ (i : Nat) seat, seats[i]? = some seat →
      ∃ value, values[i]? = some value ∧ (seat, .value value) ∈ ends) →
    IsDue seats ends (.values values)
  /-- Of those that have not ended with values the first one has failed. -/
  | failed {before after seat error} : ends = before ++ (seat, .failed error) :: after →
    AllValues before → IsDue seats ends (.failed error)
  /-- Of those that have not ended with values the first one has broken off. -/
  | crashed {before after seat} : ends = before ++ (seat, .crashed) :: after →
    AllValues before → IsDue seats ends (.crashed seat.name)

/-- All are values, or there is a first end that is none. -/
theorem AllValues.or_first (ends : List (Seat × Outcome ε α)) :
    AllValues ends ∨ ∃ before seat outcome ending after, ends = before ++ (seat, outcome) :: after ∧
      AllValues before ∧ outcome.ending? seat = some ending := by
  induction ends with
  | nil => exact .inl fun e he => absurd he List.not_mem_nil
  | cons e rest ih =>
    obtain ⟨seat, outcome⟩ := e
    have here {ending : Ending ε α} (h : outcome.ending? seat = some ending) :
        ∃ before seat' outcome' ending after,
          (seat, outcome) :: rest = before ++ (seat', outcome') :: after ∧
            AllValues before ∧ outcome'.ending? seat' = some ending :=
      ⟨[], seat, outcome, ending, rest, rfl, fun e he => absurd he List.not_mem_nil, h⟩
    cases outcome with
    | failed error => exact .inr (here rfl)
    | crashed => exact .inr (here rfl)
    | value value =>
      rcases ih with values | ⟨before, seat', outcome', ending, after, rfl, values, h⟩
      · exact .inl (List.forall_mem_cons.mpr ⟨⟨value, rfl⟩, values⟩)
      · exact .inr ⟨(seat, .value value) :: before, seat', outcome', ending, after, rfl,
          List.forall_mem_cons.mpr ⟨⟨value, rfl⟩, values⟩, h⟩

theorem Ending.IsDue.of_first {seats : List Seat} {before after : List (Seat × Outcome ε α)}
    {seat : Seat} {outcome : Outcome ε α} {ending : Ending ε α} (values : AllValues before)
    (h : outcome.ending? seat = some ending) :
    IsDue seats (before ++ (seat, outcome) :: after) ending := by
  cases outcome with
  | value value => cases h
  | failed error =>
    obtain rfl := Option.some.inj h
    exact .failed rfl values
  | crashed =>
    obtain rfl := Option.some.inj h
    exact .crashed rfl values

/-- **The ending that is due** is that of the first that did not end with a value, if there is one,
and else that of the values. -/
theorem Ending.IsDue.cases_first {seats : List Seat} {ends : List (Seat × Outcome ε α)}
    {ending : Ending ε α} (h : IsDue seats ends ending) :
    (∃ before seat outcome after, ends = before ++ (seat, outcome) :: after ∧
        AllValues before ∧ outcome.ending? seat = some ending) ∨
      ∃ values, ending = .values values ∧ AllValues ends ∧ values.length = seats.length ∧
        ∀ (i : Nat) seat, seats[i]? = some seat →
          ∃ value, values[i]? = some value ∧ (seat, .value value) ∈ ends := by
  cases h with
  | values all length known => exact .inr ⟨_, rfl, all, length, known⟩
  | failed split values => exact .inl ⟨_, _, _, _, split, values, rfl⟩
  | crashed split values => exact .inl ⟨_, _, _, _, split, values, rfl⟩

/-- Where values are due everybody has ended. -/
theorem Ending.IsDue.ended {seats : List Seat} {ends : List (Seat × Outcome ε α)}
    {values : List α} (h : (Ending.values (ε := ε) values).IsDue seats ends) :
    ∀ seat ∈ seats, seat ∈ ends.map (·.1) := by
  obtain ⟨-, -, known⟩ := h
  intro seat mem
  obtain ⟨i, hi⟩ := List.mem_iff_getElem?.mp mem
  obtain ⟨value, -, he⟩ := known i seat hi
  exact List.mem_map_of_mem he

/-- The ends of some peers, none of which has ended twice. -/
structure Orderly (seats : List Seat) (ends : List (Seat × Outcome ε α)) : Prop where
  nodup : (ends.map (·.1)).Nodup
  mem : ∀ e ∈ ends, e.1 ∈ seats

namespace Orderly

variable {seats : List Seat} {ends more : List (Seat × Outcome ε α)}

theorem of_append (h : Orderly seats (ends ++ more)) : Orderly seats ends :=
  ⟨(List.nodup_append.mp (List.map_append ▸ h.nodup)).1,
    fun e he => h.mem e (List.mem_append_left _ he)⟩

/-- Nobody ends in two ways. -/
theorem eq_of_mem (h : Orderly seats ends) {seat : Seat} {outcome outcome' : Outcome ε α}
    (he : (seat, outcome) ∈ ends) (he' : (seat, outcome') ∈ ends) : outcome = outcome' :=
  congrArg Prod.snd (List.inj_on_of_nodup_map h.nodup he he' rfl)

/-- Who ends later has not ended before. -/
theorem not_mem {seat : Seat} {outcome : Outcome ε α}
    (h : Orderly seats (ends ++ (seat, outcome) :: more)) : seat ∉ ends.map (·.1) := by
  have nodup := h.nodup
  rw [List.map_append, List.nodup_append] at nodup
  intro before
  exact nodup.2.2 seat before seat List.mem_cons_self rfl

end Orderly

/-! ### Harvests -/

namespace Harvest

/-- The harvest after the values among some ends. -/
def putAll (harvest : Harvest α) : List (Seat × Outcome ε α) → Harvest α
  | [] => harvest
  | (seat, .value value) :: rest => (harvest.put seat.index value).putAll rest
  | (_, .failed _) :: rest | (_, .crashed) :: rest => harvest.putAll rest

/-- **What a harvest knows of some ends**: of each seat the value that came from there. -/
structure Holds (harvest : Harvest α) (seats : List Seat) (ends : List (Seat × Outcome ε α)) :
    Prop where
  length : harvest.values.length = seats.length
  known : ∀ (i : Nat) seat value, seats[i]? = some seat →
    (harvest.values[i]? = some (some value) ↔ (seat, .value value) ∈ ends)

variable {seats : List Seat} {ends before after : List (Seat × Outcome ε α)} {seat : Seat}
  {harvest : Harvest α} {outcome : Outcome ε α} {ending : Ending ε α}

theorem putAll_concat (values : AllValues before) (value : α) :
    harvest.putAll (before ++ [(seat, .value value)]) =
      (harvest.putAll before).put seat.index value := by
  induction before generalizing harvest with
  | nil => rfl
  | cons e before ih =>
    obtain ⟨⟨value, hv⟩, others⟩ := List.forall_mem_cons.mp values
    obtain ⟨other, outcome⟩ := e
    obtain rfl : outcome = .value value := hv
    exact ih others

theorem holds_expecting (seats : List Seat) :
    (expecting seats.length : Harvest α).Holds seats ([] : List (Seat × Outcome ε α)) := by
  refine ⟨List.length_replicate, fun i seat value _ => ?_⟩
  simp [expecting, List.getElem?_replicate]

/-- As long as somebody has not ended, not all values are known. -/
theorem Holds.all?_eq_none (h : harvest.Holds seats ends) (mem : seat ∈ seats)
    (missing : seat ∉ ends.map (·.1)) : harvest.all? = none := by
  rw [Option.eq_none_iff_forall_ne_some]
  intro values all
  have known := all?_eq_some.mp all
  obtain ⟨i, hi⟩ := List.mem_iff_getElem?.mp mem
  have within : i < values.length := by
    rw [← List.length_map (f := some), ← known, h.length]
    exact (List.getElem?_eq_some_iff.mp hi).1
  have found : harvest.values[i]? = some (some values[i]) := by simp [known, within]
  exact missing (List.mem_map_of_mem ((h.known i seat _ hi).mp found))

/-- When all have ended with values, all values are known. -/
theorem Holds.exists_all? (h : harvest.Holds seats ends) (values : AllValues ends)
    (all : ∀ seat ∈ seats, seat ∈ ends.map (·.1)) :
    ∃ values, harvest.all? = some values ∧ values.length = seats.length ∧
      ∀ (i : Nat) seat, seats[i]? = some seat →
        ∃ value, values[i]? = some value ∧ (seat, .value value) ∈ ends := by
  have slot {i : Nat} {seat : Seat} (hi : seats[i]? = some seat) :
      ∃ value, harvest.values[i]? = some (some value) ∧ (seat, .value value) ∈ ends := by
    obtain ⟨e, he, rfl⟩ := List.mem_map.mp (all seat (List.mem_of_getElem? hi))
    obtain ⟨value, hv⟩ := values e he
    have ended : (e.1, .value value) ∈ ends := hv ▸ he
    exact ⟨value, (h.known i e.1 value hi).mpr ended, ended⟩
  have complete : ∀ value? ∈ harvest.values, value?.isSome := fun value? hv => by
    obtain ⟨i, hv⟩ := List.mem_iff_getElem?.mp hv
    have within : i < seats.length := h.length ▸ (List.getElem?_eq_some_iff.mp hv).1
    obtain ⟨value, hi, -⟩ := slot (List.getElem?_eq_getElem within)
    obtain rfl := Option.some.inj (hv.symm.trans hi)
    rfl
  obtain ⟨values, found⟩ := exists_all?_of_forall_isSome complete
  have known := all?_eq_some.mp found
  refine ⟨values, found, ?_, fun i seat hi => ?_⟩
  · rw [← h.length, known, List.length_map]
  · obtain ⟨value, hv, ended⟩ := slot hi
    rw [known, List.getElem?_map] at hv
    obtain ⟨_, hv, same⟩ := Option.map_eq_some_iff.mp hv
    exact ⟨value, Option.some.inj same ▸ hv, ended⟩

section Numbered

variable (numbered : ∀ (i : Nat) seat, seats[i]? = some seat → seat.index = i)

include numbered

/-- A value that comes is known from then on. -/
theorem Holds.put (h : harvest.Holds seats ends) {value : α}
    (orderly : Orderly seats (ends ++ [(seat, .value value)])) :
    (harvest.put seat.index value).Holds seats (ends ++ [(seat, .value value)]) := by
  have new := orderly.not_mem
  refine ⟨(List.length_set ..).trans h.length, fun i other value' hi => ?_⟩
  rw [Harvest.put, List.getElem?_set]
  split
  · next here =>
    have mem : seat ∈ seats := orderly.mem (seat, .value value) (by simp)
    obtain ⟨j, hj⟩ := List.mem_iff_getElem?.mp mem
    obtain rfl : other = seat := by
      rw [← numbered j _ hj] at hj
      exact Option.some.inj (hi.symm.trans (here ▸ hj))
    have within : other.index < harvest.values.length := by
      rw [h.length, here]
      exact (List.getElem?_eq_some_iff.mp hi).1
    have old : (other, .value value') ∉ ends := fun mem => new (List.mem_map_of_mem mem)
    simp [within, old, eq_comm]
  · next elsewhere =>
    -- Seats are numbered, so at another position there is another seat.
    have different : other ≠ seat := fun same => elsewhere (same ▸ numbered i other hi)
    rw [h.known i other value' hi]
    simp [different]

theorem Holds.putAll (h : harvest.Holds seats ends) (values : AllValues before)
    (orderly : Orderly seats (ends ++ before)) :
    (harvest.putAll before).Holds seats (ends ++ before) := by
  induction before generalizing harvest ends with
  | nil => simpa [Harvest.putAll] using h
  | cons e rest ih =>
    obtain ⟨⟨value, hv⟩, others⟩ := List.forall_mem_cons.mp values
    obtain ⟨seat, outcome⟩ := e
    obtain rfl : outcome = .value value := hv
    rw [List.append_cons] at orderly ⊢
    exact ih (h.put numbered orderly.of_append) others orderly

/-- **Values are put where they belong** as long as somebody is missing. -/
theorem takeAll_append (h : harvest.Holds seats ends) (values : AllValues before)
    (orderly : Orderly seats (ends ++ before)) (mem : seat ∈ seats)
    (missing : seat ∉ (ends ++ before).map (·.1)) (rest : List (Seat × Outcome ε α)) :
    harvest.takeAll (before ++ rest) = (harvest.putAll before).takeAll rest := by
  induction before generalizing harvest ends with
  | nil => rfl
  | cons e before ih =>
    obtain ⟨⟨value, hv⟩, others⟩ := List.forall_mem_cons.mp values
    obtain ⟨other, outcome⟩ := e
    obtain rfl : outcome = .value value := hv
    rw [List.append_cons] at orderly missing
    have put := h.put numbered orderly.of_append
    have waits : (harvest.put other.index value).all? = none := by
      refine put.all?_eq_none mem fun ended => missing ?_
      rw [List.map_append]
      exact List.mem_append_left _ ended
    rw [List.cons_append, takeAll, take, waits]
    exact ih put others orderly missing

omit numbered in
/-- The first end that is no value ends the job. -/
theorem takeAll_of_first (h : outcome.ending? seat = some ending)
    (rest : List (Seat × Outcome ε α)) :
    harvest.takeAll ((seat, outcome) :: rest) = some ending := by
  cases outcome with
  | value value => cases h
  | failed error => exact h
  | crashed => exact h

/-- When everybody has ended with a value, what is left is to look whether all are known. -/
theorem takeAll_of_values (h : harvest.Holds seats ends) (values : AllValues before)
    (orderly : Orderly seats (ends ++ before)) (ended : before ≠ []) :
    harvest.takeAll before = (harvest.putAll before).all?.map .values := by
  obtain ⟨before, ⟨seat, outcome⟩, rfl⟩ := (List.eq_nil_or_concat' before).resolve_left ended
  have ⟨value, hv⟩ := values (seat, outcome) (by simp)
  obtain rfl : outcome = .value value := hv
  have values : AllValues before := fun e he => values e (List.mem_append_left _ he)
  rw [← List.append_assoc] at orderly
  have mem : seat ∈ seats := orderly.mem (seat, .value value) (by simp)
  rw [takeAll_append numbered h values orderly.of_append mem orderly.not_mem, takeAll, take,
    putAll_concat values]
  cases ((harvest.putAll before).put seat.index value).all? with
  | none => rfl
  | some values => rfl

/-- The values that are due are those that are known in the end. -/
theorem all?_of_isDue {values : List α} (orderly : Orderly seats ends)
    (due : (Ending.values (ε := ε) values).IsDue seats ends) :
    ((expecting seats.length).putAll ends).all? = some values := by
  have present := due.ended
  obtain ⟨all, length, known⟩ := due
  obtain ⟨values', found, length', known'⟩ :=
    ((holds_expecting seats).putAll numbered all orderly).exists_all? all present
  have same : values' = values := by
    refine List.ext_getElem (length'.trans length.symm) fun i hi hi' => ?_
    have hs : seats[i]? = some seats[i] := List.getElem?_eq_getElem (length' ▸ hi)
    obtain ⟨value, hv, he⟩ := known i _ hs
    obtain ⟨value', hv', he'⟩ := known' i _ hs
    obtain rfl : value = value' := Outcome.value.inj (orderly.eq_of_mem he he')
    rw [List.getElem?_eq_getElem hi'] at hv
    rw [List.getElem?_eq_getElem hi] at hv'
    exact Option.some.inj (hv'.trans hv.symm)
  rw [← same]
  exact found

/-- When everybody has ended some ending is due. -/
theorem exists_isDue (orderly : Orderly seats ends) (all : ∀ seat ∈ seats, seat ∈ ends.map (·.1)) :
    ∃ ending : Ending ε α, ending.IsDue seats ends := by
  rcases AllValues.or_first ends with
    values | ⟨before, seat, outcome, ending, after, rfl, values, h⟩
  · obtain ⟨known, -, length, positions⟩ :=
      ((holds_expecting seats).putAll numbered values orderly).exists_all? values all
    exact ⟨_, .values values length positions⟩
  · exact ⟨ending, .of_first values h⟩

omit numbered in
/-- **What comes after the first end that is no value** does not matter. -/
theorem takeAll_first (h : outcome.ending? seat = some ending) (harvest : Harvest α)
    (before after : List (Seat × Outcome ε α)) :
    harvest.takeAll (before ++ (seat, outcome) :: after) =
      harvest.takeAll (before ++ [(seat, outcome)]) := by
  induction before generalizing harvest with
  | nil =>
    rw [List.nil_append, List.nil_append, takeAll_of_first h, takeAll_of_first h]
  | cons e before ih =>
    rw [List.cons_append, List.cons_append, takeAll, takeAll]
    split
    · rfl
    · exact ih _

/-- **A harvest comes to the ending that is due**, and to no other. -/
theorem takeAll_eq_some_iff (somebody : seats ≠ []) (orderly : Orderly seats ends) :
    (expecting seats.length).takeAll ends = some ending ↔ ending.IsDue seats ends := by
  have start := holds_expecting (ε := ε) (α := α) seats
  have ended (all : ∀ seat ∈ seats, seat ∈ ends.map (·.1)) : ends ≠ [] := by
    rintro rfl
    obtain ⟨seat, mem⟩ := List.exists_mem_of_ne_nil seats somebody
    exact List.not_mem_nil (all seat mem)
  constructor
  · intro taken
    rcases AllValues.or_first ends with
      values | ⟨before, seat, outcome, first, after, rfl, values, h⟩
    · -- If somebody is missing the harvest waits, though there have been values only.
      by_cases all : ∀ seat ∈ seats, seat ∈ ends.map (·.1)
      · obtain ⟨known, found, length, positions⟩ :=
          (start.putAll numbered values orderly).exists_all? values all
        rw [takeAll_of_values numbered start values orderly (ended all), found] at taken
        obtain rfl := Option.some.inj taken
        exact .values values length positions
      · obtain ⟨seat, mem, missing⟩ := not_forall₂.mp all
        have waits := takeAll_append numbered start values orderly mem missing []
        rw [List.append_nil, taken] at waits
        cases waits
    · have missing := orderly.not_mem
      have mem : seat ∈ seats := orderly.mem (seat, outcome) (by simp)
      rw [takeAll_append numbered start values orderly.of_append mem missing,
        takeAll_of_first h] at taken
      obtain rfl := Option.some.inj taken
      exact .of_first values h
  · intro due
    rcases due.cases_first with
      ⟨before, seat, outcome, after, rfl, values, h⟩ | ⟨values, rfl, all, -, -⟩
    · have missing := orderly.not_mem
      have mem : seat ∈ seats := orderly.mem (seat, outcome) (by simp)
      rw [takeAll_append numbered start values orderly.of_append mem missing]
      exact takeAll_of_first h after
    · rw [takeAll_of_values numbered start all orderly (ended due.ended),
        all?_of_isDue numbered orderly due]
      rfl

end Numbered

end Harvest

/-! ### Slots and tasks -/

/-- What is heard of a task that is over: the position of its peer and what the peer returned, or
only which task it was that has broken off. -/
inductive TaskEnd (T ε α : Type)
  | returned (index : Nat) (result : Except ε α)
  | brokeOff (task : T)

namespace TaskEnd

variable {T : Type} [DecidableEq T]

/-- The name of the peer whose task this is, if there is one; `task` tells the tasks by the
positions of their peers. -/
def nameOf (names : List PeerName) (task : Nat → T) (it : T) : PeerName :=
  (((List.range names.length).find? fun i => task i = it).bind (names[·]?)).getD "unknown"

/-- Collects what tasks return in slots, one for each peer. When nobody is left the empty slots are
passed over. -/
def collect (names : List PeerName) (task : Nat → T) :
    List (Option α) → List (TaskEnd T ε α) → Ending ε α
  | slots, [] => .values (slots.filterMap id)
  | slots, .returned index (.ok value) :: rest =>
    collect names task (slots.set index (some value)) rest
  | _, .returned _ (.error error) :: _ => .failed error
  | _, .brokeOff it :: _ => .crashed (nameOf names task it)

omit [DecidableEq T] in
/-- What is heard of the end of a peer. -/
def ofEnd (task : Nat → T) : Seat × Outcome ε α → TaskEnd T ε α
  | (seat, .value value) => .returned seat.index (.ok value)
  | (seat, .failed error) => .returned seat.index (.error error)
  | (seat, .crashed) => .brokeOff (task seat.index)

variable {names : List PeerName} {task : Nat → T}

/-- **A task is found by its identity**, if no two tasks have the same. -/
theorem nameOf_task
    (distinct : ∀ i < names.length, ∀ j < names.length, task i = task j → i = j) {i : Nat}
    {name : PeerName} (h : names[i]? = some name) : nameOf names task (task i) = name := by
  have within : i < names.length := (List.getElem?_eq_some_iff.mp h).1
  have found : (List.range names.length).find? (fun j => task j = task i) = some i := by
    rw [List.find?_range_eq_some]
    refine ⟨decide_eq_true rfl, List.mem_range.mpr within, fun j hj => ?_⟩
    have other : task j ≠ task i := fun same =>
      Nat.ne_of_lt hj (distinct j (Nat.lt_trans hj within) i within same)
    simpa using other
  rw [nameOf, found, Option.bind_some, h, Option.getD_some]

theorem collect_append {before : List (Seat × Outcome ε α)} (values : AllValues before)
    (harvest : Harvest α) (rest : List (TaskEnd T ε α)) :
    collect names task harvest.values (before.map (ofEnd task) ++ rest) =
      collect names task (harvest.putAll before).values rest := by
  induction before generalizing harvest with
  | nil => rfl
  | cons e before ih =>
    obtain ⟨⟨value, hv⟩, others⟩ := List.forall_mem_cons.mp values
    obtain ⟨seat, outcome⟩ := e
    obtain rfl : outcome = .value value := hv
    exact ih others (harvest.put seat.index value)

/-- **Slots come to the ending that is due**: none of them is passed over, and no name is
missing. -/
theorem collect_eq {seats : List Seat} {ends : List (Seat × Outcome ε α)} {ending : Ending ε α}
    (seated : ∀ (i : Nat) seat, seats[i]? = some seat →
      seat.index = i ∧ names[i]? = some seat.name)
    (distinct : ∀ i < names.length, ∀ j < names.length, task i = task j → i = j)
    (orderly : Orderly seats ends) (due : ending.IsDue seats ends) :
    collect names task (List.replicate seats.length none) (ends.map (ofEnd task)) = ending := by
  have numbered : ∀ (i : Nat) seat, seats[i]? = some seat → seat.index = i := fun i seat hi =>
    (seated i seat hi).1
  change collect names task (Harvest.expecting seats.length).values _ = _
  rcases due.cases_first with
    ⟨before, seat, outcome, after, rfl, values, h⟩ | ⟨values, rfl, all, -, -⟩
  · obtain ⟨i, hi⟩ := List.mem_iff_getElem?.mp (orderly.mem (seat, outcome) (by simp))
    obtain ⟨rfl, named⟩ := seated i seat hi
    rw [List.map_append, List.map_cons, collect_append values]
    cases outcome with
    | value value => cases h
    | failed error => exact Option.some.inj h
    | crashed =>
      rw [← Option.some.inj h, ofEnd, collect, nameOf_task distinct named]
  · have known := Harvest.all?_eq_some.mp (Harvest.all?_of_isDue numbered orderly due)
    have collected : collect names task (Harvest.expecting seats.length).values
        (ends.map (ofEnd task) ++ []) = _ := collect_append all _ []
    rw [List.append_nil] at collected
    rw [collected, known, collect]
    simp

end TaskEnd

end Superstep
