import Superstep.Proofs.Cluster.Runs

/-!
# Lockstep

Between two supersteps every peer calls at the barrier twice, and each time waits until all have
called. How far a peer has come is therefore told by how often it has called, its *waits*: twice
the number of its superstep while it is in its program, one more while it enters or collects, two
more while it departs. The barrier, in turn, has opened as often as the peer that has called least
often – so waits and openings differ by at most one (`Superstep.Station.InStep`).

`Superstep.Execution.Lockstep` says this of all stations at once, and how many have called since
the barrier opened last. It holds in every run (`Superstep.Execution.Runs.lockstep`), and from it
follows what the two meetings are for: while a peer is in its program in superstep `k`, every other
peer is in superstep `k` too, or has just been let go into it and not moved yet.
-/

namespace Superstep

variable {F M S ε α : Type}

/-! ### A peer and the barrier -/

/-- **How far a peer has come, by its waits**, when the barrier has opened so many times. Of a peer
that was stopped not all is known. -/
def Station.InStep (openings waits : Nat) (s : Station F M S ε α) : Prop :=
  match s.activity with
  | .running _ | .leaving _ | .gone _ => waits = 2 * s.superstep ∧ openings = waits
  | .entering called _ =>
    waits = 2 * s.superstep + 1 ∧ called + 1 = waits ∧ (openings = waits ∨ openings + 1 = waits)
  | .collecting _ => waits = 2 * s.superstep + 1 ∧ openings = waits
  | .departing called _ =>
    waits = 2 * s.superstep + 2 ∧ called + 1 = waits ∧ (openings = waits ∨ openings + 1 = waits)
  | .stopped =>
    2 * s.superstep ≤ openings ∧ waits ≤ 2 * s.superstep + 2 ∧
      (openings = waits ∨ openings + 1 = waits)

namespace Station

variable {x : Execution F M S ε α} {s s' : Station F M S ε α} {effect : Effect F M ε α}
  {deed : Option (Deed M)} {openings waits : Nat}

@[simp] theorem inStep_receiveAll (mail : List (Envelope M)) :
    (s.receiveAll mail).InStep openings waits ↔ s.InStep openings waits := Iff.rfl

/-- Nobody has called more than once since the barrier opened last. -/
theorem InStep.near (h : s.InStep openings waits) :
    openings = waits ∨ openings + 1 = waits := by
  unfold InStep at h
  split at h <;> omega

/-- The superstep a peer is in has begun, and is not followed by another yet. -/
theorem InStep.superstep_le (h : s.InStep openings waits) :
    2 * s.superstep ≤ openings ∧ waits ≤ 2 * s.superstep + 2 := by
  unfold InStep at h
  split at h <;> omega

/-- Who waits at the barrier is let go when it opens, and stays who it is. -/
theorem InStep.opened (h : s.InStep openings waits) (called : waits = openings + 1) :
    s.InStep (openings + 1) waits := by
  unfold InStep at h ⊢
  split at h <;> simp_all
  omega

/-- A move without a call leaves a peer as far as it was. -/
theorem Moves.inStep (h : s.Moves x s' effect deed) (quiet : deed ≠ some .called)
    (hs : s.InStep x.barrier.openings waits) : s'.InStep x.barrier.openings waits := by
  cases h with
  | sync | depart => exact absurd rfl quiet
  | enter ha isOpen =>
    simp only [InStep, ha] at hs ⊢
    omega
  | wake ha isOpen =>
    simp only [InStep, ha, resume] at hs ⊢
    omega
  | collect ha _ => simpa [InStep, ha] using hs
  | begin ha | finish ha | fail ha | crash ha | tell ha | read ha | breakOff ha | reopen ha
    | send ha | refuse ha | drain ha | write ha | report ha =>
    simpa [InStep, ha, resume, leave] using hs

/-- Who calls has called as often as the barrier has opened, and then once more. -/
theorem Moves.inStep_of_called (h : s.Moves x s' effect (some .called))
    (hs : s.InStep x.barrier.openings waits) :
    effect = .arrival ∧ waits = x.barrier.openings ∧
      s'.InStep x.barrier.openings (waits + 1) := by
  cases h with
  | sync ha =>
    refine ⟨rfl, ?_⟩
    simp only [InStep, ha] at hs ⊢
    omega
  | depart ha _ =>
    refine ⟨rfl, ?_⟩
    simp only [InStep, ha] at hs ⊢
    omega

/-- Only who calls changes the barrier. -/
theorem Moves.effect_ne_arrival (h : s.Moves x s' effect deed) (quiet : deed ≠ some .called) :
    effect ≠ .arrival := by
  cases h <;> simp_all

/-- Who is stopped stays where it is. -/
theorem InStep.stop (h : s.InStep openings waits) :
    ({ s with activity := .stopped } : Station F M S ε α).InStep openings waits :=
  ⟨h.superstep_le.1, h.superstep_le.2, h.near⟩

/-- Where a station can be while some peer is in its program in this superstep: in the same one, or
departing into it. -/
def Beside (superstep : Nat) (t : Station F M S ε α) : Prop :=
  match t.activity with
  | .running _ | .entering .. | .leaving _ | .gone _ => t.superstep = superstep
  | .collecting _ => False
  | .departing .. => t.superstep + 1 = superstep
  | .stopped => t.superstep ≤ superstep

end Station

/-! ### All peers and the barrier -/

namespace Execution

/-- **All peers are in step with the barrier**, and it knows how many have called since it opened
last. -/
structure Lockstep (x : Execution F M S ε α) (chronicle : Chronicle M) : Prop where
  nodup : (x.stations.map (·.seat.name)).Nodup
  inStep : ∀ s ∈ x.stations, s.InStep x.barrier.openings (chronicle.waits s.seat.name)
  parties : x.barrier.parties = x.stations.length
  arrived : x.barrier.arrived = (x.stations.map (·.seat.name)).countP
    fun peer => chronicle.waits peer = x.barrier.openings + 1
  arrived_lt : x.barrier.arrived < x.barrier.parties

variable {x y : Execution F M S ε α} {chronicle : Chronicle M}

/-- Peers of one name are one peer. -/
theorem index_eq_of_name_eq {i j : Nat} {s t : Station F M S ε α}
    (nodup : (x.stations.map (·.seat.name)).Nodup) (hs : x.stations[i]? = some s)
    (ht : x.stations[j]? = some t) (h : s.seat.name = t.seat.name) : i = j := by
  obtain ⟨hi, -⟩ := List.getElem?_eq_some_iff.mp hs
  refine (List.getElem?_inj (by simpa using hi) nodup).mp ?_
  simp [hs, ht, h]

/-- Stations at different positions are of different names. -/
theorem Lockstep.name_ne {i j : Nat} {s t : Station F M S ε α} (h : x.Lockstep chronicle)
    (hs : x.stations[i]? = some s) (ht : x.stations[j]? = some t) (hne : i ≠ j) :
    s.seat.name ≠ t.seat.name := fun same =>
  hne (index_eq_of_name_eq h.nodup hs ht same)

/-- In a list without repetitions, one more element counts if one does that did not before. -/
theorem countP_succ {α : Type} {l : List α} {a : α} {p q : α → Bool} (nodup : l.Nodup) (ha : a ∈ l)
    (hp : p a = false) (hq : q a = true) (h : ∀ b ∈ l, b ≠ a → q b = p b) :
    l.countP q = l.countP p + 1 := by
  induction l with
  | nil => cases ha
  | cons b l ih =>
    obtain ⟨hb, nodup⟩ := List.nodup_cons.mp nodup
    rw [List.countP_cons, List.countP_cons]
    rcases List.mem_cons.mp ha with rfl | ha
    · have hl : l.countP q = l.countP p :=
        List.countP_congr fun c hc => by
          rw [h c (List.mem_cons_of_mem _ hc) (fun hca => hb (hca ▸ hc))]
      simp [hl, hp, hq]
    · have hba : b ≠ a := fun hba => hb (hba ▸ ha)
      rw [ih nodup ha fun c hc => h c (List.mem_cons_of_mem _ hc), h b List.mem_cons_self hba]
      omega

/-- The names of the peers never change. -/
theorem Turns.names_eq {noted : Option (Entry M)} (h : x.Turns noted y) :
    y.stations.map (·.seat.name) = x.stations.map (·.seat.name) := by
  simpa [Function.comp_def] using congrArg (List.map (·.name)) h.seats_eq

theorem Turns.length_eq {noted : Option (Entry M)} (h : x.Turns noted y) :
    y.stations.length = x.stations.length := by
  simpa using congrArg List.length h.seats_eq

/-- A move without a call leaves all peers in step. -/
theorem Lockstep.quiet {index : Nat} {s s' : Station F M S ε α} {effect : Effect F M ε α}
    {deed : Option (Deed M)} (h : x.Lockstep chronicle) (hs : x.stations[index]? = some s)
    (move : s.Moves x s' effect deed) (quiet : deed ≠ some .called) :
    (x.after index s' effect).Lockstep (chronicle ++ (deed.map s.entry).toList) := by
  have turn : x.Turns _ (x.after index s' effect) := .move hs move
  have barrier : (x.after index s' effect).barrier = x.barrier := by
    cases effect with
    | arrival => exact absurd rfl (move.effect_ne_arrival quiet)
    | _ => rfl
  refine ⟨?_, fun t ht => ?_, ?_, ?_, ?_⟩
  · exact turn.names_eq ▸ h.nodup
  · rw [barrier, Chronicle.waits_append_of_ne _ quiet]
    obtain ⟨i, ht⟩ := List.mem_iff_getElem?.mp ht
    rcases of_getElem?_after ht with ⟨-, rfl⟩ | ⟨-, u, hu, rfl⟩
    · simp only [Station.inStep_receiveAll, Station.seat_receiveAll, move.seat_eq]
      exact move.inStep quiet (h.inStep s (List.mem_of_getElem? hs))
    · exact h.inStep u (List.mem_of_getElem? hu)
  · rw [barrier, length_after, h.parties]
  · rw [barrier, turn.names_eq, h.arrived]
    simp only [Chronicle.waits_append_of_ne _ quiet]
  · rw [barrier]
    exact h.arrived_lt

section Call

variable {index : Nat} {s s' : Station F M S ε α} {effect : Effect F M ε α}
  (h : x.Lockstep chronicle) (hs : x.stations[index]? = some s)
  (move : s.Moves x s' effect (some .called))

include h hs move

/-- Who calls is one more of those that wait. -/
theorem Lockstep.countP_call : (x.stations.map (·.seat.name)).countP (fun peer =>
    Chronicle.waits (chronicle ++ [s.entry .called]) peer = x.barrier.openings + 1) =
      x.barrier.arrived + 1 := by
  obtain ⟨rfl, hw, -⟩ := move.inStep_of_called (h.inStep s (List.mem_of_getElem? hs))
  rw [h.arrived]
  refine countP_succ h.nodup (a := s.seat.name) ?_ (by simp [hw]) ?_ ?_
  · exact List.mem_map_of_mem (List.mem_of_getElem? hs)
  · simp [Chronicle.waits_append_called, hw]
  · intro peer _ hp
    simp [Chronicle.waits_append_called, hp.symm]

/-- After a call all are in step with the barrier as it was. -/
theorem Lockstep.inStep_call : ∀ t ∈ (x.after index s' effect).stations,
    t.InStep x.barrier.openings
      (Chronicle.waits (chronicle ++ [s.entry .called]) t.seat.name) := by
  obtain ⟨rfl, -, hs'⟩ := move.inStep_of_called (h.inStep s (List.mem_of_getElem? hs))
  intro t ht
  obtain ⟨i, ht⟩ := List.mem_iff_getElem?.mp ht
  rw [Chronicle.waits_append_called]
  rcases of_getElem?_after ht with ⟨-, rfl⟩ | ⟨hi, u, hu, rfl⟩
  · simp only [Station.inStep_receiveAll, Station.seat_receiveAll, move.seat_eq, if_true]
    exact hs'
  · have hne := h.name_ne hs hu (Ne.symm hi)
    simp only [Station.inStep_receiveAll, Station.seat_receiveAll, hne, if_false]
    exact h.inStep u (List.mem_of_getElem? hu)

/-- A call leaves all peers in step. If it is the last one, the barrier opens, and all go on. -/
theorem Lockstep.call : (x.after index s' effect).Lockstep (chronicle ++ [s.entry .called]) := by
  have turn : x.Turns _ (x.after index s' effect) := .move hs move
  have counted := h.countP_call hs move
  have inStep := h.inStep_call hs move
  obtain ⟨rfl, -, -⟩ := move.inStep_of_called (h.inStep s (List.mem_of_getElem? hs))
  have names : (x.after index s' .arrival).stations.map (·.seat.name) =
      x.stations.map (·.seat.name) := turn.names_eq
  have barrier : (x.after index s' .arrival).barrier = x.barrier.arrive := rfl
  have parties : x.barrier.arrive.parties = (x.after index s' .arrival).stations.length := by
    rw [length_after, ← h.parties, Barrier.arrive]
    split <;> rfl
  have hlt := h.arrived_lt
  by_cases last : x.barrier.arrived + 1 = x.barrier.parties
  · -- the last call: everybody waits, and the barrier opens
    have all : ∀ peer ∈ x.stations.map (·.seat.name),
        Chronicle.waits (chronicle ++ [s.entry .called]) peer = x.barrier.openings + 1 := by
      intro peer hp
      have full := List.countP_eq_length.mp
        (counted.trans (last.trans (h.parties.trans (List.length_map ..).symm))) peer hp
      exact of_decide_eq_true full
    have arrive : x.barrier.arrive =
        { x.barrier with openings := x.barrier.openings + 1, arrived := 0 } := if_pos last
    refine ⟨names ▸ h.nodup, fun t ht => ?_, parties, ?_, ?_⟩
    · rw [barrier, arrive]
      refine (inStep t ht).opened (all _ ?_)
      exact names ▸ List.mem_map_of_mem ht
    · rw [barrier, arrive, names, eq_comm, List.countP_eq_zero]
      intro peer hp
      simp [all peer hp]
    · rw [barrier, arrive]
      exact Nat.zero_lt_of_lt hlt
  · have arrive : x.barrier.arrive = { x.barrier with arrived := x.barrier.arrived + 1 } :=
      if_neg last
    refine ⟨names ▸ h.nodup, fun t ht => ?_, parties, ?_, ?_⟩
    · rw [barrier, arrive]
      exact inStep t ht
    · rw [barrier, arrive, names]
      exact counted.symm
    · rw [barrier, arrive]
      change x.barrier.arrived + 1 < x.barrier.parties
      omega

end Call

/-- **Turns keep peers in step.** -/
theorem Lockstep.turn {noted : Option (Entry M)} (h : x.Lockstep chronicle)
    (turn : x.Turns noted y) : y.Lockstep (chronicle ++ noted.toList) := by
  cases turn with
  | move hs move =>
    rename_i index s s' effect deed journal
    by_cases called : deed = some .called
    · subst called
      obtain ⟨h1, h2, h3, h4, h5⟩ := h.call hs move
      exact ⟨h1, h2, h3, h4, h5⟩
    · obtain ⟨h1, h2, h3, h4, h5⟩ := h.quiet hs move called
      exact ⟨h1, h2, h3, h4, h5⟩
  | note =>
    rw [Option.toList_none, List.append_nil]
    exact ⟨h.nodup, h.inStep, h.parties, h.arrived, h.arrived_lt⟩
  | stop hs running hgone hstopped =>
    rename_i index s
    have turn := Turns.stop hs running hgone hstopped
    rw [Option.toList_none, List.append_nil]
    refine ⟨turn.names_eq ▸ h.nodup, fun t ht => ?_, ?_, ?_, h.arrived_lt⟩
    · rcases List.mem_or_eq_of_mem_set ht with ht | rfl
      · exact h.inStep t ht
      · exact (h.inStep s (List.mem_of_getElem? hs)).stop
    · rw [turn.length_eq]
      exact h.parties
    · rw [turn.names_eq]
      exact h.arrived

/-! ### What peers in step know of each other -/

/-- **While a peer is in its program, everybody is in its superstep**, or departs into it. -/
theorem Lockstep.beside {s t : Station F M S ε α} (h : x.Lockstep chronicle)
    (ht : t ∈ x.stations) (talking : x.barrier.openings = 2 * s.superstep) :
    t.Beside s.superstep := by
  have hw := h.inStep t ht
  unfold Station.InStep at hw
  unfold Station.Beside
  split at hw <;> simp_all <;> omega

/-- Nobody is in a superstep that has not begun. -/
theorem Lockstep.superstep_le {t : Station F M S ε α} (h : x.Lockstep chronicle)
    (ht : t ∈ x.stations) : 2 * t.superstep ≤ x.barrier.openings :=
  (h.inStep t ht).superstep_le.1

/-- **Nobody is ahead of anybody else by more than a superstep.** -/
theorem Lockstep.superstep_le_succ {s t : Station F M S ε α} (h : x.Lockstep chronicle)
    (hs : s ∈ x.stations) (ht : t ∈ x.stations) : t.superstep ≤ s.superstep + 1 := by
  have begun := h.superstep_le ht
  have last := (h.inStep s hs).superstep_le.2
  have near := (h.inStep s hs).near
  omega

/-! ### In a job from its beginning -/

section Job

variable {cluster : Cluster F} {body : Seat → Process F M S ε α}

theorem lockstep_ofCluster : (ofCluster cluster body).Lockstep [] where
  nodup := names_ofCluster cluster body ▸ cluster.nodup_names
  inStep s hs := by
    obtain ⟨seat, partition, rfl⟩ := exists_ready_of_mem hs
    exact ⟨rfl, rfl⟩
  parties := rfl
  arrived := by
    refine (List.countP_eq_zero.mpr fun peer _ => ?_).symm
    simp [ofCluster]
  arrived_lt := by
    change 0 < (ofCluster cluster body).stations.length
    rw [length_ofCluster]
    exact List.length_pos_iff.mpr cluster.names_ne_nil

/-- **In every run all peers are in step.** -/
theorem Runs.lockstep (run : (ofCluster cluster body).Runs chronicle y) :
    y.Lockstep chronicle := by
  induction run with
  | start => exact lockstep_ofCluster
  | turn t _ hz ih => exact ih.turn (turns_of_turn hz)

end Job

end Execution

end Superstep
