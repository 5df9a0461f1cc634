import Superstep.Cluster.Run
import Superstep.Proofs.Cluster.Blame

/-!
# Prompt runs

A peer that is over cannot be reached from then on, but is reported in a turn of its own. In between
another one may be refused, fail of that, and be reported first. In *prompt* runs nobody is refused
in between (`Superstep.Execution.Promptly`).

* A prompt job ends with the values of all peers or with what one of them has failed of by itself
  (`Superstep.Execution.Promptly.own_of_ending`). This rests on who would be blamed at any time: of
  the ends that the job has not taken note of, the first one that is a failure is a peer's own, and
  there is one as soon as a call has failed (`Superstep.Execution.Blames`).
* A job is run promptly (`Superstep.Execution.exists_promptly_of_run`), since of the peers that can
  move the first one does: a peer that is about to be reported is the next one to move
  (`Superstep.Execution.Paced`).
-/

namespace Superstep

variable {F M S ε α : Type}

/-! ### Prompt runs -/

namespace Station

/-- Whether the peer at a station is over and has not been reported. -/
def isLeaving (s : Station F M S ε α) : Bool :=
  match s.activity with
  | .leaving _ => true
  | _ => false

/-- Whom the peer at a station is about to send to. -/
def addressee? (s : Station F M S ε α) : Option PeerName :=
  match s.activity with
  | .running (.call (.send receiver _) _) => some receiver
  | _ => none

variable {x : Execution F M S ε α} {s s' : Station F M S ε α} {effect : Effect F M ε α}
  {deed : Option (Deed M)}

theorem isLeaving_of_activity {outcome : Outcome ε α} (h : s.activity = .leaving outcome) :
    s.isLeaving := by
  rw [isLeaving, h]

/-- Who is over sends nothing. -/
theorem addressee?_of_isLeaving (leaving : s.isLeaving) : s.addressee? = none := by
  unfold isLeaving at leaving
  split at leaving
  · rw [addressee?, ‹s.activity = _›]
  · cases leaving

theorem addressee?_of_activity {receiver : PeerName} {message : M} {next}
    (h : s.activity = .running (.call (.send receiver message) next)) :
    s.addressee? = some receiver := by
  rw [addressee?, h]

/-- To be over has no effect on anybody else. -/
theorem Moves.effect_eq_nothing (move : s.Moves x s' effect deed) (leaving : s'.isLeaving) :
    effect = .nothing := by
  cases move with
  | finish | fail | crash | breakOff => rfl
  | begin | tell | read | reopen | refuse | drain | enter | collect | wake => rfl
  | send | sync | write | depart | report => cases leaving

end Station

namespace Execution

variable {x y z : Execution F M S ε α} {transcript : Transcript F M} {outcome : Outcome ε α}
  {borrowed : ε → Prop} {last : Nat → Prop}

/-- Whether nobody sends in a turn to a peer that is over and has not been reported. -/
def givesWay (x : Execution F M S ε α) : Turn → Bool
  | .step index => x.stations[index]?.all fun s =>
    x.stations.all fun t => !t.isLeaving || s.addressee? != some t.seat.name
  | .note | .stop _ => true

theorem givesWay_step {index : Nat} : x.givesWay (.step index) = true ↔
    ∀ s, x.stations[index]? = some s →
      ∀ t ∈ x.stations, t.isLeaving → s.addressee? ≠ some t.seat.name := by
  simp only [givesWay, Option.all_eq_true, List.all_eq_true, Bool.or_eq_true, Bool.not_eq_true',
    bne_iff_ne]
  refine forall₄_congr fun s hs t ht => ?_
  cases t.isLeaving <;> simp

/-- **The runs in which a peer that is over is reported before somebody sends to it.** -/
inductive Promptly (origin : Execution F M S ε α) : Transcript F M → Execution F M S ε α → Prop
  | start : Promptly origin [] origin
  | turn {transcript : Transcript F M} {y z : Execution F M S ε α} (t : Turn) :
    Promptly origin transcript y → y.givesWay t → y.turn t = some z →
    Promptly origin (transcript ++ (y.heard t).toList) z

theorem Promptly.transcribes (h : x.Promptly transcript y) : x.Transcribes transcript y := by
  induction h with
  | start => exact .start
  | turn t _ _ hz ih => exact ih.turn t hz

theorem Promptly.cons {t : Turn} (way : x.givesWay t) (hy : x.turn t = some y)
    (h : y.Promptly transcript z) : x.Promptly ((x.heard t).toList ++ transcript) z := by
  induction h with
  | start =>
    rw [List.append_nil]
    exact Promptly.start.turn t way hy
  | turn t' _ way' hz ih =>
    rw [← List.append_assoc]
    exact ih.turn t' way' hz

/-- Whether some turns give way, each where it is taken. -/
def allGiveWay (x : Execution F M S ε α) : List Turn → Bool
  | [] => true
  | t :: turns => x.givesWay t && (x.turn t).all (·.allGiveWay turns)

/-- To take some turns, each of which gives way, is to run promptly. -/
theorem promptly_of_recite {turns : List Turn} (h : x.recite turns = some (transcript, y))
    (ways : x.allGiveWay turns) : x.Promptly transcript y := by
  induction turns generalizing x transcript with
  | nil =>
    obtain ⟨rfl, rfl⟩ := Prod.mk.inj (Option.some.inj h)
    exact .start
  | cons t turns ih =>
    obtain ⟨z, hz, h⟩ := Option.bind_eq_some_iff.mp h
    obtain ⟨⟨more, y'⟩, recited, heq⟩ := Option.map_eq_some_iff.mp h
    obtain ⟨rfl, rfl⟩ := Prod.mk.inj heq
    rw [allGiveWay, hz, Option.all_some, Bool.and_eq_true] at ways
    exact (ih recited ways.2).cons ways.1 hz

/-- The first failure among the ends that the job has not taken note of. -/
def blamed (x : Execution F M S ε α) : Option (Outcome ε α) :=
  (x.reports.map (·.2)).find? (·.isFailure)

/-- A report goes to the end of the queue. -/
theorem blamed_after (x : Execution F M S ε α) (index : Nat) {s s' : Station F M S ε α}
    {effect : Effect F M ε α} {deed : Option (Deed M)} (move : s.Moves x s' effect deed) :
    (x.after index s' effect).blamed = x.blamed ∨
      ∃ outcome, s.activity = .leaving outcome ∧
        (x.after index s' effect).blamed = x.blamed.or ([outcome].find? (·.isFailure)) := by
  cases move with
  | report ha => exact .inr ⟨_, ha, by simp [blamed, after]⟩
  | _ => exact .inl rfl

/-- **The job blames nobody who is not to blame**, and if a call has failed it blames somebody. -/
structure Blames (borrowed : ε → Prop) (x : Execution F M S ε α) (transcript : Transcript F M) :
    Prop where
  own : ∀ outcome, x.blamed = some outcome → outcome.IsOwn borrowed
  noticed : (∃ u ∈ transcript, u.interaction.failure? ≠ none) → x.blamed.isSome

/-- Taking note of a report blames whom there is to blame, or nobody yet. -/
theorem cases_of_noteReport (borrowed : ε → Prop) (h : x.noteReport = some y) :
    (∃ values? : Option (List α), y.ending? = values?.map .values ∧ y.blamed = x.blamed) ∨
      ∃ outcome ending, x.blamed = some outcome ∧ y.ending? = some ending ∧
        (outcome.IsOwn borrowed → ending.IsOwn borrowed) := by
  unfold noteReport at h
  split at h
  · next seat outcome reports running hr =>
    obtain rfl := Option.some.inj h
    cases outcome with
    | value value => exact .inl ⟨_, rfl, by simp [blamed, hr, tell, Outcome.isFailure]⟩
    | failed failure =>
      exact .inr ⟨.failed failure, _, by simp [blamed, hr, Outcome.isFailure], rfl, id⟩
    | crashed => exact .inr ⟨.crashed, _, by simp [blamed, hr, Outcome.isFailure], rfl, id⟩
  · cases h

/-- Who is reported to have failed is blamed, or another one before. -/
theorem isSome_blamed {seat : Seat} (reported : (seat, outcome) ∈ x.reports)
    (failure : outcome.isFailure) : x.blamed.isSome :=
  List.find?_isSome.mpr ⟨outcome, List.mem_map_of_mem (f := (·.2)) reported, failure⟩

section Job

variable {cluster : Cluster F} {body : Seat → Process F M S ε α}

/-- A peer that moves leaves it at that the job blames the right ones. -/
theorem Blames.move (run : (ofCluster cluster body).Transcribes transcript x)
    (traceable : ∀ seat ∈ cluster.seats, (body seat).Traceable seat borrowed last)
    (running : x.ending? = none) (h : x.Blames borrowed transcript) {index : Nat}
    {s s' : Station F M S ε α} {effect : Effect F M ε α} (hs : x.stations[index]? = some s)
    (move : s.Moves x s' effect (x.deedOf s)) (way : x.givesWay (.step index)) :
    (x.after index s' effect).Blames borrowed (transcript ++ (x.answered s).toList) := by
  have mem := List.mem_of_getElem? hs
  have grows : x.blamed.isSome → (x.after index s' effect).blamed.isSome := by
    intro somebody
    rcases x.blamed_after index move with same | ⟨outcome, -, same⟩
    · rwa [same]
    · rw [same, Option.isSome_or, somebody, Bool.true_or]
  constructor
  · intro outcome blamed
    rcases x.blamed_after index move with same | ⟨outcome', ha, same⟩
    · exact h.own outcome (same ▸ blamed)
    · rw [same, Option.or_eq_some_iff] at blamed
      rcases blamed with blamed | ⟨nobody, found⟩
      · exact h.own outcome blamed
      · -- somebody fails first; had it been refused, there would be somebody to blame already
        obtain rfl := List.mem_singleton.mp (List.mem_of_find?_eq_some found)
        have failure := List.find?_some found
        rcases outcome.own_or_borrowed failure with own | ⟨failure, rfl, taken⟩
        · exact own
        · have noticed := h.noticed (run.exists_failed traceable mem (.inl ha) taken)
          simp [nobody] at noticed
  · rintro ⟨u, hu, failed⟩
    rcases List.mem_append.mp hu with hu | hu
    · exact grows (h.noticed ⟨u, hu, failed⟩)
    obtain ⟨error, failed⟩ := Option.ne_none_iff_exists'.mp failed
    obtain ⟨receiver, message, next, ha, refused⟩ :=
      exists_send_of_failure (Option.mem_toList.mp hu) failed
    obtain ⟨-, r, hr, named, outcome, isOver, failure⟩ :=
      run.exists_refuser traceable running mem ha refused
    -- who refuses has been reported, for otherwise nobody would send to it
    have gone : r.activity = .gone outcome := isOver.resolve_left fun leaving =>
      givesWay_step.mp way s hs r hr (Station.isLeaving_of_activity leaving)
        (named ▸ Station.addressee?_of_activity ha)
    obtain ⟨i, hr⟩ := List.mem_iff_getElem?.mp hr
    rcases run.reaches.accounts.pending running i r outcome hr gone with reported | ⟨_, rfl, -⟩
    · exact grows (isSome_blamed reported failure)
    · cases failure

/-- **A prompt job ends with the values of all, or with what a peer has failed of by itself.** -/
theorem Promptly.own_of_ending (run : (ofCluster cluster body).Promptly transcript y)
    (traceable : ∀ seat ∈ cluster.seats, (body seat).Traceable seat borrowed last) :
    (y.ending? = none → y.Blames borrowed transcript) ∧
      ∀ ending, y.ending? = some ending →
        (∃ values, ending = .values values) ∨ ending.IsOwn borrowed := by
  induction run with
  | start =>
    refine ⟨fun _ => ⟨?_, ?_⟩, ?_⟩
    · rintro _ ⟨⟩
    · rintro ⟨u, hu, -⟩
      cases hu
    · rintro _ ⟨⟩
  | turn t before way hz ih =>
    rename_i transcript x z
    obtain ⟨blames, own⟩ := ih
    cases unended : x.ending? with
    | some ending =>
      rw [(turns_of_turn hz).ending_eq unended]
      exact ⟨fun running => absurd running (by simp), fun _ h => own _ (unended.trans h)⟩
    | none =>
      have blames := blames unended
      cases t with
      | step index =>
        obtain ⟨s, hs, h⟩ := Option.bind_eq_some_iff.mp hz
        obtain ⟨s', effect, journal, move, rfl⟩ := moves_of_step hs h
        have heard : x.heard (.step index) = x.answered s := by simp [Execution.heard, hs]
        have moved := blames.move before.transcribes traceable unended hs move way
        rw [heard]
        exact ⟨fun _ => ⟨moved.own, moved.noticed⟩, fun _ ended => own _ ended⟩
      | note =>
        rw [show (x.heard .note).toList = [] from rfl, List.append_nil]
        rcases cases_of_noteReport borrowed hz with
          ⟨values?, ended, same⟩ | ⟨outcome, ending, found, ended, takes⟩
        · refine ⟨fun _ => ⟨same ▸ blames.own, same ▸ blames.noticed⟩, fun ending h => ?_⟩
          rw [ended] at h
          obtain ⟨values, -, rfl⟩ := Option.map_eq_some_iff.mp h
          exact .inl ⟨values, rfl⟩
        · rw [ended]
          refine ⟨fun running => absurd running (by simp), ?_⟩
          rintro _ ⟨⟩
          exact .inr (takes (blames.own _ found))
      | stop index =>
        obtain ⟨s, -, h⟩ := Option.bind_eq_some_iff.mp hz
        simp [stop, unended] at h

end Job

/-! ### The way a job is run -/

end Execution

/-- Who cannot move at a barrier that has opened so often: who waits at it, or has been reported. -/
def Station.Idle (openings : Nat) (s : Station F M S ε α) : Prop :=
  match s.activity with
  | .entering called _ | .departing called _ => openings ≤ called
  | .gone _ | .stopped => True
  | .running _ | .collecting _ | .leaving _ => False

theorem Station.not_idle_of_isLeaving {s : Station F M S ε α} {openings : Nat}
    (leaving : s.isLeaving) : ¬s.Idle openings := by
  unfold isLeaving at leaving
  split at leaving
  · simp [Idle, *]
  · cases leaving

namespace Execution

variable {x y : Execution F M S ε α} {transcript : Transcript F M}

theorem step_eq_none_iff {index : Nat} {s : Station F M S ε α} :
    x.step index s = none ↔ s.Idle x.barrier.openings := by
  unfold step Station.Idle
  split <;> simp_all [Barrier.isOpen]
  split <;> simp

/-- Of the peers that can move, the first one does. -/
theorem exists_of_stepFirst {stations : List (Station F M S ε α)} {index : Nat}
    (h : x.stepFirst (fun _ => none) stations index = some y) :
    ∃ k s, stations[k]? = some s ∧ x.step (index + k) s = some y ∧
      ∀ j t, j < k → stations[j]? = some t → t.Idle x.barrier.openings := by
  induction stations generalizing index with
  | nil => cases h
  | cons s rest ih =>
    have free : x.isHeld (fun _ => none) s = false := by
      unfold isHeld
      split <;> rfl
    simp only [stepFirst, free, Bool.false_eq_true, if_false] at h
    cases stepped : x.step index s with
    | some z =>
      rw [stepped] at h
      exact ⟨0, s, rfl, stepped.trans h, fun j t hj => absurd hj (Nat.not_lt_zero j)⟩
    | none =>
      rw [stepped] at h
      obtain ⟨k, t, ht, step, first⟩ := ih h
      refine ⟨k + 1, t, ht, by rwa [← Nat.add_assoc, Nat.add_right_comm], fun j u hj hu => ?_⟩
      cases j with
      | zero =>
        obtain rfl := Option.some.inj hu
        exact step_eq_none_iff.mp stepped
      | succ j => exact first j u (Nat.lt_of_succ_lt_succ hj) hu

/-- Before a peer that is about to be reported nobody can move. -/
def Paced (x : Execution F M S ε α) : Prop :=
  ∀ (i : Nat) (s : Station F M S ε α), x.stations[i]? = some s → s.isLeaving →
    ∀ (j : Nat) (t : Station F M S ε α), j < i → x.stations[j]? = some t →
      t.Idle x.barrier.openings

/-- **The next turn gives way.** -/
theorem Paced.advance (h : x.Paced) (next : x.advance (fun _ => none) = some y) :
    ∃ t, x.givesWay t ∧ x.turn t = some y ∧ y.Paced := by
  unfold Execution.advance at next
  split at next
  · next noted =>
    obtain rfl := Option.some.inj next
    refine ⟨.note, rfl, noted, ?_⟩
    unfold noteReport at noted
    split at noted
    · cases noted
      exact h
    · cases noted
  · obtain ⟨k, s, hs, stepped, first⟩ := exists_of_stepFirst next
    rw [Nat.zero_add] at stepped
    -- who is about to be reported can move, and so can the one that moves
    have only (i : Nat) (u : Station F M S ε α) (hu : x.stations[i]? = some u)
        (leaving : u.isLeaving) : i = k := by
      rcases Nat.lt_trichotomy i k with hi | hi | hi
      · exact absurd (first i u hi hu) (Station.not_idle_of_isLeaving leaving)
      · exact hi
      · have idle : x.step k s = none := step_eq_none_iff.mpr (h i u hu leaving k s hi hs)
        rw [stepped] at idle
        cases idle
    have free : x.givesWay (.step k) := by
      refine givesWay_step.mpr fun t ht u hu leaving => ?_
      obtain ⟨i, hu⟩ := List.mem_iff_getElem?.mp hu
      obtain rfl := only i u hu leaving
      obtain rfl := Option.some.inj (ht.symm.trans hu)
      simp [Station.addressee?_of_isLeaving leaving]
    refine ⟨.step k, free, by simpa [Execution.turn, hs] using stepped, ?_⟩
    obtain ⟨s', effect, journal, move, rfl⟩ := moves_of_step hs stepped
    intro i t ht leaving j u hj hu
    rcases of_getElem?_after ht with ⟨rfl, rfl⟩ | ⟨hi, v, hv, rfl⟩
    · obtain rfl := move.effect_eq_nothing leaving
      change (x.after i s' .nothing).stations[j]? = some u at hu
      rcases of_getElem?_after hu with ⟨rfl, -⟩ | ⟨-, v, hv, rfl⟩
      · exact absurd hj (Nat.lt_irrefl _)
      · exact first j v hj hv
    · exact absurd (only i v hv leaving) hi

theorem Promptly.exists_of_turns {origin : Execution F M S ε α} {ending : Ending ε α} {more : Nat}
    (run : origin.Promptly transcript x) (paced : x.Paced)
    (h : x.turns (fun _ => none) more = (.ended ending, y)) :
    ∃ transcript, origin.Promptly transcript y ∧ y.ending? = some ending := by
  induction more generalizing x transcript with
  | zero => cases h
  | succ more ih =>
    unfold turns at h
    split at h
    · next ended =>
      cases h
      exact ⟨_, run, ended⟩
    · split at h
      · next next =>
        obtain ⟨t, way, turn, paced⟩ := paced.advance next
        exact ih (run.turn t way turn) paced h
      · cases h

section Job

variable {cluster : Cluster F} {body : Seat → Process F M S ε α}

/-- **A job is run promptly.** -/
theorem exists_promptly_of_run {ending : Ending ε α}
    (h : (ofCluster cluster body).run = (.ended ending, y)) :
    ∃ transcript, (ofCluster cluster body).Promptly transcript y ∧ y.ending? = some ending := by
  refine Promptly.start.exists_of_turns (fun i s hs leaving => ?_) h
  obtain ⟨name, partition, -, -, rfl⟩ := exists_of_getElem?_ofCluster hs
  cases leaving

end Job

end Execution

end Superstep
