import Superstep.Proofs.Cluster.Prompt
import Superstep.Proofs.Training.Protocol
import Superstep.Proofs.Training.Refinement

/-!
# What a training job that failed tells

A peer in training that sends to a peer which has failed is refused, and fails too. What the job
ends with ought to be the first failure and not the second one.

The protocol makes this a matter of the run alone. With the bootstrap, an iteration takes the
supersteps from one that is 1 modulo 4 to the next such. Costs are sent in the first one of them and
gradients in the third, and who is over with a value is so in the second
(`Superstep.Trainer.Protocol.takes`). So nobody is refused by a peer that has done its work, and
failures in training can be traced (`Superstep.Trainer.traceable_enlist`).

* Whatever the run, where a call fails, its receiver has failed, and where a job fails, somebody has
  failed of itself.
* In prompt runs, where nobody sends to a peer that is over and has not been reported, the job ends
  with a failure of the second kind, never with a borrowed one.

Both are said by `Superstep.Execution.root_cause`. In other runs a job may end with a borrowed
failure, though only one peer has failed of itself (`Superstep.Execution.uneven_borrows`).
-/

namespace Superstep

variable {F M : Type}

/-- An error that a peer takes over from a call that failed. -/
def TrainingError.Borrowed (failure : TrainingError F) : Prop := ∃ error, failure = .peer error

/-! ### When messages are sent -/

namespace Dialogue

/-- **From this superstep on messages go to these peers only**, and none is sent in a superstep that
is 2 modulo 4. -/
def Timely (others : List PeerName) : Nat → Dialogue F M → Prop
  | _, [] => True
  | k, ⟨.sync, _⟩ :: rest => Timely others (k + 1) rest
  | k, ⟨.send receiver _, _⟩ :: rest => (receiver ∈ others ∧ k % 4 ≠ 2) ∧ Timely others k rest
  | k, _ :: rest => Timely others k rest

theorem timely_append {others : List PeerName} {k : Nat} {dialogue more : Dialogue F M} :
    Timely others k (dialogue ++ more) ↔
      dialogue.Timely others k ∧ Timely others (k + dialogue.barriers) more := by
  induction dialogue generalizing k with
  | nil => exact (true_and _).symm.to_iff
  | cons i rest ih =>
    obtain ⟨request, reply⟩ := i
    cases request with
    | sync =>
      have later : k + barriers (⟨.sync, reply⟩ :: rest) = k + 1 + barriers rest := by
        simp [barriers]
        omega
      rw [later]
      exact ih
    | send receiver message => exact (and_congr_right fun _ => ih).trans and_assoc.symm
    | read | reopen | drain | write => exact ih

/-- What is said first after something else is not sent out of time. -/
theorem Timely.send {others : List PeerName} {k : Nat} {before after : Dialogue F M}
    {receiver : PeerName} {message : M} {reply : Except PeerError Unit}
    (h : Timely others k (before ++ ⟨.send receiver message, reply⟩ :: after)) :
    receiver ∈ others ∧ (k + before.barriers) % 4 ≠ 2 :=
  (timely_append.mp h).2.1

/-- Messages are sent in time, and so many barriers are called at. -/
structure Takes (others : List PeerName) (k count : Nat) (dialogue : Dialogue F M) : Prop where
  timely : dialogue.Timely others k
  barriers_eq : dialogue.barriers = count

theorem Takes.append {others : List PeerName} {k count count' : Nat} {dialogue more : Dialogue F M}
    (h : dialogue.Takes others k count) (h' : more.Takes others (k + count) count') :
    Takes others k (count + count') (dialogue ++ more) where
  timely := timely_append.mpr ⟨h.timely, h.barriers_eq ▸ h'.timely⟩
  barriers_eq := by rw [barriers_append, h.barriers_eq, h'.barriers_eq]

end Dialogue

namespace Trainer

/-- The superstep that a part of the protocol begins in, modulo 4. -/
def residue : Phase → Nat
  | .bootstrap => 0
  | .cost => 1
  | .gradient => 3

section Takes

variable (trainer : Trainer F) (k : Nat)

theorem takes_reads (rows : List (Sample F)) :
    (Dialogue.reads rows).Takes trainer.seat.others k 0 := by
  induction rows with
  | nil => exact ⟨trivial, rfl⟩
  | cons row rest ih => exact ⟨ih.timely, ih.barriers_eq⟩

theorem takes_sync (superstep : Nat) : Dialogue.Takes trainer.seat.others k 1
    ([⟨.sync, .ok superstep⟩] : Dialogue F (Payload F)) :=
  ⟨trivial, rfl⟩

theorem takes_collect (superstep : Nat) (received : List (Envelope (Payload F))) :
    Dialogue.Takes trainer.seat.others k 1
      ([⟨.sync, .ok superstep⟩, ⟨.drain, received⟩] : Dialogue F (Payload F)) :=
  ⟨trivial, rfl⟩

theorem takes_rewind (superstep : Nat) :
    (Dialogue.rewind superstep : Dialogue F (Payload F)).Takes trainer.seat.others k 1 :=
  ⟨trivial, rfl⟩

theorem takes_records (theta : List F) (cost : F) :
    (trainer.records theta cost).Takes trainer.seat.others k 0 := by
  unfold records
  cases trainer.role <;> exact ⟨trivial, rfl⟩

variable {k}

theorem takes_tells (message : Payload F) (early : k % 4 ≠ 2) :
    (trainer.tells message).Takes trainer.seat.others k 0 := by
  -- the messages go to some of the others, one after the other
  have known (receivers : List PeerName) (h : receivers ⊆ trainer.seat.others) :
      Dialogue.Takes trainer.seat.others k 0 (receivers.map fun receiver =>
        (⟨.send receiver message, .ok ()⟩ : Interaction F (Payload F))) := by
    induction receivers with
    | nil => exact ⟨trivial, rfl⟩
    | cons receiver rest ih =>
      obtain ⟨known, more⟩ := List.cons_subset.mp h
      exact ⟨⟨⟨known, early⟩, (ih more).timely⟩, (ih more).barriers_eq⟩
  exact known _ (List.Subset.refl _)

theorem takes_exchanges (message : Payload F) (superstep : Nat)
    (received : List (Envelope (Payload F))) (early : k % 4 ≠ 2) :
    (trainer.exchanges message superstep received).Takes trainer.seat.others k 1 :=
  (trainer.takes_tells message early).append (trainer.takes_collect k superstep received)

end Takes

/-- **The protocol keeps to the times**: costs and gradients are sent when nobody is over with a
value. -/
theorem Protocol.takes {trainer : Trainer F} {phase : Phase} {dialogue : Dialogue F (Payload F)}
    {closing : Closing} (h : trainer.Protocol phase dialogue closing) :
    ∀ k, k % 4 = residue phase → ∃ count, dialogue.Takes trainer.seat.others k count ∧
      (closing = .converged → (k + count) % 4 = 2) := by
  induction h with
  | @propose row? theta superstep rest closing leads _ ih =>
    intro k hk
    change k % 4 = 0 at hk
    have probe : Dialogue.Takes trainer.seat.others k 0
        ([⟨.read, .ok row?⟩, ⟨.reopen, .ok ()⟩] : Dialogue F (Payload F)) := ⟨trivial, rfl⟩
    obtain ⟨count, more, last⟩ := ih (k + 1) (by simp only [residue]; omega)
    refine ⟨_, ((probe.append (trainer.takes_tells _ (by omega))).append
      (trainer.takes_sync k superstep)).append more, ?_⟩
    intro converged
    have := last converged
    omega
  | @await superstep received rest closing follows _ ih =>
    intro k hk
    change k % 4 = 0 at hk
    obtain ⟨count, more, last⟩ := ih (k + 1) (by simp only [residue]; omega)
    refine ⟨_, (trainer.takes_collect k superstep received).append more, fun converged => ?_⟩
    have := last converged
    omega
  | converge =>
    intro k hk
    change k % 4 = 1 at hk
    refine ⟨_, ((trainer.takes_reads k _).append
      (trainer.takes_exchanges _ _ _ (by omega))).append (trainer.takes_records _ _ _), ?_⟩
    omega
  | @diverge _ _ _ _ _ _ _ last =>
    intro k hk
    change k % 4 = 1 at hk
    refine ⟨_, (((trainer.takes_reads k _).append
      (trainer.takes_exchanges _ _ _ (by omega))).append (trainer.takes_records _ _ _)).append
        (trainer.takes_sync _ last), ?_⟩
    rintro ⟨⟩
  | goOn _ ih =>
    intro k hk
    change k % 4 = 1 at hk
    obtain ⟨count, more, last⟩ := ih (k + 2) (by simp only [residue]; omega)
    refine ⟨_, (((trainer.takes_reads k _).append
      (trainer.takes_exchanges _ _ _ (by omega))).append (trainer.takes_rewind _ _)).append
        more, fun converged => ?_⟩
    have := last converged
    omega
  | step _ ih =>
    intro k hk
    change k % 4 = 3 at hk
    obtain ⟨count, more, last⟩ := ih (k + 2) (by simp only [residue]; omega)
    refine ⟨_, ((((trainer.takes_reads k _).append
      (trainer.takes_exchanges _ _ _ (by omega))).append (trainer.takes_records _ _ _)).append
        (trainer.takes_rewind _ _)).append more, fun converged => ?_⟩
    have := last converged
    omega

variable [Scalar F]

/-- **What goes wrong with a peer in training can be traced.** -/
theorem traceable (trainer : Trainer F) :
    trainer.process.Traceable trainer.seat TrainingError.Borrowed (· % 4 = 2) where
  failed dialogue failure talks := by
    rintro ⟨error, rfl⟩
    rcases talks.cases_of_follows trainer.follows with
      ⟨-, ⟨language, speaks, -⟩, -⟩ | ⟨before, i, e, rfl, failed, -⟩
    · exact speaks.elim
    · exact ⟨i, by simp, by simp [failed]⟩
  value dialogue value talks := by
    rcases talks.cases_of_follows trainer.follows with
      ⟨-, ⟨language, speaks, within⟩, -⟩ | ⟨_, _, _, _, _, _, ended, _⟩
    · have whole : trainer.Protocol .bootstrap dialogue .converged :=
        List.append_nil dialogue ▸ within [] .converged speaks
      obtain ⟨count, takes, last⟩ := whole.takes 0 rfl
      simpa [takes.barriers_eq] using last rfl
    · cases ended
  send dialogue receiver message next talks := by
    rcases talks.cases_of_follows trainer.follows with
      ⟨-, ⟨language, speaks, within⟩, -⟩ | ⟨_, _, _, _, _, _, ended, _⟩
    · -- had the message been sent, there would have been a way to go on
      obtain ⟨rest, closing, left⟩ :=
        (speaks (.ok ()) rfl).inhabited trainer.follows.inhabited_of_settles
      obtain ⟨count, takes, -⟩ := (within _ closing left).takes 0 rfl
      obtain ⟨other, early⟩ := takes.timely.send
      exact ⟨List.mem_of_mem_filter other, by simpa using early⟩
    · cases ended

/-- Who could not be set to train says nothing. -/
theorem talks_error {failure : TrainingError F} {dialogue : Dialogue F (Payload F)}
    {program : Round F (Payload F) (Stage F) (TrainingError F) (Summary F)}
    (talks : (processOf (.error failure)).Talks dialogue program) :
    program = .done (.ok (.goOn .start)) ∨ program = .done (.error failure) := by
  induction talks with
  | start => exact .inl rfl
  | begin => exact .inr rfl
  | tell _ ih => rcases ih with ih | ih <;> cases ih
  | call _ _ ih => rcases ih with ih | ih <;> cases ih

/-- Who is set to train has its seat; who is not has settings that make no sense. -/
theorem cases_of_enlist (config : Config F) (model : Model F) (seat : Seat) :
    (∃ trainer, enlist config model seat = .ok trainer ∧ trainer.seat = seat) ∨
      ∃ failure, enlist config model seat = .error (.config failure) := by
  unfold enlist
  cases config.validate with
  | error failure => exact .inr ⟨failure, rfl⟩
  | ok config =>
    change (∃ trainer, Except.mapError _ (config.leader.elect seat.peers >>= _) = _ ∧ _) ∨
      ∃ failure, Except.mapError _ (config.leader.elect seat.peers >>= _) = _
    cases config.leader.elect (F := F) seat.peers with
    | error failure => exact .inr ⟨failure, rfl⟩
    | ok leader => exact .inl ⟨_, rfl, rfl⟩

/-- **What goes wrong in a training job can be traced.** -/
theorem traceable_enlist (config : Config F) (model : Model F) (seat : Seat) :
    (processOf (enlist config model seat)).Traceable seat TrainingError.Borrowed (· % 4 = 2) := by
  rcases cases_of_enlist config model seat with ⟨trainer, enlisted, rfl⟩ | ⟨failure, enlisted⟩
  · rw [enlisted]
    exact trainer.traceable
  · rw [enlisted]
    refine ⟨fun dialogue found talks taken => ?_, fun dialogue value talks => ?_,
      fun dialogue receiver message next talks => ?_⟩
    · obtain ⟨error, rfl⟩ := taken
      rcases talks_error talks with h | h <;> cases h
    · rcases talks_error talks with h | h <;> cases h
    · rcases talks_error talks with h | h <;> cases h

end Trainer

namespace Execution

variable [Scalar F]

/-- **What a training job that failed tells.** In every run, until the job has ended, whoever
receives a message that was refused has failed, and somebody has failed of itself; and so it is when
the job ends with a failure. A job that is run promptly ends with the values of all peers or with a
failure that a peer has by itself, and if nothing can happen any more and a peer has failed, with
the latter. The way `Execution.run` takes is one of these. -/
theorem root_cause (cluster : Cluster F) (config : Config F) (model : Model F) :
    (∀ transcript x, (training cluster config model).Transcribes transcript x →
      x.ending? = none →
        (∀ u ∈ transcript, ∀ error, u.interaction.failure? = some error →
          (∃ s ∈ x.stations, error = .disconnected s.seat.name ∧ s.HasFailed) ∧
            x.HasCause TrainingError.Borrowed) ∧
        ∀ t y ending, x.turn t = some y → y.ending? = some ending →
          (∃ values, ending = .values values) ∨ x.HasCause TrainingError.Borrowed) ∧
    (∀ transcript y, (training cluster config model).Promptly transcript y →
      (∀ ending, y.ending? = some ending → y.Ended ending ∧
        ((∃ values, ending = .values values) ∨ ending.IsOwn TrainingError.Borrowed)) ∧
      (y.Exhausted → (∃ s ∈ y.stations, s.HasFailed) →
        ∃ ending, y.ending? = some ending ∧ ending.IsOwn TrainingError.Borrowed)) ∧
    ∀ ending y, (training cluster config model).run = (.ended ending, y) → y.Ended ending ∧
      ((∃ values, ending = .values values) ∨ ending.IsOwn TrainingError.Borrowed) := by
  have traceable : ∀ seat ∈ cluster.seats,
      (Trainer.processOf (Trainer.enlist config model seat)).Traceable seat
        TrainingError.Borrowed (· % 4 = 2) :=
    fun seat _ => Trainer.traceable_enlist config model seat
  have ends {transcript : Transcript F (Payload F)}
      {y : Execution F (Payload F) (Stage F) (TrainingError F) (Summary F)}
      (run : (training cluster config model).Promptly transcript y)
      {ending : Ending (TrainingError F) (Summary F)} (ended : y.ending? = some ending) :
      y.Ended ending ∧
        ((∃ values, ending = .values values) ∨ ending.IsOwn TrainingError.Borrowed) :=
    ⟨run.transcribes.reaches.accounts.ended ending ended,
      (run.own_of_ending traceable).2 ending ended⟩
  refine ⟨fun transcript x run running => ⟨run.exists_cause traceable running,
    fun t y ending hy ended => run.hasCause_of_ending traceable running hy ended⟩,
    fun transcript y run => ⟨fun ending ended => ends run ended, fun exhausted failed => ?_⟩,
    fun ending y h => ?_⟩
  · obtain ⟨s, hs, failed⟩ := failed
    obtain ⟨ending, ended, failed⟩ :=
      run.transcribes.reaches.accounts.exists_ending exhausted hs failed
    refine ⟨ending, ended, (ends run ended).2.resolve_left ?_⟩
    rintro ⟨values, same⟩
    exact failed values same
  · obtain ⟨transcript, run, ended⟩ := exists_promptly_of_run h
    exact ends run ended

/-- How the peers are over that are. -/
def outcomes {M S ε α : Type} (x : Execution F M S ε α) : List (Option (Outcome ε α)) :=
  x.stations.map fun s =>
    match s.activity with
    | .leaving outcome | .gone outcome => some outcome
    | _ => none

/-- A leader whose rows have one feature, and a follower whose rows have two. -/
def unevenCluster : Cluster ℚ :=
  { Setting.line.cluster with
    partitions := [.ofRows 1 [⟨[1], 2⟩], .ofRows 2 [⟨[1, 2], 3⟩]]
    length_partitions := rfl }

/-- The two are to find a line. -/
def uneven : Execution ℚ (Payload ℚ) (Stage ℚ) (TrainingError ℚ) (Summary ℚ) :=
  training unevenCluster Setting.line.config Setting.line.model.model

/-- The follower finds its row too long, and is over. -/
def unevenTurns : List Turn :=
  List.replicate 7 (.step 0) ++ List.replicate 7 (.step 1) ++ List.replicate 2 (.step 0) ++
    List.replicate 5 (.step 1)

/-- The leader is refused, and this is reported. -/
def refusedTurns : List Turn := List.replicate 8 (.step 0)

/-- Whether all peers of a job that has ended are gone and have failed, and the follower has refused
a message. -/
def refusedAndGone (recited : Transcript ℚ (Payload ℚ) ×
    Execution ℚ (Payload ℚ) (Stage ℚ) (TrainingError ℚ) (Summary ℚ)) : Bool :=
  recited.1.any (·.interaction.failure? = some (.disconnected "b")) &&
  (recited.2.stations.all fun s => match s.activity with
    | .gone outcome => outcome.isFailure
    | _ => false) && recited.2.ending?.isSome

/-- If the follower is reported at once, the job ends with what it has failed of, although the
leader has been refused. If it is not, it has failed all the same. The way that `Execution.run`
takes comes to the former. -/
theorem root_cause_uneven :
    (∃ transcript y, uneven.Promptly transcript y ∧
      (∃ u ∈ transcript, u.interaction.failure? = some (.disconnected "b")) ∧
      ∃ ending, y.ending? = some ending ∧ ending.IsOwn TrainingError.Borrowed) ∧
    (∃ transcript x y, uneven.Transcribes transcript x ∧
      (∃ u ∈ transcript, u.interaction.failure? = some (.disconnected "b")) ∧
      (∃ s ∈ x.stations, .disconnected "b" = PeerError.disconnected s.seat.name ∧ s.HasFailed) ∧
      x.turn .note = some y ∧ y.ending? = some (.failed (.peer (.disconnected "b"))) ∧
      x.HasCause TrainingError.Borrowed) ∧
    ∃ y, uneven.run = (.ended (.failed (.dimensionMismatch "features" 2 1)), y) ∧
      y.Ended (.failed (.dimensionMismatch "features" 2 1)) := by
  obtain ⟨traced, prompt, ran⟩ :=
    root_cause unevenCluster Setting.line.config Setting.line.model.model
  refine ⟨?_, ?_, ?_⟩
  · let turns := unevenTurns ++ [.step 1] ++ refusedTurns ++ [.note]
    have played : (uneven.recite turns).map refusedAndGone = some true := by
      decide +kernel
    have ways : uneven.allGiveWay turns := by
      decide +kernel
    obtain ⟨⟨transcript, y⟩, run, same⟩ := Option.map_eq_some_iff.mp played
    simp only [refusedAndGone, Bool.and_eq_true, List.any_eq_true, List.all_eq_true,
      decide_eq_true_eq] at same
    obtain ⟨⟨refused, gone⟩, ended⟩ := same
    have run := promptly_of_recite run ways
    have gone : ∀ s ∈ y.stations, ∃ outcome, s.activity = .gone outcome ∧ outcome.isFailure := by
      intro s hs
      have := gone s hs
      split at this
      · exact ⟨_, ‹_›, this⟩
      · cases this
    obtain ⟨s, hs, -⟩ : ∃ s ∈ y.stations, s.seat.name = "a" :=
      List.mem_map.mp (run.transcribes.reaches.names_eq ▸ (by decide))
    obtain ⟨outcome, ha, failure⟩ := gone s hs
    have exhausted := exhausted_of_gone ended fun s hs => (gone s hs).imp fun _ h => h.1
    exact ⟨transcript, y, run, refused,
      (prompt transcript y run).2 exhausted ⟨s, hs, outcome, .inr ha, failure⟩⟩
  · have played : ((uneven.recite (unevenTurns ++ refusedTurns)).bind fun r =>
        (r.2.turn .note).map fun y => decide (
          (∃ u ∈ r.1, u.interaction.failure? = some (.disconnected "b")) ∧ r.2.ending? = none ∧
            y.ending? = some (.failed (.peer (.disconnected "b"))))) = some true := by
      decide +kernel
    obtain ⟨⟨transcript, x⟩, run, played⟩ := Option.bind_eq_some_iff.mp played
    obtain ⟨y, noted, same⟩ := Option.map_eq_some_iff.mp played
    obtain ⟨refused, running, ended⟩ := of_decide_eq_true same
    have run := transcribes_of_recite run
    obtain ⟨refuser, caused⟩ := traced transcript x run running
    obtain ⟨u, hu, failed⟩ := refused
    have cause := (caused _ y _ noted ended).resolve_left fun ⟨_, same⟩ => by cases same
    exact ⟨transcript, x, y, run, ⟨u, hu, failed⟩, (refuser u hu _ failed).1, noted, ended, cause⟩
  · have fate : uneven.run.1 = .ended (.failed (.dimensionMismatch "features" 2 1)) := by
      decide +kernel
    have same : uneven.run =
        (.ended (.failed (.dimensionMismatch "features" 2 1)), uneven.run.2) := Prod.ext fate rfl
    exact ⟨uneven.run.2, same, (ran _ _ same).1⟩

/-- **A job may end with a borrowed failure**, though the only peer that had failed when all calls
had gone well has failed of itself. -/
theorem uneven_borrows : ∃ before x after y, uneven.Transcribes before x ∧
    x.Transcribes after y ∧ (∀ u ∈ before, u.interaction.failure? = none) ∧
      x.outcomes = [none, some (.failed (.dimensionMismatch "features" 2 1))] ∧
        y.ending? = some (.failed (.peer (.disconnected "b"))) := by
  have played : ((uneven.recite unevenTurns).bind fun r =>
      (r.2.recite (refusedTurns ++ [.note])).map fun r' => decide (
        (∀ u ∈ r.1, u.interaction.failure? = none) ∧
        r.2.outcomes = [none, some (.failed (.dimensionMismatch "features" 2 1))] ∧
        r'.2.ending? = some (.failed (.peer (.disconnected "b"))))) = some true := by
    decide +kernel
  obtain ⟨⟨before, x⟩, run, played⟩ := Option.bind_eq_some_iff.mp played
  obtain ⟨⟨after, y⟩, run', same⟩ := Option.map_eq_some_iff.mp played
  obtain ⟨fine, outcomes, ended⟩ := of_decide_eq_true same
  exact ⟨before, x, after, y, transcribes_of_recite run, transcribes_of_recite run', fine, outcomes,
    ended⟩

end Execution

end Superstep
