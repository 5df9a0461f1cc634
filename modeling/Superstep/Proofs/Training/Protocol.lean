import Superstep.Proofs.Training.Exact
import Superstep.Proofs.Training.Rounds

/-!
# The protocol of training

What a peer in training may say to its surroundings, and in what order, does not depend on what
they are. The protocol (`Superstep.Trainer.Protocol`) has three parts, one for each kind of message.

| part | a peer says | and goes on with |
|---|---|---|
| bootstrap | the leader: one read, a reopening, its parameters to each other, the barrier | cost |
| | a follower: the barrier, a look into the inbox | cost |
| cost | reads to the end, its costs to each other, the barrier, a look into the inbox | |
| | – a record of the leader, if the costs are small enough | the end |
| | – a record of the leader and the barrier, if the costs went up | the end |
| | – a reopening and the barrier otherwise | gradient |
| gradient | reads to the end, its gradients to each other, the barrier, a look into the inbox | |
| | – a record of the leader, a reopening, the barrier | cost |

What happens in a round (`Superstep.Trainer.Happens`) is a piece of one of these parts, and what is
left of the part is to be said in the rounds that follow (`Superstep.Trainer.Happens.settled`).

`Superstep.Trainer.conforms` says that in any surroundings – whatever the rows, the messages that
arrive and the calls that fail – all a peer says is the beginning of something the protocol allows,
that a call that fails is its last, and that it ends with the error of that call.
-/

namespace Superstep

variable {F : Type}

/-- How a peer in training comes to the end of what it has to say. -/
inductive Closing
  | converged
  | diverged
  deriving DecidableEq, Repr

namespace Trainer

/-! ### The protocol -/

/-- **What a peer in training says from the beginning of a part of the protocol to the end**, if no
call fails. -/
inductive Protocol (trainer : Trainer F) : Phase → Language F (Payload F) Closing
  | propose {row? theta superstep rest closing} : trainer.role = .leader →
    Protocol trainer .cost rest closing →
    Protocol trainer .bootstrap ([⟨.read, .ok row?⟩, ⟨.reopen, .ok ()⟩] ++
      trainer.tells (.theta theta) ++ [⟨.sync, .ok superstep⟩] ++ rest) closing
  | await {superstep received rest closing} : trainer.role = .follower →
    Protocol trainer .cost rest closing →
    Protocol trainer .bootstrap ([⟨.sync, .ok superstep⟩, ⟨.drain, received⟩] ++ rest) closing
  | converge {rows sum count superstep received theta cost} :
    Protocol trainer .cost (.reads rows ++ trainer.exchanges (.cost sum count) superstep received ++
      trainer.records theta cost) .converged
  | diverge {rows sum count superstep received theta cost last} :
    Protocol trainer .cost (.reads rows ++ trainer.exchanges (.cost sum count) superstep received ++
      trainer.records theta cost ++ [⟨.sync, .ok last⟩]) .diverged
  | goOn {rows sum count superstep received next rest closing} :
    Protocol trainer .gradient rest closing →
    Protocol trainer .cost (.reads rows ++ trainer.exchanges (.cost sum count) superstep received ++
      .rewind next ++ rest) closing
  | step {rows values superstep received theta cost next rest closing} :
    Protocol trainer .cost rest closing →
    Protocol trainer .gradient (.reads rows ++
      trainer.exchanges (.gradient values) superstep received ++ trainer.records theta cost ++
        .rewind next ++ rest) closing

namespace Protocol

variable {trainer : Trainer F} {phase : Phase} {dialogue : Dialogue F (Payload F)}
  {closing : Closing}

/-- One more row may always be read where rows are read. -/
theorem cons_row (row : Sample F) (h : trainer.Protocol phase dialogue closing)
    (reading : phase ≠ .bootstrap) :
    trainer.Protocol phase (⟨.read, .ok (some row)⟩ :: dialogue) closing := by
  have reads (rows : List (Sample F)) : ⟨.read, .ok (some row)⟩ :: Dialogue.reads rows =
      Dialogue.reads (row :: rows) := rfl
  cases h with
  | propose | await => exact absurd rfl reading
  | converge =>
    simp only [List.append_assoc, ← List.cons_append, reads]
    simpa only [List.append_assoc] using converge
  | diverge =>
    simp only [List.append_assoc, ← List.cons_append, reads]
    simpa only [List.append_assoc] using diverge
  | goOn h =>
    simp only [List.append_assoc, ← List.cons_append, reads]
    simpa only [List.append_assoc] using goOn h
  | step h =>
    simp only [List.append_assoc, ← List.cons_append, reads]
    simpa only [List.append_assoc] using step h

end Protocol

/-- What calls are a peer's to make: only the leader proposes parameters and writes, and nobody
sends anything to itself. -/
def Allows (trainer : Trainer F) : Call F (Payload F) → Prop
  | .send receiver (.theta _) => receiver ≠ trainer.seat.name ∧ trainer.role = .leader
  | .send receiver _ => receiver ≠ trainer.seat.name
  | .write _ _ => trainer.role = .leader
  | .read | .reopen | .sync | .drain => True

section Allows

variable {trainer : Trainer F}

theorem allows_reads {rows : List (Sample F)} :
    ∀ i ∈ Dialogue.reads rows, trainer.Allows i.request := by
  intro i hi
  rcases List.mem_append.mp hi with hi | hi
  · obtain ⟨row, -, rfl⟩ := List.mem_map.mp hi
    trivial
  · obtain rfl := List.mem_singleton.mp hi
    trivial

theorem allows_rewind {superstep : Nat} :
    ∀ i ∈ Dialogue.rewind (F := F) superstep, trainer.Allows i.request := by
  simp [Dialogue.rewind, Allows]

theorem allows_tells {message : Payload F}
    (leads : ∀ values, message = .theta values → trainer.role = .leader) :
    ∀ i ∈ trainer.tells message, trainer.Allows i.request := by
  intro i hi
  obtain ⟨receiver, other, rfl⟩ := List.mem_map.mp hi
  have different : receiver ≠ trainer.seat.name := by
    rintro rfl
    exact trainer.seat.name_not_mem_others other
  cases message with
  | theta values => exact ⟨different, leads values rfl⟩
  | cost | gradient => exact different

theorem allows_exchanges {message : Payload F} {superstep : Nat}
    {received : List (Envelope (Payload F))} (plain : ∀ values, message ≠ .theta values) :
    ∀ i ∈ trainer.exchanges message superstep received, trainer.Allows i.request := by
  intro i hi
  rcases List.mem_append.mp hi with hi | hi
  · exact allows_tells (fun values h => absurd h (plain values)) i hi
  · simp only [List.mem_cons, List.not_mem_nil, or_false] at hi
    rcases hi with rfl | rfl <;> trivial

theorem allows_records {theta : List F} {cost : F} :
    ∀ i ∈ trainer.records theta cost, trainer.Allows i.request := by
  unfold records
  cases role : trainer.role <;> simp [Allows, role]

/-- **All that the protocol has a peer say is its own to say.** -/
theorem Protocol.allows {phase : Phase} {dialogue : Dialogue F (Payload F)} {closing : Closing}
    (h : trainer.Protocol phase dialogue closing) : ∀ i ∈ dialogue, trainer.Allows i.request := by
  induction h with
  | propose leads _ ih =>
    simp only [List.forall_mem_append]
    exact ⟨⟨⟨by simp [Allows], allows_tells fun _ _ => leads⟩, by simp [Allows]⟩, ih⟩
  | await _ _ ih =>
    simp only [List.forall_mem_append]
    exact ⟨by simp [Allows], ih⟩
  | converge =>
    simp only [List.forall_mem_append]
    exact ⟨⟨allows_reads, allows_exchanges (by simp)⟩, allows_records⟩
  | diverge =>
    simp only [List.forall_mem_append]
    exact ⟨⟨⟨allows_reads, allows_exchanges (by simp)⟩, allows_records⟩, by simp [Allows]⟩
  | goOn _ ih =>
    simp only [List.forall_mem_append]
    exact ⟨⟨⟨allows_reads, allows_exchanges (by simp)⟩, allows_rewind⟩, ih⟩
  | step _ ih =>
    simp only [List.forall_mem_append]
    exact ⟨⟨⟨⟨allows_reads, allows_exchanges (by simp)⟩, allows_records⟩, allows_rewind⟩, ih⟩

end Allows

/-! ### Rounds -/

variable (trainer : Trainer F) {language : Language F (Payload F) Closing}

/-- What a peer has to have said when it is over, though no call has failed: all of it if it ends
with a value or because the costs went up, and it never claims that a call failed. -/
def Last (result : Except (TrainingError F) (Summary F))
    (language : Language F (Payload F) Closing) : Prop :=
  match result with
  | .ok _ => language [] .converged
  | .error (.diverged ..) => language [] .diverged
  | .error (.peer _) => False
  | .error _ => language.Inhabited

/-- Where an error is found, not all need be said. -/
theorem last_of_found {failure : TrainingError F} (found : failure.Found)
    (h : language.Inhabited) : Last (.error failure) language := by
  cases failure <;> first | exact h | cases found

/-- How a round has to end. -/
abbrev Settled : Except (TrainingError F) (Progress (Stage F) (Summary F)) →
    Language F (Payload F) Closing → Prop :=
  Language.Settles (fun stage => trainer.Protocol (phaseOf stage)) Last

section Rounds

variable [Scalar F]

/-- There is always something left to be said. -/
theorem inhabited_protocol (phase : Phase) :
    Language.Inhabited (trainer.Protocol phase) := by
  have cost : Language.Inhabited (trainer.Protocol .cost) :=
    ⟨_, _, @Protocol.converge F trainer [] Scalar.zero 0 0 [] [] Scalar.zero⟩
  obtain ⟨rest, closing, h⟩ := cost
  match phase with
  | .cost => exact ⟨rest, closing, h⟩
  | .gradient =>
    exact ⟨_, _, @Protocol.step F trainer [] [] 0 [] [] Scalar.zero 0 rest closing h⟩
  | .bootstrap =>
    cases role : trainer.role with
    | leader => exact ⟨_, _, @Protocol.propose F trainer none [] 0 rest closing role h⟩
    | follower => exact ⟨_, _, @Protocol.await F trainer 0 [] rest closing role h⟩

variable {trainer} {stage : Stage F} {said : Dialogue F (Payload F)}

/-- **After what happens in a round there is something left to be said.** -/
theorem Happens.inhabited {ending : RoundEnd F} (happens : trainer.Happens stage said ending) :
    ((trainer.Protocol (phaseOf stage)).after said).Inhabited := by
  obtain ⟨costs, closing, cost⟩ := trainer.inhabited_protocol .cost
  obtain ⟨gradients, closing', gradient⟩ := trainer.inhabited_protocol .gradient
  cases happens with
  | agree agrees =>
    cases agrees with
    | propose role _ => exact ⟨costs, closing, .propose role cost⟩
    | adopt role _ => exact ⟨costs, closing, .await role cost⟩
  | unprobed role _ =>
    refine ⟨trainer.tells (.theta []) ++ [⟨.sync, .ok 0⟩] ++ costs, closing, ?_⟩
    rw [Language.after_apply, ← List.append_assoc, ← List.append_assoc]
    exact .propose role cost
  | forlorn role _ => exact ⟨costs, closing, .await role cost⟩
  | score | scoreMisfit | scoreless => exact ⟨costs, closing, cost.cons_row _ Phase.noConfusion⟩
  | slope | slopeMisfit | slopeless =>
    exact ⟨gradients, closing', gradient.cons_row _ Phase.noConfusion⟩
  | judge judgement =>
    cases judgement with
    | refused | empty =>
      refine ⟨trainer.records [] Scalar.zero, .converged, ?_⟩
      rw [Language.after_apply, List.append_nil]
      exact .converge
    | diverge =>
      refine ⟨[], .diverged, Language.after_apply_nil.mpr ?_⟩
      rw [← List.append_assoc]
      exact .diverge
    | converge => exact ⟨[], .converged, Language.after_apply_nil.mpr .converge⟩
    | goOn => exact ⟨gradients, closing', .goOn gradient⟩
  | step step =>
    cases step with
    | refused | misfit =>
      refine ⟨trainer.records [] Scalar.zero ++ .rewind 0 ++ costs, closing, ?_⟩
      rw [Language.after_apply, List.append_nil, ← List.append_assoc, ← List.append_assoc]
      exact .step cost
    | taken =>
      refine ⟨costs, closing, ?_⟩
      rw [Language.after_apply, ← List.append_assoc]
      exact .step cost

/-- **What happens in a round is what is to be said in it**, and what is left then is to be said
afterwards. -/
theorem Happens.settled {result : Except (TrainingError F) (Progress (Stage F) (Summary F))}
    (happens : trainer.Happens stage said (some result)) :
    trainer.Settled result ((trainer.Protocol (phaseOf stage)).after said) := by
  have inhabited := happens.inhabited
  cases happens with
  | agree agrees =>
    intro more closing allowed
    cases agrees with
    | propose role _ => exact .propose role allowed
    | adopt role _ => exact .await role allowed
  | unprobed | scoreMisfit | slopeMisfit => exact inhabited
  | forlorn _ adopted => exact last_of_found (Bootstrap.found_of_adopt adopted) inhabited
  | score | slope => exact fun more closing allowed => allowed.cons_row _ Phase.noConfusion
  | judge judgement =>
    cases judgement with
    | refused refused => exact last_of_found (Totals.found_of_cost refused) inhabited
    | empty => exact inhabited
    | diverge _ _ judged =>
      obtain ⟨alpha, iteration, cost, previous, rfl⟩ := Descent.diverged_of_judge judged
      refine Language.after_apply_nil.mpr ?_
      rw [← List.append_assoc]
      exact .diverge
    | converge => exact Language.after_apply_nil.mpr .converge
    | goOn => exact fun more closing allowed => .goOn allowed
  | step step =>
    cases step with
    | refused refused => exact last_of_found (Totals.found_of_gradient refused) inhabited
    | misfit _ updated => exact last_of_found (Descent.found_of_update updated) inhabited
    | taken =>
      intro more closing allowed
      rw [Language.after_apply, ← List.append_assoc]
      exact .step allowed

/-- **Every round says what is left to be said.** -/
theorem speaks_round (stage : Stage F) :
    (trainer.round stage).run.Speaks trainer.Settled (trainer.Protocol (phaseOf stage)) :=
  (tells_round stage).translate (fun _ _ happens => happens.settled)
    fun _ _ happens => happens.inhabited

variable (trainer) in
/-- **A peer in training follows the protocol.** -/
theorem follows : trainer.process.Follows .peer
    (fun stage => trainer.Protocol (phaseOf stage)) Last where
  speaks := speaks_round
  givesUp := trainer.givesUp_round
  inhabited stage := trainer.inhabited_protocol (phaseOf stage)
  final result language last := by
    match result, last with
    | .ok _, last => exact ⟨_, _, last⟩
    | .error (.diverged ..), last => exact ⟨_, _, last⟩
    | .error (.config _), last | .error .dimensionProbe, last
    | .error (.dimensionMismatch ..), last | .error (.unexpectedMessage ..), last
    | .error .missingTheta, last | .error .emptyDataset, last => exact last

end Rounds

/-! ### Conformance -/

section Conforms

variable {trainer} {dialogue : Dialogue F (Payload F)}
  {program : Round F (Payload F) (Stage F) (TrainingError F) (Summary F)}

/-- **What a peer in training has said, and how it goes on.** -/
structure Conforms (trainer : Trainer F) (dialogue : Dialogue F (Payload F))
    (program : Round F (Payload F) (Stage F) (TrainingError F) (Summary F)) : Prop where
  /-- All calls are the beginning of something the protocol allows, and those that did not fail were
  answered as it says. -/
  begins : ∃ whole closing, trainer.Protocol .bootstrap whole closing ∧
    dialogue.map (·.request) <+: whole.map (·.request) ∧
      dialogue.filter (·.failure?.isNone) <+: whole
  /-- Only the leader proposes parameters and writes. -/
  follower : trainer.role = .follower → ∀ i ∈ dialogue,
    (∀ theta cost, i.request ≠ .write theta cost) ∧
      ∀ receiver values, i.request ≠ .send receiver (.theta values)
  /-- Nobody sends anything to itself. -/
  others : ∀ i ∈ dialogue, ∀ message, i.request ≠ .send trainer.seat.name message
  /-- A call that fails is the last one, and its error is what the peer ends with. -/
  failed : ∀ before i after error, dialogue = before ++ i :: after → i.failure? = some error →
    after = [] ∧ program = .done (.error (.peer error))
  /-- Nothing else makes a peer end with an error of its surroundings. -/
  peer : ∀ error, program = .done (.error (.peer error)) →
    ∃ before i, dialogue = before ++ [i] ∧ i.failure? = some error
  /-- Who ends with a value has said all. -/
  value : ∀ value, program = .done (.ok (.finish value)) →
    trainer.Protocol .bootstrap dialogue .converged
  /-- Who ends because the costs went up has said all, the last barrier included. -/
  diverged : ∀ alpha iteration cost previous,
    program = .done (.error (.diverged alpha iteration cost previous)) →
      trainer.Protocol .bootstrap dialogue .diverged

/-- In what the protocol allows, everything is allowed that it begins with. -/
theorem allows_of_prefix {whole : Dialogue F (Payload F)} {closing : Closing}
    (h : trainer.Protocol .bootstrap whole closing)
    (begins : dialogue.map (·.request) <+: whole.map (·.request)) :
    ∀ i ∈ dialogue, trainer.Allows i.request := by
  intro i hi
  obtain ⟨j, hj, same⟩ := List.mem_map.mp (begins.subset (List.mem_map_of_mem hi))
  exact same ▸ h.allows j hj

/-- A follower's calls are not those of a leader. -/
theorem not_leading_of_allows {request : Call F (Payload F)} (h : trainer.Allows request)
    (follows : trainer.role = .follower) :
    (∀ theta cost, request ≠ .write theta cost) ∧
      ∀ receiver values, request ≠ .send receiver (.theta values) := by
  constructor
  · rintro theta cost rfl
    cases follows.symm.trans h
  · rintro receiver values rfl
    cases follows.symm.trans h.2

theorem ne_send_self_of_allows {request : Call F (Payload F)} (h : trainer.Allows request)
    (message : Payload F) : request ≠ .send trainer.seat.name message := by
  rintro rfl
  cases message with
  | theta => exact h.1 rfl
  | cost | gradient => exact h rfl

/-- **What is said up to a failure conforms.** -/
theorem conforms_of_gaveUp (gaveUp : Process.GaveUp .peer (trainer.Protocol .bootstrap)
      dialogue program) : trainer.Conforms dialogue program := by
  obtain ⟨before, last, error, rfl, failed, fine, rfl, reply, more, closing, allowed⟩ := gaveUp
  have begins : (before ++ [last]).map (·.request) <+:
      (before ++ ⟨last.request, reply⟩ :: more).map (·.request) := by
    simp
  have allows := allows_of_prefix allowed begins
  refine
    { begins := ⟨_, closing, allowed, begins, ?_⟩
      follower := fun follows i hi => not_leading_of_allows (allows i hi) follows
      others := fun i hi => ne_send_self_of_allows (allows i hi)
      failed := fun before' i after error' same failed' => ?_
      peer := fun error' ended => ?_
      value := fun value ended => by cases ended
      diverged := fun alpha iteration cost previous ended => by cases ended }
  · have granted : before.filter (·.failure?.isNone) = before :=
      List.filter_eq_self.mpr fun i hi => by rw [fine i hi]; rfl
    rw [List.filter_append, granted]
    simp [failed]
  · -- only the last call has failed
    rcases List.eq_nil_or_concat after with rfl | ⟨after, j, rfl⟩
    · obtain ⟨-, same⟩ := List.append_inj' same rfl
      obtain rfl := (List.cons.inj same).1
      obtain rfl := Option.some.inj (failed.symm.trans failed')
      exact ⟨rfl, rfl⟩
    · rw [List.concat_eq_append, ← List.cons_append, ← List.append_assoc] at same
      obtain ⟨rfl, -⟩ := List.append_inj' same rfl
      rw [fine i (by simp)] at failed'
      cases failed'
  · cases ended
    exact ⟨before, last, rfl, failed⟩

end Conforms

variable [Scalar F] {trainer} {dialogue : Dialogue F (Payload F)}
  {program : Round F (Payload F) (Stage F) (TrainingError F) (Summary F)}

/-- **What is said without a failure conforms.** -/
theorem conforms_of_onScript (onScript : Process.OnScript .peer
      (fun stage => trainer.Protocol (phaseOf stage)) Last (trainer.Protocol .bootstrap)
      dialogue program) : trainer.Conforms dialogue program := by
  obtain ⟨fine, ⟨language, speaks, within⟩, -⟩ := onScript
  obtain ⟨rest, closing, left⟩ := speaks.inhabited trainer.follows.inhabited_of_settles
  have allowed := within rest closing left
  have begins : dialogue.map (·.request) <+: (dialogue ++ rest).map (·.request) := by
    simp
  have allows := allows_of_prefix allowed begins
  refine
    { begins := ⟨_, closing, allowed, begins, ?_⟩
      follower := fun follows i hi => not_leading_of_allows (allows i hi) follows
      others := fun i hi => ne_send_self_of_allows (allows i hi)
      failed := fun before i after error same failed => ?_
      peer := fun error ended => ?_
      value := fun value ended => ?_
      diverged := fun alpha iteration cost previous ended => ?_ }
  · have granted : dialogue.filter (·.failure?.isNone) = dialogue :=
      List.filter_eq_self.mpr fun i hi => by rw [fine i hi]; rfl
    rw [granted]
    exact List.prefix_append ..
  · rw [fine i (by simp [same])] at failed
    cases failed
  · subst ended
    exact speaks.elim
  · subst ended
    simpa using within [] .converged speaks
  · subst ended
    simpa using within [] .diverged speaks

/-- **A peer keeps to the protocol in any surroundings.** Whatever its calls are answered with, what
it says is the beginning of something the protocol allows; the first call that fails is its last,
and it ends with the error of that call. -/
theorem conforms (talks : trainer.process.Talks dialogue program) :
    trainer.Conforms dialogue program := by
  rcases talks.cases_of_follows trainer.follows with onScript | gaveUp
  · exact conforms_of_onScript onScript
  · exact conforms_of_gaveUp gaveUp

/-- A leader of two. -/
def first : Trainer ℚ where
  config := { initialTheta := 0, alpha := 1, threshold := 0, model := .linear, leader := .smallest }
  model := Linear.model
  seat := { name := "a", index := 0, peers := ["a", "b"] }
  leader := "a"

/-- Surroundings with one row, in which the second barrier cannot be passed. -/
def impasse : Rehearsal ℚ (Payload ℚ) where
  rows := [⟨[1], 2⟩]
  deliveries := []
  faults := []
  barriers := 1

/-- Where the second barrier cannot be passed, a leader proposes parameters, reads its row to the
end, sends its costs and ends with the error of the barrier. -/
theorem conforms_first : ∃ dialogue program, first.process.Talks dialogue program ∧
    first.Conforms dialogue program ∧
      program = .done (.error (.peer (.invalidCluster "sync limit"))) ∧
      Rehearsal.granted dialogue =
        [.read, .reopen, .send "b" (.theta [0]), .sync, .read, .read, .send "b" (.cost 2 1)] := by
  have played : (impasse.run first.process).1 =
        .error (.peer (.invalidCluster "sync limit")) ∧
      (impasse.run first.process).2.made =
        [.read, .reopen, .send "b" (.theta [0]), .sync, .read, .read, .send "b" (.cost 2 1)] := by
    decide +kernel
  obtain ⟨dialogue, talks, made⟩ := Rehearsal.talks_of_rounds (r := impasse) .start rfl
    (congrArg Rehearsal.left? played.1)
  exact ⟨_, _, talks, conforms talks, rfl, made.symm.trans played.2⟩

end Trainer

end Superstep
