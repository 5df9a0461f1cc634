import Superstep.Proofs.Peer.Rounds
import Superstep.Proofs.Training.Aggregation
import Superstep.Proofs.Training.Speech

/-!
# What happens in a round of training

A round of training is described in full, as long as no call fails (`Superstep.Trainer.Happens`):
one case for each way it can go, with what is said in it, and how it ends. A round in which the
costs of all are added up goes on as their mean decides (`Superstep.Trainer.Judgement`), and one in
which the gradients are with a step or without one (`Superstep.Trainer.Step`).

| stage | a round is | and leads to |
|---|---|---|
| `start` | agreeing on the first parameters | `scoring`, or an error |
| `scoring` | one more row | `scoring`, an error, or nothing if the model gives up |
| | the end of the rows, an exchange, a judgement | `descending`, an end, or an error |
| `descending` | one more row | `descending`, an error, or nothing if the model gives up |
| | the end of the rows, an exchange, a step | `scoring`, or an error |

If a call fails, what was said before it is the beginning of such a round, and the error of the call
ends the run (`Superstep.Trainer.cases_round`). So a property of all runs is shown by going through
the cases once for what one round preserves, and by following the rounds from there.
-/

namespace Superstep

open TrainingProgram

variable {F : Type}

/-- How a round of training ends, unless it breaks off. -/
abbrev RoundEnd (F : Type) := Option (Except (TrainingError F) (Progress (Stage F) (Summary F)))

/-- What is carried from one iteration to the next. -/
def Stage.state? : Stage F → Option (RunState F)
  | .start => none
  | .scoring state _ | .descending state _ _ _ => some state

/-! ### Errors that are found -/

/-- An error that a peer finds in what it has read or received, before it has judged any cost. -/
def TrainingError.Found : TrainingError F → Prop
  | .peer _ | .diverged .. => False
  | _ => True

section Found

variable {me : PeerName} {failure : TrainingError F}

/-- What a follower can find wrong with its inbox. -/
theorem Bootstrap.error_of_adopt {held : Option (List F)} {received : List (Envelope (Payload F))}
    (h : adoptAfter me held received = .error failure) :
    failure = .missingTheta ∨ ∃ kind, failure = .unexpectedMessage .bootstrap kind := by
  fun_induction adoptAfter me held received with
  | case1 => cases h
  | case2 => cases h; exact .inl rfl
  | case3 _ _ _ ih | case4 _ _ _ _ _ ih => exact ih h
  | case5 => cases h; exact .inr ⟨_, rfl⟩

theorem Bootstrap.found_of_adopt {held : Option (List F)} {received : List (Envelope (Payload F))}
    (h : adoptAfter me held received = .error failure) : failure.Found := by
  rcases error_of_adopt h with rfl | ⟨kind, rfl⟩ <;> trivial

variable [Scalar F]

/-- What can be wrong where costs are expected. -/
theorem Totals.error_of_cost {own : PartialCost F} {received : List (Envelope (Payload F))}
    (h : Totals.cost me own received = .error failure) :
    ∃ kind, failure = .unexpectedMessage .cost kind := by
  obtain ⟨_, ⟨_, message⟩, _, -, -, fault, -⟩ := (impartial_cost.first _ _ _ _).mp h
  cases message <;> cases fault <;> exact ⟨_, rfl⟩

theorem Totals.found_of_cost {own : PartialCost F} {received : List (Envelope (Payload F))}
    (h : Totals.cost me own received = .error failure) : failure.Found := by
  obtain ⟨kind, rfl⟩ := error_of_cost h
  trivial

/-- What can be wrong where gradients are expected. -/
theorem Totals.error_of_gradient {own : List F} {received : List (Envelope (Payload F))}
    (h : Totals.gradient me own received = .error failure) :
    (∃ kind, failure = .unexpectedMessage .gradient kind) ∨
      ∃ got, failure = .dimensionMismatch "gradient" got own.length := by
  obtain ⟨_, ⟨_, message⟩, _, -, -, fault, -⟩ :=
    ((impartial_gradient own.length).first _ _ _ _).mp h
  cases message with
  | gradient values =>
    simp only [Payload.gradientFault?] at fault
    split at fault <;> cases fault
    exact .inr ⟨_, rfl⟩
  | theta | cost => cases fault; exact .inl ⟨_, rfl⟩

theorem Totals.found_of_gradient {own : List F} {received : List (Envelope (Payload F))}
    (h : Totals.gradient me own received = .error failure) : failure.Found := by
  rcases error_of_gradient h with ⟨kind, rfl⟩ | ⟨got, rfl⟩ <;> trivial

theorem Descent.found_of_update {alpha : F} {theta gradient : List F}
    (h : Descent.update alpha theta gradient = .error failure) : failure.Found := by
  unfold Descent.update at h
  split at h <;> cases h
  trivial

/-- What is judged too high is reported as such. -/
theorem Descent.diverged_of_judge {config : Config F} {state : RunState F} {mean : F}
    (h : Descent.judge config state mean = .error failure) :
    ∃ alpha iteration cost previous, failure = .diverged alpha iteration cost previous := by
  unfold Descent.judge at h
  split at h
  · cases h
    exact ⟨_, _, _, _, rfl⟩
  · split at h <;> cases h

end Found

namespace Trainer

/-- The part of the protocol that a stage belongs to. -/
def phaseOf : Stage F → Phase
  | .start => .bootstrap
  | .scoring .. => .cost
  | .descending .. => .gradient

/-! ### What happens -/

variable [Scalar F]

/-- **How the first parameters come about**: the leader proposes as many as its first row has
features, and a follower adopts what it was sent. -/
inductive Agrees (trainer : Trainer F) : Dialogue F (Payload F) → List F → Prop
  | propose {row superstep} : trainer.role = .leader → row.features ≠ [] →
    Agrees trainer
      ([⟨.read, .ok (some row)⟩, ⟨.reopen, .ok ()⟩] ++
        trainer.tells (.theta (List.replicate row.features.length trainer.config.initialTheta)) ++
          [⟨.sync, .ok superstep⟩])
      (List.replicate row.features.length trainer.config.initialTheta)
  | adopt {superstep received theta} : trainer.role = .follower →
    Bootstrap.adopt trainer.seat.name received = .ok theta →
    Agrees trainer [⟨.sync, .ok superstep⟩, ⟨.drain, received⟩] theta

/-- **What follows when the costs of all have been added up**, or when they could not be: what is
said, and how the round ends. -/
inductive Judgement (trainer : Trainer F) (state : RunState F)
    (sum : Except (TrainingError F) (PartialCost F)) : Language F (Payload F) (RoundEnd F)
  | refused {failure} : sum = .error failure →
    Judgement trainer state sum [] (some (.error failure))
  | empty {total} : sum = .ok total → total.mean? = none →
    Judgement trainer state sum [] (some (.error .emptyDataset))
  | diverge {total mean failure last} : sum = .ok total → total.mean? = some mean →
    Descent.judge trainer.config state mean = .error failure →
    Judgement trainer state sum (trainer.records state.theta state.cost ++ [⟨.sync, .ok last⟩])
      (some (.error failure))
  | converge {total mean cost} : sum = .ok total → total.mean? = some mean →
    Descent.judge trainer.config state mean = .ok (.converged cost) →
    Judgement trainer state sum (trainer.records state.theta cost)
      (some (.ok (.finish
        { theta := state.theta, cost, iterations := state.iteration + 1, examples := total.count,
          role := trainer.role })))
  | goOn {total mean cost next} : sum = .ok total → total.mean? = some mean →
    Descent.judge trainer.config state mean = .ok (.goOn cost) →
    Judgement trainer state sum (.rewind next)
      (some (.ok (.goOn (.descending state cost total.count (Pass.flat state.theta)))))

/-- **What follows when the gradients of all have been added up**, or when they could not be. -/
inductive Step (trainer : Trainer F) (state : RunState F) (cost : F) (examples : UInt64)
    (sum : Except (TrainingError F) (List F)) : Language F (Payload F) (RoundEnd F)
  | refused {failure} : sum = .error failure →
    Step trainer state cost examples sum [] (some (.error failure))
  | misfit {gradient failure} : sum = .ok gradient →
    Descent.update trainer.config.alpha state.theta gradient = .error failure →
    Step trainer state cost examples sum [] (some (.error failure))
  | taken {gradient theta next} : sum = .ok gradient →
    Descent.update trainer.config.alpha state.theta gradient = .ok theta →
    Step trainer state cost examples sum (trainer.records theta cost ++ .rewind next)
      (some (.ok (.goOn
        (.scoring { theta, cost, iteration := state.iteration + 1, examples } .zero))))

/-- **What happens in a round if no call fails**: what is said, and how the round ends. -/
inductive Happens (trainer : Trainer F) : Stage F → Language F (Payload F) (RoundEnd F)
  | agree {said theta} : trainer.Agrees said theta →
    Happens trainer .start said (some (.ok (.goOn (.scoring (.start theta) .zero))))
  | unprobed {row?} : trainer.role = .leader → (∀ row ∈ row?, row.features = []) →
    Happens trainer .start [⟨.read, .ok row?⟩, ⟨.reopen, .ok ()⟩] (some (.error .dimensionProbe))
  | forlorn {superstep received failure} : trainer.role = .follower →
    Bootstrap.adopt trainer.seat.name received = .error failure →
    Happens trainer .start [⟨.sync, .ok superstep⟩, ⟨.drain, received⟩] (some (.error failure))
  | score {state sum row cost} : row.features.length = state.theta.length →
    trainer.model.cost row.features row.label state.theta = some cost →
    Happens trainer (.scoring state sum) [⟨.read, .ok (some row)⟩]
      (some (.ok (.goOn (.scoring state (sum.add cost)))))
  | scoreMisfit {state sum row} : row.features.length ≠ state.theta.length →
    Happens trainer (.scoring state sum) [⟨.read, .ok (some row)⟩]
      (some (.error (.dimensionMismatch "features" row.features.length state.theta.length)))
  | scoreless {state sum row} : row.features.length = state.theta.length →
    trainer.model.cost row.features row.label state.theta = none →
    Happens trainer (.scoring state sum) [⟨.read, .ok (some row)⟩] none
  | judge {state sum superstep received said ending} :
    trainer.Judgement state (Totals.cost trainer.seat.name sum received) said ending →
    Happens trainer (.scoring state sum)
      (.reads [] ++ trainer.exchanges (.cost sum.sum sum.count) superstep received ++ said) ending
  | slope {state cost examples sum row prediction} :
    row.features.length = state.theta.length →
    trainer.model.hypothesis state.theta row.features = some prediction →
    Happens trainer (.descending state cost examples sum) [⟨.read, .ok (some row)⟩]
      (some (.ok (.goOn (.descending state cost examples
        (Pass.addGradient (prediction - row.label) row.features sum)))))
  | slopeMisfit {state cost examples sum row} : row.features.length ≠ state.theta.length →
    Happens trainer (.descending state cost examples sum) [⟨.read, .ok (some row)⟩]
      (some (.error (.dimensionMismatch "features" row.features.length state.theta.length)))
  | slopeless {state cost examples sum row} : row.features.length = state.theta.length →
    trainer.model.hypothesis state.theta row.features = none →
    Happens trainer (.descending state cost examples sum) [⟨.read, .ok (some row)⟩] none
  | step {state cost examples sum superstep received said ending} :
    trainer.Step state cost examples (Totals.gradient trainer.seat.name sum received) said
      ending →
    Happens trainer (.descending state cost examples sum)
      (.reads [] ++ trainer.exchanges (.gradient sum) superstep received ++ said) ending

variable {trainer : Trainer F}

/-- A program says what happens, to the end. -/
abbrev Tells {R : Type} (program : TrainingProgram F R)
    (language : Language F (Payload F) (Option (Except (TrainingError F) R))) : Prop :=
  program.run.Speaks (fun result language => language [] (some result)) language

/-- The first parameters are agreed on, or are not. -/
theorem tells_start : Tells (trainer.round .start) (trainer.Happens .start) := by
  cases role : trainer.role with
  | leader =>
    simp only [Tells, round, Bootstrap.agree, role, Bootstrap.propose, Bootstrap.probe,
      Program.speaks_run_bind, speaks_say, speaks_read, speaks_reopen]
    intro row?
    rcases row? with _ | ⟨_ | ⟨feature, more⟩, label⟩
    · exact .unprobed role (by simp)
    · exact .unprobed role (by simp)
    · simp only [speaks_tell, speaks_sync]
      intro superstep
      have full : (⟨feature :: more, label⟩ : Sample F).features ≠ [] := List.cons_ne_nil _ _
      exact .agree (.propose role full)
  | follower =>
    simp only [Tells, round, Bootstrap.agree, role, Bootstrap.await, Program.speaks_run_bind,
      speaks_say, speaks_sync, speaks_drain, speaks_sayAll, speaks_mk_done]
    intro superstep received
    cases adopted : Bootstrap.adopt trainer.seat.name received with
    | ok theta => exact .agree (.adopt role adopted)
    | error failure => exact .forlorn role adopted

/-- The costs of all are added up and judged. -/
theorem tells_settle (state : RunState F) (sum : PartialCost F) :
    Program.Speaks (fun result language => language [] (some result))
      (trainer.settle state sum).run
        ((trainer.Happens (.scoring state sum)).after (.reads [])) := by
  simp only [settle, Program.speaks_run_bind, speaks_totalCost, Language.after_after]
  intro superstep received
  -- from here on it is a matter of judgement
  have judge {said : Dialogue F (Payload F)} {ending : RoundEnd F}
      (h : trainer.Judgement state (Totals.cost trainer.seat.name sum received) said ending) :
      ((trainer.Happens (.scoring state sum)).after (.reads [] ++
        trainer.exchanges (.cost sum.sum sum.count) superstep received)) said ending := .judge h
  generalize (trainer.Happens (.scoring state sum)).after _ = language at judge
  cases totalled : Totals.cost trainer.seat.name sum received with
  | error failure => exact judge (.refused totalled)
  | ok total =>
    cases averaged : total.mean? with
    | none =>
      simp only [averaged]
      exact judge (.empty totalled averaged)
    | some mean =>
      simp only [averaged, Program.speaks_run_bind, speaks_say]
      cases judged : Descent.judge trainer.config state mean with
      | error failure =>
        simp only [Program.speaks_run_bind, speaks_conclude, speaks_sync, Language.after_after]
        exact fun last => Language.after_apply_nil.mpr (judge (.diverge totalled averaged judged))
      | ok verdict =>
        cases verdict with
        | converged cost =>
          simp only [Program.speaks_run_bind, speaks_say, speaks_conclude]
          exact Language.after_apply_nil.mpr (judge (.converge totalled averaged judged))
        | goOn cost =>
          simp only [Program.speaks_run_bind, speaks_say, speaks_rewind]
          exact fun next => Language.after_apply_nil.mpr (judge (.goOn totalled averaged judged))

/-- The gradients of all are added up, and a step is taken. -/
theorem tells_descend (state : RunState F) (cost : F) (examples : UInt64) (sum : List F) :
    Program.Speaks (fun result language => language [] (some result))
      (trainer.descend state cost examples sum).run
      ((trainer.Happens (.descending state cost examples sum)).after (.reads [])) := by
  simp only [descend, Program.speaks_run_bind, speaks_totalGradient, speaks_mk_done,
    Language.after_after]
  intro superstep received
  have step {said : Dialogue F (Payload F)} {ending : RoundEnd F}
      (h : trainer.Step state cost examples (Totals.gradient trainer.seat.name sum received) said
        ending) : ((trainer.Happens (.descending state cost examples sum)).after (.reads [] ++
        trainer.exchanges (.gradient sum) superstep received)) said ending := .step h
  generalize (trainer.Happens (.descending state cost examples sum)).after _ = language at step
  cases totalled : Totals.gradient trainer.seat.name sum received with
  | error failure => exact step (.refused totalled)
  | ok gradient =>
    cases updated : Descent.update trainer.config.alpha state.theta gradient with
    | error failure =>
      simp only [updated]
      exact step (.misfit totalled updated)
    | ok theta =>
      simp only [updated, speaks_say, speaks_record, speaks_rewind, Language.after_after]
      exact fun next => Language.after_apply_nil.mpr (step (.taken totalled updated))

/-- **A round says what happens in it.** -/
theorem tells_round (stage : Stage F) :
    (trainer.round stage).run.Speaks (fun result language => language [] (some result))
      (trainer.Happens stage) := by
  cases stage with
  | start => exact tells_start
  | scoring state sum =>
    simp only [round, Pass.scoreNext, Pass.checkFeatures, Program.speaks_run_bind, speaks_read]
    intro row?
    cases row? with
    | none => exact tells_settle state sum
    | some row =>
      simp only [Program.speaks_run_bind]
      split
      · next fits =>
        cases scored : trainer.model.cost row.features row.label state.theta with
        | some cost => exact Language.after_apply_nil.mpr (.score fits scored)
        | none => exact ⟨[], none, .scoreless fits scored⟩
      · next misfit => exact .scoreMisfit misfit
  | descending state cost examples sum =>
    simp only [round, Pass.slopeNext, Pass.checkFeatures, Program.speaks_run_bind, speaks_read]
    intro row?
    cases row? with
    | none => exact tells_descend state cost examples sum
    | some row =>
      simp only [Program.speaks_run_bind]
      split
      · next fits =>
        cases predicted : trainer.model.hypothesis state.theta row.features with
        | some prediction => exact Language.after_apply_nil.mpr (.slope fits predicted)
        | none => exact ⟨[], none, .slopeless fits predicted⟩
      · next misfit => exact .slopeMisfit misfit

/-- **What can be said in a round, whatever fails.** As long as no call fails, it is the beginning
of something that happens; the first call that fails ends the run. -/
theorem cases_round {stage : Stage F} {said : Dialogue F (Payload F)}
    {program : Round F (Payload F) (Stage F) (TrainingError F) (Summary F)}
    (told : (trainer.process.round stage).Says said program) :
    ((∀ i ∈ said, i.failure? = none) ∧
      (∀ result, program = .done result → trainer.Happens stage said (some result)) ∧
        ∃ more ending, trainer.Happens stage (said ++ more) ending) ∨
      ∃ before i error, said = before ++ [i] ∧ i.failure? = some error ∧
        (∀ j ∈ before, j.failure? = none) ∧ program = .done (.error (.peer error)) ∧
          ∃ reply more ending,
            trainer.Happens stage (before ++ ⟨i.request, reply⟩ :: more) ending := by
  have inhabited (result : Except (TrainingError F) (Progress (Stage F) (Summary F)))
      (language : Language F (Payload F) (RoundEnd F)) (told : language [] (some result)) :
      language.Inhabited := ⟨_, _, told⟩
  rcases told.cases (tells_round stage) (trainer.givesUp_round stage) with
    ⟨fine, speaks⟩ | ⟨before, i, error, same, failed, fine, finished, next, speaks⟩
  · refine .inl ⟨fine, fun result finished => ?_, speaks.inhabited inhabited⟩
    subst finished
    exact Language.after_apply_nil.mp speaks
  · obtain ⟨reply, granted⟩ := i.request.exists_reply
    obtain ⟨more, ending, happens⟩ := (speaks reply granted).inhabited inhabited
    refine .inr ⟨before, i, error, same, failed, fine, finished, reply, more, ending, ?_⟩
    simpa [Language.after] using happens

/-- All that is asked for in a round is the beginning of what happens in one. -/
theorem exists_happens_of_told {stage : Stage F} {said : Dialogue F (Payload F)}
    {program : Round F (Payload F) (Stage F) (TrainingError F) (Summary F)}
    (told : (trainer.process.round stage).Says said program) :
    ∃ whole ending, trainer.Happens stage whole ending ∧
      said.map (·.request) <+: whole.map (·.request) := by
  rcases cases_round told with
    ⟨-, -, more, ending, happens⟩ | ⟨before, i, -, rfl, -, -, -, reply, more, ending, happens⟩
  · exact ⟨_, _, happens, by simp⟩
  · exact ⟨_, _, happens, by simp⟩

/-- **A round that leads to another one** has happened as it should. -/
theorem happens_of_told {stage next : Stage F} {said : Dialogue F (Payload F)}
    (told : (trainer.process.round stage).Says said (.done (.ok (.goOn next)))) :
    trainer.Happens stage said (some (.ok (.goOn next))) ∧ ∀ i ∈ said, i.failure? = none := by
  rcases cases_round told with ⟨fine, finished, -⟩ | ⟨_, _, _, -, -, -, finished, -⟩
  · exact ⟨finished _ rfl, fine⟩
  · cases finished

/-- The first round begins where nothing has happened, and no other round does. -/
theorem eq_nil_of_comes_start {dialogue : Dialogue F (Payload F)} {past : List (Stage F)}
    (comes : trainer.process.Comes dialogue past .start) : past = [] ∧ dialogue = [] := by
  generalize same : (Stage.start : Stage F) = stage at comes
  cases comes with
  | start => exact ⟨rfl, rfl⟩
  | round _ told =>
    subst same
    cases (happens_of_told told).1 with
    | judge judgement => cases judgement
    | step step => cases step

/-! ### After an exchange -/

section Exchange

variable {message : Payload F} {superstep : Nat} {received : List (Envelope (Payload F))}
  {rest : Dialogue F (Payload F)} {ending : RoundEnd F}

omit [Scalar F] in
/-- Up to here no call has failed. -/
theorem fine_exchanges :
    ∀ i ∈ .reads [] ++ trainer.exchanges message superstep received, i.failure? = none := by
  intro i hi
  simp only [Dialogue.reads, exchanges, tells, List.map_nil, List.nil_append, List.mem_append,
    List.mem_map, List.mem_cons, List.not_mem_nil, or_false] at hi
  rcases hi with rfl | ⟨receiver, -, rfl⟩ | rfl | rfl <;> rfl

omit [Scalar F] in
/-- What is exchanged can be told from what is said. -/
theorem exchanges_append_inj {superstep' : Nat} {received' : List (Envelope (Payload F))}
    {rest' : Dialogue F (Payload F)}
    (h : .reads [] ++ trainer.exchanges message superstep received ++ rest =
      .reads [] ++ trainer.exchanges message superstep' received' ++ rest') :
    superstep = superstep' ∧ received = received' ∧ rest = rest' := by
  obtain ⟨barrier, inbox, rest⟩ : (⟨.sync, .ok superstep⟩ : Interaction F (Payload F)) =
      ⟨.sync, .ok superstep'⟩ ∧ (⟨.drain, received⟩ : Interaction F (Payload F)) =
      ⟨.drain, received'⟩ ∧ rest = rest' := by
    simpa [exchanges] using h
  cases barrier
  cases inbox
  exact ⟨rfl, rfl, rest⟩

omit [Scalar F] in
/-- Who has come to the end of the rows has not read another one. -/
theorem reads_append_ne {row : Sample F} :
    .reads [] ++ trainer.exchanges message superstep received ++ rest ≠
      [⟨.read, .ok (some row)⟩] := by
  intro same
  have first := (List.cons.inj same).1
  cases first

/-- After costs have been exchanged, all is a matter of judgement. -/
theorem Happens.judgement {state : RunState F} {sum : PartialCost F}
    (happens : trainer.Happens (.scoring state sum)
      (.reads [] ++ trainer.exchanges (.cost sum.sum sum.count) superstep received ++ rest)
      ending) :
    trainer.Judgement state (Totals.cost trainer.seat.name sum received) rest ending := by
  generalize same : Dialogue.reads [] ++ _ ++ rest = whole at happens
  cases happens with
  | score | scoreMisfit | scoreless => exact absurd same reads_append_ne
  | judge judgement =>
    obtain ⟨-, rfl, rfl⟩ := exchanges_append_inj same
    exact judgement

/-- After gradients have been exchanged, a step is taken or not. -/
theorem Happens.stepped {state : RunState F} {cost : F} {examples : UInt64} {sum : List F}
    (happens : trainer.Happens (.descending state cost examples sum)
      (.reads [] ++ trainer.exchanges (.gradient sum) superstep received ++ rest) ending) :
    trainer.Step state cost examples (Totals.gradient trainer.seat.name sum received) rest
      ending := by
  generalize same : Dialogue.reads [] ++ _ ++ rest = whole at happens
  cases happens with
  | slope | slopeMisfit | slopeless => exact absurd same reads_append_ne
  | step step =>
    obtain ⟨-, rfl, rfl⟩ := exchanges_append_inj same
    exact step

/-- **What can be said after an exchange, whatever fails.** -/
theorem cases_exchange {stage : Stage F}
    {program : Round F (Payload F) (Stage F) (TrainingError F) (Summary F)}
    (told : (trainer.process.round stage).Says
      (.reads [] ++ trainer.exchanges message superstep received ++ rest) program) :
    ((∀ result, program = .done result → trainer.Happens stage
        (.reads [] ++ trainer.exchanges message superstep received ++ rest) (some result)) ∧
      ∃ more ending, trainer.Happens stage
        (.reads [] ++ trainer.exchanges message superstep received ++ (rest ++ more)) ending) ∨
      ∃ before i error, rest = before ++ [i] ∧ i.failure? = some error ∧
        program = .done (.error (.peer error)) ∧ ∃ reply more ending, trainer.Happens stage
          (.reads [] ++ trainer.exchanges message superstep received ++
            (before ++ ⟨i.request, reply⟩ :: more)) ending := by
  rcases cases_round told with
    ⟨-, finished, more, ending, happens⟩ |
    ⟨before, i, error, same, failed, -, finished, reply, more, ending, happens⟩
  · rw [List.append_assoc] at happens
    exact .inl ⟨finished, more, ending, happens⟩
  · rcases List.eq_nil_or_concat rest with rfl | ⟨rest, j, rfl⟩
    · -- the call that failed would be one of those that did not
      have mem : i ∈ .reads [] ++ trainer.exchanges message superstep received := by
        rw [← List.append_nil (_ ++ _), same]
        simp
      rw [fine_exchanges i mem] at failed
      cases failed
    · rw [List.concat_eq_append, ← List.append_assoc] at same
      obtain ⟨rfl, last⟩ := List.append_inj' same rfl
      obtain rfl := (List.cons.inj last).1
      rw [List.append_assoc] at happens
      exact .inr ⟨rest, j, error, by simp, failed, finished, reply, more, ending, happens⟩

end Exchange

end Trainer

end Superstep
