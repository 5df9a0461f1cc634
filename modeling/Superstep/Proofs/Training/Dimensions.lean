import Superstep.Proofs.Peer.Rows
import Superstep.Proofs.Training.Aggregation
import Superstep.Proofs.Training.Rounds

/-!
# How many parameters there are

The first round fixes a number of parameters: for the leader it is the width of its first row, for a
follower the length of what it was sent (`Superstep.Trainer.fixes?`). After that the number does not
change, whatever the rows, the messages of others and the calls that fail: all that is carried
along, sent or written has as many entries (`Superstep.Trainer.OneSize`,
`Superstep.Trainer.exists_oneSize`). So a step can always be taken
(`Superstep.Trainer.exists_update`).

Two things of another length can still be met, a row and a gradient, and each of them ends the run
with an error of its own, which nothing else does (`Superstep.Trainer.features_iff`,
`Superstep.Trainer.gradient_iff`).
-/

namespace Superstep

variable {F : Type}

/-! ### Sizes -/

/-- A message whose parameters or gradients are so many. -/
def Payload.Sized (size : Nat) : Payload F → Prop
  | .theta values | .gradient values => values.length = size
  | .cost _ _ => True

/-- A call that carries so many parameters or gradients, if any. -/
def Call.Sized (size : Nat) : Call F (Payload F) → Prop
  | .send _ message => message.Sized size
  | .write theta _ => theta.length = size
  | .read | .reopen | .sync | .drain => True

/-- A stage in which there are so many parameters, and as many gradients. -/
def Stage.Fits (size : Nat) : Stage F → Prop
  | .start => True
  | .scoring state _ => state.theta.length = size
  | .descending state _ _ sum => state.theta.length = size ∧ sum.length = size

namespace Trainer

/-- **What fixes the number of parameters**: for the leader its first row, for a follower the
parameters it adopts. -/
def fixes? (trainer : Trainer F) : Dialogue F (Payload F) → Option Nat
  | ⟨.read, .ok (some row)⟩ :: _ => some row.features.length
  | ⟨.sync, .ok _⟩ :: ⟨.drain, received⟩ :: _ =>
    (Bootstrap.adopt trainer.seat.name received).toOption.map (·.length)
  | _ => none

/-- What is said later does not change the number of parameters. -/
theorem fixes?_append {trainer : Trainer F} {dialogue : Dialogue F (Payload F)} {size : Nat}
    (h : trainer.fixes? dialogue = some size) (more : Dialogue F (Payload F)) :
    trainer.fixes? (dialogue ++ more) = some size := by
  unfold fixes? at h
  split at h
  · exact h
  · exact h
  · cases h

/-- A call that fails does not fix it. -/
theorem fixes?_failed {trainer : Trainer F} {before : Dialogue F (Payload F)}
    {i : Interaction F (Payload F)} {error : PeerError} (failed : i.failure? = some error)
    {size : Nat} (h : trainer.fixes? (before ++ [i]) = some size) :
    trainer.fixes? before = some size := by
  unfold fixes? at h
  split at h
  · next same =>
    rcases before with _ | ⟨first, before⟩
    · obtain rfl := (List.cons.inj same).1
      cases failed
    · obtain rfl := (List.cons.inj same).1
      exact h
  · next same =>
    rcases before with _ | ⟨first, _ | ⟨second, before⟩⟩
    · cases (List.cons.inj same).2
    · obtain rfl := (List.cons.inj (List.cons.inj same).2).1
      cases failed
    · obtain ⟨rfl, tail⟩ := List.cons.inj same
      obtain rfl := (List.cons.inj tail).1
      exact h
  · cases h

section Sized

variable {trainer : Trainer F} {size : Nat}

theorem sized_reads {rows : List (Sample F)} :
    ∀ i ∈ Dialogue.reads rows, i.request.Sized size := by
  intro i hi
  rcases List.mem_append.mp hi with hi | hi
  · obtain ⟨row, -, rfl⟩ := List.mem_map.mp hi
    trivial
  · obtain rfl := List.mem_singleton.mp hi
    trivial

theorem sized_rewind {superstep : Nat} :
    ∀ i ∈ Dialogue.rewind (F := F) superstep, i.request.Sized size := by
  simp [Dialogue.rewind, Call.Sized]

theorem sized_tells {message : Payload F} (sized : message.Sized size) :
    ∀ i ∈ trainer.tells message, i.request.Sized size := by
  intro i hi
  obtain ⟨receiver, -, rfl⟩ := List.mem_map.mp hi
  exact sized

theorem sized_exchanges (message : Payload F) (sized : message.Sized size) {superstep : Nat}
    {received : List (Envelope (Payload F))} :
    ∀ i ∈ trainer.exchanges message superstep received, i.request.Sized size := by
  rw [exchanges, List.forall_mem_append]
  exact ⟨sized_tells sized, by simp [Call.Sized]⟩

theorem sized_records {theta : List F} (sized : theta.length = size) {cost : F} :
    ∀ i ∈ trainer.records theta cost, i.request.Sized size := by
  unfold records
  cases trainer.role <;> simp [Call.Sized, sized]

end Sized

variable [Scalar F] {trainer : Trainer F} {size : Nat} {stage next : Stage F}
  {said : Dialogue F (Payload F)} {ending : RoundEnd F}

/-- **What is said in a round fits**, if the stage does. -/
theorem Happens.sized (happens : trainer.Happens stage said ending) (started : stage ≠ .start)
    (fits : stage.Fits size) : ∀ i ∈ said, i.request.Sized size := by
  cases happens with
  | agree | unprobed | forlorn => exact absurd rfl started
  | score | scoreMisfit | scoreless | slope | slopeMisfit | slopeless => simp [Call.Sized]
  | judge judgement =>
    simp only [List.forall_mem_append]
    refine ⟨⟨sized_reads, sized_exchanges (.cost _ _) trivial⟩, ?_⟩
    cases judgement with
    | refused | empty => simp
    | diverge =>
      rw [List.forall_mem_append]
      exact ⟨sized_records fits, by simp [Call.Sized]⟩
    | converge => exact sized_records fits
    | goOn => exact sized_rewind
  | step step =>
    simp only [List.forall_mem_append]
    refine ⟨⟨sized_reads, sized_exchanges (.gradient _) fits.2⟩, ?_⟩
    cases step with
    | refused | misfit => simp
    | taken _ updated =>
      rw [List.forall_mem_append]
      exact ⟨sized_records ((Descent.length_of_update updated).trans fits.1), sized_rewind⟩

/-- **The next stage fits**, if this one does. -/
theorem Happens.fits (happens : trainer.Happens stage said (some (.ok (.goOn next))))
    (started : stage ≠ .start) (fits : stage.Fits size) : next.Fits size := by
  cases happens with
  | agree => exact absurd rfl started
  | score => exact fits
  | judge judgement =>
    cases judgement with
    | goOn => exact ⟨fits, by simpa [Pass.flat, Stage.Fits] using fits⟩
  | slope level =>
    refine ⟨fits.1, ?_⟩
    rw [Pass.addGradient, List.length_zipWith, level, fits.1, fits.2, Nat.min_self]
  | step step =>
    cases step with
    | taken _ updated => exact (Descent.length_of_update updated).trans fits.1

/-- **A step can be taken** in a stage that fits: the total of the gradients has as many entries as
there are parameters. -/
theorem exists_update {state : RunState F} {cost : F} {examples : UInt64} {sum : List F}
    {received : List (Envelope (Payload F))} {gradient : List F} (alpha : F)
    (fits : (Stage.descending state cost examples sum).Fits size)
    (totalled : Totals.gradient trainer.seat.name sum received = .ok gradient) :
    ∃ theta, Descent.update alpha state.theta gradient = .ok theta := by
  have level : gradient.length = state.theta.length :=
    (Totals.length_of_gradient totalled).trans (fits.2.trans fits.1.symm)
  exact ⟨_, if_pos level⟩

/-- **In the first round the number of parameters is fixed**, and what is said in it fits. -/
theorem Happens.exists_size (happens : trainer.Happens .start said ending) :
    ∃ size, (∀ n ∈ trainer.fixes? said, n = size) ∧ (∀ i ∈ said, i.request.Sized size) ∧
      ∀ next, ending = some (.ok (.goOn next)) →
        trainer.fixes? said = some size ∧ next.Fits size := by
  cases happens with
  | @agree said theta agrees =>
    cases agrees with
    | @propose row superstep role full =>
      refine ⟨row.features.length, by simp [fixes?], ?_, fun next same => ?_⟩
      · simp only [List.forall_mem_append]
        exact ⟨⟨by simp [Call.Sized], sized_tells List.length_replicate⟩, by simp [Call.Sized]⟩
      · cases same
        exact ⟨rfl, List.length_replicate⟩
    | @adopt superstep received _ role adopted =>
      have fixed : trainer.fixes? [⟨.sync, .ok superstep⟩, ⟨.drain, received⟩] =
          some theta.length := by
        change (Bootstrap.adopt _ _).toOption.map _ = _
        rw [adopted]
        rfl
      refine ⟨theta.length, by simp [fixed], by simp [Call.Sized], fun next same => ?_⟩
      cases same
      exact ⟨fixed, rfl⟩
  | @unprobed row? role empty =>
    refine ⟨0, ?_, by simp [Call.Sized], fun next same => by cases same⟩
    cases row? with
    | none => simp [fixes?]
    | some row => simp [fixes?, empty row rfl]
  | forlorn role adopted =>
    refine ⟨0, ?_, by simp [Call.Sized], fun next same => by cases same⟩
    change ∀ n ∈ (Bootstrap.adopt _ _).toOption.map _, n = 0
    rw [adopted]
    simp [Except.toOption]

/-- Where a run has come to after its first round: so many parameters have been fixed, and all that
was carried along and said fits. -/
structure Settles (trainer : Trainer F) (size : Nat) (dialogue : Dialogue F (Payload F))
    (past : List (Stage F)) (stage : Stage F) : Prop where
  fixed : trainer.fixes? dialogue = some size
  fits : ∀ stage' ∈ past ++ [stage], stage'.Fits size
  sized : ∀ i ∈ dialogue, i.request.Sized size

variable {dialogue : Dialogue F (Payload F)} {past : List (Stage F)}

/-- **The number of parameters is fixed in the first round, and nothing changes it.** -/
theorem exists_size_of_comes (comes : trainer.process.Comes dialogue past stage) :
    stage ≠ .start → ∃ size, trainer.Settles size dialogue past stage := by
  induction comes with
  | start => exact fun started => absurd rfl started
  | @round dialogue said past stage next comes told ih =>
    intro _
    have happens := (happens_of_told told).1
    by_cases started : stage = .start
    · subst started
      obtain ⟨rfl, rfl⟩ := eq_nil_of_comes_start comes
      obtain ⟨size, -, sized, fixed⟩ := happens.exists_size
      obtain ⟨fixed, fits⟩ := fixed next rfl
      exact ⟨size, fixed, by simpa [Stage.Fits] using fits, sized⟩
    · obtain ⟨size, settles⟩ := ih started
      have fits := settles.fits stage (by simp)
      refine ⟨size, fixes?_append settles.fixed said, ?_, ?_⟩
      · rw [List.forall_mem_append]
        exact ⟨settles.fits, by simpa using happens.fits started fits⟩
      · rw [List.forall_mem_append]
        exact ⟨settles.sized, happens.sized started fits⟩

omit [Scalar F] in
/-- What is asked for at the beginning of something fits, if all of it does. -/
theorem sized_of_prefix {whole : Dialogue F (Payload F)} (sized : ∀ i ∈ whole, i.request.Sized size)
    (begins : said.map (·.request) <+: whole.map (·.request)) :
    ∀ i ∈ said, i.request.Sized size := by
  intro i hi
  obtain ⟨j, hj, same⟩ := List.mem_map.mp (begins.subset (List.mem_map_of_mem hi))
  exact same ▸ sized j hj

/-- A run ends with as many parameters as there are. -/
theorem Happens.length_of_finish {summary : Summary F}
    (happens : trainer.Happens stage said (some (.ok (.finish summary)))) (fits : stage.Fits size) :
    summary.theta.length = size := by
  cases happens with
  | judge judgement =>
    cases judgement with
    | converge => exact fits
  | step step => cases step

/-! ### Errors about lengths -/

section Mismatch

variable {what : String} {got expected : Nat}

/-- **Which rounds end because of a length**: those that meet a row of another width, and those in
which the gradients cannot be added up for that reason. -/
theorem Happens.of_mismatch
    (happens : trainer.Happens stage said (some (.error (.dimensionMismatch what got expected))))
    (fits : stage.Fits size) :
    (what = "features" ∧ ∃ state ∈ stage.state?, ∃ row, said = [⟨.read, .ok (some row)⟩] ∧
      row.features.length = got ∧ state.theta.length = expected ∧ got ≠ expected) ∨
    (what = "gradient" ∧ ∃ state cost examples sum superstep received,
      stage = .descending state cost examples sum ∧
        said = .reads [] ++ trainer.exchanges (.gradient sum) superstep received ∧
          Totals.gradient trainer.seat.name sum received =
            .error (.dimensionMismatch what got expected)) := by
  cases happens with
  | forlorn _ adopted =>
    rcases Bootstrap.error_of_adopt adopted with same | ⟨_, same⟩ <;> cases same
  | scoreMisfit misfit | slopeMisfit misfit =>
    exact .inl ⟨rfl, _, rfl, _, rfl, rfl, rfl, misfit⟩
  | judge judgement =>
    cases judgement with
    | refused refused =>
      obtain ⟨_, same⟩ := Totals.error_of_cost refused
      cases same
    | diverge _ _ judged =>
      obtain ⟨_, _, _, _, same⟩ := Descent.diverged_of_judge judged
      cases same
  | step step =>
    cases step with
    | refused refused =>
      rcases Totals.error_of_gradient refused with ⟨_, same⟩ | ⟨_, same⟩ <;> cases same
      exact .inr ⟨rfl, _, _, _, _, _, _, rfl, List.append_nil _, refused⟩
    | misfit totalled updated =>
      obtain ⟨theta, taken⟩ := exists_update trainer.config.alpha fits totalled
      cases taken.symm.trans updated

/-- What a total that could not be made leads to. -/
theorem Step.of_refused {state : RunState F} {cost : F} {examples : UInt64}
    {sum : Except (TrainingError F) (List F)} {failure : TrainingError F}
    (step : trainer.Step state cost examples sum said ending) (refused : sum = .error failure) :
    said = [] ∧ ending = some (.error failure) := by
  cases step with
  | refused refused' =>
    obtain rfl := Except.error.inj (refused'.symm.trans refused)
    exact ⟨rfl, rfl⟩
  | misfit totalled | taken totalled => cases totalled.symm.trans refused

/-- A round in which a row is read in the middle of a pass says nothing else, and a row of another
width ends the run. -/
theorem Happens.of_row {row : Sample F} {rest : Dialogue F (Payload F)}
    (happens : trainer.Happens stage (⟨.read, .ok (some row)⟩ :: rest) ending) :
    ∀ state ∈ stage.state?, rest = [] ∧ (row.features.length ≠ state.theta.length →
      ending = some (.error
        (.dimensionMismatch "features" row.features.length state.theta.length))) := by
  generalize same : (⟨.read, .ok (some row)⟩ : Interaction F (Payload F)) :: rest = said at happens
  rintro state hs
  cases happens with
  | agree | unprobed | forlorn => cases hs
  | score width | scoreless width | slope width | slopeless width =>
    cases hs
    cases same
    exact ⟨rfl, fun misfit => absurd width misfit⟩
  | scoreMisfit | slopeMisfit =>
    cases hs
    cases same
    exact ⟨rfl, fun _ => rfl⟩
  | judge | step => cases (List.cons.inj same).1

end Mismatch

section Round

variable {program : Round F (Payload F) (Stage F) (TrainingError F) (Summary F)}

/-- In the first round no two numbers of parameters are fixed, whatever fails. -/
theorem exists_size_of_told (told : (trainer.process.round .start).Says said program) :
    ∃ size, (∀ n ∈ trainer.fixes? said, n = size) ∧ ∀ i ∈ said, i.request.Sized size := by
  rcases cases_round told with
    ⟨-, -, more, ending, happens⟩ |
    ⟨before, i, error, rfl, failed, -, -, reply, more, ending, happens⟩
  · obtain ⟨size, fixed, sized, -⟩ := happens.exists_size
    exact ⟨size, fun n hn => fixed n (fixes?_append hn more),
      fun i hi => sized i (List.mem_append_left _ hi)⟩
  · obtain ⟨size, fixed, sized, -⟩ := happens.exists_size
    exact ⟨size, fun n hn => fixed n (fixes?_append (fixes?_failed failed hn) _),
      sized_of_prefix sized (by simp)⟩

/-- **One number of parameters**, in all rounds that are over and in the one that need not be. -/
structure OneSize (trainer : Trainer F) (size : Nat) (dialogue : Dialogue F (Payload F))
    (past : List (Stage F)) (stage : Stage F) (said : Dialogue F (Payload F))
    (program : Round F (Payload F) (Stage F) (TrainingError F) (Summary F)) : Prop where
  /-- No other number is fixed in the first round. -/
  fixed : ∀ n ∈ trainer.fixes? (dialogue ++ said), n = size
  /-- When the first round is over, the number is fixed. -/
  known : stage ≠ .start → trainer.fixes? dialogue = some size
  /-- So many parameters are carried along, and as many gradients. -/
  held : ∀ stage' ∈ past ++ [stage], stage'.Fits size
  /-- So many parameters or gradients are in each message and in each record. -/
  said : ∀ i ∈ dialogue ++ said, i.request.Sized size
  /-- The run ends with so many parameters. -/
  last : ∀ summary, program = .done (.ok (.finish summary)) → summary.theta.length = size

/-- **There is one number of parameters**, in any surroundings. -/
theorem exists_oneSize (comes : trainer.process.Comes dialogue past stage)
    (told : (trainer.process.round stage).Says said program) :
    ∃ size, trainer.OneSize size dialogue past stage said program := by
  have last (size : Nat) (fits : stage.Fits size) (summary : Summary F)
      (finished : program = .done (.ok (.finish summary))) : summary.theta.length = size := by
    subst finished
    rcases cases_round told with ⟨-, finished, -⟩ | ⟨_, _, _, -, -, -, finished, -⟩
    · exact (finished _ rfl).length_of_finish fits
    · cases finished
  by_cases started : stage = .start
  · subst started
    obtain ⟨rfl, rfl⟩ := eq_nil_of_comes_start comes
    obtain ⟨size, fixed, sized⟩ := exists_size_of_told told
    exact ⟨size, fixed, fun started => absurd rfl started, by simp [Stage.Fits], sized,
      last size trivial⟩
  · obtain ⟨size, settles⟩ := exists_size_of_comes comes started
    have fits := settles.fits stage (by simp)
    refine ⟨size, fun n hn => ?_, fun _ => settles.fixed, settles.fits, ?_, last size fits⟩
    · rw [fixes?_append settles.fixed said] at hn
      exact (Option.some.inj hn).symm
    · obtain ⟨whole, ending, happens, begins⟩ := exists_happens_of_told told
      exact List.forall_mem_append.mpr
        ⟨settles.sized, sized_of_prefix (happens.sized started fits) begins⟩

/-- Where there is one number of parameters, everything in the stage fits it. -/
theorem exists_fits_of_comes (comes : trainer.process.Comes dialogue past stage) :
    ∃ size, stage.Fits size := by
  obtain ⟨size, one⟩ := exists_oneSize comes .nothing
  exact ⟨size, one.held stage (by simp)⟩

variable {result : Except (TrainingError F) (Progress (Stage F) (Summary F))} {got expected : Nat}

/-- **A row of another width ends the run**, and nothing else ends it in this way. -/
theorem features_iff (fits : stage.Fits size)
    (told : (trainer.process.round stage).Says said (.done result)) :
    result = .error (.dimensionMismatch "features" got expected) ↔
      ∃ state ∈ stage.state?, ∃ row rest, said = ⟨.read, .ok (some row)⟩ :: rest ∧
        row.features.length = got ∧ state.theta.length = expected ∧ got ≠ expected := by
  constructor
  · rintro rfl
    rcases cases_round told with ⟨-, finished, -⟩ | ⟨_, _, _, -, -, -, finished, -⟩
    · rcases (finished _ rfl).of_mismatch fits with ⟨-, state, hs, row, same, misfit⟩ | ⟨other, -⟩
      · exact ⟨state, hs, row, [], same, misfit⟩
      · exact absurd other (by decide)
    · cases finished
  · rintro ⟨state, hs, row, rest, rfl, rfl, rfl, misfit⟩
    rcases cases_round told with
      ⟨-, finished, -⟩ | ⟨before, i, _, same, failed, -, -, reply, more, ending, happens⟩
    · exact Option.some.inj (((finished _ rfl).of_row state hs).2 misfit)
    · -- the call that failed would be this one or a later one
      rcases before with _ | ⟨first, before⟩
      · obtain rfl := (List.cons.inj same).1
        cases failed
      · obtain rfl := (List.cons.inj same).1
        have nothing := (happens.of_row state hs).1
        simp at nothing

/-- **A gradient of another length ends the run**, if it arrives first among what is wrong, and
nothing else ends it in this way. -/
theorem gradient_iff (fits : stage.Fits size)
    (told : (trainer.process.round stage).Says said (.done result)) :
    result = .error (.dimensionMismatch "gradient" got expected) ↔
      ∃ state cost examples sum superstep received rest,
        stage = .descending state cost examples sum ∧
          said = .reads [] ++ trainer.exchanges (.gradient sum) superstep received ++ rest ∧
            FirstFault trainer.seat.name (Payload.gradientFault? state.theta.length) received
              (.dimensionMismatch "gradient" got expected) := by
  constructor
  · rintro rfl
    rcases cases_round told with ⟨-, finished, -⟩ | ⟨_, _, _, -, -, -, finished, -⟩
    · rcases (finished _ rfl).of_mismatch fits with
        ⟨other, -⟩ | ⟨-, state, cost, examples, sum, superstep, received, rfl, said, refused⟩
      · exact absurd other (by decide)
      · refine ⟨state, cost, examples, sum, superstep, received, [], rfl, by simpa using said, ?_⟩
        rw [fits.1.trans fits.2.symm]
        exact ((Totals.impartial_gradient size).first _ _ _ _).mp refused
    · cases finished
  · rintro ⟨state, cost, examples, sum, superstep, received, rest, rfl, rfl, first⟩
    rw [fits.1.trans fits.2.symm] at first
    have refused := ((Totals.impartial_gradient size).first _ _ _ _).mpr first
    rcases cases_exchange told with
      ⟨finished, -⟩ | ⟨before, i, _, -, -, -, reply, more, ending, happens⟩
    · exact Option.some.inj ((finished _ rfl).stepped.of_refused refused).2
    · have nothing := (happens.stepped.of_refused refused).1
      simp at nothing

end Round

end Trainer

end Superstep
