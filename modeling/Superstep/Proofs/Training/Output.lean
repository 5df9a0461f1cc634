import Superstep.Proofs.Job.Records
import Superstep.Proofs.Training.Monotone
import Superstep.Proofs.Training.Records
import Superstep.Proofs.Training.RootCause

/-!
# Reading the output of a training job

A training job writes a record of every step, and its launcher puts the records into a file, a line
for each. This file says what can be read from it afterwards.

No record has a cost that is not finite (`Superstep.Execution.isFinite_cost`): a mean cost is looked
at before a step is taken, and ends the run if it is not finite. Nothing looks at the parameters,
and a step can lead anywhere: with a large row and a large residual the very first one leads to
infinity (`Superstep.Setting.overflows`). Such a record is written – twice, since the next mean cost
ends the run – but what is written is `null` where the parameters stood, and it cannot be read
again.

So there is a line for every record, and **a line is read as its record if and only if all the
parameters in it are finite** (`Superstep.training_output`).
-/

namespace Superstep

open Json OutputRecord

variable {F M S ε α : Type}

/-! ### What is in the records of a run -/

namespace Execution

/-- **Whatever is said in a run** is said in a dialogue of the process of one of the peers. -/
theorem Transcribes.exists_talks_of_mem {cluster : Cluster F} {body : Seat → Process F M S ε α}
    {y : Execution F M S ε α} {transcript : Transcript F M}
    (h : (ofCluster cluster body).Transcribes transcript y) :
    ∀ u ∈ transcript, ∃ seat ∈ cluster.seats, ∃ dialogue program,
      (body seat).Talks dialogue program ∧ u.interaction ∈ dialogue := by
  induction h with
  | start => exact List.forall_mem_nil _
  | @turn transcript x z t before hz ih =>
    refine List.forall_mem_append.mpr ⟨ih, fun u hu => ?_⟩
    obtain ⟨s, hs, program, dialogue, -, talks, mem⟩ :=
      before.exists_talks hz (Option.mem_toList.mp hu)
    obtain ⟨chronicle, run, -⟩ := (before.turn t hz).exists_runs
    obtain ⟨seated, process⟩ := Reaches.process_eq ⟨chronicle, run⟩ s hs
    exact ⟨s.seat, seated, dialogue, program, process ▸ talks, mem⟩

end Execution

/-- Who could not be set to train writes nothing. -/
theorem Trainer.nil_of_talks_error [Scalar F] {failure : TrainingError F}
    {dialogue : Dialogue F (Payload F)}
    {program : Round F (Payload F) (Stage F) (TrainingError F) (Summary F)}
    (talks : (processOf (.error failure)).Talks dialogue program) : dialogue = [] := by
  induction talks with
  | start => rfl
  | begin _ ih => exact ih
  | tell _ ih => exact ih
  | call _ asks => rcases talks_error asks with h | h <;> cases h

/-- **No record of a training job has a cost that is not finite.** -/
theorem Execution.isFinite_cost {cluster : Cluster Float} {config : Config Float}
    {model : Model Float}
    {y : Execution Float (Payload Float) (Stage Float) (TrainingError Float) (Summary Float)}
    (reaches : (training cluster config model).Reaches y) :
    ∀ entry ∈ y.output.toList, entry.cost.isFinite = true := by
  obtain ⟨chronicle, run⟩ := reaches
  obtain ⟨transcript, transcribes⟩ := run.exists_transcribes
  have records : y.output.toList = transcript.records := transcribes.records
  intro entry he
  rw [records] at he
  obtain ⟨u, hu, wrote⟩ := List.mem_filterMap.mp he
  obtain ⟨record, hw, rfl⟩ := Option.map_eq_some_iff.mp wrote
  obtain ⟨seat, -, dialogue, program, talks, mem⟩ := transcribes.exists_talks_of_mem u hu
  have written : record.2 ∈ Dialogue.costs dialogue := by
    refine List.mem_filterMap.mpr ⟨u.interaction.request, List.mem_map_of_mem mem, ?_⟩
    unfold Interaction.wrote? at hw
    split at hw
    · next same =>
      rw [same]
      cases hw
      rfl
    · cases hw
  rcases Trainer.cases_of_enlist config model seat with ⟨trainer, enlisted, -⟩ | ⟨failure, enlisted⟩
  · rw [enlisted] at talks
    exact (Trainer.noRise_of_talks talks).1 record.2 written
  · rw [enlisted] at talks
    rw [Trainer.nil_of_talks_error talks] at written
    cases written

/-! ### What a file of records says -/

/-- **Reading the output of a training job.** Whatever has happened, there is a line for every
record, in their order. However numbers are read, if those of the records are rounded to the
nearest, a line gives back its record if all the parameters in it are finite, and nothing if one of
them is not; the costs are always finite. -/
theorem training_output {cluster : Cluster Float} {config : Config Float} {model : Model Float}
    {y : Execution Float (Payload Float) (Stage Float) (TrainingError Float) (Summary Float)}
    (read? : NumberReader) (reaches : (Execution.training cluster config model).Reaches y)
    (bounded : ∀ entry ∈ y.output.toList, entry.superstep < wordLimit)
    (nearest : ∀ entry ∈ y.output.toList, ∀ x ∈ entry.numbers, x.isFinite = true →
      ReadsNearest read? (Layout.record.write x).toList) :
    Text.lines (writeLines y.output.toList).toList =
        y.output.toList.map (fun entry => entry.write.toList) ∧
      ∀ entry ∈ y.output.toList, entry.cost.isFinite = true ∧ parseBy? read? entry.write =
        if entry.theta.all Float.isFinite then some entry else none := by
  refine ⟨lines_write y.output.toList, fun entry he => ?_⟩
  have cost := Execution.isFinite_cost reaches entry he
  refine ⟨cost, ?_⟩
  rw [parseBy?_write (bounded entry he) (nearest entry he), numbers, List.all_append]
  simp [cost]

/-! ### A step too far -/

namespace Setting

/-- The records of a job in which the cost goes up after one step: the step is written twice. -/
theorem exists_output_of_diverged [Scalar F] {t : Setting F} {s : RunState F}
    {alpha cost previous : F} {width : ℕ} (uniform : t.cluster.Uniform width)
    (owns : (t.partition t.leader).rows ≠ []) (hs : t.loop.state 1 = some s)
    (hr : t.loop.result 1 = some (.error (.diverged alpha 2 cost previous))) :
    ∃ y, t.execution.Reaches y ∧ y.output.toList =
      [{ writer := t.leader, superstep := 4, theta := s.theta, cost := s.cost },
       { writer := t.leader, superstep := 6, theta := s.theta, cost := s.cost }] := by
  obtain ⟨y, reaches, he⟩ := (inevitable_ending (probed_of_uniform uniform owns)
    (fun peer hp => fits_of_uniform uniform owns hp) hr).exists_reaches
  obtain ⟨chronicle, run⟩ := id reaches
  obtain ⟨marks, conduct⟩ := conduct run
  obtain ⟨j, s', iterations, hs', -, -, -, wrote⟩ :=
    (recorded_of_conduct conduct).diverged alpha 2 cost previous he
  obtain rfl : 1 = j := by omega
  obtain rfl := Option.some.inj (hs.symm.trans hs')
  obtain ⟨before, after, -, ha, -, step⟩ := wrote.step 0 Nat.one_pos
  obtain rfl := Option.some.inj (hs.symm.trans ha)
  refine ⟨y, reaches, List.ext_getElem? fun i => ?_⟩
  rcases i with _ | _ | i
  · exact step
  · exact wrote.last
  · have length := wrote.length
    rw [List.getElem?_eq_none (by omega), List.getElem?_eq_none (by simp)]

/-- A peer by itself with a single row, whose first parameter is given. -/
def single (name : String) (row : Sample Float) (alpha initialTheta : Float)
    (positive : ((!Scalar.isFinite alpha) || Scalar.atMost alpha Scalar.zero) = false) :
    Setting Float where
  cluster :=
    { names := [name]
      partitions := [.ofRows row.features.length [row]]
      names_ne_nil := List.cons_ne_nil _ _
      length_partitions := rfl
      nodup_names := List.nodup_singleton name }
  config := { initialTheta, alpha, threshold := 0, model := .linear, leader := .smallest }
  model := { cost := Linear.cost, hypothesis := Linear.hypothesis }
  leader := name
  unread := Cluster.unread_of_ofRows rfl
  valid := by
    have threshold : ¬((!Scalar.isFinite (0 : Float)) ||
        Scalar.less (0 : Float) Scalar.zero) = true := by
      decide +kernel
    rw [Config.validate, if_neg (by simpa using positive), if_neg threshold]
  elected := by simp [LeaderPolicy.elect, LeaderPolicy.smallest?]

/-- A learning rate at which a single step is too long. -/
def hasty : Setting Float := single "a" ⟨[1], 0⟩ 3 1 (by decide +kernel)

/-- A row that is too large, and a label that is too far away. -/
def overflowing : Setting Float := single "a" ⟨[1e300], 1e10⟩ 1 0 (by decide +kernel)

theorem uniform_hasty : hasty.cluster.Uniform 1 := by
  refine ⟨Nat.one_pos, by decide, ?_, ?_⟩ <;> simp [hasty, single, Partition.ofRows]

theorem uniform_overflowing : overflowing.cluster.Uniform 1 := by
  refine ⟨Nat.one_pos, by decide, ?_, ?_⟩ <;> simp [overflowing, single, Partition.ofRows]

end Setting

/-- The step that was too long can be read again. -/
theorem training_output_hasty : ∃ y, Setting.hasty.execution.Reaches y ∧
    y.output.toList.map (fun entry => parse? entry.write) =
      [some { writer := "a", superstep := 4, theta := [-2], cost := 0.5 },
       some { writer := "a", superstep := 6, theta := [-2], cost := 0.5 }] := by
  have state : Setting.hasty.loop.state 1 =
      some { theta := [-2], cost := 0.5, iteration := 1, examples := 1 } := by
    decide +kernel
  have result : Setting.hasty.loop.result 1 = some (.error (.diverged 3 2 2 0.5)) := by
    decide +kernel
  obtain ⟨y, reaches, output⟩ :=
    Setting.exists_output_of_diverged Setting.uniform_hasty (by decide) state result
  have read := (training_output Number.read? reaches (by simp [output, wordLimit])
    (by rw [output]; decide +kernel)).2
  refine ⟨y, reaches, ?_⟩
  rw [output] at read ⊢
  simp only [List.forall_mem_cons, List.not_mem_nil, false_implies, implies_true, and_true] at read
  have finite : [(-2 : Float)].all Float.isFinite = true := by decide +kernel
  rw [if_pos finite, if_pos finite] at read
  rw [List.map_cons, List.map_singleton, parse?, read.1.2, read.2.2]
  rfl

/-- **The output of a job can be lost**: the first step leads to infinity, and what is written of it
cannot be read. -/
theorem Setting.overflows : ∃ y, Setting.overflowing.execution.Reaches y ∧
    y.output.toList.map (fun entry => (entry.theta, entry.cost)) =
      [([Float.ofBits 0x7FF0000000000000], 5e19), ([Float.ofBits 0x7FF0000000000000], 5e19)] ∧
    ∀ entry ∈ y.output.toList, parse? entry.write = none := by
  have state : overflowing.loop.state 1 = some
      { theta := [Float.ofBits 0x7FF0000000000000]
        cost := 5e19
        iteration := 1
        examples := 1 } := by
    decide +kernel
  have result : overflowing.loop.result 1 = some (.error
      (.diverged 1 2 (Float.ofBits 0x7FF0000000000000) 5e19)) := by
    decide +kernel
  obtain ⟨y, reaches, output⟩ :=
    exists_output_of_diverged uniform_overflowing (by decide) state result
  refine ⟨y, reaches, by rw [output]; rfl, ?_⟩
  have nearest : ∀ entry ∈ y.output.toList, ∀ x ∈ entry.numbers, x.isFinite = true →
      ReadsNearest Number.read? (Layout.record.write x).toList := by
    rw [output]
    decide +kernel
  have infinite : ∀ entry ∈ y.output.toList, entry.superstep < wordLimit ∧
      ¬entry.numbers.all Float.isFinite = true := by
    rw [output]
    decide +kernel
  intro entry he
  rw [parse?, parseBy?_write (infinite entry he).1 (nearest entry he),
    if_neg (infinite entry he).2]

end Superstep
