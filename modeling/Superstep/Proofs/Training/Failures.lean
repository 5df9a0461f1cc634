import Superstep.Proofs.Cluster.Transcript
import Superstep.Proofs.Training.Partitioning
import Superstep.Proofs.Training.Protocol

/-!
# How training can fail

A training job that is in order – the leader has a row, all rows are of one width, and what is to
be counted can be counted in a machine word (`Superstep.Setting.InOrder`) – can only fail by the
costs going up (`Superstep.Setting.only_diverges`). No call of any peer fails in any of its runs,
nobody finds fault with a message, a row or its length, and nobody breaks off.

A dataset that is shared out in spans among no more peers than it has rows is in order
(`Superstep.Setting.inOrder_of_split`).

That widths can be counted has to be asked for partitions without rows, too. Whoever owns one whose
width is the greatest machine word breaks off (`Superstep.Setting.crashes_hollow`).
-/

namespace Superstep

variable {F : Type} [Scalar F]

/-- The failure of a run whose mean cost went up. -/
def TrainingError.Diverged (failure : TrainingError F) : Prop :=
  ∃ alpha iteration cost previous, failure = .diverged alpha iteration cost previous

namespace Setting

/-- **A training job that is in order.** -/
structure InOrder (t : Setting F) : Prop where
  /-- The leader has a row, and rows have features. -/
  owns : (t.partition t.leader).rows ≠ []
  pos : 0 < t.width
  /-- All rows are as wide as the leader's. -/
  widths : ∀ p ∈ t.cluster.partitions, ∀ row ∈ p.rows, row.features.length = t.width
  /-- The widths of all partitions can be counted, also of those without rows. -/
  readable : ∀ p ∈ t.cluster.partitions, p.readable = true
  /-- All rows together can be counted. -/
  countable : (t.cluster.partitions.flatMap (·.rows)).length < wordLimit

namespace InOrder

variable {t : Setting F} (h : t.InOrder)

include h

theorem probed : t.Probed := ⟨h.readable _ (Cluster.partitionOf_mem t.leader_mem), h.pos⟩

theorem fits : ∀ peer ∈ t.cluster.names, t.Fits peer := fun _ hp =>
  have mem := Cluster.partitionOf_mem hp
  ⟨h.readable _ mem, h.widths _ mem⟩

/-- **There is always a row to average over.** -/
theorem turnout_ne_empty (s : RunState F) : t.loop.turnout s ≠ .empty := by
  intro empty
  have none := Loop.mean_of_empty empty
  unfold PartialCost.mean? at none
  split at none
  · next zero =>
    -- the rows are counted in a word, and there are some, but not too many
    have rows : (t.cluster.shares.map fun share => share.2.length).sum =
        (t.cluster.partitions.flatMap (·.rows)).length := by
      rw [← Cluster.flatMap_shares, List.length_flatMap]
    rw [loop, Loop.count_ofShares, rows] at zero
    have counted := congrArg UInt64.toNat zero
    rw [UInt64.toNat_ofNat_of_lt' h.countable] at counted
    exact rows_ne_nil h.owns (List.eq_nil_of_length_eq_zero counted)
  · cases none

/-- Who may be over has a value, or the costs went up. -/
theorem cases_of_leaves {peer : PeerName} (hp : peer ∈ t.cluster.names) {k : Nat}
    {outcome : Outcome (TrainingError F) (Summary F)} (leaves : t.plan.leaves peer k outcome) :
    (∃ value, outcome = .value value) ∨
      ∃ failure : TrainingError F, failure.Diverged ∧ outcome = .failed failure := by
  obtain ⟨j, result, hr, rfl⟩ := result_of_leaves h.probed h.fits hp leaves
  obtain ⟨s, -, ⟨empty, -⟩ | ⟨failure, diverged, rfl⟩ | ⟨cost, -, rfl⟩⟩ := Loop.result_cases hr
  · exact absurd empty (h.turnout_ne_empty s)
  · obtain ⟨mean, -, rfl⟩ := Loop.mean_of_diverged diverged
    exact .inr ⟨_, ⟨_, _, _, _, rfl⟩, rfl⟩
  · exact .inl ⟨_, rfl⟩

end InOrder

/-- **Nothing has gone wrong in a run** but that, perhaps, the costs went up. -/
structure Untroubled (transcript : Transcript F (Payload F))
    (y : Execution F (Payload F) (Stage F) (TrainingError F) (Summary F)) : Prop where
  /-- No call has failed. -/
  calls : ∀ u ∈ transcript, u.interaction.failure? = none
  /-- Nobody breaks off. -/
  goes : ∀ s ∈ y.stations, s.activity ≠ .running .crash
  /-- Nobody comes to an end with another failure. -/
  fails : ∀ s ∈ y.stations, ∀ failure,
    s.activity = .running (.done (.error failure)) → failure.Diverged
  /-- Nobody is over with anything else. -/
  left : ∀ s ∈ y.stations, ∀ outcome,
    s.activity = .leaving outcome ∨ s.activity = .gone outcome →
      (∃ value, outcome = .value value) ∨
        ∃ failure : TrainingError F, failure.Diverged ∧ outcome = .failed failure
  /-- The job does not end in any other way. -/
  ends : ∀ ending, y.ending? = some ending → (∃ values, ending = .values values) ∨
    ∃ failure : TrainingError F, failure.Diverged ∧ ending = .failed failure

variable {t : Setting F} {transcript : Transcript F (Payload F)}
  {y : Execution F (Payload F) (Stage F) (TrainingError F) (Summary F)}

/-- Everybody in a training job trains. -/
theorem process_eq (reaches : t.execution.Reaches y) :
    ∀ s ∈ y.stations, s.process = (t.trainer s.seat).process := by
  intro s hs
  obtain ⟨seat, process⟩ := reaches.process_eq s hs
  rw [process, Trainer.enlist_eq t.model.model t.valid
    (Cluster.peers_of_mem_seats seat ▸ t.elected)]
  rfl

/-- What is known of a run of a job that is in order by its plan. -/
theorem cases_of_running (h : t.InOrder) {marks : Nat → Mark}
    {chronicle : Chronicle (Payload F)}
    (conduct : Execution.Conduct t.plan (fun seat => t.Between seat.name) marks y chronicle)
    {s : Station F (Payload F) (Stage F) (TrainingError F) (Summary F)} (hs : s ∈ y.stations) :
    s.activity ≠ .running .crash ∧
      ∀ failure, s.activity = .running (.done (.error failure)) → failure.Diverged := by
  obtain ⟨i, found⟩ := List.mem_iff_getElem?.mp hs
  have abides := conduct.abides i s found
  constructor
  · intro ha
    simp only [Station.Abides, ha] at abides
    rcases h.cases_of_leaves (conduct.mem_peers hs) abides.1 with ⟨value, ho⟩ | ⟨f, -, ho⟩ <;>
      cases ho
  · intro failure ha
    simp only [Station.Abides, ha] at abides
    rcases h.cases_of_leaves (conduct.mem_peers hs) abides.1 with ⟨value, ho⟩ | ⟨f, diverged, ho⟩
    · cases ho
    · cases ho
      exact diverged

/-- **No call fails** in a job that is in order. -/
theorem fine_of_inOrder (h : t.InOrder) (run : t.execution.Transcribes transcript y) :
    ∀ u ∈ transcript, u.interaction.failure? = none := by
  induction run with
  | start => exact fun u hu => absurd hu List.not_mem_nil
  | turn turn before hz ih =>
    intro u hu
    rcases List.mem_append.mp hu with hu | hu
    · exact ih u hu
    have after := before.turn turn hz
    obtain ⟨chronicle, run, -⟩ := after.exists_runs
    obtain ⟨marks, conduct⟩ := conduct run
    obtain ⟨s, hs, program, dialogue, running, talks, said⟩ :=
      before.exists_talks hz (Option.mem_toList.mp hu)
    rw [process_eq after.reaches s hs] at talks
    rcases talks.cases_of_follows (t.trainer s.seat).follows with onScript | gaveUp
    · exact onScript.fine _ said
    · -- whose call has failed would be about to end with the error
      obtain ⟨-, -, error, -, -, -, rfl, -⟩ := gaveUp
      obtain ⟨-, -, -, -, ⟨⟩⟩ := (cases_of_running h conduct hs).2 (.peer error) running

/-- **Nothing goes wrong** in a job that is in order. -/
theorem untroubled_of_inOrder (h : t.InOrder) (run : t.execution.Transcribes transcript y) :
    Untroubled transcript y := by
  obtain ⟨chronicle, runs, -⟩ := run.exists_runs
  obtain ⟨marks, conduct⟩ := conduct runs
  refine
    { calls := fine_of_inOrder h run
      goes := fun s hs => (cases_of_running h conduct hs).1
      fails := fun s hs => (cases_of_running h conduct hs).2
      left := fun s hs outcome away =>
        h.cases_of_leaves (conduct.mem_peers hs) (conduct.mayLeave hs away).1
      ends := fun ending he => ?_ }
  obtain ⟨j, result, hr, rfl⟩ := result_of_ending conduct h.probed h.fits he
  obtain ⟨s, -, ⟨empty, -⟩ | ⟨failure, diverged, rfl⟩ | ⟨cost, -, rfl⟩⟩ := Loop.result_cases hr
  · exact absurd empty (h.turnout_ne_empty s)
  · obtain ⟨mean, -, rfl⟩ := Loop.mean_of_diverged diverged
    exact .inr ⟨_, ⟨_, _, _, _, rfl⟩, rfl⟩
  · exact .inl ⟨_, rfl⟩

/-! ### Datasets -/

/-- A dataset that is shared out among no more peers than it has rows leaves nobody without one, so
that it does not matter who leads. -/
theorem inOrder_of_split {d : Dataset F} (regular : d.Regular)
    (countable : d.rows.length < wordLimit)
    (split : t.cluster.partitions = d.split t.cluster.names.length)
    (enough : t.cluster.names.length ≤ d.rows.length) : t.InOrder := by
  have pos : 0 < t.cluster.names.length := List.length_pos_iff.mpr t.cluster.names_ne_nil
  have own := Cluster.partitionOf_mem t.leader_mem
  rw [split] at own
  obtain ⟨row, more, owns⟩ := List.exists_cons_of_ne_nil (d.rows_ne_nil_of_mem_split enough own)
  have width : t.width = d.featureCount := by
    simp only [Setting.width, partition, owns]
    exact regular.rows row ((d.of_mem_split own).2 row (owns ▸ List.mem_cons_self))
  refine
    { owns := d.rows_ne_nil_of_mem_split enough own
      pos := width ▸ regular.pos
      widths := fun p hp row hr => ?_
      readable := fun p hp => decide_eq_true ?_
      countable := by rwa [split, d.flatMap_split pos] }
  · rw [width]
    exact regular.rows row ((d.of_mem_split (split ▸ hp)).2 row hr)
  · rw [(d.of_mem_split (split ▸ hp)).1]
    exact regular.countable

/-- **A training job that is in order can only fail by the costs going up.** In none of its runs
does any call of any peer fail, and no peer comes to another end than with a value or with the
failure that the costs went up; neither does the job. A dataset shared out among no more peers than
it has rows makes such a job, whoever leads. -/
theorem only_diverges (t : Setting F) :
    (t.InOrder → ∀ transcript y, t.execution.Transcribes transcript y →
      Untroubled transcript y) ∧
    ∀ d : Dataset F, d.Regular → d.rows.length < wordLimit →
      t.cluster.partitions = d.split t.cluster.names.length →
      t.cluster.names.length ≤ d.rows.length → t.InOrder :=
  ⟨fun h _ _ run => untroubled_of_inOrder h run,
    fun _ regular countable split enough => inOrder_of_split regular countable split enough⟩

/-- Two peers with a row each come to their end, and nothing has gone wrong. -/
theorem only_diverges_line : line.InOrder ∧ ∃ transcript y,
    line.execution.Transcribes transcript y ∧ Untroubled transcript y ∧
      y.ending? = some (line.ending
        (.ok { theta := [2], cost := 0, iteration := 2, examples := 2 })) := by
  have inOrder : line.InOrder := line.only_diverges.2 lineDataset
    ⟨Nat.one_pos, by decide, by simp [lineDataset]⟩ (by decide) rfl (by decide)
  obtain ⟨y, ⟨chronicle, run⟩, ended⟩ :=
    (inevitable_ending inOrder.probed inOrder.fits result_line).exists_reaches
  obtain ⟨transcript, run⟩ := run.exists_transcribes
  exact ⟨inOrder, transcript, y, run, line.only_diverges.1 inOrder transcript y run, ended⟩

/-- A leader with a row, and a follower whose partition has no rows, but more features than can be
counted together with a label. -/
def hollow : Setting ℚ where
  cluster :=
    { line.cluster with
      partitions := [.ofRows 1 [⟨[1], 2⟩], .empty 18446744073709551615]
      length_partitions := rfl }
  config := line.config
  model := line.model
  leader := "a"
  unread := Cluster.unread_of_ofRows ⟨rfl, rfl⟩
  valid := line.valid
  elected := line.elected

/-- The leader sends the parameters, and the follower gets as far as to its first row. -/
def hollowTurns : List Turn :=
  List.replicate 4 (.step 1) ++ List.replicate 7 (.step 0) ++ List.replicate 3 (.step 1) ++
    List.replicate 2 (.step 0) ++ List.replicate 5 (.step 1) ++ [.note]

/-- **Who cannot count the features of no rows breaks off.** Here all partitions with rows are of
one width, and the leader has a row. -/
theorem crashes_hollow : (hollow.partition hollow.leader).rows ≠ [] ∧
    (∀ p ∈ hollow.cluster.partitions, p.rows ≠ [] → p.featureCount = hollow.width) ∧
      ∃ y, hollow.execution.Reaches y ∧ y.ending? = some (.crashed "b") := by
  have played : ((hollow.execution.play hollowTurns).map fun p => p.2.ending?.map
      fun ending => match ending with | .crashed name => some name | _ => none) =
        some (some (some "b")) := by
    decide +kernel
  refine ⟨by decide, by decide +kernel, ?_⟩
  obtain ⟨⟨chronicle, y⟩, hplay, crashed⟩ := Option.map_eq_some_iff.mp played
  obtain ⟨ending, he, crashed⟩ := Option.map_eq_some_iff.mp crashed
  refine ⟨y, ⟨chronicle, Execution.runs_of_play hplay⟩, he.trans ?_⟩
  cases ending with
  | crashed name =>
    exact congrArg (fun name => some (Ending.crashed name)) (Option.some.inj crashed)
  | values | failed => cases crashed

end Setting

end Superstep
