import Mathlib.Data.List.Chain
import Superstep.Proofs.Number.Double
import Superstep.Proofs.Training.Rounds

/-!
# Costs never go up

Whatever surroundings a peer trains in – other peers may send any numbers, infinite or undefined
ones included – no mean cost is accepted that is greater than the one accepted before it
(`Superstep.Trainer.descends`). What carries the argument from round to round is
`Superstep.Trainer.Level`: the costs written so far are finite and do not rise, those carried along
are finite, and the last one written stands in the right relation to those, which is not the same in
the two passes. Records are written in three places, and each of them keeps this up.

Of the numbers it matters only how they compare with themselves and with the greatest of them
(`Superstep.Scalar.Capped`). What a mean cost leads to is said for double precision alone, where
being refused means being undefined, infinite or greater (`Superstep.Trainer.Judged`).
-/

namespace Superstep

variable {F M : Type}

/-- **Numbers bounded by the greatest**: as far as comparisons go, that is all a run needs to know
of its numbers. -/
class Scalar.Capped (F : Type) [Scalar F] : Prop where
  less_self : ∀ a : F, Scalar.less a a = false
  isFinite_largest : Scalar.isFinite (Scalar.largest : F) = true
  largest_less : ∀ {a : F}, Scalar.isFinite a = true → Scalar.less Scalar.largest a = false

instance : Scalar.Capped Float where
  less_self a := decide_eq_false (Double.not_lt_self a)
  isFinite_largest := Double.isFinite_largest
  largest_less finite := decide_eq_false (Double.not_largest_lt finite)

/-! ### Verdicts -/

namespace Descent

variable [Scalar F] {config : Config F} {state : RunState F} {mean : F}

/-- A mean cost is refused if it is not finite or went up. -/
theorem judge_eq_error_iff {failure : TrainingError F} : judge config state mean = .error failure ↔
    (Scalar.isFinite mean = false ∨ Scalar.less state.cost mean = true) ∧
      failure = .diverged config.alpha (state.iteration + 1) mean state.cost := by
  unfold judge
  split
  · next refused =>
    rw [Bool.or_eq_true, Bool.not_eq_true'] at refused
    constructor
    · rintro ⟨⟩
      exact ⟨refused, rfl⟩
    · rintro ⟨-, rfl⟩
      rfl
  · next fine =>
    rw [Bool.or_eq_true, Bool.not_eq_true'] at fine
    constructor
    · intro h
      split at h <;> cases h
    · exact fun h => absurd h.1 fine

/-- A mean cost is accepted as it is. -/
theorem of_judge_ok {verdict : Verdict F} (h : judge config state mean = .ok verdict) :
    Scalar.isFinite mean = true ∧ Scalar.less state.cost mean = false ∧
      (verdict = .converged mean ∨ verdict = .goOn mean) := by
  unfold judge at h
  split at h
  · cases h
  · next fine =>
    rw [Bool.or_eq_true, Bool.not_eq_true', not_or, Bool.not_eq_false, Bool.not_eq_true] at fine
    split at h <;> cases h
    · exact ⟨fine.1, fine.2, .inl rfl⟩
    · exact ⟨fine.1, fine.2, .inr rfl⟩

end Descent

/-! ### Costs that do not rise -/

/-- **Finite costs, none of them greater than the one before it.** -/
def NoRise [Scalar F] (costs : List F) : Prop :=
  (∀ cost ∈ costs, Scalar.isFinite cost = true) ∧
    costs.IsChain fun earlier later => Scalar.less earlier later = false

section NoRise

variable [Scalar F] {costs : List F}

theorem noRise_nil : NoRise ([] : List F) := ⟨by simp, .nil⟩

theorem NoRise.concat (h : NoRise costs) {cost : F} (finite : Scalar.isFinite cost = true)
    (follows : ∀ last ∈ costs.getLast?, Scalar.less last cost = false) :
    NoRise (costs ++ [cost]) := by
  refine ⟨List.forall_mem_append.mpr ⟨h.1, by simpa using finite⟩, ?_⟩
  refine h.2.append (.singleton cost) fun last hlast next hnext => ?_
  obtain rfl : cost = next := by simpa using hnext
  exact follows last hlast

theorem NoRise.of_begins {costs' : List F} (h : NoRise costs) (begins : costs' <+: costs) :
    NoRise costs' :=
  ⟨fun cost hc => h.1 cost (begins.subset hc), List.IsChain.prefix h.2 begins⟩

end NoRise

/-! ### The costs in records -/

/-- The cost in the record that a call writes. -/
@[simp] def Call.cost? : Call F M → Option F
  | .write _ cost => some cost
  | .read | .reopen | .send _ _ | .sync | .drain => none

/-- The costs in the records that are written in a dialogue, those included that could not be. -/
def Dialogue.costs (dialogue : Dialogue F M) : List F :=
  (dialogue.map (·.request)).filterMap Call.cost?

namespace Dialogue

@[simp] theorem costs_nil : costs ([] : Dialogue F M) = [] := rfl

@[simp] theorem costs_cons (i : Interaction F M) (rest : Dialogue F M) :
    costs (i :: rest) = i.request.cost?.toList ++ costs rest := by
  rw [costs, List.map_cons, List.filterMap_cons]
  cases i.request.cost? <;> rfl

@[simp] theorem costs_append (dialogue more : Dialogue F M) :
    costs (dialogue ++ more) = costs dialogue ++ costs more := by
  simp [costs]

@[simp] theorem costs_reads (rows : List (Sample F)) : costs (reads rows) = [] := by
  simp [costs, reads]

@[simp] theorem costs_rewind (superstep : Nat) : costs (F := F) (rewind superstep) = [] := rfl

@[simp] theorem costs_tells (trainer : Trainer F) (message : Payload F) :
    costs (trainer.tells message) = [] := by
  simp [costs, Trainer.tells]

@[simp] theorem costs_exchanges (trainer : Trainer F) (message : Payload F) (superstep : Nat)
    (received : List (Envelope (Payload F))) :
    costs (trainer.exchanges message superstep received) = [] := by
  rw [Trainer.exchanges, costs_append, costs_tells]
  rfl

theorem costs_prefix {dialogue dialogue' : Dialogue F M}
    (begins : dialogue.map (·.request) <+: dialogue'.map (·.request)) :
    costs dialogue <+: costs dialogue' :=
  begins.filterMap _

end Dialogue

/-! ### Costs that are carried along -/

namespace Stage

/-- All costs that are carried along. -/
def costs : Stage F → List F
  | .start => []
  | .scoring state _ => [state.cost]
  | .descending state cost _ _ => [state.cost, cost]

/-- The cost accepted last. -/
def accepted? : Stage F → Option F
  | .start => none
  | .scoring state _ => some state.cost
  | .descending _ cost _ _ => some cost

/-- The cost accepted last is among those that are carried along. -/
theorem mem_costs_of_accepted {stage : Stage F} {cost : F} (h : cost ∈ stage.accepted?) :
    cost ∈ stage.costs := by
  cases stage <;> simp_all [costs, accepted?]

variable [Scalar F]

/-- What is known of the cost in the last record: it is the one accepted last, unless another one
has been accepted since. -/
def Recorded : Stage F → F → Prop
  | .start, _ => False
  | .scoring state _, last => last = state.cost
  | .descending _ cost _ _, last => Scalar.less last cost = false

end Stage

namespace Trainer

variable [Scalar F] {trainer : Trainer F} {stage next : Stage F} {said : Dialogue F (Payload F)}
  {ending : RoundEnd F} {written : List F}

/-- The costs written and those carried along, where a round begins. -/
structure Level (trainer : Trainer F) (written : List F) (stage : Stage F) : Prop where
  noRise : NoRise written
  carried : ∀ cost ∈ stage.costs, Scalar.isFinite cost = true
  recorded : ∀ last ∈ written.getLast?, stage.Recorded last
  /-- A follower writes nothing. -/
  mute : trainer.role = .follower → written = []

/-- Before anything has happened, nothing has been written. -/
theorem Level.eq_nil (level : trainer.Level written .start) : written = [] := by
  rw [← List.getLast?_eq_none_iff, Option.eq_none_iff_forall_ne_some]
  exact fun last => level.recorded last

/-- One more record, if this is the leader's to write. -/
theorem noRise_records (h : NoRise written) {cost : F} (finite : Scalar.isFinite cost = true)
    (follows : ∀ last ∈ written.getLast?, Scalar.less last cost = false) (theta : List F) :
    NoRise (written ++ Dialogue.costs (trainer.records theta cost)) := by
  unfold records
  cases trainer.role with
  | leader => exact h.concat finite follows
  | follower => simpa using h

omit [Scalar F] in
/-- The last record is the one just written, unless nobody writes. -/
theorem eq_of_getLast?_records (mute : trainer.role = .follower → written = []) {theta : List F}
    {cost : F} : ∀ last ∈ (written ++ Dialogue.costs (trainer.records theta cost)).getLast?,
      last = cost := by
  unfold records
  cases role : trainer.role with
  | leader => simp
  | follower => simp [mute role]

omit [Scalar F] in
theorem costs_records_of_follower (role : trainer.role = .follower) (theta : List F) (cost : F) :
    Dialogue.costs (trainer.records theta cost) = [] := by
  rw [records, role]
  rfl

variable [Scalar.Capped F]

/-- **The records of a round do not rise.** -/
theorem Happens.noRise (happens : trainer.Happens stage said ending)
    (level : trainer.Level written stage) : NoRise (written ++ Dialogue.costs said) := by
  have recorded := level.recorded
  have carried := level.carried
  cases happens with
  | @judge state _ _ _ _ _ judgement =>
    cases judgement with
    | refused | empty | goOn => simpa using level.noRise
    | diverge =>
      have same : ∀ last ∈ written.getLast?, Scalar.less last state.cost = false := by
        intro last hl
        rw [recorded last hl, Scalar.Capped.less_self]
      simpa using noRise_records level.noRise (carried _ List.mem_cons_self) same state.theta
    | @converge _ mean _ _ _ judged =>
      obtain ⟨finite, below, same | same⟩ := Descent.of_judge_ok judged <;> cases same
      have follows : ∀ last ∈ written.getLast?, Scalar.less last mean = false := by
        intro last hl
        rw [recorded last hl, below]
      simpa using noRise_records level.noRise finite follows state.theta
  | @step _ cost _ _ _ _ _ _ step =>
    cases step with
    | refused | misfit => simpa using level.noRise
    | taken =>
      simpa using noRise_records level.noRise (carried cost (by simp [Stage.costs])) recorded _
  | agree agrees => cases agrees <;> simpa using level.noRise
  | _ => simpa using level.noRise

/-- **What is carried along stays finite**, and no greater than what was written. -/
theorem Happens.level (happens : trainer.Happens stage said (some (.ok (.goOn next))))
    (level : trainer.Level written stage) :
    trainer.Level (written ++ Dialogue.costs said) next where
  noRise := happens.noRise level
  carried := by
    have carried := level.carried
    cases happens with
    | agree => simp [Stage.costs, RunState.start, Scalar.Capped.isFinite_largest]
    | score | slope => exact carried
    | judge judgement =>
      cases judgement with
      | goOn _ _ judged =>
        obtain ⟨finite, -, same | same⟩ := Descent.of_judge_ok judged <;> cases same
        simpa [Stage.costs, finite] using carried
    | step step =>
      cases step with
      | taken => exact fun cost hc => carried cost (List.mem_cons_of_mem _ hc)
  recorded := by
    have recorded := level.recorded
    cases happens with
    | agree agrees => cases agrees <;> simp [level.eq_nil]
    | score | slope => simpa [Stage.Recorded] using recorded
    | judge judgement =>
      cases judgement with
      | goOn _ _ judged =>
        obtain ⟨-, below, same | same⟩ := Descent.of_judge_ok judged <;> cases same
        intro last hl
        obtain rfl := recorded last (by simpa using hl)
        exact below
    | step step =>
      cases step with
      | taken =>
        intro last hl
        exact eq_of_getLast?_records level.mute last (by simpa using hl)
  mute role := by
    have mute := level.mute role
    cases happens with
    | judge judgement =>
      cases judgement with
      | goOn => simp [mute]
    | step step =>
      cases step with
      | taken => simp [mute, costs_records_of_follower role]
    | agree agrees => cases agrees <;> simp [mute]
    | _ => simp [mute]

/-- No mean cost that is accepted is greater than the one accepted before. -/
theorem Happens.accepted (happens : trainer.Happens stage said (some (.ok (.goOn next)))) :
    ∃ later ∈ next.accepted?, ∀ cost ∈ stage.accepted?, Scalar.less cost later = false := by
  cases happens with
  | agree => exact ⟨_, rfl, by simp [Stage.accepted?]⟩
  | score | slope => exact ⟨_, rfl, by simp [Stage.accepted?, Scalar.Capped.less_self]⟩
  | judge judgement =>
    cases judgement with
    | goOn _ _ judged =>
      obtain ⟨-, below, same | same⟩ := Descent.of_judge_ok judged <;> cases same
      exact ⟨_, rfl, by simpa [Stage.accepted?] using below⟩
  | step step =>
    cases step with
    | taken => exact ⟨_, rfl, by simp [Stage.accepted?, Scalar.Capped.less_self]⟩

variable {dialogue : Dialogue F (Payload F)} {past : List (Stage F)}

/-- **Where a round begins, no cost has gone up**, neither in the records nor among those that were
accepted. -/
theorem level_of_comes (comes : trainer.process.Comes dialogue past stage) :
    trainer.Level (Dialogue.costs dialogue) stage ∧
      NoRise ((past ++ [stage]).filterMap Stage.accepted?) := by
  induction comes with
  | start =>
    refine ⟨⟨noRise_nil, ?_, ?_, fun _ => rfl⟩, noRise_nil⟩
    · simp [process, Stage.costs]
    · simp
  | @round dialogue said past stage next comes told ih =>
    obtain ⟨level, history⟩ := ih
    have happens := (happens_of_told told).1
    have level' := happens.level level
    refine ⟨by simpa using level', ?_⟩
    obtain ⟨later, hl, above⟩ := happens.accepted
    rw [List.filterMap_append, List.filterMap_cons_some (Option.mem_def.mp hl), List.filterMap_nil]
    refine history.concat (level'.carried later (Stage.mem_costs_of_accepted hl))
      fun last hlast => ?_
    cases h : stage.accepted? with
    | some cost =>
      obtain rfl : cost = last := by simpa [h] using hlast
      exact above cost h
    | none =>
      cases stage with
      | start => simp [(eq_nil_of_comes_start comes).1, Stage.accepted?] at hlast
      | scoring | descending => cases h

omit [Scalar.Capped F] in
/-- A run that has not seen a mean cost has the greatest number in its place. -/
theorem cost_of_comes (comes : trainer.process.Comes dialogue past stage) :
    ∀ state ∈ stage.state?, state.iteration = 0 → state.cost = Scalar.largest := by
  induction comes with
  | start => simp [process, Stage.state?]
  | round _ told ih =>
    cases (happens_of_told told).1 with
    | agree => simp [Stage.state?, RunState.start]
    | score | slope => simpa [Stage.state?] using ih
    | judge judgement =>
      cases judgement with
      | goOn => simpa [Stage.state?] using ih
    | step step =>
      cases step with
      | taken => simp [Stage.state?]

/-! ### The verdict -/

section Round

variable {state : RunState F} {sum : PartialCost F} {superstep : Nat}
  {received : List (Envelope (Payload F))} {rest : Dialogue F (Payload F)}
  {program : Round F (Payload F) (Stage F) (TrainingError F) (Summary F)}

omit [Scalar.Capped F] in
/-- Which rounds report that costs went up. -/
theorem Happens.of_diverged {alpha : F} {iteration : Nat} {cost previous : F}
    (happens : trainer.Happens stage said
      (some (.error (.diverged alpha iteration cost previous)))) :
    ∃ state ∈ stage.state?, (Scalar.isFinite cost = false ∨ Scalar.less state.cost cost = true) ∧
      alpha = trainer.config.alpha ∧ iteration = state.iteration + 1 ∧ previous = state.cost := by
  cases happens with
  | forlorn _ adopted => exact (Bootstrap.found_of_adopt adopted).elim
  | judge judgement =>
    cases judgement with
    | refused refused => exact (Totals.found_of_cost refused).elim
    | diverge _ _ judged =>
      obtain ⟨refused, same⟩ := Descent.judge_eq_error_iff.mp judged
      cases same
      exact ⟨_, rfl, refused, rfl, rfl, rfl⟩
  | step step =>
    cases step with
    | refused refused => exact (Totals.found_of_gradient refused).elim
    | misfit _ updated => exact (Descent.found_of_update updated).elim

omit [Scalar.Capped F] in
/-- With what cost a run ends. -/
theorem Happens.of_finish {summary : Summary F}
    (happens : trainer.Happens stage said (some (.ok (.finish summary)))) :
    Scalar.isFinite summary.cost = true ∧
      ∀ last ∈ stage.accepted?, Scalar.less last summary.cost = false := by
  cases happens with
  | judge judgement =>
    cases judgement with
    | converge _ _ judged =>
      obtain ⟨finite, below, same | same⟩ := Descent.of_judge_ok judged <;> cases same
      exact ⟨finite, by simpa [Stage.accepted?] using below⟩
  | step step => cases step

section Judgement

variable {total : PartialCost F} {mean : F}

omit [Scalar.Capped F] in
/-- A mean cost that is refused ends the run, with the record that was accepted last. -/
theorem Judgement.of_refused {failure : TrainingError F}
    (h : trainer.Judgement state (.ok total) said ending) (averaged : total.mean? = some mean)
    (judged : Descent.judge trainer.config state mean = .error failure) :
    ending = some (.error failure) ∧
      ∃ last, said = trainer.records state.theta state.cost ++ [⟨.sync, .ok last⟩] := by
  cases h with
  | refused totalled => cases totalled
  | empty totalled empty =>
    cases totalled
    cases averaged.symm.trans empty
  | diverge totalled averaged' judged' =>
    cases totalled
    cases averaged.symm.trans averaged'
    cases judged.symm.trans judged'
    exact ⟨rfl, _, rfl⟩
  | converge totalled averaged' judged' | goOn totalled averaged' judged' =>
    cases totalled
    cases averaged.symm.trans averaged'
    cases judged.symm.trans judged'

omit [Scalar.Capped F] in
/-- A mean cost that is accepted ends the round without an error. -/
theorem Judgement.of_accepted {verdict : Verdict F}
    (h : trainer.Judgement state (.ok total) said ending) (averaged : total.mean? = some mean)
    (judged : Descent.judge trainer.config state mean = .ok verdict) :
    ∃ progress, ending = some (.ok progress) := by
  cases h with
  | refused totalled => cases totalled
  | empty totalled empty =>
    cases totalled
    cases averaged.symm.trans empty
  | diverge totalled averaged' judged' =>
    cases totalled
    cases averaged.symm.trans averaged'
    cases judged.symm.trans judged'
  | converge | goOn => exact ⟨_, rfl⟩

omit [Scalar.Capped F] in
/-- Who ends because the costs went up has refused the mean cost. -/
theorem Judgement.judged_of_diverged {alpha : F} {iteration : Nat} {cost previous : F}
    (h : trainer.Judgement state (.ok total) said
      (some (.error (.diverged alpha iteration cost previous))))
    (averaged : total.mean? = some mean) : Descent.judge trainer.config state mean =
      .error (.diverged alpha iteration cost previous) := by
  cases judged : Descent.judge trainer.config state mean with
  | error failure =>
    cases (h.of_refused averaged judged).1
    rfl
  | ok verdict =>
    obtain ⟨progress, same⟩ := h.of_accepted averaged judged
    cases same

omit [Scalar.Capped F] in
/-- What is asked for when a mean cost has been refused. -/
theorem Judgement.requests_of_refused {failure : TrainingError F}
    (h : trainer.Judgement state (.ok total) said ending) (averaged : total.mean? = some mean)
    (judged : Descent.judge trainer.config state mean = .error failure) : said.map (·.request) =
      (trainer.records state.theta state.cost).map (·.request) ++ [.sync] := by
  obtain ⟨-, last, rfl⟩ := h.of_refused averaged judged
  rw [List.map_append]
  rfl

end Judgement

/-- **The records written in any surroundings do not rise.** -/
theorem noRise_of_talks (talks : trainer.process.Talks dialogue program) :
    NoRise (Dialogue.costs dialogue) := by
  rcases talks.exists_comes with ⟨rfl, -⟩ | ⟨before, past, stage, said, comes, told, rfl⟩
  · exact noRise_nil
  · obtain ⟨whole, ending, happens, begins⟩ := exists_happens_of_told told
    refine (happens.noRise (level_of_comes comes).1).of_begins ?_
    rw [Dialogue.costs_append]
    exact (List.prefix_append_right_inj _).mpr (Dialogue.costs_prefix begins)

/-- **The first mean cost is refused only if it is not finite.** -/
theorem not_finite_of_talks {alpha cost previous : F}
    (talks : trainer.process.Talks dialogue (.done (.error (.diverged alpha 1 cost previous)))) :
    Scalar.isFinite cost = false := by
  rcases talks.exists_comes with ⟨-, finished⟩ | ⟨before, past, stage, said, comes, told, rfl⟩
  · cases finished
  · rcases cases_round told with ⟨-, finished, -⟩ | ⟨_, _, _, -, -, -, finished, -⟩
    · obtain ⟨state, hs, refused, -, first, -⟩ := (finished _ rfl).of_diverged
      have seed := cost_of_comes comes state hs (by omega)
      by_contra finite
      have finite := Bool.eq_true_of_not_eq_false finite
      rcases refused with infinite | above
      · exact absurd infinite (by simp [finite])
      · rw [seed, Scalar.Capped.largest_less finite] at above
        cases above
    · cases finished

end Round

/-! ### Runs in double precision -/

/-- How the verdict on a mean cost and what follows it belong together, where `rest` is what a peer
says after it has added up the costs of all, and `program` what it goes on with. -/
structure Judged (trainer : Trainer Float) (state : RunState Float) (mean : Float)
    (rest : Dialogue Float (Payload Float))
    (program : Round Float (Payload Float) (Stage Float) (TrainingError Float) (Summary Float)) :
    Prop where
  /-- If no call fails, the run ends as diverged exactly if the mean cost is undefined or infinite,
  or greater than the one accepted last. -/
  diverges : (∀ i ∈ rest, i.failure? = none) → ∀ result, program = .done result →
    ((∃ alpha iteration cost previous,
      result = .error (.diverged alpha iteration cost previous)) ↔
        mean.isNaN ∨ mean.isInf ∨ mean > state.cost)
  /-- A run that ends so has said to the end what there is to say: the leader has written the record
  accepted last once more, and everybody has waited. -/
  report : ∀ alpha iteration cost previous,
    program = .done (.error (.diverged alpha iteration cost previous)) →
      alpha = trainer.config.alpha ∧ iteration = state.iteration + 1 ∧ cost = mean ∧
        previous = state.cost ∧
          ∃ last, rest = trainer.records state.theta state.cost ++ [⟨.sync, .ok last⟩]
  /-- Whatever fails, no other record is written then. -/
  record : mean.isNaN ∨ mean.isInf ∨ mean > state.cost →
    rest.map (·.request) <+: (trainer.records state.theta state.cost).map (·.request) ++ [.sync]

/-- **Accepted costs never go up.** What is said here holds in any surroundings, whatever the calls
are answered with. -/
structure Descends (trainer : Trainer Float) : Prop where
  /-- The costs carried along are finite. -/
  finite : ∀ dialogue past stage, trainer.process.Comes dialogue past stage →
    ∀ cost ∈ stage.costs, cost.isFinite
  /-- No mean cost is accepted that is greater than the one accepted before it. -/
  accepted : ∀ dialogue past stage, trainer.process.Comes dialogue past stage →
    ((past ++ [stage]).filterMap Stage.accepted?).IsChain fun earlier later => ¬ later > earlier
  /-- Nor is the one with which the run ends. -/
  converged : ∀ dialogue past stage said summary, trainer.process.Comes dialogue past stage →
    (trainer.process.round stage).Says said (.done (.ok (.finish summary))) →
      summary.cost.isFinite ∧ ∀ last ∈ stage.accepted?, ¬ summary.cost > last
  /-- A first mean cost that is finite is not refused. -/
  first : ∀ dialogue alpha cost previous,
    trainer.process.Talks dialogue (.done (.error (.diverged alpha 1 cost previous))) →
      ¬ cost.isFinite
  /-- The costs in the records are finite, and none is greater than the one in the record before. -/
  records : ∀ dialogue program, trainer.process.Talks dialogue program →
    (∀ cost ∈ Dialogue.costs dialogue, cost.isFinite) ∧
      (Dialogue.costs dialogue).IsChain fun earlier later => ¬ later > earlier
  /-- What follows when the costs of at least one row have been added up. -/
  verdict : ∀ state sum superstep received rest program total mean,
    (trainer.process.round (.scoring state sum)).Says
      (.reads [] ++ trainer.exchanges (.cost sum.sum sum.count) superstep received ++ rest)
      program →
    Totals.cost trainer.seat.name sum received = .ok total → total.mean? = some mean →
      trainer.Judged state mean rest program

section Double

theorem noRise_iff {costs : List Float} : NoRise costs ↔
    (∀ cost ∈ costs, cost.isFinite) ∧ costs.IsChain fun earlier later => ¬ later > earlier := by
  refine and_congr_right fun _ => ?_
  simp only [Scalar.less, decide_eq_false_iff_not, gt_iff_lt]

/-- When a mean cost in double precision is refused. -/
theorem refused_iff {last mean : Float} :
    (Scalar.isFinite mean = false ∨ Scalar.less last mean = true) ↔
      mean.isNaN ∨ mean.isInf ∨ mean > last := by
  rw [← or_assoc, ← Double.isFinite_eq_false_iff]
  simp [Scalar.less, Scalar.isFinite]

/-- **What a mean cost leads to.** -/
theorem judged_of_told {trainer : Trainer Float} {state : RunState Float} {sum : PartialCost Float}
    {superstep : Nat} {received : List (Envelope (Payload Float))}
    {rest : Dialogue Float (Payload Float)}
    {program : Round Float (Payload Float) (Stage Float) (TrainingError Float) (Summary Float)}
    {total : PartialCost Float} {mean : Float}
    (told : (trainer.process.round (.scoring state sum)).Says
      (.reads [] ++ trainer.exchanges (.cost sum.sum sum.count) superstep received ++ rest) program)
    (totalled : Totals.cost trainer.seat.name sum received = .ok total)
    (averaged : total.mean? = some mean) : trainer.Judged state mean rest program := by
  have cases := cases_exchange told
  have judgement {said : Dialogue Float (Payload Float)} {ending : RoundEnd Float}
      (h : trainer.Happens (.scoring state sum)
        (.reads [] ++ trainer.exchanges (.cost sum.sum sum.count) superstep received ++ said)
        ending) : trainer.Judgement state (.ok total) said ending := totalled ▸ h.judgement
  have refused : Descent.judge trainer.config state mean =
      .error (.diverged trainer.config.alpha (state.iteration + 1) mean state.cost) ↔
        mean.isNaN ∨ mean.isInf ∨ mean > state.cost := by
    rw [Descent.judge_eq_error_iff, refused_iff, and_iff_left rfl]
  refine
    { diverges := fun fine result finished => ?_
      report := fun alpha iteration cost previous finished => ?_
      record := fun bad => ?_ }
  · rcases cases with ⟨ended, -⟩ | ⟨before, i, error, rfl, failed, -⟩
    · rw [← refused]
      constructor
      · rintro ⟨alpha, iteration, cost, previous, rfl⟩
        have judged := (judgement (ended _ finished)).judged_of_diverged averaged
        obtain ⟨-, same⟩ := Descent.judge_eq_error_iff.mp judged
        rw [judged, same]
      · intro judged
        cases ((judgement (ended result finished)).of_refused averaged judged).1
        exact ⟨_, _, _, _, rfl⟩
    · rw [fine i (by simp)] at failed
      cases failed
  · rcases cases with ⟨ended, -⟩ | ⟨_, _, _, -, -, finished', -⟩
    · have ended := judgement (ended _ finished)
      have judged := ended.judged_of_diverged averaged
      obtain ⟨-, same⟩ := Descent.judge_eq_error_iff.mp judged
      cases same
      exact ⟨rfl, rfl, rfl, rfl, (ended.of_refused averaged judged).2⟩
    · cases finished.symm.trans finished'
  · have judged := refused.mpr bad
    rcases cases with ⟨-, more, ending, happens⟩ |
      ⟨before, i, _, rfl, -, -, reply, more, ending, happens⟩
    · rw [← (judgement happens).requests_of_refused averaged judged, List.map_append]
      exact List.prefix_append _ _
    · rw [← (judgement happens).requests_of_refused averaged judged, List.map_append,
        List.map_append]
      exact (List.prefix_append_right_inj _).mpr (List.prefix_append [i.request] _)

/-- **Costs never go up in a run in double precision**, whatever its surroundings. -/
theorem descends (trainer : Trainer Float) : trainer.Descends where
  finite dialogue past stage comes := (level_of_comes comes).1.carried
  accepted dialogue past stage comes := (noRise_iff.mp (level_of_comes comes).2).2
  converged dialogue past stage said summary comes told := by
    rcases cases_round told with ⟨-, finished, -⟩ | ⟨_, _, _, -, -, -, finished, -⟩
    · obtain ⟨finite, below⟩ := (finished _ rfl).of_finish
      exact ⟨finite, fun last hl => of_decide_eq_false (below last hl)⟩
    · cases finished
  first dialogue alpha cost previous talks := by
    simpa [Scalar.isFinite] using not_finite_of_talks talks
  records dialogue program talks := noRise_iff.mp (noRise_of_talks talks)
  verdict state sum superstep received rest program total mean := judged_of_told

/-- A peer by itself, with a learning rate that is too large. -/
def hasty : Trainer Float where
  config := { initialTheta := 1, alpha := 3, threshold := 0, model := .linear, leader := .smallest }
  model := Linear.model
  seat := { name := "a", index := 0, peers := ["a"] }
  leader := "a"

/-- Surroundings with one row. -/
def oneRow : Rehearsal Float (Payload Float) where
  rows := [⟨[1], 0⟩]
  deliveries := []
  faults := []
  barriers := 10

/-- The first step goes too far, so the second mean cost is refused, and the record of the step is
written once more. -/
theorem descends_hasty : ∃ dialogue,
    hasty.process.Talks dialogue (.done (.error (.diverged 3 2 2 0.5))) ∧
      (Rehearsal.granted dialogue).filterMap Call.cost? = [0.5, 0.5] ∧
        (Dialogue.costs dialogue).IsChain fun earlier later => ¬ later > earlier := by
  have played : (oneRow.run hasty.process).1 = .error (.diverged 3 2 2 0.5) ∧
      (oneRow.run hasty.process).2.made.filterMap Call.cost? = [0.5, 0.5] := by
    decide +kernel
  obtain ⟨dialogue, talks, made⟩ := Rehearsal.talks_of_rounds (r := oneRow) .start rfl
    (congrArg Rehearsal.left? played.1)
  refine ⟨dialogue, talks, ?_, ((descends hasty).records _ _ talks).2⟩
  rw [← played.2]
  exact congrArg _ made.symm

end Double

end Trainer

end Superstep
