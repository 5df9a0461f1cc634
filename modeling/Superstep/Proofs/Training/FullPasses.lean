import Mathlib.Data.List.Induction
import Superstep.Proofs.Peer.Rows
import Superstep.Proofs.Training.Dimensions

/-!
# Full passes

A pass reads rows until there are no more, and the next one has to begin with the first row again.
That it does is the work of one call in three places – after the first parameters, after the costs
and after the gradients – and a peer that forgot one of them would not fail, but drop its rows from
a sum.

In surroundings that hold rows and serve them in their order (`Superstep.Dialogue.Serves`), where
the cursor is says how many rows of the current pass have been read, and adding these up gives the
sum that is carried along (`Superstep.Trainer.Passing`); each entry of a gradient is the sum of the
errors of the rows times their features at that place (`Superstep.Model.entry_of_slope?`).

What has been said before the current iteration consists of the bootstrap and of whole iterations,
in each of which all rows have been read twice (`Superstep.Trainer.Completes`). A round leads from
one such point to another (`Superstep.Trainer.Happens.reached`), so every run is at one
(`Superstep.Trainer.reached_of_comes`).

Together with what is known of lengths this is `Superstep.Trainer.consistent`.
-/

namespace Superstep

variable {F : Type}

/-! ### What a pass adds up -/

namespace Model

variable [Scalar F]

/-- The costs of some rows, one after the other, if the model gives up on none of them. -/
def score? (model : Model F) (theta : List F) (rows : List (Sample F)) : Option (PartialCost F) :=
  rows.foldlM (fun sum row => (model.cost row.features row.label theta).map sum.add) .zero

/-- The gradients of some rows, one after the other, if the model gives up on none of them. -/
def slope? (model : Model F) (theta : List F) (rows : List (Sample F)) : Option (List F) :=
  rows.foldlM (fun sum row => (model.hypothesis theta row.features).map fun prediction =>
    Pass.addGradient (prediction - row.label) row.features sum) (Pass.flat theta)

/-- What some rows add to one entry of a gradient, one after the other: how far the prediction is
off times the feature at that place. -/
def slopeAt? (model : Model F) (theta : List F) (rows : List (Sample F)) (j : Nat) : Option F :=
  rows.foldlM (fun total row => do
    let prediction ← model.hypothesis theta row.features
    let feature ← row.features[j]?
    return total + (prediction - row.label) * feature) Scalar.zero

variable {model : Model F} {theta : List F} {rows : List (Sample F)} {row : Sample F}

theorem score?_concat {sum : PartialCost F} {cost : F} (h : model.score? theta rows = some sum)
    (h' : model.cost row.features row.label theta = some cost) :
    model.score? theta (rows ++ [row]) = some (sum.add cost) := by
  unfold score? at h ⊢
  rw [List.foldlM_append, h]
  simp [h']

theorem slope?_concat_iff {sum : List F} : model.slope? theta (rows ++ [row]) = some sum ↔
    ∃ before prediction, model.slope? theta rows = some before ∧
      model.hypothesis theta row.features = some prediction ∧
        Pass.addGradient (prediction - row.label) row.features before = sum := by
  simp [slope?, List.foldlM_append, Option.bind_eq_some_iff]

theorem slopeAt?_concat {j : Nat} {total prediction feature : F}
    (h : model.slopeAt? theta rows j = some total)
    (predicted : model.hypothesis theta row.features = some prediction)
    (found : row.features[j]? = some feature) :
    model.slopeAt? theta (rows ++ [row]) j =
      some (total + (prediction - row.label) * feature) := by
  unfold slopeAt? at h ⊢
  rw [List.foldlM_append, h]
  simp [predicted, found]

/-- **Each entry of a gradient is a sum over the rows** of their errors times their features at that
place. -/
theorem entry_of_slope? {sum : List F} (level : ∀ row ∈ rows, row.features.length = theta.length)
    (h : model.slope? theta rows = some sum) {j : Nat} (hj : j < theta.length) :
    ∃ entry, sum[j]? = some entry ∧ model.slopeAt? theta rows j = some entry := by
  induction rows using List.reverseRecOn generalizing sum with
  | nil =>
    obtain rfl : Pass.flat theta = sum := Option.some.inj h
    exact ⟨Scalar.zero, by simp [Pass.flat, hj], rfl⟩
  | append_singleton rows row ih =>
    obtain ⟨level, width⟩ := List.forall_mem_append.mp level
    obtain ⟨before, prediction, sloped, predicted, rfl⟩ := slope?_concat_iff.mp h
    obtain ⟨total, entry, total_eq⟩ := ih level sloped
    have long : j < row.features.length := (width row (List.mem_singleton_self row)).symm ▸ hj
    have found := List.getElem?_eq_getElem long
    refine ⟨_, ?_, slopeAt?_concat total_eq predicted found⟩
    rw [Pass.addGradient, List.getElem?_zipWith, entry, found]

end Model

namespace Dialogue

/-- Reads these rows, of which there may be more. -/
def readings (rows : List (Sample F)) : Dialogue F (Payload F) :=
  rows.map fun row => ⟨.read, .ok (some row)⟩

theorem readings_concat (rows : List (Sample F)) (row : Sample F) :
    readings (rows ++ [row]) = readings rows ++ [⟨.read, .ok (some row)⟩] := by
  simp [readings]

/-- All rows, and then no more. -/
theorem readings_append_reads (rows : List (Sample F)) (exchange rest : Dialogue F (Payload F)) :
    readings rows ++ (reads [] ++ exchange ++ rest) = reads rows ++ exchange ++ rest := by
  simp [readings, reads]

variable {rows : List (Sample F)} {cursor last superstep : Nat}

theorem serves_rewind : Serves rows cursor (rewind superstep) last ↔ last = 0 := by
  rw [rewind, ← List.singleton_append, serves_append]
  simp only [serves_reopen, exists_eq_left]
  exact serves_idle (by simp [Call.Idle])

theorem serves_tells {trainer : Trainer F} {message : Payload F} :
    Serves rows cursor (trainer.tells message) last ↔ last = cursor := by
  refine serves_idle fun i hi => ?_
  obtain ⟨receiver, -, rfl⟩ := List.mem_map.mp hi
  trivial

theorem serves_exchanges {trainer : Trainer F} {message : Payload F}
    {received : List (Envelope (Payload F))} :
    Serves rows cursor (trainer.exchanges message superstep received) last ↔ last = cursor := by
  rw [Trainer.exchanges, serves_append]
  simp only [serves_tells, exists_eq_left]
  exact serves_idle (by simp [Call.Idle])

theorem serves_records {trainer : Trainer F} {theta : List F} {cost : F} :
    Serves rows cursor (trainer.records theta cost) last ↔ last = cursor := by
  refine serves_idle ?_
  unfold Trainer.records
  cases trainer.role <;> simp [Call.Idle]

end Dialogue

/-- **What a pass over these rows comes to**, if each of them has as many features as there are
parameters. -/
def Stage.Sums [Scalar F] (model : Model F) (rows : List (Sample F)) : Stage F → Prop
  | .start => True
  | .scoring state sum =>
    (∀ row ∈ rows, row.features.length = state.theta.length) ∧
      model.score? state.theta rows = some sum
  | .descending state _ _ sum =>
    (∀ row ∈ rows, row.features.length = state.theta.length) ∧
      model.slope? state.theta rows = some sum

namespace Trainer

variable [Scalar F]

/-- **A whole iteration**: all rows are scored, the costs exchanged, all rows gone over once more,
and the gradients exchanged. Each row has as many features as there are parameters. -/
inductive Iteration (trainer : Trainer F) (rows : List (Sample F)) (state : RunState F) :
    Dialogue F (Payload F) → RunState F → Prop
  | whole {score slope barrier costs next barrier' gradients theta cost next' examples} :
    (∀ row ∈ rows, row.features.length = state.theta.length) →
    trainer.model.score? state.theta rows = some score →
    trainer.model.slope? state.theta rows = some slope →
    Iteration trainer rows state
      (.reads rows ++ trainer.exchanges (.cost score.sum score.count) barrier costs ++
        .rewind next ++ (.reads rows ++ trainer.exchanges (.gradient slope) barrier' gradients ++
          (trainer.records theta cost ++ .rewind next')))
      { theta, cost, iteration := state.iteration + 1, examples }

/-- **What has been said when some iterations are over**: the first parameters have been agreed on,
and then there was one iteration after the other. -/
inductive Completes (trainer : Trainer F) (rows : List (Sample F)) :
    Dialogue F (Payload F) → RunState F → Prop
  | agreed {said theta} : trainer.Agrees said theta → Completes trainer rows said (.start theta)
  | iterated {dialogue said state next} : Completes trainer rows dialogue state →
    trainer.Iteration rows state said next → Completes trainer rows (dialogue ++ said) next

/-- **What has been said since then**, in the middle of a pass: as many rows have been read as the
cursor says, and they have been added up. -/
inductive Passing (trainer : Trainer F) (rows : List (Sample F)) (state : RunState F)
    (cursor : Nat) : Dialogue F (Payload F) → Stage F → Prop
  | scoring {sum} : (∀ row ∈ rows.take cursor, row.features.length = state.theta.length) →
    trainer.model.score? state.theta (rows.take cursor) = some sum →
    Passing trainer rows state cursor
      (.readings (rows.take cursor)) (.scoring state sum)
  | descending {score barrier costs next cost examples sum} :
    (∀ row ∈ rows, row.features.length = state.theta.length) →
    trainer.model.score? state.theta rows = some score →
    trainer.model.slope? state.theta (rows.take cursor) = some sum →
    Passing trainer rows state cursor
      (.reads rows ++ trainer.exchanges (.cost score.sum score.count) barrier costs ++
        .rewind next ++ .readings (rows.take cursor))
      (.descending state cost examples sum)

variable {trainer : Trainer F} {rows : List (Sample F)} {stage next : Stage F}
  {dialogue said : Dialogue F (Payload F)} {past : List (Stage F)} {cursor last : Nat}

/-- Where the cursor is, and what has been said, when a round begins. -/
def Reached (trainer : Trainer F) (rows : List (Sample F)) (dialogue : Dialogue F (Payload F))
    (stage : Stage F) (cursor : Nat) : Prop :=
  (stage = .start ∧ dialogue = [] ∧ cursor = 0) ∨
    ∃ before current state, dialogue = before ++ current ∧ trainer.Completes rows before state ∧
      trainer.Passing rows state cursor current stage

omit [Scalar F] in
/-- The cursor is at the first row when the parameters have been agreed on. -/
theorem Agrees.cursor_eq {theta : List F} (agrees : trainer.Agrees said theta)
    (serves : Dialogue.Serves rows 0 said last) : last = 0 := by
  cases agrees with
  | @propose row superstep =>
    have tail : Dialogue.Serves rows 0 (trainer.tells (.theta (List.replicate row.features.length
        trainer.config.initialTheta)) ++ [⟨.sync, .ok superstep⟩]) last := by
      obtain ⟨_, -, _, rfl, tail⟩ := serves
      simpa using tail
    rw [Dialogue.serves_append] at tail
    simp only [Dialogue.serves_tells, exists_eq_left] at tail
    exact (Dialogue.serves_idle (by simp [Call.Idle])).mp tail
  | adopt => exact (Dialogue.serves_idle (by simp [Call.Idle])).mp serves

omit [Scalar F] in
/-- What is left of a pass when there are no more rows. -/
theorem serves_exchange {message : Payload F} {superstep : Nat}
    {received : List (Envelope (Payload F))} {rest : Dialogue F (Payload F)} :
    Dialogue.Serves rows cursor (.reads [] ++ trainer.exchanges message superstep received ++ rest)
      last ↔ rows.length ≤ cursor ∧ Dialogue.Serves rows cursor rest last := by
  rw [Dialogue.serves_append, Dialogue.reads, List.map_nil, List.nil_append]
  simp only [Dialogue.serves_append, Dialogue.serves_end, Dialogue.serves_exchanges]
  constructor
  · rintro ⟨_, ⟨_, ⟨past, rfl⟩, rfl⟩, rest⟩
    exact ⟨past, rest⟩
  · rintro ⟨past, rest⟩
    exact ⟨_, ⟨_, ⟨past, rfl⟩, rfl⟩, rest⟩

/-- **A round leads from one such point to another.** -/
theorem Happens.reached (happens : trainer.Happens stage said (some (.ok (.goOn next))))
    (serves : Dialogue.Serves rows cursor said last)
    (reached : trainer.Reached rows dialogue stage cursor) :
    trainer.Reached rows (dialogue ++ said) next last := by
  rcases reached with ⟨rfl, rfl, rfl⟩ | ⟨before, current, state, rfl, completes, passing⟩
  · cases happens with
    | agree agrees =>
      obtain rfl := agrees.cursor_eq serves
      exact .inr ⟨said, [], _, by simp, .agreed agrees, .scoring (by simp) rfl⟩
  · -- one more row, or the end of the pass
    have more {row : Sample F} (found : rows[cursor]? = some row) :
        rows.take (cursor + 1) = rows.take cursor ++ [row] := by
      rw [List.take_add_one, found]
      rfl
    have all (past : rows.length ≤ cursor) : rows.take cursor = rows :=
      List.take_of_length_le past
    cases passing with
    | scoring level scored =>
      cases happens with
      | @score _ _ row cost width costs =>
        obtain ⟨found, rfl⟩ := Dialogue.serves_row.mp serves
        refine .inr ⟨before, _, state, List.append_assoc .., completes, ?_⟩
        rw [← Dialogue.readings_concat, ← more found]
        refine .scoring ?_ ?_ <;> rw [more found]
        · exact List.forall_mem_append.mpr ⟨level, by simpa using width⟩
        · exact Model.score?_concat scored costs
      | judge judgement =>
        cases judgement with
        | goOn =>
          obtain ⟨past, rewound⟩ := serves_exchange.mp serves
          obtain rfl := Dialogue.serves_rewind.mp rewound
          rw [all past] at level scored ⊢
          refine .inr ⟨before, _, state, List.append_assoc .., completes, ?_⟩
          rw [Dialogue.readings_append_reads, ← List.append_nil (_ ++ Dialogue.rewind _)]
          exact .descending level scored rfl
    | descending level scored sloped =>
      cases happens with
      | @slope _ _ _ _ row _ width predicted =>
        obtain ⟨found, rfl⟩ := Dialogue.serves_row.mp serves
        refine .inr ⟨before, _, state, List.append_assoc .., completes, ?_⟩
        rw [List.append_assoc, ← Dialogue.readings_concat, ← more found]
        refine .descending level scored ?_
        rw [more found]
        exact Model.slope?_concat_iff.mpr ⟨_, _, sloped, predicted, rfl⟩
      | step step =>
        cases step with
        | taken =>
          obtain ⟨past, rest⟩ := serves_exchange.mp serves
          rw [Dialogue.serves_append] at rest
          simp only [Dialogue.serves_records, exists_eq_left] at rest
          obtain rfl := Dialogue.serves_rewind.mp rest
          rw [all past] at sloped ⊢
          refine .inr ⟨_, [], _, (List.append_nil _).symm, ?_, .scoring (by simp) rfl⟩
          rw [List.append_assoc, List.append_assoc, Dialogue.readings_append_reads]
          exact completes.iterated (.whole level scored sloped)

/-- **What has been said in surroundings that hold rows.** -/
theorem reached_of_comes (comes : trainer.process.Comes dialogue past stage)
    (serves : Dialogue.Serves rows 0 dialogue cursor) :
    trainer.Reached rows dialogue stage cursor := by
  induction comes generalizing cursor with
  | start => exact .inl ⟨rfl, rfl, serves⟩
  | round _ told ih =>
    obtain ⟨middle, before, serves⟩ := Dialogue.serves_append.mp serves
    exact (happens_of_told told).1.reached serves (ih before)

/-- **A pass begins with the first row.** -/
theorem cursor_of_comes (comes : trainer.process.Comes dialogue past stage)
    (serves : Dialogue.Serves rows 0 dialogue cursor) :
    ∀ previous ∈ past.getLast?, phaseOf previous ≠ phaseOf stage → cursor = 0 := by
  cases comes with
  | start => simp
  | @round dialogue said past previous stage comes told =>
    rw [List.getLast?_concat]
    rintro _ ⟨⟩ other
    obtain ⟨middle, before, serves⟩ := Dialogue.serves_append.mp serves
    cases (happens_of_told told).1 with
    | agree agrees =>
      obtain ⟨-, rfl⟩ := eq_nil_of_comes_start comes
      obtain rfl := Dialogue.serves_nil.mp before
      exact agrees.cursor_eq serves
    | score | slope => exact absurd rfl other
    | judge judgement =>
      cases judgement with
      | goOn => exact Dialogue.serves_rewind.mp (serves_exchange.mp serves).2
    | step step =>
      cases step with
      | taken =>
        have rest := (serves_exchange.mp serves).2
        rw [Dialogue.serves_append] at rest
        simp only [Dialogue.serves_records, exists_eq_left] at rest
        exact Dialogue.serves_rewind.mp rest

/-- **What is exchanged comes from all rows**: a pass is over only when the cursor has gone past the
last row. -/
theorem Reached.sums (reached : trainer.Reached rows dialogue stage cursor)
    (past : rows.length ≤ cursor) : stage.Sums trainer.model rows := by
  rcases reached with ⟨rfl, -, -⟩ | ⟨before, current, state, -, -, passing⟩
  · trivial
  · cases passing with
    | scoring level scored =>
      rw [List.take_of_length_le past] at level scored
      exact ⟨level, scored⟩
    | descending level scored sloped =>
      rw [List.take_of_length_le past] at sloped
      exact ⟨level, sloped⟩

/-- **There is one number of parameters, and passes go over all rows.** What is said here holds in
any surroundings; what is said of rows holds in those that hold rows, with the cursor at the first
of them when a run begins. -/
structure Consistent (trainer : Trainer F) : Prop where
  /-- All that is carried along, sent or written has as many entries as was fixed at the
  beginning. -/
  sizes : ∀ dialogue past stage said program, trainer.process.Comes dialogue past stage →
    (trainer.process.round stage).Says said program →
      ∃ size, trainer.OneSize size dialogue past stage said program
  /-- So a step can always be taken. -/
  updates : ∀ dialogue past state cost examples sum received gradient,
    trainer.process.Comes dialogue past (.descending state cost examples sum) →
      Totals.gradient trainer.seat.name sum received = .ok gradient →
        ∃ theta, Descent.update trainer.config.alpha state.theta gradient = .ok theta
  /-- A pass begins with the first row. -/
  begins : ∀ rows dialogue past stage cursor, trainer.process.Comes dialogue past stage →
    Dialogue.Serves rows 0 dialogue cursor →
      ∀ previous ∈ past.getLast?, phaseOf previous ≠ phaseOf stage → cursor = 0
  /-- In the iterations that are over, both passes have gone over all rows, one after the other,
  and in the one that is not, over as many as the cursor says. -/
  passes : ∀ rows dialogue past stage cursor, trainer.process.Comes dialogue past stage →
    Dialogue.Serves rows 0 dialogue cursor → trainer.Reached rows dialogue stage cursor
  /-- A pass that ends has gone over all rows. -/
  sums : ∀ rows dialogue past stage rest last, trainer.process.Comes dialogue past stage →
    Dialogue.Serves rows 0 (dialogue ++ ⟨.read, .ok none⟩ :: rest) last →
      stage.Sums trainer.model rows
  /-- An entry of its gradient is the sum of the errors of all rows times their features at that
  place. -/
  entries : ∀ rows dialogue past state cost examples sum rest last,
    trainer.process.Comes dialogue past (.descending state cost examples sum) →
      Dialogue.Serves rows 0 (dialogue ++ ⟨.read, .ok none⟩ :: rest) last →
        ∀ j < state.theta.length, ∃ entry, sum[j]? = some entry ∧
          trainer.model.slopeAt? state.theta rows j = some entry
  /-- A run fails for the features of a row exactly if a pass meets a row of another width. -/
  features : ∀ dialogue past stage said result got expected,
    trainer.process.Comes dialogue past stage →
    (trainer.process.round stage).Says said (.done result) →
      (result = .error (.dimensionMismatch "features" got expected) ↔
        ∃ state ∈ stage.state?, ∃ row rest, said = ⟨.read, .ok (some row)⟩ :: rest ∧
          row.features.length = got ∧ state.theta.length = expected ∧ got ≠ expected)
  /-- A run fails for a gradient exactly if one of another length is the first thing wrong with
  what the others have sent. -/
  gradients : ∀ dialogue past stage said result got expected,
    trainer.process.Comes dialogue past stage →
    (trainer.process.round stage).Says said (.done result) →
      (result = .error (.dimensionMismatch "gradient" got expected) ↔
        ∃ state cost examples sum superstep received rest,
          stage = .descending state cost examples sum ∧
            said = .reads [] ++ trainer.exchanges (.gradient sum) superstep received ++ rest ∧
              FirstFault trainer.seat.name (Payload.gradientFault? state.theta.length) received
                (.dimensionMismatch "gradient" got expected))

/-- A pass that ends has gone over all rows. -/
theorem sums_of_comes {rest : Dialogue F (Payload F)}
    (comes : trainer.process.Comes dialogue past stage)
    (serves : Dialogue.Serves rows 0 (dialogue ++ ⟨.read, .ok none⟩ :: rest) last) :
    stage.Sums trainer.model rows := by
  obtain ⟨cursor, before, _, ⟨ended, -⟩, -⟩ := Dialogue.serves_append.mp serves
  exact (reached_of_comes comes before).sums ended

/-- **Every run is consistent.** -/
theorem consistent (trainer : Trainer F) : trainer.Consistent where
  sizes dialogue past stage said program := exists_oneSize
  updates dialogue past state cost examples sum received gradient comes totalled := by
    obtain ⟨size, fits⟩ := exists_fits_of_comes comes
    exact exists_update trainer.config.alpha fits totalled
  begins rows dialogue past stage cursor := cursor_of_comes
  passes rows dialogue past stage cursor := reached_of_comes
  sums rows dialogue past stage rest last := sums_of_comes
  entries rows dialogue past state cost examples sum rest last comes serves j hj := by
    obtain ⟨level, sloped⟩ := sums_of_comes comes serves
    exact Model.entry_of_slope? level sloped hj
  features dialogue past stage said result got expected comes told := by
    obtain ⟨size, fits⟩ := exists_fits_of_comes comes
    exact features_iff fits told
  gradients dialogue past stage said result got expected comes told := by
    obtain ⟨size, fits⟩ := exists_fits_of_comes comes
    exact gradient_iff fits told

/-- The leader of two peers. -/
def firstOfTwo : Trainer Float where
  config :=
    { initialTheta := 0, alpha := 0.5, threshold := 0, model := .linear, leader := .smallest }
  model := Linear.model
  seat := { name := "a", index := 0, peers := ["a", "b"] }
  leader := "a"

/-- Two rows. Nothing arrives before the second exchange of gradients, where the other peer has sent
one of another length. -/
def twoRows : Rehearsal Float (Payload Float) where
  rows := [⟨[1, 0], 1⟩, ⟨[0, 1], 1⟩]
  deliveries := [[], [], [], [], [], [], [], [⟨"b", .gradient [0]⟩]]
  faults := []
  barriers := 10

/-- The second iteration ends because of the gradient of the other peer. What was exchanged for it
comes from both rows. -/
theorem consistent_twoRows : ∃ dialogue past state cost examples sum superstep received rest,
    firstOfTwo.process.Comes dialogue past (.descending state cost examples sum) ∧
      (firstOfTwo.process.round (.descending state cost examples sum)).Says
        (.reads [] ++ firstOfTwo.exchanges (.gradient sum) superstep received ++ rest)
        (.done (.error (.dimensionMismatch "gradient" 1 2))) ∧
      firstOfTwo.model.slope? state.theta twoRows.rows = some sum := by
  have played : (twoRows.run firstOfTwo.process).1 =
      .error (.dimensionMismatch "gradient" 1 2) := by
    decide +kernel
  obtain ⟨dialogue, past, stage, said, comes, told, serves⟩ :=
    Rehearsal.serves_of_rounds (r := twoRows) .start rfl (congrArg Rehearsal.left? played)
  obtain ⟨state, cost, examples, sum, superstep, received, rest, rfl, rfl, -⟩ :=
    ((consistent firstOfTwo).gradients _ _ _ _ _ _ _ comes told).mp rfl
  exact ⟨dialogue, past, state, cost, examples, sum, superstep, received, rest, comes, told,
    ((consistent firstOfTwo).sums _ _ _ _ _ _ comes serves).2⟩

end Trainer

end Superstep
