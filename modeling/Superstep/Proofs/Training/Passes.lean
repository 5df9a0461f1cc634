import Superstep.Peer.Rehearsal
import Superstep.Proofs.Training.Exact
import Superstep.Proofs.Training.Setting

/-!
# What the peers find by themselves and together

In a training job a pass over a peer's rows is interrupted by whatever the others do. It comes to
the same as a pass played by itself, and that is what is looked at here: if all rows fit and nothing
fails, a pass adds up the costs, or the gradients, of the rows one after the other
(`Superstep.Pass.value_cost`, `Superstep.Pass.value_gradient`).

What a peer finds for all rows of a job is what it makes of its own pass and of what the others send
of theirs (`Superstep.Cluster.Finds`).
-/

namespace Superstep

variable {F : Type}

/-! ### A pass played by itself -/

namespace Pass

/-- The surroundings of a peer with these rows, where nothing fails. -/
def surroundings (rows : List (Sample F)) : Rehearsal F (Payload F) :=
  { rows, deliveries := [], faults := [], barriers := 0 }

/-- What a pass over some rows comes to. -/
def value {S : Type} (rows : List (Sample F)) (pass : Process F (Payload F) S (TrainingError F) S) :
    Curtain (TrainingError F) S :=
  ((surroundings rows).run pass).1

/-- **What a step of a pass does**: at a row it goes on with what the row makes of the sum, and at
the end it is over. -/
structure Advances {S : Type} (step : S → TrainingProgram F (Option S)) (fits : Sample F → Prop)
    (add : S → Sample F → S) : Prop where
  row : ∀ (r : Rehearsal F (Payload F)) sum row, r.faults = [] → r.rows[r.cursor]? = some row →
    fits row → ∃ r', r.play (step sum).run = (some (.ok (some (add sum row))), r') ∧
      r'.faults = [] ∧ r'.rows = r.rows ∧ r'.cursor = r.cursor + 1
  done : ∀ (r : Rehearsal F (Payload F)) sum, r.faults = [] → r.rows[r.cursor]? = none →
    ∃ r', r.play (step sum).run = (some (.ok none), r')

end Pass

namespace Rehearsal

variable {ε α β : Type} {r : Rehearsal F (Payload F)}

/-- One program after the other. -/
theorem play_bind {program : Program F (Payload F) α} {rest : α → Program F (Payload F) β} :
    r.play (program >>= rest) = match r.play program with
      | (some value, r') => r'.play (rest value)
      | (none, r') => (none, r') := by
  induction program generalizing r with
  | done value => rfl
  | crash => rfl
  | tell event next ih => exact ih
  | call request next ih => exact ih _

/-- Where nothing fails, the next row is read. -/
theorem answer_read (faultless : r.faults = []) : ∃ r', r.answer .read =
    (.ok r.rows[r.cursor]?, r') ∧ r'.faults = [] ∧ r'.rows = r.rows ∧
      (r.rows[r.cursor]?.isSome → r'.cursor = r.cursor + 1) := by
  obtain ⟨rows, cursor, inbox, deliveries, faults, barriers, superstep, moments⟩ := r
  obtain rfl : faults = [] := faultless
  cases found : rows[cursor]? with
  | none =>
    simp only [answer, attempt, fault?, nextRow, found]
    exact ⟨_, rfl, rfl, rfl, fun some => by cases some⟩
  | some row =>
    simp only [answer, attempt, fault?, nextRow, found]
    exact ⟨_, rfl, rfl, rfl, fun _ => rfl⟩

/-- Where nothing fails, a program that reads a row goes on with it. -/
theorem play_read (faultless : r.faults = [])
    (rest : Option (Sample F) → TrainingProgram F β) : ∃ r' : Rehearsal F (Payload F),
      r.play (TrainingProgram.attempt Program.read >>= rest).run =
        r'.play (rest r.rows[r.cursor]?).run ∧
      r'.faults = [] ∧ r'.rows = r.rows ∧
        (r.rows[r.cursor]?.isSome → r'.cursor = r.cursor + 1) := by
  obtain ⟨r', answer, same⟩ := answer_read faultless
  have read : r.play (TrainingProgram.attempt (F := F) Program.read).run =
      (some (.ok r.rows[r.cursor]?), r') := by
    change (r.answer .read).2.play (.done ((r.answer .read).1.mapError _)) = _
    rw [answer]
    rfl
  refine ⟨r', ?_, same⟩
  rw [ExceptT.run_bind, play_bind, read]

end Rehearsal

namespace Pass

/-- **A pass goes over all rows that are left.** -/
theorem Advances.rounds_eq {S : Type} {step : S → TrainingProgram F (Option S)}
    {fits : Sample F → Prop} {add : S → Sample F → S} (advances : Advances step fits add)
    (start : S) {rest : List (Sample F)} (fit : ∀ row ∈ rest, fits row) :
    ∀ (sum : S) (r : Rehearsal F (Payload F)), r.faults = [] → r.rows.drop r.cursor = rest →
      ∀ fuel, rest.length < fuel →
        (Rehearsal.rounds (repeating start step) fuel sum r).1 = .value (rest.foldl add sum) := by
  induction rest with
  | nil =>
    intro sum r faultless unread fuel enough
    obtain ⟨fuel, rfl⟩ := Nat.exists_eq_add_of_lt enough
    have atEnd : r.rows[r.cursor]? = none :=
      List.getElem?_eq_none (List.drop_eq_nil_iff.mp unread)
    obtain ⟨r', played⟩ := advances.done r sum faultless atEnd
    have round : r.play ((repeating start step).round sum) = (some (.ok (.finish sum)), r') := by
      change r.play (step sum >>= _).run = _
      rw [ExceptT.run_bind, Rehearsal.play_bind, played]
      rfl
    rw [List.length_nil, Nat.zero_add, Rehearsal.rounds, round]
    rfl
  | cons row rest ih =>
    intro sum r faultless unread fuel enough
    obtain ⟨fuel, rfl⟩ := Nat.exists_eq_succ_of_ne_zero (Nat.ne_of_gt (Nat.zero_lt_of_lt enough))
    have next : r.rows[r.cursor]? = some row := by
      rw [← List.head?_drop, unread]
      rfl
    obtain ⟨r', played, faultless', rows, cursor⟩ :=
      advances.row r sum row faultless next (fit row List.mem_cons_self)
    have round : r.play ((repeating start step).round sum) =
        (some (.ok (.goOn (add sum row))), r') := by
      change r.play (step sum >>= _).run = _
      rw [ExceptT.run_bind, Rehearsal.play_bind, played]
      rfl
    have unread' : r'.rows.drop r'.cursor = rest := by
      rw [rows, cursor, ← List.tail_drop, unread]
      rfl
    rw [Rehearsal.rounds, round, List.foldl_cons]
    exact ih (fun r hr => fit r (List.mem_cons_of_mem _ hr)) _ r' faultless' unread' fuel
      (Nat.lt_of_succ_lt_succ enough)

/-- A pass over rows that all fit adds up what they make of the sum. -/
theorem Advances.value_eq {S : Type} {step : S → TrainingProgram F (Option S)}
    {fits : Sample F → Prop} {add : S → Sample F → S} (advances : Advances step fits add)
    (start : S) {rows : List (Sample F)} (fit : ∀ row ∈ rows, fits row) :
    value rows (repeating start step) = .value (rows.foldl add start) := by
  refine advances.rounds_eq start fit start (surroundings rows) rfl rfl _ ?_
  change rows.length < (0 + 2) * (rows.length + 2)
  omega

variable [Scalar F] (m : TotalModel F) (theta : List F)

/-- At a row that fits, its cost is added. -/
theorem advances_score : Advances (scoreNext m.model theta)
    (fun row => row.features.length = theta.length)
    fun sum row => sum.add (m.cost row.features row.label theta) where
  row r sum row faultless next fits := by
    obtain ⟨r', played, faultless', rows, cursor⟩ :=
      Rehearsal.play_read faultless _
    rw [next] at played cursor
    refine ⟨r', ?_, faultless', rows, cursor rfl⟩
    rw [scoreNext, played]
    simp only [checkFeatures, if_pos fits]
    rfl
  done r sum faultless atEnd := by
    obtain ⟨r', played, -⟩ := Rehearsal.play_read faultless _
    rw [atEnd] at played
    exact ⟨r', played⟩

/-- **A pass over rows that fit adds up their costs.** -/
theorem value_cost {rows : List (Sample F)}
    (fit : ∀ row ∈ rows, row.features.length = theta.length) :
    value rows (cost m.model theta) = .value (m.score theta rows) :=
  (advances_score m theta).value_eq .zero fit

/-- At a row that fits, its gradient is added. -/
theorem advances_slope : Advances (slopeNext m.model theta)
    (fun row => row.features.length = theta.length)
    fun sum row =>
      addGradient (m.hypothesis theta row.features - row.label) row.features sum where
  row r sum row faultless next fits := by
    obtain ⟨r', played, faultless', rows, cursor⟩ := Rehearsal.play_read faultless _
    rw [next] at played cursor
    refine ⟨r', ?_, faultless', rows, cursor rfl⟩
    rw [slopeNext, played]
    simp only [checkFeatures, if_pos fits]
    rfl
  done r sum faultless atEnd := by
    obtain ⟨r', played, -⟩ := Rehearsal.play_read faultless _
    rw [atEnd] at played
    exact ⟨r', played⟩

/-- **A pass over rows that fit adds up their gradients.** -/
theorem value_gradient {rows : List (Sample F)}
    (fit : ∀ row ∈ rows, row.features.length = theta.length) :
    value rows (gradient m.model theta) = .value (m.slope theta rows) :=
  (advances_slope m theta).value_eq (flat theta) fit

end Pass

/-! ### What is found together -/

namespace Cluster

variable [Scalar F] {cluster : Cluster F}

/-- **What a peer finds for all rows**: it adds up what its own passes come to and what the others
send of theirs, in whatever order that arrives. -/
structure Finds (cluster : Cluster F) (model : Model F) (theta : List F) (me : PeerName)
    (total : PartialCost F) (slope : List F) : Prop where
  cost : ∃ part : PeerName → PartialCost F,
    (∀ name ∈ cluster.names,
      Pass.value (cluster.partitionOf name).rows (Pass.cost model theta) = .value (part name)) ∧
    ∀ received, received.Perm
      (heard cluster.names me fun name => .cost (part name).sum (part name).count) →
        Totals.cost me (part me) received = .ok total
  gradient : ∃ part : PeerName → List F,
    (∀ name ∈ cluster.names,
      Pass.value (cluster.partitionOf name).rows (Pass.gradient model theta) =
        .value (part name)) ∧
    ∀ received, received.Perm (heard cluster.names me fun name => .gradient (part name)) →
      Totals.gradient me (part me) received = .ok slope

variable {m : TotalModel F} {theta : List F} {me : PeerName}

/-- **All peers find the same**, if all rows fit: what a loop adds up. -/
theorem finds_iff (config : Config F) (width : Nat) (mem : me ∈ cluster.names)
    (fit : ∀ p ∈ cluster.partitions, ∀ row ∈ p.rows, row.features.length = theta.length)
    {total : PartialCost F} {slope : List F} :
    cluster.Finds m.model theta me total slope ↔
      total = (Loop.ofShares config m width cluster.shares).total theta ∧
        slope = (Loop.ofShares config m width cluster.shares).gradient theta := by
  have fits : ∀ name ∈ cluster.names, ∀ row ∈ (cluster.partitionOf name).rows,
      row.features.length = theta.length := fun name hn => fit _ (partitionOf_mem hn)
  have costs := fun name hn => Pass.value_cost m theta (fits name hn)
  have gradients := fun name hn => Pass.value_gradient m theta (fits name hn)
  have length := fun name hn => m.length_slope theta _ (fits name hn)
  rw [total_shares, gradient_shares]
  constructor
  · -- the parts are what the passes come to, and of what they add up to there is only one
    rintro ⟨⟨part, parts, adds⟩, ⟨part', parts', adds'⟩⟩
    have same : ∀ name ∈ cluster.names, part name = m.score theta (cluster.partitionOf name).rows :=
      fun name hn => Curtain.value.inj ((parts name hn).symm.trans (costs name hn))
    have same' : ∀ name ∈ cluster.names,
        part' name = m.slope theta (cluster.partitionOf name).rows :=
      fun name hn => Curtain.value.inj ((parts' name hn).symm.trans (gradients name hn))
    have added := Totals.cost_eq part cluster.nodup_names mem (List.Perm.refl _)
    have added' := Totals.gradient_eq part' cluster.nodup_names mem
      (fun name hn => (congrArg List.length (same' name hn)).trans (length name hn))
      (List.Perm.refl _)
    rw [adds _ (List.Perm.refl _), List.map_congr_left fun name hn =>
      congrArg (Prod.mk name) (same name hn)] at added
    rw [adds' _ (List.Perm.refl _), List.map_congr_left fun name hn =>
      congrArg (Prod.mk name) (same' name hn)] at added'
    exact ⟨Except.ok.inj added, Except.ok.inj added'⟩
  · rintro ⟨rfl, rfl⟩
    exact ⟨⟨_, costs, fun received h => Totals.cost_eq _ cluster.nodup_names mem h⟩,
      ⟨_, gradients, fun received h => Totals.gradient_eq _ cluster.nodup_names mem length h⟩⟩

/-- **With exact numbers**, whoever owns the rows, it is their costs and their gradients. -/
theorem finds_iff_rows [Scalar.Exact F] (mem : me ∈ cluster.names)
    (fit : ∀ p ∈ cluster.partitions, ∀ row ∈ p.rows, row.features.length = theta.length)
    {total : PartialCost F} {slope : List F} :
    cluster.Finds m.model theta me total slope ↔
      total = m.score theta (cluster.partitions.flatMap (·.rows)) ∧
        slope = m.slope theta (cluster.partitions.flatMap (·.rows)) := by
  -- the settings have no part in what is found
  let config : Config F :=
    { initialTheta := Scalar.zero, alpha := Scalar.zero, threshold := Scalar.zero,
      model := .linear, leader := .middle }
  rw [finds_iff config 0 mem fit, Loop.total_ofShares, Loop.gradient_ofShares, flatMap_shares]

end Cluster

end Superstep
