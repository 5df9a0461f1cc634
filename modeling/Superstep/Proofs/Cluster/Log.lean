import Superstep.Proofs.Cluster.Lockstep

/-!
# The output of a job that runs

Records come into the log in the order of the supersteps they were written in: while a peer is in
its program in a superstep, nobody has begun a later one. This is `Superstep.Execution.Runs.logged`.
A log in this order is known once it is known what was written in each superstep, and it has not
changed when a job has nothing to write any more.
-/

namespace Superstep

variable {F M S ε α : Type}

namespace OutputLog

/-- Logs with the same records are the same. -/
theorem eq_of_toList_eq {log log' : OutputLog F} (h : log.toList = log'.toList) : log = log' := by
  obtain ⟨records⟩ := log
  obtain ⟨records'⟩ := log'
  exact congrArg OutputLog.mk (Array.toList_inj.mp h)

/-- What a peer has written in a superstep. -/
def wrote (log : OutputLog F) (writer : PeerName) (superstep : Nat) : List (List F × F) :=
  (log.toList.filter fun entry => entry.writer = writer ∧ entry.superstep = superstep).map
    fun entry => (entry.theta, entry.cost)

theorem wrote_append (log : OutputLog F) (entry : OutputRecord F) (writer : PeerName)
    (superstep : Nat) : (log.append entry).wrote writer superstep = log.wrote writer superstep ++
      if entry.writer = writer ∧ entry.superstep = superstep then [(entry.theta, entry.cost)]
        else [] := by
  rw [wrote, toList_append, List.filter_append, List.map_append, ← wrote]
  by_cases h : entry.writer = writer ∧ entry.superstep = superstep <;> simp [h]

/-- The records of a peer, superstep by superstep. -/
def recordsOf (writer : PeerName) (writes : Nat → List (List F × F)) (supersteps : Nat) :
    List (OutputRecord F) :=
  (List.range supersteps).flatMap fun superstep =>
    (writes superstep).map fun written =>
      { writer, superstep, theta := written.1, cost := written.2 }

theorem recordsOf_succ (writer : PeerName) (writes : Nat → List (List F × F)) (supersteps : Nat) :
    recordsOf writer writes (supersteps + 1) = recordsOf writer writes supersteps ++
      (writes supersteps).map fun written =>
        { writer, superstep := supersteps, theta := written.1, cost := written.2 } := by
  simp [recordsOf, List.range_succ]

/-- The same records of another writer. -/
theorem map_recordsOf (f : PeerName → PeerName) (writer : PeerName)
    (writes : Nat → List (List F × F)) (supersteps : Nat) :
    (recordsOf writer writes supersteps).map
        (fun entry => { entry with writer := f entry.writer }) =
      recordsOf (f writer) writes supersteps := by
  rw [recordsOf, List.map_flatMap, recordsOf]
  simp only [List.map_map]
  rfl

theorem recordsOf_congr (writer : PeerName) {writes writes' : Nat → List (List F × F)}
    {supersteps : Nat} (h : ∀ k < supersteps, writes k = writes' k) :
    recordsOf writer writes supersteps = recordsOf writer writes' supersteps := by
  induction supersteps with
  | zero => rfl
  | succ k ih =>
    rw [recordsOf_succ, recordsOf_succ, ih fun j hj => h j (Nat.lt_succ_of_lt hj),
      h k (Nat.lt_succ_self k)]

/-- What is written later comes later. -/
theorem recordsOf_prefix (writer : PeerName) (writes : Nat → List (List F × F))
    {supersteps later : Nat} (h : supersteps ≤ later) :
    recordsOf writer writes supersteps <+: recordsOf writer writes later := by
  induction h with
  | refl => exact List.prefix_rfl
  | step _ ih =>
    rw [recordsOf_succ]
    exact ih.trans (List.prefix_append ..)

/-- Sorting numbers that are below a bound apart from the bound itself. -/
theorem filter_lt_append_filter_eq {records : List (OutputRecord F)} {bound : Nat}
    (sorted : records.Pairwise fun a b => a.superstep ≤ b.superstep)
    (below : ∀ entry ∈ records, entry.superstep ≤ bound) :
    records.filter (·.superstep < bound) ++ records.filter (·.superstep = bound) = records := by
  induction records with
  | nil => rfl
  | cons entry rest ih =>
    obtain ⟨least, sorted⟩ := List.pairwise_cons.mp sorted
    have below' : ∀ e ∈ rest, e.superstep ≤ bound := fun e he => below e (List.mem_cons_of_mem _ he)
    rcases Nat.lt_or_eq_of_le (below entry List.mem_cons_self) with hlt | heq
    · have hne : entry.superstep ≠ bound := by omega
      simp only [List.filter_cons, hlt, hne, decide_true, decide_false, if_true]
      simpa using ih sorted below'
    · have none : rest.filter (·.superstep < bound) = [] := by
        rw [List.filter_eq_nil_iff]
        intro e he
        have := least e he
        simp only [decide_eq_true_eq]
        omega
      have all : rest.filter (·.superstep = bound) = rest := by
        rw [List.filter_eq_self]
        intro e he
        have := least e he
        have := below' e he
        simp only [decide_eq_true_eq]
        omega
      simp [heq, none, all]

/-- Records in order, all of one peer, are known superstep by superstep. -/
theorem eq_recordsOf {records : List (OutputRecord F)} {writer : PeerName}
    {writes : Nat → List (List F × F)} {supersteps : Nat}
    (sorted : records.Pairwise fun a b => a.superstep ≤ b.superstep)
    (below : ∀ entry ∈ records, entry.superstep < supersteps)
    (own : ∀ entry ∈ records, entry.writer = writer)
    (wrote : ∀ k < supersteps,
      (records.filter (·.superstep = k)).map (fun entry => (entry.theta, entry.cost)) = writes k) :
    records = recordsOf writer writes supersteps := by
  induction supersteps generalizing records with
  | zero => exact List.eq_nil_iff_forall_not_mem.mpr fun e he => Nat.not_lt_zero _ (below e he)
  | succ k ih =>
    have split := filter_lt_append_filter_eq sorted fun e he => Nat.le_of_lt_succ (below e he)
    rw [recordsOf_succ]
    refine split.symm.trans (congrArg₂ (· ++ ·) ?_ ?_)
    · refine ih (sorted.filter _) (fun e he => ?_) (fun e he => ?_) fun j hj => ?_
      · exact of_decide_eq_true (List.mem_filter.mp he).2
      · exact own e (List.mem_filter.mp he).1
      · rw [List.filter_filter, ← wrote j (by omega)]
        congr 1
        refine List.filter_congr fun e he => ?_
        by_cases hs : e.superstep = j <;> simp [hs, hj]
    · rw [← wrote k (by omega), List.map_map, eq_comm]
      refine (List.map_congr_left fun e he => ?_).trans (List.map_id _)
      obtain ⟨he, hk⟩ := List.mem_filter.mp he
      simp [← own e he, ← of_decide_eq_true hk]

/-- **A log in order, all of one peer, is known superstep by superstep.** -/
theorem toList_eq_recordsOf {log : OutputLog F} {writer : PeerName}
    {writes : Nat → List (List F × F)} {supersteps : Nat}
    (sorted : log.toList.Pairwise fun a b => a.superstep ≤ b.superstep)
    (below : ∀ entry ∈ log.toList, entry.superstep < supersteps)
    (own : ∀ entry ∈ log.toList, entry.writer = writer)
    (wrote : ∀ k < supersteps, log.wrote writer k = writes k) :
    log.toList = recordsOf writer writes supersteps := by
  refine eq_recordsOf sorted below own fun k hk => ?_
  rw [← wrote k hk, OutputLog.wrote]
  congr 1
  refine List.filter_congr fun e he => ?_
  simp [own e he]

end OutputLog

namespace Execution

/-- **The log is in order**, and every record was written by a peer in a superstep that the peer has
come to. -/
structure Logged (x : Execution F M S ε α) : Prop where
  sorted : x.output.toList.Pairwise fun a b => a.superstep ≤ b.superstep
  written : ∀ entry ∈ x.output.toList, ∃ t ∈ x.stations,
    t.seat.name = entry.writer ∧ entry.superstep ≤ t.superstep

variable {x y : Execution F M S ε α} {chronicle : Chronicle M}

/-- What is written stays. -/
theorem Turns.output_prefix {noted : Option (Entry M)} (h : x.Turns noted y) :
    x.output.toList <+: y.output.toList := by
  cases h with
  | move hs move =>
    cases move with
    | write ha =>
      change x.output.toList <+: (x.output.append _).toList
      rw [OutputLog.toList_append]
      exact List.prefix_append ..
    | _ => exact List.prefix_rfl
  | note => exact List.prefix_rfl
  | stop => exact List.prefix_rfl

theorem Reaches.output_prefix (h : x.Reaches y) : x.output.toList <+: y.output.toList :=
  h.keeps (P := fun y => x.output.toList <+: y.output.toList) List.prefix_rfl
    fun ih turn => ih.trans turn.output_prefix

/-- **Turns keep the log in order.** -/
theorem Logged.turn {noted : Option (Entry M)} (h : x.Logged) (lockstep : x.Lockstep chronicle)
    (turn : x.Turns noted y) : y.Logged := by
  have grows : ∀ entry ∈ x.output.toList, ∃ t ∈ y.stations,
      t.seat.name = entry.writer ∧ entry.superstep ≤ t.superstep := by
    intro entry he
    obtain ⟨t, ht, named, hle⟩ := h.written entry he
    obtain ⟨i, ht⟩ := List.mem_iff_getElem?.mp ht
    obtain ⟨u, hu, seat, hle'⟩ := turn.grows ht
    exact ⟨u, List.mem_of_getElem? hu, seat ▸ named, Nat.le_trans hle hle'⟩
  have grown {i : Nat} {t : Station F M S ε α} := turn.grows (i := i) (t := t)
  cases turn with
  | move hs move =>
    rename_i index s s' effect deed journal
    obtain ⟨u, hu, seat, hle⟩ := grown hs
    cases move with
    | write ha =>
      have inStep := lockstep.inStep s (List.mem_of_getElem? hs)
      simp only [Station.InStep, ha] at inStep
      refine ⟨?_, fun entry he => ?_⟩
      · change (x.output.append _).toList.Pairwise _
        rw [OutputLog.toList_append, List.pairwise_append]
        refine ⟨h.sorted, List.pairwise_singleton _ _, fun a ha b hb => ?_⟩
        obtain rfl := List.mem_singleton.mp hb
        obtain ⟨t, ht, -, hle⟩ := h.written a ha
        have := lockstep.superstep_le ht
        change a.superstep ≤ s.superstep
        omega
      · change entry ∈ (x.output.append _).toList at he
        rw [OutputLog.toList_append, List.mem_append, List.mem_singleton] at he
        rcases he with he | rfl
        · exact grows entry he
        · exact ⟨u, List.mem_of_getElem? hu, congrArg Seat.name seat, hle⟩
    | _ => exact ⟨h.sorted, grows⟩
  | note => exact ⟨h.sorted, grows⟩
  | stop => exact ⟨h.sorted, grows⟩

section Job

variable {cluster : Cluster F} {body : Seat → Process F M S ε α}

theorem logged_ofCluster : (ofCluster cluster body).Logged :=
  ⟨List.Pairwise.nil, List.forall_mem_nil _⟩

/-- In every run the log is in order. -/
theorem Runs.logged (run : (ofCluster cluster body).Runs chronicle y) : y.Logged := by
  induction run with
  | start => exact logged_ofCluster
  | turn t run hz ih => exact ih.turn run.lockstep (turns_of_turn hz)

end Job

end Execution

end Superstep
