import Superstep.Proofs.Training.Setting

/-!
# Peers that are set to train keep to the plan

Here the rounds of `Superstep.Trainer` are gone through one by one, and each is found to keep to the
plan of `Superstep.Setting`. What is true between two rounds is `Superstep.Setting.Between`: the
peer has the parameters of the loop, and the sum it carries along is that of the rows it has read
(`Superstep.Setting.Amid`).

Of what happens in a round only two things need more than a look at the program. That a pass covers
every row once depends on where the partition is read from, and so on its having been started over
with before. That all peers come to the same total is `Superstep.Totals.cost_eq` and
`Superstep.Totals.gradient_eq`, as what arrives is what the plan says.
-/

namespace Superstep

open Program TrainingProgram

/-! ### The next row -/

namespace Partition

variable {F : Type} {p : Partition F} {row : Sample F} {rest : List (Sample F)}

theorem next_of_nil (h : p.unread = []) : p.next = (none, p) := by
  simp [next, h]

theorem next_of_cons (h : p.unread = row :: rest) :
    p.next = (some row, { p with unread := rest }) := by
  simp [next, h]

end Partition

variable {F : Type} [Scalar F]

namespace Setting

/-! ### Between two rounds -/

/-- A peer is going through its rows, with the parameters of a state, and has done nothing else in
its superstep. -/
structure Amid (t : Setting F) (me : PeerName) (s : RunState F) (k : Nat) (read : List (Sample F))
    (now : Standing F (Payload F)) : Prop where
  width : s.theta.length = t.width
  superstep : now.superstep = k
  sent : now.sent = []
  wrote : now.wrote = []
  featureCount : now.partition.featureCount = (t.partition me).featureCount
  rows : now.partition.rows = (t.partition me).rows
  /-- It has read these rows since it started over. -/
  split : now.partition.rows = read ++ now.partition.unread
  fit : ∀ row ∈ read, row.features.length = t.width

namespace Amid

variable {t : Setting F} {me : PeerName} {s : RunState F} {k : Nat} {read : List (Sample F)}
  {now : Standing F (Payload F)}

/-- Who has just started over has read nothing. -/
theorem reset {partition : Partition F} (width : s.theta.length = t.width)
    (featureCount : partition.featureCount = (t.partition me).featureCount)
    (rows : partition.rows = (t.partition me).rows) :
    t.Amid me s k [] (.fresh partition.reset k) :=
  ⟨width, rfl, rfl, rfl, featureCount, rows, rfl, List.forall_mem_nil _⟩

theorem readable_eq (h : t.Amid me s k read now) :
    now.partition.readable = (t.partition me).readable := by
  rw [Partition.readable, h.featureCount, Partition.readable]

/-- A row that is read is one more of those that have been read. -/
theorem next (h : t.Amid me s k read now) {row : Sample F} {rest : List (Sample F)}
    (unread : now.partition.unread = row :: rest) (fits : row.features.length = t.width) :
    t.Amid me s k (read ++ [row]) { now with partition := { now.partition with unread := rest } } :=
  { h with
    split := by
      rw [List.append_assoc, h.split, unread]
      rfl
    fit := by
      intro r hr
      rcases List.mem_append.mp hr with hr | hr
      · exact h.fit r hr
      · rw [List.mem_singleton.mp hr]
        exact fits }

theorem mem_rows (h : t.Amid me s k read now) {row : Sample F} {rest : List (Sample F)}
    (unread : now.partition.unread = row :: rest) : row ∈ (t.partition me).rows := by
  rw [← h.rows, h.split, unread]
  exact List.mem_append_right _ List.mem_cons_self

/-- At the end all rows have been read. -/
theorem read_eq (h : t.Amid me s k read now) (unread : now.partition.unread = []) :
    read = (t.partition me).rows := by
  rw [← h.rows, h.split, unread, List.append_nil]

theorem fits (h : t.Amid me s k read now) (unread : now.partition.unread = [])
    (readable : now.partition.readable = true) : t.Fits me := by
  refine ⟨h.readable_eq ▸ readable, fun row hr => h.fit row ?_⟩
  rw [h.read_eq unread]
  exact hr

end Amid

/-- **What is true of a peer between two rounds.** -/
def Between (t : Setting F) (me : PeerName) : Stage F → Standing F (Payload F) → Prop
  | .start, now => now = .fresh (t.partition me) 0
  | .scoring s sum, now => ∃ j read, t.loop.state j = some s ∧ t.Amid me s (4 * j + 1) read now ∧
      sum = t.model.score s.theta read
  | .descending s cost examples sum, now => ∃ j read, t.loop.state j = some s ∧
      t.Amid me s (4 * j + 3) read now ∧ sum = t.model.slope s.theta read ∧
      t.loop.turnout s = .goOn cost ∧ examples = (t.loop.total s.theta).count ∧
      ∀ peer ∈ t.cluster.names, t.Fits peer

/-- A peer of a training job, with what it knows. -/
def trainer (t : Setting F) (seat : Seat) : Trainer F := ⟨t.config, t.model.model, seat, t.leader⟩

/-! ### The parts of a round -/

section Parts

variable {t : Setting F} {seat : Seat} {now : Standing F (Payload F)}

/-- Starting over and waiting, where the superstep may be ended and everything has been done. -/
theorem keeps_rewind {post : Except (TrainingError F) Unit → Standing F (Payload F) → Prop}
    (syncs : t.plan.syncs seat.name now.superstep)
    (sent : now.sent = t.plan.sends seat.name now.superstep)
    (wrote : now.wrote = t.plan.writes seat.name now.superstep)
    (h : post (.ok ()) (.fresh now.partition.reset (now.superstep + 1))) :
    Trainer.rewind.run.Keeps t.plan seat.name post now := by
  rw [Trainer.rewind, keeps_run_bind, keeps_reopen]
  simp only []
  rw [keeps_run_bind, keeps_sync]
  exact ⟨syncs, fun _ => ⟨sent, wrote, h⟩⟩

/-- A record that only the leader writes. -/
theorem keeps_record {theta : List F} {cost : F}
    {post : Except (TrainingError F) Unit → Standing F (Payload F) → Prop}
    (empty : now.wrote = [])
    (leads : t.leader = seat.name → [(theta, cost)] <+: t.plan.writes seat.name now.superstep)
    (h : post (.ok ())
      { now with wrote := if t.leader = seat.name then [(theta, cost)] else [] }) :
    ((t.trainer seat).record theta cost).run.Keeps t.plan seat.name post now := by
  obtain ⟨partition, superstep, sent, looked, wrote⟩ := now
  obtain rfl : wrote = [] := empty
  by_cases hl : t.leader = seat.name
  · rw [if_pos hl] at h
    have role : (t.trainer seat).role = .leader := if_pos hl
    rw [Trainer.record, role, keeps_write]
    exact ⟨leads hl, h⟩
  · rw [if_neg hl] at h
    have role : (t.trainer seat).role = .follower := if_neg hl
    rw [Trainer.record, role]
    exact h

/-- **An exchange.** What everybody sends is in the inbox, in some order. -/
theorem keeps_exchange (say : PeerName → Payload F) {message : Payload F}
    {post : Except (TrainingError F) (List (Envelope (Payload F))) → Standing F (Payload F) → Prop}
    (peers : seat.peers = t.cluster.names) (mem : seat.name ∈ t.cluster.names)
    (own : message = say seat.name)
    (sends : ∀ peer, t.plan.sends peer now.superstep = broadcast t.cluster.names peer (say peer))
    (writes : t.plan.writes seat.name now.superstep = [])
    (sent : now.sent = []) (wrote : now.wrote = [])
    (syncs : t.plan.syncs seat.name now.superstep)
    (refused : t.plan.MayEnd now.superstep → ∀ sent, ∀ other ∈ t.cluster.names,
      other ≠ seat.name → post (.error (.peer (.disconnected other))) { now with sent })
    (h : t.plan.Passes now.superstep → ∀ received,
      received.Perm (heard t.cluster.names seat.name say) →
      post (.ok received)
        { Standing.fresh now.partition (now.superstep + 1) with looked := true }) :
    ((t.trainer seat).exchange message).run.Keeps t.plan seat.name post now := by
  have others : ∀ other ∈ seat.others, other ∈ t.cluster.names ∧ other ≠ seat.name := by
    intro other ho
    obtain ⟨ho, hne⟩ := List.mem_filter.mp ho
    exact ⟨peers ▸ ho, by simpa using hne⟩
  rw [Trainer.exchange, keeps_run_bind]
  refine keeps_sendAll (fun other ho => (others other ho).1) ?_ fun mayEnd sent other ho =>
    refused mayEnd sent other (others other ho).1 (others other ho).2
  simp only []
  rw [keeps_run_bind, keeps_sync]
  refine ⟨syncs, fun passes => ⟨?_, wrote.trans writes.symm, ?_⟩⟩
  · rw [sent, sends, List.nil_append, own, Seat.others]
    change (List.filter _ seat.peers).map _ = _
    rw [peers]
    rfl
  · simp only []
    rw [keeps_drain]
    refine fun received arrives => h passes received ?_
    -- sender by sender, as the order in which messages of different peers arrive is not known
    refine perm_heard t.cluster.nodup_names mem fun sender => (arrives sender).trans ?_
    refine ite_congr rfl (fun _ => ?_) fun _ => rfl
    rw [Plan.mail, sends]

end Parts

/-! ### The rounds -/

section Rounds

variable {t : Setting F} {seat : Seat} {now : Standing F (Payload F)}

/-- Where the peers start from is where the loop starts from. -/
theorem amid_start {partition : Partition F}
    (featureCount : partition.featureCount = (t.partition seat.name).featureCount)
    (rows : partition.rows = (t.partition seat.name).rows)
    (unread : partition.unread = partition.rows) (looked : Bool) :
    t.Between seat.name (.scoring (.start t.loop.start) .zero)
      { Standing.fresh partition 1 with looked } :=
  ⟨0, [], rfl,
    { width := List.length_replicate
      superstep := rfl
      sent := rfl
      wrote := rfl
      featureCount
      rows
      split := unread.symm
      fit := List.forall_mem_nil _ }, rfl⟩

/-- The leader looks at its first row. -/
theorem keeps_probe {plan : Plan F (Payload F) (TrainingError F) (Summary F)} {me : PeerName}
    {p : Partition F} (hp : t.partition t.leader = p) (unread : p.unread = p.rows)
    {post : Except (TrainingError F) Nat → Standing F (Payload F) → Prop}
    (probed : t.Probed → post (.ok t.width) (.fresh p.reset 0))
    (failed : p.readable = true → ¬t.Probed → post (.error .dimensionProbe) (.fresh p.reset 0))
    (crashed : p.readable = false → plan.MayLeave me (.fresh p 0) .crashed) :
    (Bootstrap.probe (F := F)).run.Keeps plan me post (.fresh p 0) := by
  have reset : p.next.2.reset = p.reset := by
    unfold Partition.next
    split <;> rfl
  rw [Bootstrap.probe, keeps_run_bind, keeps_read]
  split
  · next readable =>
    simp only []
    rw [keeps_run_bind, keeps_reopen]
    change p.readable = true at readable
    change Program.Keeps _ _ _ _ (.fresh p.next.2.reset 0)
    rw [reset]
    cases hr : p.rows with
    | nil =>
      simp only [Standing.fresh, Partition.next_of_nil (unread.trans hr)]
      refine failed readable fun h => ?_
      have := h.2
      simp [width, hp, hr] at this
    | cons row rest =>
      have width : t.width = row.features.length := by simp [width, hp, hr]
      obtain ⟨features, label⟩ := row
      simp only [Standing.fresh, Partition.next_of_cons (unread.trans hr)]
      cases features with
      | nil => exact failed readable fun h => absurd h.2 (by simp [width])
      | cons feature more =>
        have probed := probed ⟨hp ▸ readable, by simp [width]⟩
        rw [width] at probed
        exact probed
  · next unreadable =>
    exact crashed (Bool.not_eq_true _ ▸ unreadable)

/-- What a peer that agrees with the others ends up with: the parameters to start from, and all its
rows unread. -/
def Agreed (t : Setting F) (me : PeerName) :
    Except (TrainingError F) (List F) → Standing F (Payload F) → Prop
  | .ok theta, now => theta = t.loop.start ∧ now.superstep = 1 ∧
      t.Between me (.scoring (.start theta) .zero) now
  | .error error, now => t.plan.MayLeave me now (.failed error)

/-- The leader proposes the parameters. -/
theorem keeps_propose {p : Partition F} (hp : t.partition t.leader = p)
    (unread : p.unread = p.rows) (peers : seat.peers = t.cluster.names)
    (leads : t.leader = seat.name) :
    (Bootstrap.propose seat t.config.initialTheta).run.Keeps t.plan seat.name (t.Agreed seat.name)
      (.fresh p 0) := by
  have leaves : ∀ {now : Standing F (Payload F)} {outcome}, ¬t.Probed → now.superstep = 0 →
      now.wrote = [] → (outcome = .crashed ∨ outcome = .failed .dimensionProbe) →
      t.plan.MayLeave seat.name now outcome := by
    intro now outcome unprobed hk hw ho
    refine ⟨?_, ?_⟩
    · rw [hk]
      exact leaves_opening.mpr ⟨leads, unprobed, ho⟩
    · rw [hw, hk, writes_opening]
  have unprobed : p.readable = false → ¬t.Probed := by
    intro unreadable probed
    rw [← hp, probed.1] at unreadable
    cases unreadable
  rw [Bootstrap.propose, keeps_run_bind]
  refine keeps_probe hp unread (fun probed => ?_)
    (fun _ unprobed => leaves unprobed rfl rfl (.inr rfl))
    (fun unreadable => leaves (unprobed unreadable) rfl rfl (.inl rfl))
  simp only []
  rw [keeps_run_bind, keeps_say]
  simp only []
  rw [keeps_run_bind]
  refine keeps_sendAll (fun other ho => ?_) ?_ ?_
  · change other ∈ t.cluster.names
    rw [← peers]
    exact (List.mem_filter.mp ho).1
  · simp only []
    rw [keeps_run_bind, keeps_sync]
    refine ⟨fun _ => probed, fun _ => ⟨?_, writes_opening.symm, rfl, rfl, ?_⟩⟩
    · refine Eq.trans ?_ (if_pos leads).symm
      rw [← peers]
      rfl
    · exact amid_start (leads ▸ hp ▸ rfl) (leads ▸ hp ▸ rfl) rfl false
  · rintro ⟨peer, -, outcome, -, unprobed, -⟩
    exact absurd probed unprobed

/-- The others adopt the leader's parameters. -/
theorem keeps_await {p : Partition F} (hp : t.partition seat.name = p) (unread : p.unread = p.rows)
    (mem : seat.name ∈ t.cluster.names) (follows : t.leader ≠ seat.name) :
    (Bootstrap.await (F := F) seat).run.Keeps t.plan seat.name (t.Agreed seat.name)
      (.fresh p 0) := by
  rw [Bootstrap.await, keeps_run_bind, keeps_say]
  simp only []
  rw [keeps_run_bind, keeps_sync]
  refine ⟨fun leads => absurd leads follows, fun passes =>
    ⟨(if_neg follows).symm, writes_opening.symm, ?_⟩⟩
  simp only []
  rw [keeps_run_bind, keeps_drain]
  refine fun received arrives => ?_
  simp only []
  rw [keeps_run_bind, keeps_sayAll]
  -- nobody but the leader was to send anything, and it was to send one message
  have only : received = [⟨t.leader, .theta t.loop.start⟩] := by
    refine List.perm_singleton.mp
      (perm_of_filter_eq Envelope.sender fun sender => (arrives sender).trans ?_)
    change (if sender ∈ t.cluster.names then t.plan.mail sender seat.name 0 else []) = _
    rw [Plan.mail, sends_opening]
    by_cases hl : t.leader = sender
    · subst hl
      rw [if_pos t.leader_mem, if_pos rfl, mail_broadcast t.cluster.nodup_names mem, if_neg follows]
      simp
    · rw [if_neg hl]
      simp [hl]
  -- there is a parameter to adopt, for otherwise the leader would not have come to the barrier
  have adopted : Bootstrap.adopt seat.name received = .ok t.loop.start := by
    obtain ⟨n, hn⟩ := Nat.exists_eq_succ_of_ne_zero (Nat.ne_of_gt (probed_of_passes passes).2)
    have start : t.loop.start =
        t.config.initialTheta :: List.replicate n t.config.initialTheta := by
      change List.replicate t.width t.config.initialTheta = _
      rw [hn, List.replicate_succ]
    rw [only, start]
    simp [Bootstrap.adopt, Bootstrap.adoptAfter, follows]
  change t.Agreed seat.name (Bootstrap.adopt seat.name received) _
  rw [adopted]
  exact ⟨rfl, rfl, amid_start (hp ▸ rfl) (hp ▸ rfl) unread true⟩

/-- **The first round**: the peers agree on the parameters. -/
theorem keeps_start (peers : seat.peers = t.cluster.names) (mem : seat.name ∈ t.cluster.names)
    (n : Nat) :
    ((t.trainer seat).round .start).run.Keeps t.plan seat.name
      (t.plan.Settles seat.name (t.Between seat.name) ⟨0, n⟩)
      (.fresh (t.partition seat.name) 0) := by
  have unread := t.unread _ (Cluster.partitionOf_mem mem)
  have agreed : (Bootstrap.agree seat (t.trainer seat).role t.config.initialTheta).run.Keeps t.plan
      seat.name (t.Agreed seat.name) (.fresh (t.partition seat.name) 0) := by
    by_cases hl : t.leader = seat.name
    · have role : (t.trainer seat).role = .leader := if_pos hl
      rw [role]
      exact keeps_propose (congrArg t.partition hl) unread peers hl
    · have role : (t.trainer seat).role = .follower := if_neg hl
      rw [role]
      exact keeps_await rfl unread mem hl
  rw [Trainer.round, keeps_run_bind, keeps_say]
  simp only []
  rw [keeps_run_bind]
  refine agreed.imp fun result now h => ?_
  cases result with
  | error error => exact h
  | ok theta =>
    obtain ⟨-, superstep, between⟩ := h
    refine ⟨between, fun same => ?_⟩
    rw [superstep] at same
    cases same

/-- The total of all costs. -/
theorem keeps_totalCost {s : RunState F} {j : Nat} (peers : seat.peers = t.cluster.names)
    (mem : seat.name ∈ t.cluster.names) (hs : t.loop.state j = some s)
    (amid : t.Amid seat.name s (4 * j + 1) (t.partition seat.name).rows now)
    (fits : t.Fits seat.name)
    {post : Except (TrainingError F) (PartialCost F) → Standing F (Payload F) → Prop}
    (refused : (∃ peer ∈ t.cluster.names, ¬t.Fits peer) → ∀ sent, ∀ other ∈ t.cluster.names,
      other ≠ seat.name → post (.error (.peer (.disconnected other))) { now with sent })
    (h : (∀ peer ∈ t.cluster.names, t.Fits peer) → post (.ok (t.loop.total s.theta))
      { Standing.fresh now.partition (4 * j + 2) with looked := true }) :
    ((t.trainer seat).totalCost (t.score seat.name s.theta)).run.Keeps t.plan seat.name post
      now := by
  obtain ⟨partition, superstep, sent, looked, wrote⟩ := now
  obtain rfl : superstep = 4 * j + 1 := amid.superstep
  rw [Trainer.totalCost, keeps_run_bind]
  refine keeps_exchange
    (fun peer => .cost (t.score peer s.theta).sum (t.score peer s.theta).count)
    peers mem rfl (fun peer => sends_scoring hs) writes_scoring amid.sent amid.wrote
    (syncs_scoring.mpr ⟨⟨s, hs⟩, fits⟩) ?_ ?_
  · rintro ⟨peer, hp, outcome, leaves⟩
    exact refused (exists_unfit hp (leaves_scoring.mp leaves))
  · refine fun passes received perm => ?_
    simp only []
    rw [keeps_run_bind, keeps_sayTimes]
    change post (Totals.cost seat.name (t.score seat.name s.theta) received) _
    rw [Totals.cost_eq (fun peer => t.score peer s.theta) t.cluster.nodup_names mem perm,
      ← total_loop]
    exact h (fits_of_passes passes)

/-- The total of all gradients. -/
theorem keeps_totalGradient {s : RunState F} {j : Nat} {cost : F}
    (peers : seat.peers = t.cluster.names) (mem : seat.name ∈ t.cluster.names)
    (hs : t.loop.state j = some s) (goesOn : t.loop.turnout s = .goOn cost)
    (amid : t.Amid seat.name s (4 * j + 3) (t.partition seat.name).rows now)
    (fit : ∀ peer ∈ t.cluster.names, t.Fits peer)
    {post : Except (TrainingError F) (List F) → Standing F (Payload F) → Prop}
    (h : post (.ok (t.loop.gradient s.theta))
      { Standing.fresh now.partition (4 * j + 4) with looked := true }) :
    ((t.trainer seat).totalGradient (t.slope seat.name s.theta)).run.Keeps t.plan seat.name post
      now := by
  obtain ⟨partition, superstep, sent, looked, wrote⟩ := now
  obtain rfl : superstep = 4 * j + 3 := amid.superstep
  rw [Trainer.totalGradient, keeps_run_bind]
  refine keeps_exchange (fun peer => .gradient (t.slope peer s.theta)) peers mem rfl
    (fun peer => sends_descending hs) writes_descending amid.sent amid.wrote
    (syncs_descending.mpr ⟨s, cost, hs, goesOn⟩) ?_ ?_
  · -- nobody is out of reach: peers leave in this superstep only if the cost went up
    rintro ⟨peer, hp, outcome, leaves⟩
    obtain ⟨u, failure, hu, diverged, -⟩ := leaves_descending.mp leaves
    obtain rfl := Option.some.inj (hs.symm.trans hu)
    rw [goesOn] at diverged
    cases diverged
  · refine fun passes received perm => ?_
    have length : ∀ peer ∈ t.cluster.names, (t.slope peer s.theta).length = s.theta.length :=
      fun peer hp => t.model.length_slope _ _ fun row hr =>
        ((fit peer hp).2 row hr).trans amid.width.symm
    simp only []
    rw [keeps_run_bind, keeps_sayTimes]
    change post (Totals.gradient seat.name (t.slope seat.name s.theta) received) _
    rw [Totals.gradient_eq (fun peer => t.slope peer s.theta) t.cluster.nodup_names mem length perm]
    rw [gradient_loop] at h
    exact h

/-- Closing a run, which is the leader's to write. -/
theorem keeps_conclude {s : RunState F} {k : Nat} {partition : Partition F} {looked : Bool}
    {post : Except (TrainingError F) Unit → Standing F (Payload F) → Prop}
    (writes : t.plan.writes seat.name k =
      if t.leader = seat.name then [(s.theta, s.cost)] else [])
    (h : post (.ok ())
      { Standing.fresh partition k with looked, wrote := t.plan.writes seat.name k }) :
    ((t.trainer seat).conclude s).run.Keeps t.plan seat.name post
      { Standing.fresh partition k with looked } := by
  rw [Trainer.conclude, keeps_run_bind, keeps_say]
  refine keeps_record rfl (fun leads => ?_) (writes ▸ h)
  change _ <+: t.plan.writes seat.name k
  exact (writes.trans (if_pos leads)) ▸ List.prefix_rfl

variable {s : RunState F} {j : Nat} {partition : Partition F} {looked : Bool}
  {mark : Mark}

/-- **If the cost went up**, all wait until the leader has written its last record, and fail. -/
theorem keeps_fail {failure : TrainingError F} (hs : t.loop.state j = some s)
    (diverged : t.loop.turnout s = .diverged failure) :
    (do (t.trainer seat).conclude s
        let _ ← attempt Program.sync
        throw failure : TrainingProgram F (Progress (Stage F) (Summary F))).run.Keeps
      t.plan seat.name
      (t.plan.Settles seat.name (t.Between seat.name) mark)
      { Standing.fresh partition (4 * j + 2) with looked } := by
  rw [keeps_run_bind]
  refine keeps_conclude (closing_of_diverged diverged ▸ writes_judging hs) ?_
  simp only []
  rw [keeps_run_bind, keeps_sync]
  refine ⟨syncs_judging.mpr ⟨s, hs, .inr ⟨failure, diverged⟩⟩, fun _ => ⟨?_, rfl, ?_⟩⟩
  · exact sends_judging.symm
  · exact ⟨leaves_descending.mpr ⟨s, failure, hs, diverged, rfl⟩, writes_descending.symm⟩

/-- **If the cost is small enough**, the run is over. -/
theorem keeps_finish {cost : F} (hs : t.loop.state j = some s)
    (converged : t.loop.turnout s = .converged cost) (last : RunState F)
    (hl : last = { theta := s.theta, cost, iteration := s.iteration + 1,
                   examples := (t.loop.total s.theta).count }) :
    (do (t.trainer seat).conclude last
        return .finish
          { theta := last.theta, cost, iterations := last.iteration, examples := last.examples,
            role := (t.trainer seat).role } :
          TrainingProgram F (Progress (Stage F) (Summary F))).run.Keeps t.plan seat.name
      (t.plan.Settles seat.name (t.Between seat.name) mark)
      { Standing.fresh partition (4 * j + 2) with looked } := by
  have outcome : t.loop.outcome s = some (.ok last) := by simp only [Loop.outcome, converged, hl]
  subst hl
  rw [keeps_run_bind]
  refine keeps_conclude (closing_of_converged converged ▸ writes_judging hs) ?_
  exact ⟨leaves_judging.mpr ⟨s, hs, .inr ⟨_, outcome, rfl⟩⟩, rfl⟩

/-- **If there is something to gain**, the rows are gone through once more. -/
theorem keeps_proceed {cost : F} (hs : t.loop.state j = some s)
    (goesOn : t.loop.turnout s = .goOn cost) (width : s.theta.length = t.width)
    (featureCount : partition.featureCount = (t.partition seat.name).featureCount)
    (rows : partition.rows = (t.partition seat.name).rows)
    (fit : ∀ peer ∈ t.cluster.names, t.Fits peer) (hm : mark.superstep = 4 * j + 1) :
    (do Trainer.rewind
        return .goOn (.descending s cost (t.loop.total s.theta).count (Pass.flat s.theta)) :
          TrainingProgram F (Progress (Stage F) (Summary F))).run.Keeps t.plan seat.name
      (t.plan.Settles seat.name (t.Between seat.name) mark)
      { Standing.fresh partition (4 * j + 2) with looked } := by
  rw [keeps_run_bind]
  refine keeps_rewind (syncs_judging.mpr ⟨s, hs, .inl ⟨cost, goesOn⟩⟩) sends_judging.symm ?_ ?_
  · exact (writes_judging_eq_nil hs (closing_of_goOn goesOn)).symm
  · refine ⟨⟨j, [], hs, .reset width featureCount rows, rfl, goesOn, rfl, fit⟩, fun same => ?_⟩
    rw [hm] at same
    exact absurd same (by simp [Standing.fresh])

/-- **What follows when the costs of all rows are known.** -/
theorem keeps_settle (peers : seat.peers = t.cluster.names) (mem : seat.name ∈ t.cluster.names)
    (hs : t.loop.state j = some s)
    (amid : t.Amid seat.name s (4 * j + 1) (t.partition seat.name).rows now)
    (fits : t.Fits seat.name) (hk : mark.superstep = 4 * j + 1) :
    ((t.trainer seat).settle s (t.score seat.name s.theta)).run.Keeps t.plan seat.name
      (t.plan.Settles seat.name (t.Between seat.name) mark) now := by
  rw [Trainer.settle, keeps_run_bind]
  refine keeps_totalCost peers mem hs amid fits (fun unfit sent other ho hne => ?_) fun fit => ?_
  · refine ⟨?_, ?_⟩
    · rw [amid.superstep]
      exact leaves_scoring.mpr (.inr ⟨unfit, other, ho, hne, rfl⟩)
    · rw [amid.superstep, writes_scoring]
      exact amid.wrote
  · simp only []
    -- all peers know the same total, and so they decide alike
    cases hm : (t.loop.total s.theta).mean? with
    | none =>
      have empty : t.loop.turnout s = .empty := by simp only [Loop.turnout, hm]
      exact ⟨leaves_judging.mpr ⟨s, hs, .inl ⟨empty, rfl⟩⟩,
        (writes_judging_eq_nil hs (closing_of_empty empty)).symm⟩
    | some mean =>
      have turnout := Loop.turnout_of_mean hm
      simp only []
      rw [keeps_run_bind, keeps_say]
      simp only []
      split
      · next failure hj =>
        rw [show Descent.judge t.loop.config s mean = _ from hj] at turnout
        exact keeps_fail hs turnout
      · next cost hj =>
        rw [show Descent.judge t.loop.config s mean = _ from hj] at turnout
        rw [keeps_run_bind, keeps_say]
        exact keeps_finish hs turnout _ rfl
      · next cost hj =>
        rw [show Descent.judge t.loop.config s mean = _ from hj] at turnout
        rw [keeps_run_bind, keeps_say]
        exact keeps_proceed hs turnout amid.width amid.featureCount amid.rows fit hk

/-- **A round of the first pass**: one more row, or what follows the last one. -/
theorem keeps_scoring {sum : PartialCost F} (peers : seat.peers = t.cluster.names)
    (mem : seat.name ∈ t.cluster.names) (h : t.Between seat.name (.scoring s sum) now) :
    ((t.trainer seat).round (.scoring s sum)).run.Keeps t.plan seat.name
      (t.plan.Settles seat.name (t.Between seat.name)
        ⟨now.superstep, now.partition.unread.length⟩) now := by
  obtain ⟨j, read, hs, amid, rfl⟩ := h
  have leaves : ∀ {partition : Partition F} {outcome}, t.Misfits seat.name outcome →
      t.plan.MayLeave seat.name { now with partition } outcome := by
    intro partition outcome misfits
    refine ⟨?_, ?_⟩
    · change t.plan.leaves _ now.superstep _
      rw [amid.superstep]
      exact leaves_scoring.mpr misfits
    · change now.wrote = t.plan.writes _ now.superstep
      rw [amid.superstep, writes_scoring]
      exact amid.wrote
  rw [Trainer.round, keeps_run_bind, Pass.scoreNext, keeps_run_bind, keeps_read]
  split
  · next readable =>
    cases hu : now.partition.unread with
    | nil =>
      rw [Partition.next_of_nil hu]
      have all := amid.read_eq hu
      subst all
      exact keeps_settle peers mem hs amid (amid.fits hu readable) amid.superstep
    | cons row rest =>
      rw [Partition.next_of_cons hu]
      simp only []
      rw [keeps_run_bind, Pass.checkFeatures]
      split
      · next same =>
        have fits : row.features.length = t.width := same.trans amid.width
        refine ⟨⟨j, read ++ [row], hs, amid.next hu fits, ?_⟩, fun _ => ?_⟩
        · exact (t.model.score_concat s.theta read row).symm
        · exact Nat.lt_succ_self _
      · next other =>
        have mem := amid.mem_rows hu
        rw [amid.width] at other
        refine leaves (.inl ⟨fun fits => other (fits.2 row mem), .inr ⟨row, mem, other, ?_⟩⟩)
        rw [amid.width]
  · next unreadable =>
    refine leaves (.inl ⟨fun fits => unreadable ?_, .inl rfl⟩)
    rw [amid.readable_eq]
    exact fits.1

/-- **What follows when the gradients of all rows are known**: a step, and the next iteration. -/
theorem keeps_descend {cost : F} (peers : seat.peers = t.cluster.names)
    (mem : seat.name ∈ t.cluster.names) (hs : t.loop.state j = some s)
    (goesOn : t.loop.turnout s = .goOn cost)
    (amid : t.Amid seat.name s (4 * j + 3) (t.partition seat.name).rows now)
    (fit : ∀ peer ∈ t.cluster.names, t.Fits peer) (hk : mark.superstep = 4 * j + 3) :
    ((t.trainer seat).descend s cost (t.loop.total s.theta).count
        (t.slope seat.name s.theta)).run.Keeps t.plan seat.name
      (t.plan.Settles seat.name (t.Between seat.name) mark) now := by
  have stepped : t.loop.state (j + 1) = some (t.loop.stepped s cost) := by
    rw [Loop.state_succ hs, Loop.next, goesOn]
  have length : (t.loop.gradient s.theta).length = s.theta.length :=
    t.length_gradient amid.width fit
  have updated : Descent.update (t.trainer seat).config.alpha s.theta (t.loop.gradient s.theta) =
      .ok (t.loop.stepped s cost).theta := if_pos length
  have writes : t.plan.writes seat.name (4 * j + 4) = _ := writes_stepping stepped
  rw [Trainer.descend, keeps_run_bind]
  refine keeps_totalGradient peers mem hs goesOn amid fit ?_
  simp only []
  rw [keeps_run_bind, keeps_mk_done]
  rw [updated]
  simp only []
  rw [keeps_run_bind, keeps_say]
  simp only []
  rw [keeps_run_bind]
  refine keeps_record rfl (fun leads => ?_) ?_
  · change _ <+: t.plan.writes seat.name (4 * j + 4)
    rw [writes, if_pos leads]
    exact List.prefix_rfl
  · simp only []
    rw [keeps_run_bind]
    refine keeps_rewind (syncs_stepping.mpr ⟨s, cost, hs, goesOn⟩) sends_stepping.symm
      writes.symm ?_
    refine ⟨⟨j + 1, [], stepped, .reset ?_ amid.featureCount amid.rows, rfl⟩, fun same => ?_⟩
    · change (List.zipWith _ s.theta (t.loop.gradient s.theta)).length = t.width
      rw [List.length_zipWith, length, Nat.min_self, amid.width]
    · rw [hk] at same
      exact absurd same (by simp [Standing.fresh])

/-- **A round of the second pass**: one more row, or what follows the last one. -/
theorem keeps_descending {cost : F} {examples : UInt64} {sum : List F}
    (peers : seat.peers = t.cluster.names) (mem : seat.name ∈ t.cluster.names)
    (h : t.Between seat.name (.descending s cost examples sum) now) :
    ((t.trainer seat).round (.descending s cost examples sum)).run.Keeps t.plan seat.name
      (t.plan.Settles seat.name (t.Between seat.name)
        ⟨now.superstep, now.partition.unread.length⟩) now := by
  obtain ⟨j, read, hs, amid, rfl, goesOn, rfl, fit⟩ := h
  have fits := fit seat.name mem
  rw [Trainer.round, keeps_run_bind, Pass.slopeNext, keeps_run_bind, keeps_read, amid.readable_eq,
    if_pos fits.1]
  cases hu : now.partition.unread with
  | nil =>
    rw [Partition.next_of_nil hu]
    have all := amid.read_eq hu
    subst all
    exact keeps_descend peers mem hs goesOn amid fit amid.superstep
  | cons row rest =>
    have same := fits.2 row (amid.mem_rows hu)
    rw [Partition.next_of_cons hu]
    simp only []
    rw [keeps_run_bind, Pass.checkFeatures, if_pos (same.trans amid.width.symm)]
    refine ⟨⟨j, read ++ [row], hs, amid.next hu same, ?_, goesOn, rfl, fit⟩, fun _ => ?_⟩
    · exact (t.model.slope_concat s.theta read row).symm
    · exact Nat.lt_succ_self _

/-- **A peer that is set to train keeps to the plan.** -/
theorem guides (peers : seat.peers = t.cluster.names) (mem : seat.name ∈ t.cluster.names) :
    t.plan.Guides seat.name (t.Between seat.name) (t.trainer seat).process := by
  intro stage now h
  cases stage with
  | start =>
    obtain rfl : now = .fresh (t.partition seat.name) 0 := h
    exact keeps_start peers mem _
  | scoring s sum => exact keeps_scoring peers mem h
  | descending s cost examples sum => exact keeps_descending peers mem h

end Rounds

end Setting

end Superstep
