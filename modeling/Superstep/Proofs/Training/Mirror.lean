import Superstep.Proofs.Training.Records
import Superstep.Proofs.Training.Renaming

/-!
# Jobs that mirror each other

Neither the order in which a job enumerates its peers nor the way their names are spelled has a part
in what the peers compute: sums are taken in the order of the names, and all else that depends on
names is who leads. So if two jobs have the same partitions under names that compare alike, whatever
one of them comes to the other one does as well, peer by peer (`Superstep.Execution.Mirrors`).

Two jobs that carry out one loop mirror each other (`Superstep.Setting.Renames.mirrors`), and so do
two jobs that come to nothing in the same way (`Superstep.Execution.Stalls.mirrors`). What is looked
at of who leads is a parameter (`Superstep.View`), as it need not be the same peer that leads.
-/

namespace Superstep

variable {F : Type}

/-! ### Other names -/

/-- The error for other names. -/
def PeerError.rename (f : PeerName → PeerName) : PeerError → PeerError
  | unknownPeer name => unknownPeer (f name)
  | disconnected name => disconnected (f name)
  | crashed name => crashed (f name)
  | other => other

/-- The failure for other names. -/
def TrainingError.rename (f : PeerName → PeerName) : TrainingError F → TrainingError F
  | config error => config (error.rename f)
  | peer error => peer (error.rename f)
  | other => other

/-- The settings for other names. -/
def Config.rename (f : PeerName → PeerName) (config : Config F) : Config F :=
  { config with leader := config.leader.rename f }

/-- What is looked at of who leads: the leader's name, and the roles of all. -/
structure View where
  name : PeerName → PeerName
  role : Role → Role

namespace View

/-- All is looked at. -/
def whole : View := ⟨id, id⟩

/-- It is left out of account who leads. -/
def unled : View := ⟨fun _ => "", fun _ => .follower⟩

variable (view : View)

/-- What is seen of a summary. -/
def summary (s : Summary F) : Summary F := { s with role := view.role s.role }

/-- What is seen of the records of a log, with other names for their writers. -/
def records (f : PeerName → PeerName) (log : OutputLog F) : List (OutputRecord F) :=
  log.toList.map fun entry => { entry with writer := view.name (f entry.writer) }

end View

/-! ### Jobs -/

/-- One peer is over as another one is. -/
inductive Outcome.Mirrors (view : View) (f : PeerName → PeerName) :
    Outcome (TrainingError F) (Summary F) → Outcome (TrainingError F) (Summary F) → Prop
  | value {s s' : Summary F} (same : view.summary s = view.summary s') :
    Mirrors view f (.value s) (.value s')
  | failed (error : TrainingError F) : Mirrors view f (.failed error) (.failed (error.rename f))
  | crashed : Mirrors view f .crashed .crashed

/-- One job ends as another one does, and values belong to the same peers. -/
inductive Ending.Mirrors (view : View) (f : PeerName → PeerName) (names names' : List PeerName) :
    Ending (TrainingError F) (Summary F) → Ending (TrainingError F) (Summary F) → Prop
  | values {values values' : List (Summary F)}
    (same : (names'.zip (values'.map view.summary)).Perm
      ((names.zip (values.map view.summary)).map (Prod.map f id))) :
    Mirrors view f names names' (.values values) (.values values')
  | failed (error : TrainingError F) :
    Mirrors view f names names' (.failed error) (.failed (error.rename f))
  | crashed {name name' : PeerName} (same : view.name (f name) = view.name name') :
    Mirrors view f names names' (.crashed name) (.crashed name')

namespace Execution

/-- **Two training jobs mirror each other**, whichever turns are taken in each. -/
structure Mirrors (view : View) (f : PeerName → PeerName)
    (x x' : Execution F (Payload F) (Stage F) (TrainingError F) (Summary F)) : Prop where
  /-- Where a peer has read as many rows in a superstep, it is in the same stage. -/
  stages : ∀ y y', x.Reaches y → x'.Reaches y' → ∀ s ∈ y.stations, ∀ s' ∈ y'.stations,
    s'.seat.name = f s.seat.name → s.superstep = s'.superstep →
    s.partition.unread.length = s'.partition.unread.length → ∀ stage stage',
      s.activity = .running (.done (.ok (.goOn stage))) →
      s'.activity = .running (.done (.ok (.goOn stage'))) → stage = stage'
  left : ∀ y y', x.Reaches y → x'.Reaches y' → ∀ s ∈ y.stations, ∀ s' ∈ y'.stations,
    s'.seat.name = f s.seat.name → ∀ outcome outcome',
      (s.activity = .leaving outcome ∨ s.activity = .gone outcome) →
      (s'.activity = .leaving outcome' ∨ s'.activity = .gone outcome') →
        outcome.Mirrors view f outcome'
  ended : ∀ y y', x.Reaches y → x'.Reaches y' → ∀ ending ending', y.ending? = some ending →
    y'.ending? = some ending' →
      ending.Mirrors view f (x.stations.map (·.seat.name)) (x'.stations.map (·.seat.name)) ending'
  /-- One log is a beginning of the other one, -/
  logged : ∀ y y', x.Reaches y → x'.Reaches y' →
    view.records f y.output <+: view.records id y'.output ∨
      view.records id y'.output <+: view.records f y.output
  /-- and in the end they are the same. -/
  recorded : ∀ y y', x.Reaches y → x'.Reaches y' → y.ending?.isSome → y'.ending?.isSome →
    view.records f y.output = view.records id y'.output
  /-- Both end, or both go on for ever. -/
  ends : ((x.Inevitable fun y => y.ending?.isSome) ∧ x'.Inevitable fun y => y.ending?.isSome) ∨
    ∀ supersteps,
      (x.Inevitable fun y => y.ending? = none ∧ ∀ s ∈ y.stations, supersteps ≤ s.superstep) ∧
      x'.Inevitable fun y => y.ending? = none ∧ ∀ s ∈ y.stations, supersteps ≤ s.superstep

variable {view : View} {f : PeerName → PeerName} {quits quits' : PeerName → Prop}
  {outcome outcome' : Outcome (TrainingError F) (Summary F)}
  {x x' : Execution F (Payload F) (Stage F) (TrainingError F) (Summary F)}

/-- **Jobs that come to nothing in the same way mirror each other.** -/
theorem Stalls.mirrors (h : x.Stalls .start quits outcome) (h' : x'.Stalls .start quits' outcome')
    (ends : x.Inevitable fun y => y.ending?.isSome)
    (ends' : x'.Inevitable fun y => y.ending?.isSome) (same : outcome.Mirrors view f outcome')
    (quitters : outcome = .crashed → ∀ name name', quits name → quits' name' →
      view.name (f name) = view.name name') : x.Mirrors view f x' where
  stages y y' reaches reaches' s hs s' hs' _ _ _ stage stage' ha ha' :=
    (h.untouched y reaches s hs stage ha).trans (h'.untouched y' reaches' s' hs' stage' ha').symm
  left y y' reaches reaches' s hs s' hs' _ other other' ha ha' := by
    obtain ⟨-, rfl⟩ := h.left y reaches s hs other ha
    obtain ⟨-, rfl⟩ := h'.left y' reaches' s' hs' other' ha'
    exact same
  ended y y' reaches reaches' ending ending' he he' := by
    rcases h.ended y reaches ending he with ⟨error, rfl, rfl⟩ | ⟨name, quit, rfl, rfl⟩ <;>
      rcases h'.ended y' reaches' ending' he' with ⟨error', rfl, rfl⟩ | ⟨name', quit', rfl, rfl⟩ <;>
      cases same
    · exact .failed error
    · exact .crashed (quitters rfl name name' quit quit')
  logged y y' reaches _ := by
    rw [View.records, h.silent y reaches]
    exact .inl List.nil_prefix
  recorded y y' reaches reaches' _ _ := by
    rw [View.records, View.records, h.silent y reaches, h'.silent y' reaches']
    rfl
  ends := .inl ⟨ends, ends'⟩

end Execution

/-! ### Jobs that carry out one loop -/

variable [Scalar F]

namespace Loop

/-- The loop for other names. -/
def rename (f : PeerName → PeerName) (loop : Loop F) : Loop F :=
  { loop with config := loop.config.rename f }

variable (f : PeerName → PeerName) (loop : Loop F)

theorem turnout_rename (s : RunState F) : (loop.rename f).turnout s = loop.turnout s := rfl

theorem state_rename (j : Nat) : (loop.rename f).state j = loop.state j := by
  induction j with
  | zero => rfl
  | succ j ih => exact congrArg (Option.bind · loop.next) ih

theorem result_rename (j : Nat) : (loop.rename f).result j = loop.result j :=
  congrArg (Option.bind · loop.outcome) (state_rename f loop j)

/-- A loop fails for no reason that has to do with names. -/
theorem rename_of_result {loop : Loop F} {j : Nat} {failure : TrainingError F}
    (h : loop.result j = some (.error failure)) : failure.rename f = failure := by
  obtain ⟨s, -, ⟨-, hf⟩ | ⟨other, diverged, hf⟩ | ⟨cost, -, hf⟩⟩ := result_cases h
  · obtain rfl := Except.error.inj hf
    rfl
  · obtain rfl := Except.error.inj hf
    obtain ⟨mean, -, rfl⟩ := mean_of_diverged diverged
    rfl
  · cases hf

/-- Only the rows of the shares matter, in the order of the names. -/
theorem ofShares_congr (config : Config F) (m : TotalModel F) (width : Nat)
    {shares shares' : List (PeerName × List (Sample F))}
    (same : (byName (·.1) shares).map (·.2) = (byName (·.1) shares').map (·.2)) :
    ofShares config m width shares = ofShares config m width shares' := by
  have total (theta : List F) := congrArg
    (List.foldl (fun total rows => total.merge (m.score theta rows)) PartialCost.zero) same
  have gradient (theta : List F) := congrArg
    (List.foldl (fun total rows => Totals.addEntries total (m.slope theta rows)) (Pass.flat theta))
    same
  simp only [List.foldl_map] at total gradient
  exact congrArg₂ (Loop.mk config (List.replicate width config.initialTheta)) (funext total)
    (funext gradient)

end Loop

/-- How far into an iteration a peer is, in supersteps. -/
def Stage.phase : Stage F → Nat
  | .start => 0
  | .scoring _ _ => 1
  | .descending _ _ _ _ => 3

namespace Setting

theorem phase_of_between {t : Setting F} {peer : PeerName} {stage : Stage F}
    {now : Standing F (Payload F)} (between : t.Between peer stage now) :
    now.superstep % 4 = stage.phase := by
  cases stage with
  | start =>
    obtain rfl : now = _ := between
    rfl
  | scoring s sum =>
    obtain ⟨j, read, -, amid, -⟩ := between
    rw [amid.superstep]
    exact Nat.mul_add_mod 4 j 1
  | descending s cost examples sum =>
    obtain ⟨j, read, -, amid, -⟩ := between
    rw [amid.superstep]
    exact Nat.mul_add_mod 4 j 3

section Records

variable {t : Setting F} {marks : Nat → Mark} {chronicle : Chronicle (Payload F)}
  {y : Execution F (Payload F) (Stage F) (TrainingError F) (Summary F)}
  (h : Execution.Conduct t.plan (fun seat => t.Between seat.name) marks y chronicle)
  (view : View) (f : PeerName → PeerName)

include h

/-- What is seen of a log is a beginning of what the leader is to write. -/
theorem records_prefix : ∃ k, view.records f y.output <+:
    OutputLog.recordsOf (view.name (f t.leader)) (t.plan.writes t.leader) k := by
  obtain ⟨s, hs, named⟩ := h.exists_station t.leader_mem
  have log := h.toList_prefix hs fun peer k follows => writes_of_ne (named ▸ follows)
  rw [named] at log
  refine ⟨s.superstep + 1, ?_⟩
  rw [← OutputLog.map_recordsOf (fun name => view.name (f name))]
  exact log.map _

/-- What is seen of the log of a job that has ended. -/
theorem records_of_ending (probed : t.Probed) (fit : ∀ peer ∈ t.cluster.names, t.Fits peer)
    {ending : Ending (TrainingError F) (Summary F)} (he : y.ending? = some ending) :
    ∃ j result, t.loop.result j = some result ∧ view.records f y.output =
      OutputLog.recordsOf (view.name (f t.leader)) (t.plan.writes t.leader) (4 * j + 3) := by
  obtain ⟨j, result, hr, -, log⟩ := toList_of_ending h probed fit he
  refine ⟨j, result, hr, ?_⟩
  rw [View.records, log, OutputLog.map_recordsOf (fun name => view.name (f name))]

end Records

section Outcomes

variable {view : View} {t t' : Setting F} {peer peer' : PeerName}
  (same : view.role (t.role peer) = view.role (t'.role peer'))

include same

/-- What is seen of a summary depends on the peer only for its role. -/
theorem summary_eq (last : RunState F) :
    view.summary (t.summary peer last) = view.summary (t'.summary peer' last) := by
  simp only [View.summary, summary, same]

/-- When the loop ends, the peers end in the same way. -/
theorem mirrors_outcome (f : PeerName → PeerName) {j : Nat}
    {result : Except (TrainingError F) (RunState F)} (hr : t.loop.result j = some result) :
    (t.outcome peer result).Mirrors view f (t'.outcome peer' result) := by
  cases result with
  | ok last => exact .value (summary_eq same last)
  | error failure =>
    have mirrors : (Outcome.failed failure).Mirrors view f (.failed (failure.rename f)) :=
      .failed failure
    rw [Loop.rename_of_result f hr] at mirrors
    exact mirrors

end Outcomes

/-- **Two settings have the same rows** under names that compare alike. -/
structure Renames (f : PeerName → PeerName) (t t' : Setting F) : Prop where
  cluster : t.cluster.Renames f t'.cluster
  config : t'.config = t.config.rename f
  model : t'.model = t.model
  width : t'.width = t.width

namespace Renames

variable {f : PeerName → PeerName} {t t' : Setting F} (h : t.Renames f t')

include h

theorem partition_eq {peer : PeerName} (hp : peer ∈ t.cluster.names) :
    t'.partition (f peer) = t.partition peer :=
  h.cluster.partitionOf_eq hp

/-- **They carry out one loop.** -/
theorem loop_eq : t'.loop = t.loop.rename f := by
  rw [loop, h.config, h.model, h.width, Loop.ofShares_congr _ _ _ h.cluster.byName_shares]
  rfl

theorem state_eq (j : Nat) : t'.loop.state j = t.loop.state j := by
  rw [h.loop_eq, Loop.state_rename]

theorem result_eq (j : Nat) : t'.loop.result j = t.loop.result j := by
  rw [h.loop_eq, Loop.result_rename]

/-- Their leaders write the same. -/
theorem writes_eq (k : Nat) : t'.plan.writes t'.leader k = t.plan.writes t.leader k := by
  have closing (s : RunState F) : t'.closing s = t.closing s := by
    rw [Setting.closing, Setting.closing, h.loop_eq, Loop.turnout_rename]
  simp only [plan, h.state_eq, closing, if_true]

section Between

variable {peer : PeerName} (hp : peer ∈ t.cluster.names) {now now' : Standing F (Payload F)}
  (unread : now.partition.unread.length = now'.partition.unread.length)

include hp unread

/-- Who has as many rows left to read has read the same rows. -/
theorem read_eq {s s' : RunState F} {k k' : Nat} {read read' : List (Sample F)}
    (amid : t.Amid peer s k read now) (amid' : t'.Amid (f peer) s' k' read' now') :
    read' = read := by
  have rows : read' ++ now'.partition.unread = read ++ now.partition.unread := by
    rw [← amid'.split, amid'.rows, h.partition_eq hp, ← amid.rows, amid.split]
  exact (List.append_inj' rows unread.symm).1

/-- **Between two rounds** a peer is in the same stage, if it has as many rows left to read. -/
theorem stage_eq {stage stage' : Stage F} (between : t.Between peer stage now)
    (between' : t'.Between (f peer) stage' now') (superstep : now.superstep = now'.superstep) :
    stage = stage' := by
  have phase : stage.phase = stage'.phase := by
    rw [← phase_of_between between, ← phase_of_between between', superstep]
  cases stage with
  | start =>
    cases stage' with
    | start => rfl
    | scoring | descending => cases phase
  | scoring s sum =>
    cases stage' with
    | scoring s' sum' =>
      obtain ⟨j, read, hs, amid, rfl⟩ := between
      obtain ⟨j', read', hs', amid', rfl⟩ := between'
      obtain rfl : j = j' := by
        rw [amid.superstep, amid'.superstep] at superstep
        omega
      obtain rfl := Option.some.inj (hs.symm.trans ((h.state_eq j).symm.trans hs'))
      rw [h.read_eq hp unread amid amid', h.model]
    | start | descending => cases phase
  | descending s cost examples sum =>
    cases stage' with
    | descending s' cost' examples' sum' =>
      obtain ⟨j, read, hs, amid, rfl, goesOn, rfl, -⟩ := between
      obtain ⟨j', read', hs', amid', rfl, goesOn', rfl, -⟩ := between'
      obtain rfl : j = j' := by
        rw [amid.superstep, amid'.superstep] at superstep
        omega
      obtain rfl := Option.some.inj (hs.symm.trans ((h.state_eq j).symm.trans hs'))
      rw [h.loop_eq, Loop.turnout_rename, goesOn] at goesOn'
      cases goesOn'
      rw [h.read_eq hp unread amid amid', h.model, h.loop_eq]
      rfl
    | start | scoring => cases phase

end Between

/-- When the loop ends, the jobs end in the same way. -/
theorem mirrors_ending {view : View}
    (roles : ∀ peer ∈ t.cluster.names, view.role (t.role peer) = view.role (t'.role (f peer)))
    {j : Nat} {result : Except (TrainingError F) (RunState F)}
    (hr : t.loop.result j = some result) :
    (t.ending result).Mirrors view f t.cluster.names t'.cluster.names (t'.ending result) := by
  cases result with
  | ok last =>
    refine .values ?_
    rw [List.map_map, List.map_map, ← List.map_prod_left_eq_zip, ← List.map_prod_left_eq_zip]
    refine (h.cluster.names_perm.map _).trans (List.Perm.of_eq ?_)
    rw [List.map_map, List.map_map]
    exact List.map_congr_left fun peer hp =>
      congrArg (Prod.mk (f peer)) (summary_eq (roles peer hp) last).symm
  | error failure =>
    have mirrors : (Ending.failed failure).Mirrors view f t.cluster.names t'.cluster.names
        (.failed (failure.rename f)) := .failed failure
    rw [Loop.rename_of_result f hr] at mirrors
    exact mirrors

/-- The loop ends in one iteration only, with one result. -/
theorem eq_of_result {j j' : Nat} {result result' : Except (TrainingError F) (RunState F)}
    (hr : t.loop.result j = some result) (hr' : t'.loop.result j' = some result') :
    j' = j ∧ result' = result := by
  rw [h.result_eq] at hr'
  obtain rfl := Loop.result_unique hr hr'
  exact ⟨rfl, Option.some.inj (hr'.symm.trans hr)⟩

section Runs

variable (probed : t.Probed) (probed' : t'.Probed) (fit : ∀ peer ∈ t.cluster.names, t.Fits peer)
  (fit' : ∀ peer ∈ t'.cluster.names, t'.Fits peer)

include probed probed' fit fit'

/-- If the loop ends both jobs end, and else neither does. -/
theorem end_or_go_on :
    ((t.execution.Inevitable fun y => y.ending?.isSome) ∧
      t'.execution.Inevitable fun y => y.ending?.isSome) ∨
    ∀ supersteps,
      (t.execution.Inevitable fun y =>
        y.ending? = none ∧ ∀ s ∈ y.stations, supersteps ≤ s.superstep) ∧
      t'.execution.Inevitable fun y =>
        y.ending? = none ∧ ∀ s ∈ y.stations, supersteps ≤ s.superstep := by
  by_cases ends : ∃ j result, t.loop.result j = some result
  · obtain ⟨j, result, hr⟩ := ends
    have ended {t : Setting F} {result : Except (TrainingError F) (RunState F)}
        (y : Execution F (Payload F) (Stage F) (TrainingError F) (Summary F))
        (he : y.ending? = some (t.ending result)) : y.ending?.isSome := by
      rw [he]
      rfl
    exact .inl ⟨(inevitable_ending probed fit hr).imp fun y _ => ended y,
      (inevitable_ending probed' fit' ((h.result_eq j).trans hr)).imp fun y _ => ended y⟩
  · have endless : ∀ j, t.loop.result j = none := by
      intro j
      refine Option.eq_none_iff_forall_ne_some.mpr fun result hr => ?_
      exact ends ⟨j, result, hr⟩
    exact .inr fun supersteps => ⟨inevitable_superstep probed fit endless supersteps,
      inevitable_superstep probed' fit' (fun j => (h.result_eq j).trans (endless j)) supersteps⟩

/-- **Jobs that carry out one loop mirror each other.** -/
theorem mirrors {view : View}
    (roles : ∀ peer ∈ t.cluster.names, view.role (t.role peer) = view.role (t'.role (f peer)))
    (leads : view.name (f t.leader) = view.name t'.leader) :
    t.execution.Mirrors view f t'.execution where
  stages := by
    rintro y y' ⟨chronicle, run⟩ ⟨chronicle', run'⟩ s hs s' hs' named superstep unread stage stage'
      ha ha'
    obtain ⟨marks, conduct⟩ := conduct run
    obtain ⟨marks', conduct'⟩ := Setting.conduct run'
    have between' := conduct'.inv hs' ha'
    rw [named] at between'
    exact h.stage_eq (conduct.mem_peers hs) unread (conduct.inv hs ha) between' superstep
  left := by
    rintro y y' ⟨chronicle, run⟩ ⟨chronicle', run'⟩ s hs s' hs' named outcome outcome' ha ha'
    obtain ⟨marks, conduct⟩ := conduct run
    obtain ⟨marks', conduct'⟩ := Setting.conduct run'
    have mem := conduct.mem_peers hs
    obtain ⟨j, result, hr, rfl⟩ := result_of_leaves probed fit mem (conduct.mayLeave hs ha).1
    obtain ⟨j', result', hr', rfl⟩ := result_of_leaves probed' fit' (conduct'.mem_peers hs')
      (conduct'.mayLeave hs' ha').1
    obtain ⟨-, rfl⟩ := h.eq_of_result hr hr'
    rw [named]
    exact mirrors_outcome (roles _ mem) f hr
  ended := by
    rintro y y' ⟨chronicle, run⟩ ⟨chronicle', run'⟩ ending ending' he he'
    obtain ⟨marks, conduct⟩ := conduct run
    obtain ⟨marks', conduct'⟩ := Setting.conduct run'
    obtain ⟨j, result, hr, rfl⟩ := result_of_ending conduct probed fit he
    obtain ⟨j', result', hr', rfl⟩ := result_of_ending conduct' probed' fit' he'
    obtain ⟨-, rfl⟩ := h.eq_of_result hr hr'
    have mirrors := h.mirrors_ending roles hr
    rw [← Execution.names_ofCluster, ← Execution.names_ofCluster] at mirrors
    exact mirrors
  logged := by
    rintro y y' ⟨chronicle, run⟩ ⟨chronicle', run'⟩
    obtain ⟨marks, conduct⟩ := conduct run
    obtain ⟨marks', conduct'⟩ := Setting.conduct run'
    obtain ⟨k, log⟩ := records_prefix conduct view f
    obtain ⟨k', log'⟩ := records_prefix conduct' view id
    -- both are beginnings of what the leaders are to write
    rw [leads, ← funext h.writes_eq] at log
    exact List.prefix_or_prefix_of_prefix
      (log.trans (OutputLog.recordsOf_prefix _ _ (Nat.le_max_left k k')))
      (log'.trans (OutputLog.recordsOf_prefix _ _ (Nat.le_max_right k k')))
  recorded := by
    rintro y y' ⟨chronicle, run⟩ ⟨chronicle', run'⟩ ended ended'
    obtain ⟨marks, conduct⟩ := conduct run
    obtain ⟨marks', conduct'⟩ := Setting.conduct run'
    obtain ⟨ending, he⟩ := Option.isSome_iff_exists.mp ended
    obtain ⟨ending', he'⟩ := Option.isSome_iff_exists.mp ended'
    obtain ⟨j, result, hr, log⟩ := records_of_ending conduct view f probed fit he
    obtain ⟨j', result', hr', log'⟩ := records_of_ending conduct' view id probed' fit' he'
    obtain ⟨rfl, -⟩ := h.eq_of_result hr hr'
    rw [log, log', leads, funext h.writes_eq]
    rfl
  ends := h.end_or_go_on probed probed' fit fit'

end Runs

end Renames

end Setting

end Superstep
