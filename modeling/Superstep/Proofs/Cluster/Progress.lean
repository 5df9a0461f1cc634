import Mathlib.Logic.Hydra
import Superstep.Proofs.Cluster.Conduct

/-!
# Getting on

A job whose peers keep to a plan gets on: whichever turns are taken, every superstep is passed or
the job ends (`Superstep.Execution.Conduct.inevitable`). Two things are shown for this.

* The job never gets stuck (`Superstep.Execution.Conduct.exists_turn`). If nobody can move,
  everybody waits at the barrier or is gone; if all wait, the barrier would have opened, and if
  somebody is gone, a *concerted* plan (`Superstep.Plan.Concerted`) does not let the others wait.
* It does not go on for ever in one superstep. Each peer carries a burden – the supersteps and the
  phases of its superstep that are before it, the rows its rounds may still read, and what is left
  of the program it is in – and whatever it does makes its own burden lighter and no other one
  heavier. Only to move a message or to take note of a report does not, but of these there are only
  so many.
-/

namespace Superstep

variable {F M S ε α β : Type}

/-! ### What is left of a program -/

/-- One step further in a program. -/
inductive Program.Further : Program F M β → Program F M β → Prop
  | tell (event : Event F) (next : Program F M β) : Further next (.tell event next)
  | call (request : Call F M) (next : request.Reply → Program F M β) (reply : request.Reply) :
    Further (next reply) (.call request next)

/-- Programs are finite. -/
theorem Program.wellFounded_further : WellFounded (Further (F := F) (M := M) (β := β)) := by
  refine ⟨fun program => ?_⟩
  induction program with
  | done value =>
    refine ⟨_, fun program h => ?_⟩
    cases h
  | crash =>
    refine ⟨_, fun program h => ?_⟩
    cases h
  | tell event next ih =>
    refine ⟨_, fun program h => ?_⟩
    cases h
    exact ih
  | call request next ih =>
    refine ⟨_, fun program h => ?_⟩
    cases h
    exact ih _

/-! ### The burden of a peer -/

/-- What is before a peer: supersteps, phases of its superstep, rows, the rest of its program. -/
abbrev Burden (F M S ε α : Type) := Nat × Nat × Nat × Round F M S ε α

namespace Burden

/-- One burden is lighter than another. The first difference counts. -/
def Lighter : Burden F M S ε α → Burden F M S ε α → Prop :=
  Prod.Lex (· < ·) (Prod.Lex (· < ·) (Prod.Lex (· < ·) Program.Further))

theorem wellFounded_lighter : WellFounded (Lighter (F := F) (M := M) (S := S) (ε := ε) (α := α)) :=
  WellFounded.prod_lex Nat.lt_wfRel.wf
    (WellFounded.prod_lex Nat.lt_wfRel.wf
      (WellFounded.prod_lex Nat.lt_wfRel.wf Program.wellFounded_further))

variable {F M S ε α : Type} {ahead phase phase' rows rows' : Nat} {p q : Round F M S ε α}

/-- What is left of a superstep counts more than the rows and the program. -/
theorem lighter_of_phase (h : phase < phase') :
    Lighter (ahead, phase, rows, p) (ahead, phase', rows', q) :=
  Prod.Lex.right _ (Prod.Lex.left _ _ h)

theorem lighter_of_rows (h : rows < rows') :
    Lighter (ahead, phase, rows, p) (ahead, phase, rows', q) :=
  Prod.Lex.right _ (Prod.Lex.right _ (Prod.Lex.left _ _ h))

theorem lighter_of_further (h : p.Further q) :
    Lighter (ahead, phase, rows, p) (ahead, phase, rows, q) :=
  Prod.Lex.right _ (Prod.Lex.right _ (Prod.Lex.right _ h))

end Burden

namespace Station

/-- **The burden of a peer** that is to get through so many supersteps. -/
def burden (supersteps : Nat) (mark : Mark) (s : Station F M S ε α) : Burden F M S ε α :=
  (supersteps + 1 - s.superstep,
    match s.activity with
    | .running program =>
      (5, if s.superstep = mark.superstep then mark.unread else s.partition.rows.length + 1,
        program)
    | .entering .. => (4, 0, .crash)
    | .collecting _ => (3, 0, .crash)
    | .departing .. => (2, 0, .crash)
    | .leaving _ => (1, 0, .crash)
    | .gone _ | .stopped => (0, 0, .crash))

variable {plan : Plan F M ε α} {Inv : S → Standing F M → Prop} {mark : Mark}
  {x : Execution F M S ε α} {s s' : Station F M S ε α} {effect : Effect F M ε α}
  {deed : Option (Deed M)} {now : Standing F M} {supersteps : Nat}

@[simp] theorem burden_receiveAll (s : Station F M S ε α) (mail : List (Envelope M)) :
    (s.receiveAll mail).burden supersteps mark = s.burden supersteps mark := rfl

/-- Whether a station is about to move a message from its mailbox to its inbox. -/
def Collects (s : Station F M S ε α) : Prop :=
  ∃ next, s.activity = .collecting next ∧ s.mailbox ≠ []

/-- **Whatever a peer does makes its burden lighter**, unless it only moves a message. -/
theorem Moves.lighter (move : s.Moves x s' effect deed) (busy : ¬s.Collects)
    (h : s.Abides plan Inv mark now) (partition : now.partition = s.partition)
    (superstep : now.superstep = s.superstep) (placed : s.partition.WellPlaced)
    (ahead : s.superstep ≤ supersteps) :
    Burden.Lighter (s'.burden supersteps (s.nextMark mark)) (s.burden supersteps mark) := by
  cases move with
  | begin ha =>
    simp only [Abides, ha] at h
    obtain ⟨-, unread⟩ := h
    rw [partition, superstep] at unread
    simp only [burden, nextMark, ha, resume, if_true]
    -- a round that is not the first one of its superstep follows one that has read a row
    refine Burden.lighter_of_rows ?_
    split
    · next same => exact unread same
    · obtain ⟨read, hr⟩ := placed
      have := congrArg List.length hr
      rw [List.length_append] at this
      omega
  | finish ha | fail ha | crash ha | breakOff ha =>
    simp only [burden, ha, leave]
    exact Burden.lighter_of_phase (by omega)
  | sync ha | enter ha _ | depart ha _ | report ha =>
    simp only [burden, ha]
    exact Burden.lighter_of_phase (by omega)
  | tell ha =>
    simp only [burden, nextMark, ha, resume]
    exact Burden.lighter_of_further (.tell _ _)
  | read ha _ =>
    simp only [burden, nextMark, ha, resume, Partition.rows_next]
    exact Burden.lighter_of_further (.call .read _ (.ok s.partition.next.1))
  | reopen ha =>
    simp only [burden, nextMark, ha, resume, Partition.rows_reset]
    exact Burden.lighter_of_further (.call .reopen _ (.ok ()))
  | send ha =>
    simp only [burden, nextMark, ha, resume]
    exact Burden.lighter_of_further (.call (.send _ _) _ (Except.ok ()))
  | refuse ha =>
    simp only [burden, nextMark, ha, resume]
    exact Burden.lighter_of_further (.call (.send _ _) _ (Except.error _))
  | write ha =>
    simp only [burden, nextMark, ha, resume]
    exact Burden.lighter_of_further (.call (.write _ _) _ (Except.ok ()))
  | drain ha =>
    simp only [burden, nextMark, ha, resume]
    exact Burden.lighter_of_further (.call .drain _ s.inbox)
  | collect ha hm => exact absurd ⟨_, ha, by simp [hm]⟩ busy
  | wake ha _ =>
    simp only [burden, resume]
    exact Prod.Lex.left _ _ (by omega)

end Station

/-! ### The burden of a job -/

/-- A list with one element replaced by a lighter one is lighter. -/
theorem cutExpand_set {r : β → β → Prop} {list : List β} {i : Nat} {a b : β}
    (ha : list[i]? = some a) (lighter : r b a) :
    Relation.CutExpand r (list.set i b : Multiset β) (list : Multiset β) := by
  obtain ⟨hlt, rfl⟩ := List.getElem?_eq_some_iff.mp ha
  rw [Multiset.coe_eq_coe.mpr (List.set_perm_cons_eraseIdx hlt b),
    ← Multiset.coe_eq_coe.mpr (List.getElem_cons_eraseIdx_perm hlt)]
  simp only [← Multiset.cons_coe, ← Multiset.singleton_add]
  exact Relation.cutExpand_single_add lighter _

/-- A sum with one summand replaced by a smaller one is smaller. -/
theorem sum_set_lt {list : List Nat} {i a b : Nat} (ha : list[i]? = some a) (smaller : b < a) :
    (list.set i b).sum < list.sum := by
  induction list generalizing i with
  | nil => simp at ha
  | cons first rest ih =>
    cases i with
    | zero =>
      obtain rfl : first = a := by simpa using ha
      simpa using smaller
    | succ i =>
      have := @ih i (by simpa using ha)
      simp only [List.set_cons_succ, List.sum_cons]
      omega

namespace Execution

/-- The burdens of all peers. -/
def burdens (supersteps : Nat) (marks : Nat → Mark) (x : Execution F M S ε α) :
    List (Burden F M S ε α) :=
  x.stations.mapIdx fun i s => s.burden supersteps (marks i)

/-- How many messages are still to be moved, and how many reports are to be taken note of. -/
def backlog (x : Execution F M S ε α) : Nat :=
  (x.stations.map (·.mailbox.length)).sum + x.reports.length

/-- What is before a job: the burdens of its peers, and then its backlog. -/
def toil (supersteps : Nat) (marks : Nat → Mark) (x : Execution F M S ε α) :
    Multiset (Burden F M S ε α) × Nat :=
  (x.burdens supersteps marks, x.backlog)

/-- Less is before a job. The backlog counts only where the burdens are the same. -/
def Eased : Multiset (Burden F M S ε α) × Nat → Multiset (Burden F M S ε α) × Nat → Prop :=
  Prod.Lex (Relation.CutExpand Burden.Lighter) (· < ·)

theorem wellFounded_eased : WellFounded (Eased (F := F) (M := M) (S := S) (ε := ε) (α := α)) :=
  WellFounded.prod_lex Burden.wellFounded_lighter.cutExpand Nat.lt_wfRel.wf

variable {plan : Plan F M ε α} {Inv : Seat → S → Standing F M → Prop} {marks : Nat → Mark}
  {x y : Execution F M S ε α} {chronicle : Chronicle M} {index : Nat} {s s' t : Station F M S ε α}
  {effect : Effect F M ε α} {deed : Option (Deed M)} {supersteps : Nat}

/-- A move changes the burden of who moves, and no other one. -/
theorem burdens_after (hs : x.stations[index]? = some s) (mark : Mark) :
    (x.after index s' effect).burdens supersteps (Function.update marks index mark) =
      (x.burdens supersteps marks).set index (s'.burden supersteps mark) := by
  refine List.ext_getElem? fun i => ?_
  rw [burdens, burdens, List.getElem?_mapIdx, List.getElem?_set, List.getElem?_mapIdx]
  obtain ⟨hlt, -⟩ := List.getElem?_eq_some_iff.mp hs
  split
  · next hi =>
    subst hi
    rw [getElem?_after_self hs]
    simp [hlt]
  · next hi =>
    cases ht : x.stations[i]? with
    | none =>
      have : (x.after index s' effect).stations[i]? = none := by
        rw [List.getElem?_eq_none_iff, length_after]
        exact List.getElem?_eq_none_iff.mp ht
      rw [this]
      rfl
    | some t =>
      rw [getElem?_after_of_ne ht (Ne.symm hi)]
      simp [Function.update_of_ne (Ne.symm hi)]

/-- To move a message makes the backlog smaller. -/
theorem backlog_collect {journal : Array (PeerName × Event F)} {envelope : Envelope M}
    {rest : List (Envelope M)} (hs : x.stations[index]? = some s)
    (hm : s.mailbox = envelope :: rest) :
    backlog { x.after index { s with mailbox := rest, inbox := s.inbox ++ [envelope] } .nothing with
      journal } < x.backlog := by
  have mailbox : (x.stations.map (·.mailbox.length))[index]? = some s.mailbox.length := by
    rw [List.getElem?_map, hs]
    rfl
  have smaller := sum_set_lt (b := rest.length) mailbox (by simp [hm])
  change ((x.stations.set index _).map (·.mailbox.length)).sum + x.reports.length < _
  rw [List.map_set]
  exact Nat.add_lt_add_right smaller _

/-- **Every move eases a job.** -/
theorem Conduct.eased {journal : Array (PeerName × Event F)}
    (h : Conduct plan Inv marks x chronicle) (hs : x.stations[index]? = some s)
    (move : s.Moves x s' effect deed) (placed : s.partition.WellPlaced)
    (ahead : s.superstep ≤ supersteps) :
    Eased (toil supersteps (Function.update marks index (s.nextMark (marks index)))
      { x.after index s' effect with journal }) (toil supersteps marks x) := by
  have burden : (x.burdens supersteps marks)[index]? =
      some (s.burden supersteps (marks index)) := by
    rw [burdens, List.getElem?_mapIdx, hs]
    rfl
  have after : burdens supersteps (Function.update marks index (s.nextMark (marks index)))
      { x.after index s' effect with journal } = (x.burdens supersteps marks).set index
        (s'.burden supersteps (s.nextMark (marks index))) := burdens_after hs _
  by_cases busy : s.Collects
  · obtain ⟨next, ha, hm⟩ := busy
    cases move with
    | collect ha' hm' =>
      rename_i envelope rest
      have same : ({ s with mailbox := rest, inbox := s.inbox ++ [envelope] }
          : Station F M S ε α).burden supersteps (s.nextMark (marks index)) =
            s.burden supersteps (marks index) := by
        simp only [Station.burden, ha']
      obtain ⟨hlt, found⟩ := List.getElem?_eq_some_iff.mp burden
      rw [toil, toil, after, same, ← found, List.set_getElem_self hlt]
      exact Prod.Lex.right _ (backlog_collect hs hm')
    | _ => simp_all
  · rw [toil, toil, after]
    -- one burden is lighter, and the others are what they were
    refine Prod.Lex.left _ _ (cutExpand_set burden ?_)
    exact move.lighter busy (h.abides index s hs) rfl rfl placed ahead

end Execution

/-! ### Nobody waits in vain -/

/-- **A concerted plan** does not let anybody wait for a peer that has ended well. -/
def Plan.Concerted (plan : Plan F M ε α) : Prop :=
  ∀ k, ∀ p ∈ plan.peers, ∀ value, plan.leaves p k (.value value) →
    ∀ q ∈ plan.peers, ¬plan.syncs q k

/-- Who waits at a barrier that has opened so often. -/
def Station.Waits (openings : Nat) (s : Station F M S ε α) : Prop :=
  match s.activity with
  | .entering called _ | .departing called _ => openings ≤ called
  | _ => False

/-- Who waits has called since the barrier opened last. -/
theorem Station.InStep.waits_eq {openings waits : Nat} {s : Station F M S ε α}
    (h : s.InStep openings waits) (idle : s.Waits openings) : waits = openings + 1 := by
  unfold InStep at h
  unfold Waits at idle
  split at h <;> simp_all
  all_goals omega

namespace Execution

variable {plan : Plan F M ε α} {Inv : Seat → S → Standing F M → Prop} {marks : Nat → Mark}
  {x y : Execution F M S ε α} {chronicle : Chronicle M} {supersteps : Nat}

/-- Who cannot move waits or is over. -/
theorem waits_of_step_eq_none {s : Station F M S ε α} {index : Nat}
    (stuck : x.step index s = none) :
    s.Waits x.barrier.openings ∨ (∃ outcome, s.activity = .gone outcome) ∨
      s.activity = .stopped := by
  unfold step at stuck
  unfold Station.Waits
  split at stuck <;> simp_all [Barrier.isOpen]
  split at stuck <;> simp_all

/-- If everybody who is gone has been taken note of, **nobody is gone while somebody waits**. -/
theorem Conduct.not_gone_of_waits {s t : Station F M S ε α}
    (h : Conduct plan Inv marks x chronicle) (concerted : plan.Concerted)
    (running : x.ending? = none) (silent : x.reports = []) (hs : s ∈ x.stations)
    (hw : s.Waits x.barrier.openings) (ht : t ∈ x.stations) (outcome : Outcome ε α) :
    t.activity ≠ .gone outcome := by
  intro gone
  obtain ⟨i, found⟩ := List.mem_iff_getElem?.mp ht
  have inStep := h.delivery.lockstep.inStep t ht
  have abides := h.abides i t found
  simp only [Station.InStep, gone] at inStep
  simp only [Station.Abides, gone] at abides
  have called := (h.delivery.lockstep.inStep s hs).waits_eq hw
  have synced := h.synced s hs t.superstep (by omega)
  rcases h.accounts.pending running i t outcome found gone with hr | ⟨value, rfl, -⟩
  · rw [silent] at hr
    cases hr
  · exact concerted _ _ (h.mem_peers ht) value abides.1 _ (h.mem_peers hs) synced

/-- The barrier opens when the last peer calls, so **not all wait**. -/
theorem Lockstep.exists_not_waits (lockstep : x.Lockstep chronicle) :
    ∃ t ∈ x.stations, ¬t.Waits x.barrier.openings := by
  by_contra! all
  have arrived : x.barrier.arrived = x.barrier.parties := by
    rw [lockstep.arrived, lockstep.parties, ← List.length_map (·.seat.name), List.countP_eq_length]
    intro peer hp
    obtain ⟨t, ht, rfl⟩ := List.mem_map.mp hp
    exact decide_eq_true ((lockstep.inStep t ht).waits_eq (all t ht))
  have := lockstep.arrived_lt
  omega

/-- **A job does not get stuck** before it has ended. -/
theorem Conduct.exists_turn (h : Conduct plan Inv marks x chronicle) (concerted : plan.Concerted)
    (running : x.ending? = none) : ∃ t y, x.turn t = some y := by
  by_contra stuck
  have blocked : ∀ t, x.turn t = none := fun t =>
    Option.eq_none_iff_forall_ne_some.mpr fun y hy => stuck ⟨t, y, hy⟩
  have silent : x.reports = [] := by
    cases hr : x.reports with
    | nil => rfl
    | cons report reports =>
      have := blocked .note
      simp [Execution.turn, noteReport, running, hr] at this
  have idle : ∀ t ∈ x.stations,
      t.Waits x.barrier.openings ∨ ∃ outcome, t.activity = .gone outcome := by
    intro t ht
    obtain ⟨i, found⟩ := List.mem_iff_getElem?.mp ht
    have step : x.step i t = none := by simpa [Execution.turn, found] using blocked (.step i)
    rcases waits_of_step_eq_none step with idle | gone | stopped
    · exact .inl idle
    · exact .inr gone
    · exact absurd stopped (h.accounts.unstopped running t ht)
  obtain ⟨s, hs, hw⟩ : ∃ s ∈ x.stations, s.Waits x.barrier.openings := by
    by_contra nobody
    refine h.accounts.exists_report running (fun t ht => ?_) silent
    exact (idle t ht).resolve_left fun hw => nobody ⟨t, ht, hw⟩
  obtain ⟨t, ht, goes⟩ := h.delivery.lockstep.exists_not_waits
  obtain ⟨outcome, gone⟩ := (idle t ht).resolve_left goes
  exact h.not_gone_of_waits concerted running silent hs hw ht outcome gone

/-- **A job gets on.** Whichever turns are taken, it ends, or all peers get through as many
supersteps as one likes. -/
theorem Conduct.inevitable (h : Conduct plan Inv marks x chronicle) (concerted : plan.Concerted)
    (placed : ∀ s ∈ x.stations, s.partition.WellPlaced) (supersteps : Nat) :
    x.Inevitable fun y =>
      y.ending?.isSome ∨ ∀ s ∈ y.stations, supersteps ≤ s.superstep := by
  -- by induction on what is before the job
  generalize hm : x.toil supersteps marks = m
  induction m using wellFounded_eased.induction generalizing x marks chronicle with
  | _ m ih =>
    subst hm
    by_cases goal : x.ending?.isSome ∨ ∀ s ∈ x.stations, supersteps ≤ s.superstep
    · exact .reached goal
    · have running : x.ending? = none := by
        rw [← Option.not_isSome_iff_eq_none]
        exact fun ended => goal (.inl ended)
      have ahead : ∀ t ∈ x.stations, t.superstep ≤ supersteps := by
        intro t ht
        by_contra far
        refine goal (.inr fun s hs => ?_)
        have := h.delivery.lockstep.superstep_le_succ hs ht
        omega
      refine .turn (h.exists_turn concerted running) fun t y hy => ?_
      have turns := turns_of_turn hy
      generalize x.noted t = noted at turns
      cases turns with
      | move hs move =>
        have mem := List.mem_of_getElem? hs
        refine ih _ (h.eased hs move (placed _ mem) (ahead _ mem)) (h.move hs move)
          (fun u hu => ?_) rfl
        obtain ⟨i, found⟩ := List.mem_iff_getElem?.mp hu
        rcases of_getElem?_after found with ⟨-, rfl⟩ | ⟨-, v, hv, rfl⟩
        · exact move.wellPlaced (placed _ mem)
        · exact placed v (List.mem_of_getElem? hv)
      | note _ hr =>
        refine ih _ (Prod.Lex.right _ ?_) (h.note running hr) placed rfl
        simp [backlog, hr]
      | stop _ ended => simp [running] at ended

end Execution

end Superstep
