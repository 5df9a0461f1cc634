import Mathlib.Data.List.Basic
import Superstep.Cluster.Execution

/-!
# Plans

In a job no peer can be understood by itself: what it does next depends on what it received, and so
on what the others do. A plan says in advance what that is: what each peer sends and writes in each
superstep, which supersteps it may end at the barrier, and in which it may be over, and how
(`Superstep.Plan`). A program is then looked at by itself again – it keeps to the plan if it does
its own part of it as long as the others do theirs (`Superstep.Program.Keeps`).

What a peer has done so far in its superstep is its *standing*. A program keeps to a plan from a
standing, and a condition tells what has to be true when it is done; so the parts of a program can
be looked at one after the other (`Superstep.Program.keeps_bind`).

| the program | keeps to the plan if |
|---|---|
| reads | it goes on well with the row, or may be over where rows cannot be read |
| sends | it goes on well if the message is delivered, and also if somebody may be over |
| waits at the barrier | it may, and goes on well if all may and it has sent and written all |
| looks into the inbox | it goes on well with whatever the others were to send |
| writes | the record is the next one to be written |
| is over | it may be, and has written all |
-/

namespace Superstep

variable {F M S ε α β γ : Type}

/-- **What the peers of a job are to do**, superstep by superstep. -/
structure Plan (F M ε α : Type) where
  /-- The names of all peers. -/
  peers : List PeerName
  /-- What a peer sends in a superstep that all peers get through. -/
  sends : PeerName → Nat → List (PeerName × M)
  /-- The records a peer writes in a superstep. -/
  writes : PeerName → Nat → List (List F × F)
  /-- In which supersteps a peer may be over, and how. -/
  leaves : PeerName → Nat → Outcome ε α → Prop
  /-- Which supersteps a peer may end at the barrier. -/
  syncs : PeerName → Nat → Prop

/-- What a peer has done in its superstep, and where it is in its rows. -/
structure Standing (F M : Type) where
  partition : Partition F
  superstep : Nat
  sent : List (PeerName × M)
  /-- Whether it has looked into its inbox. -/
  looked : Bool
  wrote : List (List F × F)

/-- The standing at the beginning of a superstep. -/
def Standing.fresh (partition : Partition F) (superstep : Nat) : Standing F M :=
  { partition, superstep, sent := [], looked := false, wrote := [] }

namespace Plan

variable (plan : Plan F M ε α)

/-- All peers may get through the superstep. -/
def Passes (superstep : Nat) : Prop := ∀ peer ∈ plan.peers, plan.syncs peer superstep

/-- Somebody may be over in the superstep. -/
def MayEnd (superstep : Nat) : Prop :=
  ∃ peer ∈ plan.peers, ∃ outcome, plan.leaves peer superstep outcome

/-- What a peer sends to another in a superstep. -/
def mail (sender receiver : PeerName) (superstep : Nat) : List (Envelope M) :=
  ((plan.sends sender superstep).filter (·.1 = receiver)).map fun mail => ⟨sender, mail.2⟩

/-- What a peer may find when it comes into a superstep: from each sender what that one was to send
in the superstep before. -/
def Arrives (receiver : PeerName) : Nat → List (Envelope M) → Prop
  | 0, received => received = []
  | superstep + 1, received => ∀ sender, received.filter (·.sender = sender) =
      if sender ∈ plan.peers then plan.mail sender receiver superstep else []

/-- Whether a peer of this standing may be over. -/
def MayLeave (me : PeerName) (now : Standing F M) (outcome : Outcome ε α) : Prop :=
  plan.leaves me now.superstep outcome ∧ now.wrote = plan.writes me now.superstep

end Plan

namespace Program

/-- **A program does its part of a plan**, from a standing on, and brings about a condition. -/
def Keeps (plan : Plan F M ε α) (me : PeerName) (post : β → Standing F M → Prop) :
    Program F M β → Standing F M → Prop
  | .done value, now => post value now
  | .crash, now => plan.MayLeave me now .crashed
  | .tell _ next, now => next.Keeps plan me post now
  | .call .read next, now =>
    if now.partition.readable then
      (next (.ok now.partition.next.1)).Keeps plan me post
        { now with partition := now.partition.next.2 }
    else plan.MayLeave me now .crashed
  | .call .reopen next, now =>
    (next (.ok ())).Keeps plan me post { now with partition := now.partition.reset }
  | .call (.send receiver message) next, now =>
    (receiver ∈ plan.peers →
      (next (.ok ())).Keeps plan me post { now with sent := now.sent ++ [(receiver, message)] }) ∧
    (receiver ∉ plan.peers →
      (next (.error (.unknownPeer receiver))).Keeps plan me post now) ∧
    (plan.MayEnd now.superstep →
      (next (.error (.disconnected receiver))).Keeps plan me post now)
  | .call .sync next, now =>
    plan.syncs me now.superstep ∧
      (plan.Passes now.superstep →
        now.sent = plan.sends me now.superstep ∧ now.wrote = plan.writes me now.superstep ∧
          (next (.ok (now.superstep + 1))).Keeps plan me post
            (.fresh now.partition (now.superstep + 1)))
  | .call .drain next, now =>
    if now.looked then (next []).Keeps plan me post now
    else
      ∀ received : List (Envelope M), plan.Arrives me now.superstep received →
        (next received).Keeps plan me post { now with looked := true }
  | .call (.write theta cost) next, now =>
    now.wrote ++ [(theta, cost)] <+: plan.writes me now.superstep ∧
      (next (.ok ())).Keeps plan me post { now with wrote := now.wrote ++ [(theta, cost)] }

variable {plan : Plan F M ε α} {me : PeerName} {post post' : β → Standing F M → Prop}
  {now : Standing F M}

theorem Keeps.of_read {next : Except PeerError (Option (Sample F)) → Program F M β}
    (h : (call .read next).Keeps plan me post now) (readable : now.partition.readable = true) :
    (next (.ok now.partition.next.1)).Keeps plan me post
      { now with partition := now.partition.next.2 } := by
  simpa only [Keeps, readable, if_true] using h

theorem Keeps.of_unreadable {next : Except PeerError (Option (Sample F)) → Program F M β}
    (h : (call .read next).Keeps plan me post now) (unreadable : now.partition.readable = false) :
    plan.MayLeave me now .crashed := by
  simpa only [Keeps, unreadable, Bool.false_eq_true, if_false] using h

theorem Keeps.of_drain {next : List (Envelope M) → Program F M β} {received : List (Envelope M)}
    (h : (call .drain next).Keeps plan me post now)
    (found : if now.looked then received = [] else plan.Arrives me now.superstep received) :
    (next received).Keeps plan me post { now with looked := true } := by
  obtain ⟨partition, superstep, sent, looked, wrote⟩ := now
  cases looked with
  | true =>
    obtain rfl : received = [] := found
    exact h
  | false => exact h received found

/-- What a program brings about may be weakened. -/
theorem Keeps.imp {program : Program F M β} (h : program.Keeps plan me post now)
    (weaken : ∀ value now, post value now → post' value now) :
    program.Keeps plan me post' now := by
  induction program generalizing now with
  | done value => exact weaken value now h
  | crash => exact h
  | tell event next ih => exact ih h
  | call request next ih =>
    cases request with
    | read =>
      by_cases readable : now.partition.readable = true
      · simp only [Keeps, readable, if_true] at h ⊢
        exact ih _ h
      · simp only [Keeps, readable] at h ⊢
        exact h
    | reopen => exact ih _ h
    | send receiver message =>
      obtain ⟨delivered, unknown, refused⟩ := h
      exact ⟨fun hr => ih _ (delivered hr), fun hr => ih _ (unknown hr),
        fun ends => ih _ (refused ends)⟩
    | sync => exact ⟨h.1, fun passes => ⟨(h.2 passes).1, (h.2 passes).2.1, ih _ (h.2 passes).2.2⟩⟩
    | drain =>
      by_cases looked : now.looked = true
      · simp only [Keeps, looked, if_true] at h ⊢
        exact ih _ h
      · simp only [Keeps, looked] at h ⊢
        exact fun received arrives => ih _ (h received arrives)
    | write theta cost => exact ⟨h.1, ih _ h.2⟩

/-- **One program after the other** keeps to the plan if the first one does, and brings about that
the second one does. -/
theorem keeps_bind {program : Program F M γ} {rest : γ → Program F M β} :
    (program >>= rest).Keeps plan me post now ↔
      program.Keeps plan me (fun value now => (rest value).Keeps plan me post now) now := by
  induction program generalizing now with
  | done value => rfl
  | crash => rfl
  | tell event next ih => exact ih
  | call request next ih =>
    rw [call_bind]
    cases request with
    | read =>
      simp only [Keeps]
      split
      · exact ih _
      · rfl
    | reopen => exact ih _
    | send receiver message =>
      exact and_congr (imp_congr_right fun _ => ih _)
        (and_congr (imp_congr_right fun _ => ih _) (imp_congr_right fun _ => ih _))
    | sync =>
      exact and_congr_right fun _ => imp_congr_right fun _ => and_congr_right fun _ =>
        and_congr_right fun _ => ih _
    | drain =>
      simp only [Keeps]
      split
      · exact ih _
      · exact forall_congr' fun received => imp_congr_right fun _ => ih _
    | write theta cost => exact and_congr_right fun _ => ih _

theorem keeps_map {program : Program F M γ} {f : γ → β} :
    (f <$> program).Keeps plan me post now ↔
      program.Keeps plan me (fun value now => post (f value) now) now := by
  rw [map_eq_pure_bind, keeps_bind]
  rfl

/-- A program that may fail, and another one after it if it does not. -/
theorem keeps_run_bind {ε' : Type} {program : ExceptT ε' (Program F M) γ}
    {rest : γ → ExceptT ε' (Program F M) β} {post : Except ε' β → Standing F M → Prop} :
    (program >>= rest).run.Keeps plan me post now ↔
      program.run.Keeps plan me (fun result now =>
        match result with
        | .ok value => (rest value).run.Keeps plan me post now
        | .error error => post (.error error) now) now := by
  rw [ExceptT.run_bind, keeps_bind]
  refine iff_of_eq (congrArg (fun post => Keeps plan me post program.run now) ?_)
  funext result now
  cases result <;> rfl

end Program

end Superstep
