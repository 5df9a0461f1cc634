import Superstep.Proofs.Cluster.Plan
import Superstep.Training.Trainer

/-!
# Training programs that keep to a plan

The programs of training are put together from few parts: the calls, whose failures end a run, the
telling of events, and the sending of one message to many. For each of them it is said here when it
keeps to a plan; programs are then taken apart by `Superstep.Program.keeps_run_bind`.
-/

namespace Superstep

namespace TrainingProgram

variable {F ε α β γ : Type} {plan : Plan F (Payload F) ε α} {me : PeerName}
  {now : Standing F (Payload F)}

/-- A call fails as it does by itself, only that its error is one of training. -/
theorem keeps_attempt {request : ExceptT PeerError (Program F (Payload F)) β}
    {post : Except (TrainingError F) β → Standing F (Payload F) → Prop} :
    (attempt request).run.Keeps plan me post now ↔
      request.run.Keeps plan me (fun result now => post (result.mapError .peer) now) now :=
  Program.keeps_map

/-- What is known already needs no call. -/
theorem keeps_mk_done {result : Except (TrainingError F) β}
    {post : Except (TrainingError F) β → Standing F (Payload F) → Prop} :
    (ExceptT.mk (.done result) : TrainingProgram F β).run.Keeps plan me post now ↔
      post result now := Iff.rfl

theorem keeps_read {post : Except (TrainingError F) (Option (Sample F)) →
      Standing F (Payload F) → Prop} :
    (attempt Program.read).run.Keeps plan me post now ↔
      if now.partition.readable then
        post (.ok now.partition.next.1) { now with partition := now.partition.next.2 }
      else plan.MayLeave me now .crashed :=
  keeps_attempt

theorem keeps_reopen {post : Except (TrainingError F) Unit → Standing F (Payload F) → Prop} :
    (attempt Program.reopen).run.Keeps plan me post now ↔
      post (.ok ()) { now with partition := now.partition.reset } :=
  keeps_attempt

theorem keeps_sync {post : Except (TrainingError F) Nat → Standing F (Payload F) → Prop} :
    (attempt Program.sync).run.Keeps plan me post now ↔
      plan.syncs me now.superstep ∧
        (plan.Passes now.superstep →
          now.sent = plan.sends me now.superstep ∧ now.wrote = plan.writes me now.superstep ∧
            post (.ok (now.superstep + 1)) (.fresh now.partition (now.superstep + 1))) :=
  keeps_attempt

theorem keeps_drain {post : Except (TrainingError F) (List (Envelope (Payload F))) →
      Standing F (Payload F) → Prop} :
    drain.run.Keeps plan me post now ↔
      if now.looked then post (.ok []) now
      else
        ∀ received, plan.Arrives me now.superstep received →
          post (.ok received) { now with looked := true } :=
  Iff.rfl

theorem keeps_write {theta : List F} {cost : F}
    {post : Except (TrainingError F) Unit → Standing F (Payload F) → Prop} :
    (attempt (Program.write theta cost)).run.Keeps plan me post now ↔
      now.wrote ++ [(theta, cost)] <+: plan.writes me now.superstep ∧
        post (.ok ()) { now with wrote := now.wrote ++ [(theta, cost)] } :=
  keeps_attempt

/-- Events are told on the way. -/
theorem keeps_sayAll {events : List (Event F)}
    {post : Except (TrainingError F) Unit → Standing F (Payload F) → Prop} :
    (ExceptT.lift (Program.sayAll events) : TrainingProgram F Unit).run.Keeps plan me post now ↔
      post (.ok ()) now := by
  refine Program.keeps_map.trans ?_
  induction events with
  | nil => rfl
  | cons event rest ih => exact ih

theorem keeps_say {event : Event F}
    {post : Except (TrainingError F) Unit → Standing F (Payload F) → Prop} :
    (say event).run.Keeps plan me post now ↔ post (.ok ()) now :=
  Program.keeps_map

theorem keeps_sayTimes {count : Nat} {event : Event F}
    {post : Except (TrainingError F) Unit → Standing F (Payload F) → Prop} :
    (sayTimes count event).run.Keeps plan me post now ↔ post (.ok ()) now :=
  keeps_sayAll

/-- **Sending to many** may fail where somebody may be over, and otherwise is as good as sending to
each. -/
theorem keeps_sendAll {receivers : List PeerName} {message : Payload F}
    {post : Except (TrainingError F) Unit → Standing F (Payload F) → Prop}
    (known : ∀ receiver ∈ receivers, receiver ∈ plan.peers)
    (sent : post (.ok ()) { now with sent := now.sent ++ receivers.map (·, message) })
    (refused : plan.MayEnd now.superstep → ∀ sent, ∀ receiver ∈ receivers,
      post (.error (.peer (.disconnected receiver))) { now with sent }) :
    (attempt (Program.sendAll receivers message)).run.Keeps plan me post now := by
  rw [keeps_attempt]
  induction receivers generalizing now with
  | nil =>
    rw [List.map_nil, List.append_nil] at sent
    exact sent
  | cons receiver rest ih =>
    rw [Program.sendAll, Program.keeps_run_bind]
    refine ⟨fun _ => ?_, fun unknown => absurd (known receiver List.mem_cons_self) unknown, ?_⟩
    · refine ih (fun r hr => known r (List.mem_cons_of_mem _ hr)) ?_ fun mayEnd sent r hr => ?_
      · simpa using sent
      · exact refused mayEnd sent r (List.mem_cons_of_mem _ hr)
    · exact fun mayEnd => refused mayEnd now.sent receiver List.mem_cons_self

end TrainingProgram

end Superstep
