import Superstep.Proofs.Training.Failing

/-!
# What programs of training say

A round of training is put together from a few programs, each of which says the same in one go: it
reads rows to the end, sends a message to each other peer and takes what has arrived, writes a
record, or starts over with the rows. Here are these pieces of dialogue, and for each program what
it says if no call fails. Everything else that is known of dialogues in training is put together
from this.
-/

namespace Superstep

variable {F : Type}

/-! ### What is said in one go -/

/-- Reads these rows and finds that there are no more. -/
def Dialogue.reads (rows : List (Sample F)) : Dialogue F (Payload F) :=
  rows.map (fun row => ⟨.read, .ok (some row)⟩) ++ [⟨.read, .ok none⟩]

/-- Starts over with the rows and waits at the barrier. -/
def Dialogue.rewind (superstep : Nat) : Dialogue F (Payload F) :=
  [⟨.reopen, .ok ()⟩, ⟨.sync, .ok superstep⟩]

namespace Trainer

/-- Sends a message to each other peer. -/
def tells (trainer : Trainer F) (message : Payload F) : Dialogue F (Payload F) :=
  trainer.seat.others.map fun receiver => ⟨.send receiver message, .ok ()⟩

/-- Sends a message to each other peer, waits at the barrier, and takes what has arrived. -/
def exchanges (trainer : Trainer F) (message : Payload F) (superstep : Nat)
    (received : List (Envelope (Payload F))) : Dialogue F (Payload F) :=
  trainer.tells message ++ [⟨.sync, .ok superstep⟩, ⟨.drain, received⟩]

/-- Writes a record, if this is the leader's to do. -/
def records (trainer : Trainer F) (theta : List F) (cost : F) : Dialogue F (Payload F) :=
  match trainer.role with
  | .leader => [⟨.write theta cost, .ok ()⟩]
  | .follower => []

end Trainer

/-! ### What the programs of training say -/

namespace TrainingProgram

variable {α R : Type} {language : Language F (Payload F) R}

theorem speaks_attempt {request : ExceptT PeerError (Program F (Payload F)) α}
    {post : Except (TrainingError F) α → Language F (Payload F) R → Prop} :
    (attempt request).run.Speaks post language ↔
      request.run.Speaks (fun result language => post (result.mapError .peer) language) language :=
  Program.speaks_map

theorem speaks_mk_done {result : Except (TrainingError F) α}
    {post : Except (TrainingError F) α → Language F (Payload F) R → Prop} :
    (ExceptT.mk (.done result) : TrainingProgram F α).run.Speaks post language ↔
      post result language := Iff.rfl

theorem speaks_read
    {post : Except (TrainingError F) (Option (Sample F)) → Language F (Payload F) R → Prop} :
    (attempt Program.read).run.Speaks post language ↔
      ∀ row?, post (.ok row?) (language.after [⟨.read, .ok row?⟩]) := by
  refine speaks_attempt.trans ⟨fun h row? => h (.ok row?) rfl, fun h reply fine => ?_⟩
  cases reply with
  | error error => cases fine
  | ok row? => exact h row?

theorem speaks_reopen
    {post : Except (TrainingError F) Unit → Language F (Payload F) R → Prop} :
    (attempt Program.reopen).run.Speaks post language ↔
      post (.ok ()) (language.after [⟨.reopen, .ok ()⟩]) := by
  refine speaks_attempt.trans ⟨fun h => h (.ok ()) rfl, fun h reply fine => ?_⟩
  cases reply with
  | error error => cases fine
  | ok => exact h

theorem speaks_sync
    {post : Except (TrainingError F) Nat → Language F (Payload F) R → Prop} :
    (attempt Program.sync).run.Speaks post language ↔
      ∀ superstep, post (.ok superstep) (language.after [⟨.sync, .ok superstep⟩]) := by
  refine speaks_attempt.trans ⟨fun h k => h (.ok k) rfl, fun h reply fine => ?_⟩
  cases reply with
  | error error => cases fine
  | ok superstep => exact h superstep

theorem speaks_write {theta : List F} {cost : F}
    {post : Except (TrainingError F) Unit → Language F (Payload F) R → Prop} :
    (attempt (Program.write theta cost)).run.Speaks post language ↔
      post (.ok ()) (language.after [⟨.write theta cost, .ok ()⟩]) := by
  refine speaks_attempt.trans ⟨fun h => h (.ok ()) rfl, fun h reply fine => ?_⟩
  cases reply with
  | error error => cases fine
  | ok => exact h

theorem speaks_sendAll {receivers : List PeerName} {message : Payload F}
    {post : Except (TrainingError F) Unit → Language F (Payload F) R → Prop} :
    (attempt (Program.sendAll receivers message)).run.Speaks post language ↔
      post (.ok ()) (language.after (receivers.map fun receiver =>
        ⟨.send receiver message, .ok ()⟩)) :=
  speaks_attempt.trans Program.speaks_sendAll

theorem speaks_drain
    {post : Except (TrainingError F) (List (Envelope (Payload F))) →
      Language F (Payload F) R → Prop} :
    drain.run.Speaks post language ↔
      ∀ received, post (.ok received) (language.after [⟨.drain, received⟩]) :=
  ⟨fun h received => h received rfl, fun h received _ => h received⟩

theorem speaks_sayAll {events : List (Event F)}
    {post : Except (TrainingError F) Unit → Language F (Payload F) R → Prop} :
    (ExceptT.lift (Program.sayAll events) : TrainingProgram F Unit).run.Speaks post language ↔
      post (.ok ()) language := by
  refine Program.speaks_map.trans ?_
  induction events with
  | nil => rfl
  | cons event rest ih => exact ih

theorem speaks_say {event : Event F}
    {post : Except (TrainingError F) Unit → Language F (Payload F) R → Prop} :
    (say event).run.Speaks post language ↔ post (.ok ()) language :=
  Program.speaks_map

end TrainingProgram

open TrainingProgram

/-! ### What is said in a round -/

namespace Trainer

variable {trainer : Trainer F} {R : Type} {language : Language F (Payload F) R}

theorem speaks_tell {message : Payload F}
    {post : Except (TrainingError F) Unit → Language F (Payload F) R → Prop} :
    (attempt (Program.sendAll trainer.seat.others message)).run.Speaks post language ↔
      post (.ok ()) (language.after (trainer.tells message)) :=
  speaks_sendAll

theorem speaks_exchange {message : Payload F}
    {post : Except (TrainingError F) (List (Envelope (Payload F))) →
      Language F (Payload F) R → Prop} :
    (trainer.exchange message).run.Speaks post language ↔
      ∀ superstep received, post (.ok received)
        (language.after (trainer.exchanges message superstep received)) := by
  simp only [exchange, Program.speaks_run_bind, speaks_tell, speaks_sync, speaks_drain,
    Language.after_after]
  rfl

theorem speaks_rewind
    {post : Except (TrainingError F) Unit → Language F (Payload F) R → Prop} :
    rewind.run.Speaks post language ↔
      ∀ superstep, post (.ok ()) (language.after (.rewind superstep)) := by
  simp only [rewind, Program.speaks_run_bind, speaks_reopen, speaks_sync]
  rfl

theorem speaks_record {theta : List F} {cost : F}
    {post : Except (TrainingError F) Unit → Language F (Payload F) R → Prop} :
    (trainer.record theta cost).run.Speaks post language ↔
      post (.ok ()) (language.after (trainer.records theta cost)) := by
  unfold record records
  cases trainer.role with
  | leader => exact speaks_write
  | follower => rfl

theorem speaks_conclude {state : RunState F}
    {post : Except (TrainingError F) Unit → Language F (Payload F) R → Prop} :
    (trainer.conclude state).run.Speaks post language ↔
      post (.ok ()) (language.after (trainer.records state.theta state.cost)) := by
  simp only [conclude, Program.speaks_run_bind, speaks_say, speaks_record]

section Totals

variable [Scalar F]

theorem speaks_totalCost {own : PartialCost F}
    {post : Except (TrainingError F) (PartialCost F) → Language F (Payload F) R → Prop} :
    (trainer.totalCost own).run.Speaks post language ↔
      ∀ superstep received, post (Totals.cost trainer.seat.name own received)
        (language.after (trainer.exchanges (.cost own.sum own.count) superstep received)) := by
  simp only [totalCost, sayTimes, Program.speaks_run_bind, speaks_exchange, speaks_sayAll,
    speaks_mk_done]

theorem speaks_totalGradient {own : List F}
    {post : Except (TrainingError F) (List F) → Language F (Payload F) R → Prop} :
    (trainer.totalGradient own).run.Speaks post language ↔
      ∀ superstep received, post (Totals.gradient trainer.seat.name own received)
        (language.after (trainer.exchanges (.gradient own) superstep received)) := by
  simp only [totalGradient, sayTimes, Program.speaks_run_bind, speaks_exchange, speaks_sayAll,
    speaks_mk_done]

end Totals

end Trainer

end Superstep
