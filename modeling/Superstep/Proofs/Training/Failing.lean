import Superstep.Proofs.Peer.Dialogue
import Superstep.Training.Trainer

/-!
# Peers in training whose calls fail

A peer in training never goes on after a call has failed, wherever in its run that is: also the
last record and the last barrier of a run that fails anyway may fail, and then it is their error
that the run ends with. All rounds of `Superstep.Trainer.process` are therefore of the same kind
(`Superstep.Trainer.givesUp_round`), and they are because the parts they are put together from are.
-/

namespace Superstep

open TrainingProgram

variable {F : Type}

/-- A program of training gives up at the first call that fails, with the error of that call. -/
abbrev TrainingProgram.GivesUp {α : Type} (program : TrainingProgram F α) : Prop :=
  Program.GivesUp (fun error => .error (.peer error)) program.run

namespace TrainingProgram

variable {α β : Type}

theorem GivesUp.bind {program : TrainingProgram F α} {rest : α → TrainingProgram F β}
    (h : program.GivesUp) (h' : ∀ value, (rest value).GivesUp) : (program >>= rest).GivesUp :=
  h.run_bind h'

/-- A call whose failure ends the run. -/
theorem givesUp_attempt {request : ExceptT PeerError (Program F (Payload F)) α}
    (h : request.run.GivesUp .error) : (attempt request).GivesUp :=
  h.adapt

theorem givesUp_read : (attempt (F := F) Program.read).GivesUp :=
  givesUp_attempt fun reply => by cases reply <;> trivial

theorem givesUp_reopen : (attempt (F := F) Program.reopen).GivesUp :=
  givesUp_attempt fun reply => by cases reply <;> trivial

theorem givesUp_sync : (attempt (F := F) Program.sync).GivesUp :=
  givesUp_attempt fun reply => by cases reply <;> trivial

theorem givesUp_write (theta : List F) (cost : F) :
    (attempt (Program.write theta cost)).GivesUp :=
  givesUp_attempt fun reply => by cases reply <;> trivial

theorem givesUp_sendAll (receivers : List PeerName) (message : Payload F) :
    (attempt (Program.sendAll receivers message)).GivesUp :=
  givesUp_attempt (Program.givesUp_sendAll receivers message)

theorem givesUp_drain : (drain (F := F)).GivesUp := fun _ => trivial

theorem givesUp_say (event : Event F) : (say event).GivesUp := trivial

theorem givesUp_sayAll (events : List (Event F)) :
    GivesUp (ExceptT.lift (Program.sayAll events)) :=
  Program.givesUp_sayAll events

theorem givesUp_required (value? : Option α) : (required value? : TrainingProgram F α).GivesUp := by
  cases value? <;> trivial

end TrainingProgram

namespace Bootstrap

theorem givesUp_probe : (probe (F := F)).GivesUp :=
  givesUp_read.bind fun _ => givesUp_reopen.bind fun _ => by split <;> trivial

theorem givesUp_agree (seat : Seat) (role : Role) (initial : F) :
    (agree seat role initial).GivesUp := by
  cases role with
  | leader =>
    exact givesUp_probe.bind fun _ => (givesUp_say _).bind fun _ => (givesUp_sendAll _ _).bind
      fun _ => givesUp_sync.bind fun _ => trivial
  | follower =>
    exact (givesUp_say _).bind fun _ => givesUp_sync.bind fun _ => givesUp_drain.bind
      fun _ => (givesUp_sayAll _).bind fun _ => trivial

end Bootstrap

namespace Trainer

variable (trainer : Trainer F)

theorem givesUp_exchange (message : Payload F) : (trainer.exchange message).GivesUp :=
  (givesUp_sendAll _ _).bind fun _ => givesUp_sync.bind fun _ => givesUp_drain

theorem givesUp_rewind : (rewind (F := F)).GivesUp :=
  givesUp_reopen.bind fun _ => givesUp_sync.bind fun _ => trivial

theorem givesUp_record (theta : List F) (cost : F) : (trainer.record theta cost).GivesUp := by
  unfold record
  cases trainer.role with
  | leader => exact givesUp_write theta cost
  | follower => trivial

theorem givesUp_conclude (state : RunState F) : (trainer.conclude state).GivesUp :=
  (givesUp_say _).bind fun _ => trainer.givesUp_record _ _

theorem givesUp_checkFeatures (row : Sample F) (theta : List F) :
    (Pass.checkFeatures row theta).GivesUp := by
  unfold Pass.checkFeatures
  split <;> trivial

variable [Scalar F]

theorem givesUp_settle (state : RunState F) (own : PartialCost F) :
    (trainer.settle state own).GivesUp := by
  have total : (trainer.totalCost own).GivesUp :=
    (trainer.givesUp_exchange _).bind fun _ => (givesUp_sayAll _).bind fun _ => trivial
  refine total.bind fun total => ?_
  split
  · trivial
  · refine (givesUp_say _).bind fun _ => ?_
    split
    · exact (trainer.givesUp_conclude _).bind fun _ => givesUp_sync.bind fun _ => trivial
    · exact (givesUp_say _).bind fun _ => (trainer.givesUp_conclude _).bind fun _ => trivial
    · exact (givesUp_say _).bind fun _ => givesUp_rewind.bind fun _ => trivial

theorem givesUp_descend (state : RunState F) (cost : F) (examples : UInt64) (own : List F) :
    (trainer.descend state cost examples own).GivesUp := by
  have total : (trainer.totalGradient own).GivesUp :=
    (trainer.givesUp_exchange _).bind fun _ => (givesUp_sayAll _).bind fun _ => trivial
  have update (gradient : List F) : TrainingProgram.GivesUp
      (ExceptT.mk (.done (Descent.update trainer.config.alpha state.theta gradient))) := trivial
  exact total.bind fun _ => (update _).bind fun _ => (givesUp_say _).bind fun _ =>
    (trainer.givesUp_record _ _).bind fun _ => givesUp_rewind.bind fun _ => trivial

/-- **Every round gives up at the first call that fails.** -/
theorem givesUp_round (stage : Stage F) : (trainer.round stage).GivesUp := by
  have account {β γ : Type} (row : Sample F) (theta : List F) (value? : Option β) (f : β → γ) :
      TrainingProgram.GivesUp (do
        Pass.checkFeatures row theta
        let value ← required value?
        return some (f value)) :=
    (givesUp_checkFeatures row theta).bind fun _ => (givesUp_required _).bind fun _ => trivial
  cases stage with
  | start =>
    exact (givesUp_say _).bind fun _ => (Bootstrap.givesUp_agree _ _ _).bind fun _ => trivial
  | scoring state sum =>
    have next : (Pass.scoreNext trainer.model state.theta sum).GivesUp :=
      givesUp_read.bind fun row? => by
        cases row? with
        | none => trivial
        | some row => exact account row _ _ _
    refine next.bind fun more? => ?_
    cases more? with
    | some more => trivial
    | none => exact trainer.givesUp_settle state sum
  | descending state cost examples sum =>
    have next : (Pass.slopeNext trainer.model state.theta sum).GivesUp :=
      givesUp_read.bind fun row? => by
        cases row? with
        | none => trivial
        | some row => exact account row _ _ _
    refine next.bind fun more? => ?_
    cases more? with
    | some more => trivial
    | none => exact trainer.givesUp_descend state cost examples sum

end Trainer

end Superstep
