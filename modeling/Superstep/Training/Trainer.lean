import Superstep.Training.Descent
import Superstep.Training.Pass

/-!
# Training

`Trainer.process` is what a peer does in a training job, from the first parameters to the last. It
agrees with the others on where to start, and then goes through iterations of two passes over its
rows.

* First it adds up the costs of its rows, sends the sum to everybody else, waits, and adds up the
  sums. The mean decides whether the run is over, fails, or goes on. As all peers add up the same
  numbers in the same order, they decide alike.
* If it goes on, the peer waits, adds up the gradients of its rows, exchanges them in the same way,
  takes a step, and waits again.

The leader also writes a record of every step, and one last record of the parameters accepted last
– even if the run fails because the cost went up. In that case everybody waits once more, so that
nobody leaves before the record is there.

| stage | ends with | barriers passed |
|---|---|---|
| `start` | parameters | 1 |
| `scoring` | the verdict | 1, one more if it is to go on or to fail |
| `descending` | one step taken | 2 |

A peer whose settings make no sense, or whose settings name no leader, fails before its first call.
-/

namespace Superstep

open TrainingProgram

/-- A peer that is set to train. -/
structure Trainer (F : Type) where
  config : Config F
  model : Model F
  seat : Seat
  /-- Who leads. -/
  leader : PeerName

/-- How far a run has come. -/
inductive Stage (F : Type)
  /-- Nothing has happened. -/
  | start
  /-- Costs are being added up. -/
  | scoring (state : RunState F) (sum : PartialCost F)
  /-- The mean cost of so many rows is accepted, and gradients are being added up. -/
  | descending (state : RunState F) (cost : F) (examples : UInt64) (sum : List F)
  deriving DecidableEq, Repr

namespace Trainer

variable {F : Type} [Scalar F]

/-- Checks the settings and elects the leader. -/
def enlist (config : Config F) (model : Model F) (seat : Seat) :
    Except (TrainingError F) (Trainer F) :=
  Except.mapError .config do
    let config ← config.validate
    let leader ← config.leader.elect seat.peers
    return { config, model, seat, leader }

/-- Reads the settings of a job from its options and sets a peer to train. -/
def setUp (options : Options) (seat : Seat) : Except (TrainingError Float) (Trainer Float) := do
  let config ← (Config.ofOptions options).mapError .config
  enlist config config.model.model seat

/-- Whether the peer leads. -/
def role (trainer : Trainer F) : Role :=
  if trainer.leader = trainer.seat.name then .leader else .follower

/-- Writes a record, if this is the leader's to do. -/
def record (trainer : Trainer F) (theta : List F) (cost : F) : TrainingProgram F Unit :=
  match trainer.role with
  | .leader => attempt (Program.write theta cost)
  | .follower => pure ()

/-- Sends a message to everybody else, waits, and takes what everybody else sent. -/
def exchange (trainer : Trainer F) (message : Payload F) :
    TrainingProgram F (List (Envelope (Payload F))) := do
  attempt (Program.sendAll trainer.seat.others message)
  let _ ← attempt Program.sync
  drain

/-- Starts over with the rows and waits for everybody to do so. -/
def rewind : TrainingProgram F Unit := do
  attempt Program.reopen
  let _ ← attempt Program.sync
  return ()

/-- Closes the run with the parameters accepted last. -/
def conclude (trainer : Trainer F) (state : RunState F) : TrainingProgram F Unit := do
  say (.concluded state.cost state.theta)
  trainer.record state.theta state.cost

/-- The costs of all peers' rows, given those of its own. -/
def totalCost (trainer : Trainer F) (own : PartialCost F) :
    TrainingProgram F (PartialCost F) := do
  let received ← trainer.exchange (.cost own.sum own.count)
  sayTimes (Totals.passedOver trainer.seat.name Totals.acceptCost received)
    .skippingOwnCost
  ExceptT.mk (.done (Totals.cost trainer.seat.name own received))

/-- The gradients of all peers' rows, given those of its own. -/
def totalGradient (trainer : Trainer F) (own : List F) : TrainingProgram F (List F) := do
  let received ← trainer.exchange (.gradient own)
  sayTimes (Totals.passedOver trainer.seat.name (Totals.acceptGradient own.length) received)
    .skippingOwnGradient
  ExceptT.mk (.done (Totals.gradient trainer.seat.name own received))

/-- What follows when the costs of the peer's rows are added up. -/
def settle (trainer : Trainer F) (state : RunState F) (own : PartialCost F) :
    TrainingProgram F (Progress (Stage F) (Summary F)) := do
  let iteration := state.iteration + 1
  let total ← trainer.totalCost own
  match total.mean? with
  | none => throw .emptyDataset
  | some mean =>
    say (.aggregatedCost iteration total.count)
    match Descent.judge trainer.config state mean with
    | .error failure =>
      trainer.conclude state
      let _ ← attempt Program.sync
      throw failure
    | .ok (.converged cost) =>
      say (.finishing iteration)
      let last := { theta := state.theta, cost, iteration, examples := total.count }
      trainer.conclude last
      return .finish
        { theta := last.theta, cost, iterations := iteration, examples := total.count,
          role := trainer.role }
    | .ok (.goOn cost) =>
      say (.acceptedCost iteration cost)
      rewind
      return .goOn (.descending state cost total.count (Pass.flat state.theta))

/-- What follows when the gradients of the peer's rows are added up. -/
def descend (trainer : Trainer F) (state : RunState F) (cost : F) (examples : UInt64)
    (own : List F) : TrainingProgram F (Progress (Stage F) (Summary F)) := do
  let gradient ← trainer.totalGradient own
  let theta ← ExceptT.mk (.done (Descent.update trainer.config.alpha state.theta gradient))
  say (.stepped cost theta)
  trainer.record theta cost
  rewind
  return .goOn (.scoring { theta, cost, iteration := state.iteration + 1, examples } .zero)

/-- The round from a stage: the first parameters, the next row, or what follows the last row. -/
def round (trainer : Trainer F) (stage : Stage F) :
    TrainingProgram F (Progress (Stage F) (Summary F)) := do
  match stage with
  | .start =>
    say (.electedLeader trainer.leader)
    let theta ← Bootstrap.agree trainer.seat trainer.role trainer.config.initialTheta
    return .goOn (.scoring (.start theta) .zero)
  | .scoring state sum =>
    match ← Pass.scoreNext trainer.model state.theta sum with
    | some more => return .goOn (.scoring state more)
    | none => trainer.settle state sum
  | .descending state cost examples sum =>
    match ← Pass.slopeNext trainer.model state.theta sum with
    | some more => return .goOn (.descending state cost examples more)
    | none => trainer.descend state cost examples sum

/-- What a peer does in a training job once it is set to train. -/
def process (trainer : Trainer F) :
    Process F (Payload F) (Stage F) (TrainingError F) (Summary F) where
  start := .start
  round stage := (trainer.round stage).run

/-- What a peer does in a training job: it fails if it could not be set to train. -/
def processOf : Except (TrainingError F) (Trainer F) →
    Process F (Payload F) (Stage F) (TrainingError F) (Summary F)
  | .ok trainer => trainer.process
  | .error failure => { start := .start, round := fun _ => .done (.error failure) }

end Trainer

end Superstep
