import Superstep.Decimal.Layout
import Superstep.Peer.Error
import Superstep.Text.Quoted

/-!
# What can go wrong in training

There are two sources of failure. The options of a job may make no sense (`ConfigError`); this
shows before anything is trained. And a run may fail (`TrainingError`): its options made no sense,
its surroundings failed, the costs went up, or what was read or received does not fit together.

Both carry the offending values, so that a failure can be told apart by what happened and not by
its wording; `message` renders the wording in one place. Failures can be raised by a job on any
type of numbers, but only double precision numbers have a text.
-/

namespace Superstep

/-- A superstep in which messages are expected. -/
inductive Phase
  | bootstrap
  | cost
  | gradient
  deriving DecidableEq, Repr

/-- The name of a superstep. -/
def Phase.text : Phase → String
  | bootstrap => "bootstrap"
  | cost => "cost"
  | gradient => "gradient"

/-- Options that make no sense. -/
inductive ConfigError (F : Type)
  /-- The text of an option is no value of its type. -/
  | invalidValue (key : String) (text : String)
  /-- The value of an option is not allowed. -/
  | outOfRange (key : String) (value : F)
  | unknownModel (name : String)
  | unknownPolicy (name : String)
  /-- The leader that the options name is no peer. -/
  | unknownLeader (name : String)
  deriving DecidableEq, Repr

/-- A failure that ends a peer's run. -/
inductive TrainingError (F : Type)
  | config (error : ConfigError F)
  | peer (error : PeerError)
  /-- The mean cost went up, or is no finite number. -/
  | diverged (alpha : F) (iteration : Nat) (cost : F) (previous : F)
  /-- The leader has no row from which to tell the number of features. -/
  | dimensionProbe
  /-- A list of numbers is longer or shorter than the parameters. -/
  | dimensionMismatch (what : String) (got expected : Nat)
  /-- A message of another kind than the superstep's. -/
  | unexpectedMessage (phase : Phase) (got : String)
  /-- The leader's parameters did not arrive. -/
  | missingTheta
  /-- There are no rows at all. -/
  | emptyDataset
  deriving DecidableEq, Repr

/-- The text of a configuration error. -/
def ConfigError.message : ConfigError Float → String
  | invalidValue key text => s!"invalid value {Text.quoted text} for option {key}"
  | outOfRange key value => s!"value {Layout.message.write value} is out of range for option {key}"
  | unknownModel name => s!"unknown regression model {Text.quoted name}"
  | unknownPolicy name => s!"unknown leader policy {Text.quoted name}"
  | unknownLeader name =>
    s!"the configured leader {Text.quoted name} is not a peer of this job"

namespace TrainingError

/-- The text of a failure. -/
def message : TrainingError Float → String
  | config error => s!"configuration error: {error.message}"
  | peer error => s!"peer error: {error.message}"
  | diverged alpha iteration cost previous =>
    let text := Layout.message.write
    s!"gradient descent failed to converge with alpha {text alpha}: " ++
      s!"cost went from {text previous} to {text cost} at iteration {iteration}"
  | dimensionProbe => "cannot read input vector size"
  | dimensionMismatch what got expected =>
    s!"{what} length mismatch: got {got}, expected {expected}"
  | unexpectedMessage phase got => s!"unexpected message in the {phase.text} superstep: got {got}"
  | missingTheta => "no theta was received from the leader"
  | emptyDataset => "no peer holds any training example"

/-- The text of the failure that caused a failure, if there is one. -/
def cause? : TrainingError Float → Option String
  | config error => some error.message
  | peer error => some error.message
  | _ => none

/-- The failure as a fault of the device: that of the surroundings if they failed, else invalid
data. -/
def toIoFault : TrainingError Float → IoFault
  | peer error => error.toIoFault
  | other => ⟨"InvalidData", other.message⟩

end TrainingError

end Superstep
