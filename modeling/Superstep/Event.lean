import Superstep.Decimal.Layout
import Superstep.Peer.Basic

/-!
# What a job tells about itself

While a job runs, it tells what happens in it. Every event belongs to a peer and carries the values
it is about; it has a level, a message and named details, and `Event.line` puts these together into
a line of text. Events are told in the order in which they happen and influence nothing.
-/

namespace Superstep

/-- Something a job tells about one of its peers. -/
inductive Event (F : Type)
  /-- The peer knows who leads. -/
  | electedLeader (leader : PeerName)
  /-- The leader proposes so many parameters. -/
  | sendingTheta (size : Nat)
  /-- A follower waits for the parameters. -/
  | gettingTheta
  /-- A follower was sent parameters once more. -/
  | ignoringSecondTheta (sender : PeerName)
  /-- The peer passed over a sum of costs it had sent to itself. -/
  | skippingOwnCost
  /-- The peer passed over a gradient it had sent to itself. -/
  | skippingOwnGradient
  /-- The costs of all rows are known. -/
  | aggregatedCost (iteration : Nat) (examples : UInt64)
  /-- The mean cost is small enough. -/
  | finishing (iteration : Nat)
  /-- The mean cost is accepted, and not yet small enough. -/
  | acceptedCost (iteration : Nat) (cost : F)
  /-- The parameters have taken one step. -/
  | stepped (cost : F) (theta : List F)
  /-- The run is over, with the parameters accepted last. -/
  | concluded (cost : F) (theta : List F)
  /-- Messages of an earlier superstep were never looked at. -/
  | discardingMessages (superstep count : Nat)
  /-- The job received the peer's result. -/
  | peerFinished
  /-- The job ends because the peer failed. -/
  | peerFailed
  /-- The job ends because the peer broke off. -/
  | peerCrashed
  deriving DecidableEq, Repr

namespace Event

/-- How important an event is. -/
inductive Level
  | debug
  | info
  | warn
  deriving DecidableEq, Repr

/-- The name of a level. -/
def Level.text : Level → String
  | debug => "DEBUG"
  | info => "INFO"
  | warn => "WARN"

variable {F : Type}

/-- The level of an event. -/
def level : Event F → Level
  | electedLeader _ | skippingOwnCost | skippingOwnGradient | aggregatedCost .. | stepped ..
  | peerFinished => .debug
  | sendingTheta _ | gettingTheta | finishing _ | acceptedCost .. | concluded .. => .info
  | ignoringSecondTheta _ | discardingMessages .. | peerFailed | peerCrashed => .warn

/-- Numbers in brackets, as in log lines. -/
def bracketed (values : List Float) : String :=
  "[" ++ String.intercalate ", " (values.map Layout.log.write) ++ "]"

/-- What is said about an event. -/
def message : Event Float → String
  | electedLeader _ => "elected leader"
  | sendingTheta _ => "sending theta"
  | gettingTheta => "getting theta"
  | ignoringSecondTheta _ => "ignoring a second theta"
  | skippingOwnCost => "skipping own cost"
  | skippingOwnGradient => "skipping own gradient"
  | aggregatedCost .. => "aggregated cost"
  | finishing _ => "finishing!"
  | acceptedCost _ cost => s!"cost is {Layout.message.write cost}"
  | stepped cost theta => s!"new theta for cost {Layout.message.write cost} is {bracketed theta}"
  | concluded cost theta =>
    s!"computation finished with cost {Layout.message.write cost} for theta {bracketed theta}"
  | discardingMessages .. => "discarding undrained messages"
  | peerFinished => "peer finished"
  | peerFailed => "peer failed, aborting the job"
  | peerCrashed => "peer panicked, aborting the job"

/-- The named details of an event, in the order in which they are told. -/
def details : Event F → List (String × String)
  | electedLeader leader => [("leader", leader)]
  | sendingTheta size => [("dim", toString size)]
  | ignoringSecondTheta sender => [("from", sender)]
  | aggregatedCost iteration examples =>
    [("iteration", toString iteration), ("examples", toString examples.toNat)]
  | finishing iteration | acceptedCost iteration _ => [("iteration", toString iteration)]
  | discardingMessages superstep count =>
    [("superstep", toString superstep), ("discarded", toString count)]
  | _ => []

/-- The line of text for an event. -/
def line (event : Event Float) : String :=
  let shown := event.details.map fun detail => s!" {detail.1}={detail.2}"
  s!"{event.level.text} {event.message}" ++ String.join shown

end Event

end Superstep
