import Superstep.Peer.Order
import Superstep.Peer.Program

/-!
# Peers that follow a script

A script is a program spelled out as a list of steps: mostly single calls, besides some that end
the peer. It makes a process with one step to a round that ends with what each step came to. A call
that fails ends the script with its error, except that a message may also be sent *tentatively*,
and then the error is the result of the step.

A step can ask for another peer to have ended well before the script goes on. This is no call; it
is for whoever runs the script to see to it.
-/

namespace Superstep

namespace Script

/-- A step of a script. -/
inductive Step (F : Type)
  | send (receiver : PeerName) (message : String)
  /-- Sends a message; a failure is noted, and the script goes on. -/
  | trySend (receiver : PeerName) (message : String)
  | sync
  | drain
  | read
  | reopen
  | write (theta : List F) (cost : F)
  /-- Notes the peer's seat and superstep. -/
  | info
  /-- Ends with an error. -/
  | fail (error : PeerError)
  /-- Breaks off. -/
  | crash
  /-- Asks for the peer at a position to have ended well. -/
  | wait (index : Nat)
  deriving Repr

/-- What a step came to. -/
inductive Note (F : Type)
  | sent
  | refused (error : PeerError)
  | reached (superstep : Nat)
  /-- The messages taken, in the order of the names of their senders. -/
  | took (received : List (Envelope String))
  | row (row? : Option (Sample F))
  | reopened
  | written
  | place (seat : Seat) (superstep : Nat)
  | gone
  deriving Repr

/-- How far a script has come. -/
structure Position (F : Type) where
  steps : List (Step F)
  /-- How many barriers have been passed. -/
  superstep : Nat := 0
  /-- The notes made so far, the latest first. -/
  notes : List (Note F) := []

variable {F : Type}

/-- The program of one step. -/
def perform (seat : Seat) (superstep : Nat) :
    Step F → ExceptT PeerError (Program F String) (Note F)
  | .send receiver message => do
    Program.send receiver message
    return .sent
  | .trySend receiver message =>
    ExceptT.lift do
      match ← (Program.send receiver message).run with
      | .ok () => return .sent
      | .error error => return .refused error
  | .sync => return .reached (← Program.sync)
  | .drain => return .took (byName (·.sender) (← ExceptT.lift Program.drain))
  | .read => return .row (← Program.read)
  | .reopen => do
    Program.reopen
    return .reopened
  | .write theta cost => do
    Program.write theta cost
    return .written
  | .info => return .place seat superstep
  | .fail error => throw error
  | .crash => .mk .crash
  | .wait _ => return .gone

/-- The superstep after a step. -/
def superstepAfter (superstep : Nat) : Note F → Nat
  | .reached next => next
  | _ => superstep

/-- The peer that has to have ended well before the next step. -/
def awaits (position : Position F) : Option Nat :=
  match position.steps with
  | .wait index :: _ => some index
  | _ => none

/-- The process that follows a script and ends with its notes. -/
def process (steps : List (Step F)) (seat : Seat) :
    Process F String (Position F) PeerError (List (Note F)) where
  start := { steps }
  round position := ExceptT.run do
    match position.steps with
    | [] => return .finish position.notes.reverse
    | step :: rest =>
      let note ← perform seat position.superstep step
      return .goOn
        { steps := rest
          superstep := superstepAfter position.superstep note
          notes := note :: position.notes }

end Script

end Superstep
