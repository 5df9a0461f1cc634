import Superstep.Peer.Program
import Superstep.Training.State

/-!
# Agreeing on the first parameters

Before anything can be trained, all peers need the same parameters. The leader looks at its first
row to learn how many there are, gives each the same value and sends them to everybody else; the
others wait at the barrier and adopt what they were sent. Either way exactly one barrier is passed.

What a follower finds in its inbox is judged without regard to where the envelopes come from, save
that its own proposals do not count: anything but parameters is an error, and of several proposals
the first to arrive is adopted (`Bootstrap.adopt`).
-/

namespace Superstep

/-- A program of a peer in training, which ends in a value or in a training error. -/
abbrev TrainingProgram (F α : Type) := ExceptT (TrainingError F) (Program F (Payload F)) α

namespace TrainingProgram

variable {F α : Type}

/-- A call whose failure ends the run. -/
def attempt (request : ExceptT PeerError (Program F (Payload F)) α) : TrainingProgram F α :=
  request.adapt .peer

/-- Tells an event. -/
def say (event : Event F) : TrainingProgram F Unit := ExceptT.lift (.say event)

/-- Tells the same event a number of times. -/
def sayTimes (count : Nat) (event : Event F) : TrainingProgram F Unit :=
  ExceptT.lift (.sayAll (List.replicate count event))

/-- Takes what the last barrier delivered. -/
def drain : TrainingProgram F (List (Envelope (Payload F))) := ExceptT.lift Program.drain

/-- Breaks off. -/
def crash : TrainingProgram F α := .mk .crash

/-- Goes on with a value, or breaks off if there is none. -/
def required : Option α → TrainingProgram F α
  | some value => pure value
  | none => crash

end TrainingProgram

open TrainingProgram

namespace Bootstrap

variable {F : Type}

/-- The number of features of the next row. The rows are started over with whether there is such a
row or not; there has to be one, and it has to have a feature. -/
def probe : TrainingProgram F Nat := do
  let row? ← attempt Program.read
  attempt Program.reopen
  match row? with
  | some ⟨feature :: more, _⟩ => return (feature :: more).length
  | _ => throw .dimensionProbe

/-- The first of the proposed parameters, after those `held` already. They must not be empty. -/
def adoptAfter (me : PeerName) (held : Option (List F)) :
    List (Envelope (Payload F)) → Except (TrainingError F) (List F)
  | [] =>
    match held with
    | some (value :: more) => .ok (value :: more)
    | _ => .error .missingTheta
  | ⟨sender, .theta values⟩ :: rest =>
    if sender = me then adoptAfter me held rest else adoptAfter me (held.or (some values)) rest
  | ⟨_, other⟩ :: _ => .error (.unexpectedMessage .bootstrap other.kind)

/-- The parameters a follower adopts. -/
def adopt (me : PeerName) (received : List (Envelope (Payload F))) :
    Except (TrainingError F) (List F) :=
  adoptAfter me none received

/-- Who proposed parameters when others were already `held`, up to the first envelope that holds
anything else. -/
def surplus (me : PeerName) (held : Bool) : List (Envelope (Payload F)) → List PeerName
  | ⟨sender, .theta _⟩ :: rest =>
    if sender = me then surplus me held rest
    else if held then sender :: surplus me true rest
    else surplus me true rest
  | _ => []

/-- The leader's part: it fills the parameters with the initial value and sends them to everybody
else. -/
def propose (seat : Seat) (initial : F) : TrainingProgram F (List F) := do
  let size ← probe
  let theta := List.replicate size initial
  say (.sendingTheta size)
  attempt (Program.sendAll seat.others (.theta theta))
  let _ ← attempt Program.sync
  return theta

/-- A follower's part: it waits and adopts what it was sent. -/
def await (seat : Seat) : TrainingProgram F (List F) := do
  say .gettingTheta
  let _ ← attempt Program.sync
  let received ← drain
  ExceptT.lift (Program.sayAll ((surplus seat.name false received).map .ignoringSecondTheta))
  ExceptT.mk (.done (adopt seat.name received))

/-- The parameters to start from. -/
def agree (seat : Seat) (role : Role) (initial : F) : TrainingProgram F (List F) :=
  match role with
  | .leader => propose seat initial
  | .follower => await seat

end Bootstrap

end Superstep
