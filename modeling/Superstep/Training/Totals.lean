import Superstep.Peer.Order
import Superstep.Training.State

/-!
# Adding up what the peers found

Every peer adds up the same contributions: its own and those it received from the others. For all
of them to arrive at the same numbers – to the last bit, as they must if they are to take the same
decisions – the order of the additions may not depend on who adds or on the order in which messages
arrived. So contributions are added in the order of the peers' names, starting from zero.

Envelopes that a peer sent to itself are passed over whatever they hold, for its own contribution
is already there. An envelope from somebody else that holds something unexpected is an error, and
the first such envelope decides which.
-/

namespace Superstep

/-- A sum of costs together with the number of rows it covers. Counts are machine words, and adding
to them wraps around past the greatest one, as it does in a release build. -/
structure PartialCost (F : Type) where
  sum : F
  count : UInt64
  deriving DecidableEq, Repr

namespace PartialCost

variable {F : Type} [Scalar F]

/-- No rows yet. -/
def zero : PartialCost F := ⟨Scalar.zero, 0⟩

/-- One more row. The count wraps around. -/
def add (total : PartialCost F) (cost : F) : PartialCost F := ⟨total.sum + cost, total.count + 1⟩

/-- The rows of two parts. The count wraps around, which claims of others can bring about. -/
def merge (total part : PartialCost F) : PartialCost F :=
  ⟨total.sum + part.sum, total.count + part.count⟩

/-- The cost of a row on average, if there is any row. -/
def mean? (total : PartialCost F) : Option F :=
  if total.count = 0 then none else some (total.sum / Scalar.ofNat total.count.toNat)

end PartialCost

namespace Totals

/-- The contributions in envelopes of others, in order of arrival, or the error of the first
envelope that is not accepted. -/
def gather {M P E : Type} (me : PeerName) (accept : M → Except E P) :
    List (Envelope M) → Except E (List (PeerName × P))
  | [] => .ok []
  | envelope :: rest =>
    if envelope.sender = me then gather me accept rest
    else do
      let part ← accept envelope.message
      let more ← gather me accept rest
      return (envelope.sender, part) :: more

/-- How many envelopes of its own a peer passes over, up to the first that is not accepted. -/
def passedOver {M P E : Type} (me : PeerName) (accept : M → Except E P) :
    List (Envelope M) → Nat
  | [] => 0
  | envelope :: rest =>
    if envelope.sender = me then passedOver me accept rest + 1
    else
      match accept envelope.message with
      | .ok _ => passedOver me accept rest
      | .error _ => 0

/-- Accepts sums of costs. -/
def acceptCost {F : Type} : Payload F → Except (TrainingError F) (PartialCost F)
  | .cost sum count => .ok ⟨sum, count⟩
  | other => .error (.unexpectedMessage .cost other.kind)

/-- Accepts gradients of so many entries. -/
def acceptGradient {F : Type} (size : Nat) : Payload F → Except (TrainingError F) (List F)
  | .gradient values =>
    if values.length = size then .ok values
    else .error (.dimensionMismatch "gradient" values.length size)
  | other => .error (.unexpectedMessage .gradient other.kind)

variable {F : Type} [Scalar F]

/-- The sum of all peers' costs. -/
def cost (me : PeerName) (own : PartialCost F) (received : List (Envelope (Payload F))) :
    Except (TrainingError F) (PartialCost F) := do
  let others ← gather me acceptCost received
  return (byName (·.1) ((me, own) :: others)).foldl (fun total part => total.merge part.2) .zero

/-- Adds two lists of numbers entry by entry. -/
def addEntries (a b : List F) : List F := List.zipWith (· + ·) a b

/-- The sum of all peers' gradients. -/
def gradient (me : PeerName) (own : List F) (received : List (Envelope (Payload F))) :
    Except (TrainingError F) (List F) := do
  let others ← gather me (acceptGradient own.length) received
  return (byName (·.1) ((me, own) :: others)).foldl (fun total part => addEntries total part.2)
    (List.replicate own.length Scalar.zero)

end Totals

end Superstep
