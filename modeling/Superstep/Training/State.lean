import Superstep.Scalar
import Superstep.Training.Error

/-!
# What is sent and what is carried along

Peers exchange three kinds of messages: the first parameters, sums of costs, and sums of gradients.
From one iteration to the next a peer carries the parameters, the last mean cost it accepted, and
two counts. The cost starts as the greatest finite number, so that any finite first cost is
accepted.

Rows are counted in machine words, as a sender is free to claim any number of them. Iterations are
counted in words by the program as well, but one by one from zero: no run lasts for two to the
sixty-fourth of them, and here they are natural numbers.
-/

namespace Superstep

/-- A message between peers in training. -/
inductive Payload (F : Type)
  /-- The parameters to start from. -/
  | theta (values : List F)
  /-- A sum of costs, and over how many rows. -/
  | cost (sum : F) (count : UInt64)
  /-- A sum of gradients. -/
  | gradient (values : List F)
  deriving DecidableEq, Repr

/-- What kind of message it is. -/
def Payload.kind {F : Type} : Payload F → String
  | theta _ => "theta"
  | cost _ _ => "cost"
  | gradient _ => "gradient"

/-- What a peer does besides training. -/
inductive Role
  /-- It proposes the first parameters and writes the records. -/
  | leader
  | follower
  deriving DecidableEq, Repr

/-- What is carried from one iteration to the next. -/
structure RunState (F : Type) where
  /-- This peer's copy of the parameters. -/
  theta : List F
  /-- The mean cost accepted last. -/
  cost : F
  /-- How many iterations are over. A word in the program, which no run exhausts. -/
  iteration : Nat
  /-- How many rows the last costs were summed over. -/
  examples : UInt64
  deriving DecidableEq, Repr

/-- The state of a run that has not seen any cost. -/
def RunState.start {F : Type} [Scalar F] (theta : List F) : RunState F :=
  { theta, cost := Scalar.largest, iteration := 0, examples := 0 }

/-- What a peer knows when its run is over. -/
structure Summary (F : Type) where
  theta : List F
  cost : F
  /-- How many iterations there were, as `RunState.iteration` counts them. -/
  iterations : Nat
  examples : UInt64
  role : Role
  deriving DecidableEq, Repr

end Superstep
