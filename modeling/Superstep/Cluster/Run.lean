import Superstep.Cluster.Execution

/-!
# Running a job to its end

Of all the ways in which a job can run, `Execution.run` takes one: the job takes note of a peer's
end as soon as there is one, and else the first peer that can step does so. It stops when the job
has ended, or when nobody can step any more – then every peer that is not over waits for somebody
who will never come.

A peer can be held back between two of its rounds until another peer has ended well. This restricts
the order of turns and nothing else.
-/

namespace Superstep

/-- How running a job turned out. -/
inductive Fate (ε α : Type)
  | ended (ending : Ending ε α)
  /-- Nobody can step, and the job has not ended. -/
  | stuck
  /-- There were more turns than were asked for. -/
  | unfinished
  deriving DecidableEq, Repr

namespace Execution

variable {F M S ε α : Type}

/-- Whether a station is held back: the state before its next round asks for the end of a peer that
has not ended well. -/
def isHeld (awaits : S → Option Nat) (x : Execution F M S ε α) (station : Station F M S ε α) :
    Bool :=
  match station.activity with
  | .running (.done (.ok (.goOn state))) =>
    match awaits state with
    | none => false
    | some other => !(x.stations[other]?.any (·.hasEndedWell))
  | _ => false

/-- The first peer from a position on that can step, and what its step does. -/
def stepFirst (awaits : S → Option Nat) (x : Execution F M S ε α) :
    List (Station F M S ε α) → (index : Nat) → Option (Execution F M S ε α)
  | [], _ => none
  | station :: rest, index =>
    let stepped := if x.isHeld awaits station then none else x.step index station
    match stepped with
    | some next => some next
    | none => stepFirst awaits x rest (index + 1)

/-- The turn that comes next, if any is possible. -/
def advance (awaits : S → Option Nat) (x : Execution F M S ε α) : Option (Execution F M S ε α) :=
  match x.noteReport with
  | some next => some next
  | none => x.stepFirst awaits x.stations 0

/-- At most so many turns, until the job has ended or is stuck. -/
def turns (awaits : S → Option Nat) :
    Nat → Execution F M S ε α → Fate ε α × Execution F M S ε α
  | 0, x => (.unfinished, x)
  | more + 1, x =>
    match x.ending? with
    | some ending => (.ended ending, x)
    | none =>
      match x.advance awaits with
      | some next => turns awaits more next
      | none => (.stuck, x)

/-- More turns than any machine takes. -/
def turnLimit : Nat := 4611686018427387904

/-- Runs a job to its end, holding back peers as the states of their processes ask for. -/
def runHolding (awaits : S → Option Nat) (x : Execution F M S ε α) :
    Fate ε α × Execution F M S ε α :=
  turns awaits turnLimit x

/-- Runs a job to its end. -/
def run (x : Execution F M S ε α) : Fate ε α × Execution F M S ε α :=
  x.runHolding fun _ => none

end Execution

end Superstep
