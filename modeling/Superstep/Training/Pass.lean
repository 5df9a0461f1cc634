import Superstep.Training.Bootstrap
import Superstep.Training.Model
import Superstep.Training.Totals

/-!
# Passing over a peer's own rows

Twice in an iteration a peer goes through all of its rows: once to add up their costs, once to add
up their gradients. Each row is read, checked to have as many features as there are parameters, and
accounted for; when there are no more rows, the pass is over.

A pass is a process with one row to a round, for a peer may own any number of rows. It starts with
the row that is next, not necessarily with the first.
-/

namespace Superstep

namespace Pass

open TrainingProgram

variable {F : Type} [Scalar F]

/-- Refuses a row that has not as many features as there are parameters. -/
def checkFeatures (row : Sample F) (theta : List F) : TrainingProgram F Unit :=
  if row.features.length = theta.length then pure ()
  else throw (.dimensionMismatch "features" row.features.length theta.length)

/-- Adds the cost of the next row, if there is one. -/
def scoreNext (model : Model F) (theta : List F) (sum : PartialCost F) :
    TrainingProgram F (Option (PartialCost F)) := do
  match ← attempt Program.read with
  | none => return none
  | some row =>
    checkFeatures row theta
    let cost ← required (model.cost row.features row.label theta)
    return some (sum.add cost)

/-- Adds a row's gradient: the error of the prediction times each feature. -/
def addGradient (error : F) (features sum : List F) : List F :=
  List.zipWith (fun s x => s + error * x) sum features

/-- Adds the gradient of the next row, if there is one. -/
def slopeNext (model : Model F) (theta : List F) (sum : List F) :
    TrainingProgram F (Option (List F)) := do
  match ← attempt Program.read with
  | none => return none
  | some row =>
    checkFeatures row theta
    let prediction ← required (model.hypothesis theta row.features)
    return some (addGradient (prediction - row.label) row.features sum)

/-- The gradient of no rows. -/
def flat (theta : List F) : List F := List.replicate theta.length Scalar.zero

/-- A process that makes the same step until there is nothing more to step over. -/
def repeating {S : Type} (start : S) (step : S → TrainingProgram F (Option S)) :
    Process F (Payload F) S (TrainingError F) S where
  start
  round state := ExceptT.run do
    match ← step state with
    | some next => return .goOn next
    | none => return .finish state

/-- The costs of all rows that are left. -/
def cost (model : Model F) (theta : List F) :
    Process F (Payload F) (PartialCost F) (TrainingError F) (PartialCost F) :=
  repeating .zero (scoreNext model theta)

/-- The gradients of all rows that are left. -/
def gradient (model : Model F) (theta : List F) :
    Process F (Payload F) (List F) (TrainingError F) (List F) :=
  repeating (flat theta) (slopeNext model theta)

end Pass

end Superstep
