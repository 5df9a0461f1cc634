import Superstep.Training.Config
import Superstep.Training.State

/-!
# One step down, and when to stop

Given the mean cost of all rows, a run is over if the cost is small enough, fails if the cost went
up or is no finite number, and goes on otherwise (`Descent.judge`). Given the gradient of all rows,
every parameter takes one step against it (`Descent.update`).
-/

namespace Superstep

/-- What a mean cost that did not go up means. -/
inductive Verdict (F : Type)
  /-- The cost is zero or below the threshold. -/
  | converged (cost : F)
  /-- There is still something to gain. -/
  | goOn (cost : F)
  deriving DecidableEq, Repr

namespace Descent

variable {F : Type} [Scalar F]

/-- Judges a mean cost against the one accepted before it. -/
def judge (config : Config F) (state : RunState F) (mean : F) :
    Except (TrainingError F) (Verdict F) :=
  if !Scalar.isFinite mean || Scalar.less state.cost mean then
    .error (.diverged config.alpha (state.iteration + 1) mean state.cost)
  else if Scalar.same mean Scalar.zero || Scalar.less mean config.threshold then
    .ok (.converged mean)
  else .ok (.goOn mean)

/-- One step against the gradient: each parameter less its share times the learning rate. -/
def update (alpha : F) (theta gradient : List F) : Except (TrainingError F) (List F) :=
  if gradient.length = theta.length then
    .ok (List.zipWith (fun t g => t - alpha * g) theta gradient)
  else .error (.dimensionMismatch "gradient" gradient.length theta.length)

/-- A step keeps the number of parameters. -/
theorem length_of_update {alpha : F} {theta gradient stepped : List F}
    (h : update alpha theta gradient = .ok stepped) : stepped.length = theta.length := by
  unfold update at h
  split at h
  · cases h; simp [*]
  · cases h

end Descent

end Superstep
