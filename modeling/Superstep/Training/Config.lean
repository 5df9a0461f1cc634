import Superstep.Training.Leader
import Superstep.Training.Model
import Superstep.Training.Options

/-!
# The settings of a training job

Six options are recognised. Three are numbers – where every parameter starts, the learning rate and
the cost at which a run is content – and the others choose the model and the leader, the latter by
a policy or, with precedence over it, by name.

A learning rate must be finite and positive, a threshold finite and not negative. `Config.validate`
checks this and nothing else; `Config.ofOptions` reads all options first, in a fixed order, and
reports the first that is at fault.
-/

namespace Superstep

/-- The settings of a training job. -/
structure Config (F : Type) where
  /-- The value every parameter starts from. -/
  initialTheta : F
  /-- The learning rate. -/
  alpha : F
  /-- The mean cost below which a run is over. -/
  threshold : F
  model : ModelKind
  leader : LeaderPolicy
  deriving Repr

namespace Config

/-- The names of the recognised options. -/
def initialThetaKey : String := "initial.theta.values"
@[inherit_doc initialThetaKey] def alphaKey : String := "alpha"
@[inherit_doc initialThetaKey] def thresholdKey : String := "threshold"
@[inherit_doc initialThetaKey] def modelKey : String := "regression.model.class"
@[inherit_doc initialThetaKey] def policyKey : String := "leader.policy"
@[inherit_doc initialThetaKey] def leaderKey : String := "leader.peer"

/-- The value every parameter starts from unless an option says otherwise. -/
def defaultInitialTheta : Int := 10

/-- The settings of a job without options. -/
def default : Config Float where
  initialTheta := Float.ofInt defaultInitialTheta
  alpha := 0.003
  threshold := 0.1
  model := .linear
  leader := .middle

/-- Refuses settings whose numbers are out of range. -/
def validate {F : Type} [Scalar F] (config : Config F) : Except (ConfigError F) (Config F) :=
  if !Scalar.isFinite config.alpha || Scalar.atMost config.alpha Scalar.zero then
    .error (.outOfRange alphaKey config.alpha)
  else if !Scalar.isFinite config.threshold || Scalar.less config.threshold Scalar.zero then
    .error (.outOfRange thresholdKey config.threshold)
  else .ok config

/-- The model an option names, or the linear one. -/
def modelOf (options : Options) : Except (ConfigError Float) ModelKind :=
  match options.get? modelKey with
  | some name => ModelKind.ofName name
  | none => .ok .linear

/-- The leader an option names, or else the policy an option names, or else the middle one. -/
def leaderOf (options : Options) : Except (ConfigError Float) LeaderPolicy :=
  match options.get? leaderKey, options.get? policyKey with
  | some name, _ => .ok (.fixed name)
  | none, some policy => LeaderPolicy.ofName policy
  | none, none => .ok .middle

/-- Reads the settings of a job from its options. -/
def ofOptions (options : Options) : Except (ConfigError Float) (Config Float) := do
  let initialTheta ← options.getInt initialThetaKey defaultInitialTheta
  let alpha ← options.getFloat alphaKey default.alpha
  let threshold ← options.getFloat thresholdKey default.threshold
  let model ← modelOf options
  let leader ← leaderOf options
  validate { initialTheta := Float.ofInt initialTheta, alpha, threshold, model, leader }

/-- **What passes the check is what was checked**, so that checking it again changes nothing. -/
theorem eq_of_validate {F : Type} [Scalar F] {config checked : Config F}
    (h : config.validate = .ok checked) : checked = config := by
  unfold validate at h
  split at h
  · cases h
  · split at h
    · cases h
    · cases h; rfl

end Config

end Superstep
