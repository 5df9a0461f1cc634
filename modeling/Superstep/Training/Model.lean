import Superstep.Scalar
import Superstep.Text.Pieces
import Superstep.Training.Error

/-!
# Models

A model turns the features of a row and the current parameters into a prediction, the *hypothesis*,
and says what a prediction costs in view of the row's label. Training needs no more than that, so
any two such functions make a model. A model may also give up on a row – its functions are partial –
and then the peer that asked breaks off.

Two models come with a name. The linear one predicts the product of parameters and features and
charges half the squared error. The logistic one passes that product through the sigmoid and
charges the cross entropy; it keeps the prediction a little away from zero and one, so that a wrong
prediction made with full confidence costs much but not infinitely much.

A name is recognised by its last part, the one after the last point, whatever its case and wherever
it has dashes: the name of the model, then perhaps `regression`, then perhaps `model`.
-/

namespace Superstep

/-- A prediction together with its cost. Either may fail to exist. -/
structure Model (F : Type) where
  /-- The cost of predicting a row with these features and this label by these parameters. -/
  cost : (features : List F) → (label : F) → (theta : List F) → Option F
  /-- The prediction for these features by these parameters. -/
  hypothesis : (theta : List F) → (features : List F) → Option F

/-- A model that gives up on nothing. -/
def Model.Total {F : Type} (model : Model F) : Prop :=
  (∀ features label theta, (model.cost features label theta).isSome) ∧
    ∀ theta features, (model.hypothesis theta features).isSome

namespace Linear

variable {F : Type} [Scalar F]

/-- The product of parameters and features. -/
def hypothesis (theta features : List F) : F := Scalar.dot theta features

/-- Half the squared error. -/
def cost (features : List F) (label : F) (theta : List F) : F :=
  let error := hypothesis theta features - label
  error * error / Scalar.ofNat 2

/-- Least squares. -/
def model : Model F where
  cost features label theta := some (cost features label theta)
  hypothesis theta features := some (hypothesis theta features)

theorem total : (model : Model F).Total := ⟨fun _ _ _ => rfl, fun _ _ => rfl⟩

end Linear

namespace Logistic

/-- How far the prediction is kept from zero and one where its cost is taken. -/
def margin : Float := 1e-12

/-- The sigmoid. -/
def sigmoid (z : Float) : Float := 1.0 / (1.0 + Float.exp (-z))

/-- The sigmoid of the product of parameters and features. -/
def hypothesis (theta features : List Float) : Float := sigmoid (Scalar.dot theta features)

/-- A number moved into the margins if it lies outside. -/
def clamp (h : Float) : Float :=
  let raised := if h < margin then margin else h
  if raised > 1.0 - margin then 1.0 - margin else raised

/-- The cross entropy of label and prediction. -/
def cost (features : List Float) (label : Float) (theta : List Float) : Float :=
  let h := clamp (hypothesis theta features)
  let accepted := (-label) * Float.log h
  accepted - (1.0 - label) * Float.log (1.0 - h)

/-- Classification by the sigmoid. -/
def model : Model Float where
  cost features label theta := some (cost features label theta)
  hypothesis theta features := some (hypothesis theta features)

end Logistic

/-- The models that have a name. -/
inductive ModelKind
  | linear
  | logistic
  deriving DecidableEq, Repr

namespace ModelKind

/-- The model of this kind. -/
def model : ModelKind → Model Float
  | linear => Linear.model
  | logistic => Logistic.model

/-- A word without an ending, if it has that ending. -/
def dropEnding (ending word : List Char) : List Char :=
  if ending.isSuffixOf word then word.take (word.length - ending.length) else word

/-- The part of a name after its last point, in lower case and without dashes. -/
def plainName (name : List Char) : List Char :=
  (((Text.pieces '.' name).getLast?.getD []).map Char.toLower).filter fun c => c ≠ '_' ∧ c ≠ '-'

/-- The model a name stands for. -/
def ofName {F : Type} (name : String) : Except (ConfigError F) ModelKind :=
  let stem := dropEnding "regression".toList (dropEnding "model".toList (plainName name.toList))
  if stem = "linear".toList then .ok linear
  else if stem = "logistic".toList then .ok logistic
  else .error (.unknownModel name)

end ModelKind

end Superstep
