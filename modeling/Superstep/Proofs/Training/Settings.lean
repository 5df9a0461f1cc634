import Superstep.Proofs.Data.Table
import Superstep.Proofs.Number.Double
import Superstep.Proofs.Training.Stranded

/-!
# Reading the settings of a job

The settings of a job are read from its options in one pass that stops at the first thing that is
wrong. What is wrong is said here check by check and without an order
(`Superstep.Config.Fails`): an option that is there cannot be read, or a number that was read, or is
taken by default, is out of range. There are settings exactly if no check fails
(`Superstep.Config.exists_ofOptions_iff`), and then they are what the options say
(`Superstep.Config.Said`) and in range; otherwise the failure that is reported is the one of the
first check that fails (`Superstep.Config.ofOptions_eq_error_iff`).

Not everything that is wrong is a failure. Who names the leader has no use for a policy, and what
stands for one is then not read at all.
-/

namespace Superstep

/-! ### What an option says -/

namespace Options

variable {α : Type} {options : Options} {key : String} {read? : String → Option α}
  {fallback value : α}

/-- **What an option says**: what its text is read as, without the blanks around it, or its default
if there is no such option. -/
def Says (options : Options) (key : String) (read? : String → Option α) (fallback value : α) :
    Prop :=
  match options.get? key with
  | none => value = fallback
  | some text => read? text = some value

/-- An option is there, and its text cannot be read. -/
def Garbled (options : Options) (key : String) (read? : String → Option α) (text : String) : Prop :=
  options.get? key = some text ∧ read? text = none

theorem Says.not_garbled (h : options.Says key read? fallback value) (text : String) :
    ¬options.Garbled key read? text := by
  rintro ⟨found, unread⟩
  simp [Says, found, unread] at h

theorem Says.eq {other : α} (h : options.Says key read? fallback value)
    (h' : options.Says key read? fallback other) : value = other := by
  unfold Says at h h'
  cases found : options.get? key <;> simp_all

theorem Garbled.eq {text other : String} (h : options.Garbled key read? text)
    (h' : options.Garbled key read? other) : text = other :=
  Option.some.inj (h.1.symm.trans h'.1)

theorem getWith_eq_ok_iff {F : Type} {read? : List Char → Option α} :
    options.getWith (F := F) key fallback read? = .ok value ↔
      options.Says key (fun text => read? text.toList) fallback value := by
  unfold getWith Says
  cases options.get? key with
  | none => simp [eq_comm]
  | some text => cases found : read? text.toList <;> simp [found]

theorem getWith_eq_error_iff {F : Type} {read? : List Char → Option α} {failure : ConfigError F} :
    options.getWith key fallback read? = .error failure ↔
      ∃ text, options.Garbled key (fun text => read? text.toList) text ∧
        failure = .invalidValue key text := by
  unfold getWith Garbled
  cases options.get? key with
  | none => simp
  | some text => cases found : read? text.toList <;> simp [found, eq_comm]

end Options

namespace Config

variable {options : Options} {config checked : Config Float} {failure : ConfigError Float}

/-! ### How options are read -/

/-- An integer of 64 bits. -/
def readInteger? (text : String) : Option Int := readInt64? text.toList

/-- A double precision number. -/
def readNumber? (text : String) : Option Float := (readFloat text.toList).toOption

/-- The name of a model. -/
def readModel? (name : String) : Option ModelKind := (ModelKind.ofName (F := Float) name).toOption

/-- The name of a policy. -/
def readPolicy? (name : String) : Option LeaderPolicy :=
  (LeaderPolicy.ofName (F := Float) name).toOption

/-- A name that no model has is reported. -/
theorem ofName_model_eq (name : String) : ModelKind.ofName (F := Float) name =
    match readModel? name with
    | some kind => .ok kind
    | none => .error (.unknownModel name) := by
  unfold readModel? ModelKind.ofName
  dsimp only
  split_ifs <;> rfl

/-- A policy is read from the words that stand for it, in any case. -/
theorem readPolicy?_eq_some_iff {name : String} {policy : LeaderPolicy} :
    readPolicy? name = some policy ↔
      String.ofList (name.toList.map Char.toLower) ∈ policy.spellings := by
  rw [← LeaderPolicy.ofName_eq_ok_iff (F := Float), readPolicy?]
  cases LeaderPolicy.ofName (F := Float) name <;> simp [Except.toOption]

/-- A name that no policy has is reported. -/
theorem ofName_policy_eq (name : String) : LeaderPolicy.ofName (F := Float) name =
    match readPolicy? name with
    | some policy => .ok policy
    | none => .error (.unknownPolicy name) := by
  cases read : LeaderPolicy.ofName (F := Float) name with
  | ok policy => rw [readPolicy?_eq_some_iff.mpr (LeaderPolicy.ofName_eq_ok_iff.mp read)]
  | error failure =>
    rw [(LeaderPolicy.ofName_eq_error_iff.mp read).2, readPolicy?, read]
    rfl

theorem modelOf_eq_ok_iff {kind : ModelKind} :
    modelOf options = .ok kind ↔ options.Says modelKey readModel? .linear kind := by
  unfold modelOf Options.Says
  cases options.get? modelKey with
  | none => simp [eq_comm]
  | some name =>
    dsimp only
    rw [ofName_model_eq]
    cases readModel? name <;> simp

theorem modelOf_eq_error_iff : modelOf options = .error failure ↔
    ∃ name, options.Garbled modelKey readModel? name ∧ failure = .unknownModel name := by
  unfold modelOf Options.Garbled
  cases options.get? modelKey with
  | none => simp
  | some name =>
    dsimp only
    rw [ofName_model_eq]
    cases found : readModel? name <;> simp [found, eq_comm]

/-- **Who is said to lead**: the peer that is named, and only if none is, who a policy finds. -/
def SaysLeader (options : Options) (leader : LeaderPolicy) : Prop :=
  match options.get? leaderKey with
  | some name => leader = .fixed name
  | none => options.Says policyKey readPolicy? .middle leader

/-- A policy is needed and cannot be read. -/
def GarbledLeader (options : Options) (name : String) : Prop :=
  options.get? leaderKey = none ∧ options.Garbled policyKey readPolicy? name

theorem SaysLeader.not_garbled {leader : LeaderPolicy} (h : SaysLeader options leader)
    (name : String) : ¬GarbledLeader options name := by
  rintro ⟨unnamed, garbled⟩
  simp only [SaysLeader, unnamed] at h
  exact h.not_garbled name garbled

theorem leaderOf_eq_ok_iff {leader : LeaderPolicy} :
    leaderOf options = .ok leader ↔ SaysLeader options leader := by
  unfold leaderOf SaysLeader Options.Says
  cases options.get? leaderKey with
  | some name => simp [eq_comm]
  | none =>
    cases options.get? policyKey with
    | none => simp [eq_comm]
    | some name =>
      dsimp only
      rw [ofName_policy_eq]
      cases readPolicy? name <;> simp

theorem leaderOf_eq_error_iff : leaderOf options = .error failure ↔
    ∃ name, GarbledLeader options name ∧ failure = .unknownPolicy name := by
  unfold leaderOf GarbledLeader Options.Garbled
  cases options.get? leaderKey with
  | some name => simp
  | none =>
    cases options.get? policyKey with
    | none => simp
    | some name =>
      dsimp only
      rw [ofName_policy_eq]
      cases found : readPolicy? name <;> simp [found, eq_comm]

/-! ### What is in range -/

/-- A learning rate that is in range. -/
def IsRate (alpha : Float) : Prop := alpha.isFinite ∧ 0.0 < alpha

/-- A threshold that is in range. -/
def IsThreshold (threshold : Float) : Prop := threshold.isFinite ∧ 0.0 ≤ threshold

theorem isRate_iff {alpha : Float} : IsRate alpha ↔
    ¬(!Scalar.isFinite alpha || Scalar.atMost alpha Scalar.zero) = true := by
  by_cases finite : alpha.isFinite = true
  · rw [IsRate, Double.pos_iff finite]
    simp [Scalar.isFinite, Scalar.atMost, Scalar.less, Scalar.same, Scalar.zero, finite]
  · simp [IsRate, Scalar.isFinite, finite]

theorem isThreshold_iff {threshold : Float} : IsThreshold threshold ↔
    ¬(!Scalar.isFinite threshold || Scalar.less threshold Scalar.zero) = true := by
  by_cases finite : threshold.isFinite = true
  · rw [IsThreshold, Double.nonneg_iff finite]
    simp [Scalar.isFinite, Scalar.less, Scalar.zero, finite]
  · simp [IsThreshold, Scalar.isFinite, finite]

theorem validate_eq_ok_iff : config.validate = .ok checked ↔
    (IsRate config.alpha ∧ IsThreshold config.threshold) ∧ checked = config := by
  rw [isRate_iff, isThreshold_iff]
  unfold validate
  split_ifs with rate threshold
  · simp [rate]
  · simp [threshold]
  · simp [rate, threshold, eq_comm]

theorem validate_eq_error_iff : config.validate = .error failure ↔
    (¬IsRate config.alpha ∧ failure = .outOfRange alphaKey config.alpha) ∨
      (IsRate config.alpha ∧ ¬IsThreshold config.threshold ∧
        failure = .outOfRange thresholdKey config.threshold) := by
  rw [isRate_iff, isThreshold_iff]
  unfold validate
  split_ifs with rate threshold
  · simp [rate, @eq_comm _ failure]
  · simp [rate, threshold, @eq_comm _ failure]
  · simp [rate, threshold]

/-! ### What the options say, and what is wrong with them -/

/-- **What the options of a job say**, with the default for what they leave out. -/
structure Said (options : Options) (config : Config Float) : Prop where
  initialTheta : ∃ n : Int, options.Says initialThetaKey readInteger? 10 n ∧
    config.initialTheta = Float.ofInt n
  alpha : options.Says alphaKey readNumber? 0.003 config.alpha
  threshold : options.Says thresholdKey readNumber? 0.1 config.threshold
  model : options.Says modelKey readModel? .linear config.model
  leader : SaysLeader options config.leader

/-- What is checked. -/
inductive Check
  | initialTheta
  | alpha
  | threshold
  | model
  | leader
  | alphaRange
  | thresholdRange
  deriving DecidableEq, Repr

/-- Which check is made after how many others. -/
def Check.place : Check → Nat
  | initialTheta => 0
  | alpha => 1
  | threshold => 2
  | model => 3
  | leader => 4
  | alphaRange => 5
  | thresholdRange => 6

theorem Check.place_injective : Function.Injective Check.place := by
  intro a b same
  cases a <;> cases b <;> first | rfl | cases same

/-- **A check fails.** -/
inductive Fails (options : Options) : Check → ConfigError Float → Prop
  | initialTheta {text : String} (garbled : options.Garbled initialThetaKey readInteger? text) :
    Fails options .initialTheta (.invalidValue initialThetaKey text)
  | alpha {text : String} (garbled : options.Garbled alphaKey readNumber? text) :
    Fails options .alpha (.invalidValue alphaKey text)
  | threshold {text : String} (garbled : options.Garbled thresholdKey readNumber? text) :
    Fails options .threshold (.invalidValue thresholdKey text)
  | model {name : String} (garbled : options.Garbled modelKey readModel? name) :
    Fails options .model (.unknownModel name)
  | leader {name : String} (garbled : GarbledLeader options name) :
    Fails options .leader (.unknownPolicy name)
  | alphaRange {alpha : Float} (said : options.Says alphaKey readNumber? 0.003 alpha)
    (outside : ¬IsRate alpha) : Fails options .alphaRange (.outOfRange alphaKey alpha)
  | thresholdRange {threshold : Float}
    (said : options.Says thresholdKey readNumber? 0.1 threshold)
    (outside : ¬IsThreshold threshold) :
    Fails options .thresholdRange (.outOfRange thresholdKey threshold)

/-- A failure of a check that comes after no check that fails. -/
def FailsFirst (options : Options) (failure : ConfigError Float) : Prop :=
  ∃ check, Fails options check failure ∧
    ∀ earlier : Check, earlier.place < check.place → ∀ other, ¬Fails options earlier other

/-- A check fails in one way only. -/
theorem Fails.eq {check : Check} {other : ConfigError Float} (h : Fails options check failure)
    (h' : Fails options check other) : failure = other := by
  cases h with
  | initialTheta garbled => cases h' with | initialTheta again => rw [garbled.eq again]
  | alpha garbled => cases h' with | alpha again => rw [garbled.eq again]
  | threshold garbled => cases h' with | threshold again => rw [garbled.eq again]
  | model garbled => cases h' with | model again => rw [garbled.eq again]
  | leader garbled => cases h' with | leader again => rw [garbled.2.eq again.2]
  | alphaRange said => cases h' with | alphaRange again => rw [said.eq again]
  | thresholdRange said => cases h' with | thresholdRange again => rw [said.eq again]

theorem FailsFirst.eq {other : ConfigError Float} (h : FailsFirst options failure)
    (h' : FailsFirst options other) : failure = other := by
  obtain ⟨check, fails, first⟩ := h
  obtain ⟨check', fails', first'⟩ := h'
  rcases Nat.lt_trichotomy check.place check'.place with before | same | after
  · exact absurd fails (first' check before failure)
  · obtain rfl := Check.place_injective same
    exact fails.eq fails'
  · exact absurd fails' (first check' after other)

/-- Where the options say something, and it is in range, no check fails. -/
theorem Said.not_fails (said : Said options config) (rate : IsRate config.alpha)
    (threshold : IsThreshold config.threshold) (check : Check) (failure : ConfigError Float) :
    ¬Fails options check failure := by
  rintro (garbled | garbled | garbled | garbled | garbled | ⟨again, outside⟩ | ⟨again, outside⟩)
  · obtain ⟨n, initialTheta, -⟩ := said.initialTheta
    exact initialTheta.not_garbled _ garbled
  · exact said.alpha.not_garbled _ garbled
  · exact said.threshold.not_garbled _ garbled
  · exact said.model.not_garbled _ garbled
  · exact said.leader.not_garbled _ garbled
  · exact outside (said.alpha.eq again ▸ rate)
  · exact outside (said.threshold.eq again ▸ threshold)

/-! ### Reading all options -/

/-- **When there are settings, and which.** -/
theorem ofOptions_eq_ok_iff : ofOptions options = .ok config ↔
    Said options config ∧ IsRate config.alpha ∧ IsThreshold config.threshold := by
  simp only [ofOptions, bind_eq_ok_iff, Options.getInt, Options.getFloat,
    Options.getWith_eq_ok_iff, modelOf_eq_ok_iff, leaderOf_eq_ok_iff, validate_eq_ok_iff]
  constructor
  · rintro ⟨n, initialTheta, alpha, rate, threshold, low, model, named, leader, leads, range, rfl⟩
    exact ⟨⟨⟨n, initialTheta, rfl⟩, rate, low, named, leads⟩, range⟩
  · rintro ⟨⟨⟨n, initialTheta, start⟩, rate, low, named, leads⟩, range⟩
    refine ⟨n, initialTheta, _, rate, _, low, _, named, _, leads, range, ?_⟩
    rw [← start]

/-- All checks before this place pass. -/
def PassesUpTo (options : Options) (place : Nat) : Prop :=
  ∀ check : Check, check.place < place → ∀ failure, ¬Fails options check failure

theorem PassesUpTo.next {check : Check} (h : PassesUpTo options check.place)
    (passes : ∀ failure, ¬Fails options check failure) :
    PassesUpTo options (check.place + 1) := by
  intro other before
  rcases Nat.lt_succ_iff_lt_or_eq.mp before with before | same
  · exact h other before
  · rwa [Check.place_injective same]

/-- **Reading stops at the first check that fails.** -/
theorem failsFirst_of_ofOptions (h : ofOptions options = .error failure) :
    FailsFirst options failure := by
  simp only [ofOptions, bind_eq_error_iff, Options.getInt, Options.getFloat,
    Options.getWith_eq_ok_iff, Options.getWith_eq_error_iff, modelOf_eq_ok_iff,
    modelOf_eq_error_iff, leaderOf_eq_ok_iff, leaderOf_eq_error_iff, validate_eq_error_iff] at h
  -- check by check: it fails, and is the first to do so, or it has been passed as well
  have passed : PassesUpTo options Check.initialTheta.place := fun _ before => by cases before
  rcases h with ⟨text, garbled, rfl⟩ | ⟨n, initialTheta, h⟩
  · exact ⟨.initialTheta, .initialTheta garbled, passed⟩
  replace passed : PassesUpTo options Check.alpha.place := passed.next fun _ fails => by
    cases fails with | initialTheta garbled => exact initialTheta.not_garbled _ garbled
  rcases h with ⟨text, garbled, rfl⟩ | ⟨alpha, rate, h⟩
  · exact ⟨.alpha, .alpha garbled, passed⟩
  replace passed : PassesUpTo options Check.threshold.place := passed.next fun _ fails => by
    cases fails with | alpha garbled => exact rate.not_garbled _ garbled
  rcases h with ⟨text, garbled, rfl⟩ | ⟨threshold, low, h⟩
  · exact ⟨.threshold, .threshold garbled, passed⟩
  replace passed : PassesUpTo options Check.model.place := passed.next fun _ fails => by
    cases fails with | threshold garbled => exact low.not_garbled _ garbled
  rcases h with ⟨name, garbled, rfl⟩ | ⟨model, named, h⟩
  · exact ⟨.model, .model garbled, passed⟩
  replace passed : PassesUpTo options Check.leader.place := passed.next fun _ fails => by
    cases fails with | model garbled => exact named.not_garbled _ garbled
  rcases h with ⟨name, garbled, rfl⟩ | ⟨leader, leads, h⟩
  · exact ⟨.leader, .leader garbled, passed⟩
  replace passed : PassesUpTo options Check.alphaRange.place := passed.next fun _ fails => by
    cases fails with | leader garbled => exact leads.not_garbled _ garbled
  rcases h with ⟨outside, rfl⟩ | ⟨inside, outside, rfl⟩
  · exact ⟨.alphaRange, .alphaRange rate outside, passed⟩
  replace passed : PassesUpTo options Check.thresholdRange.place := passed.next fun _ fails => by
    cases fails with | alphaRange again outside => exact outside (rate.eq again ▸ inside)
  exact ⟨.thresholdRange, .thresholdRange low outside, passed⟩

/-- **Why there are no settings**: the first check that fails. -/
theorem ofOptions_eq_error_iff :
    ofOptions options = .error failure ↔ FailsFirst options failure := by
  refine ⟨failsFirst_of_ofOptions, fun first => ?_⟩
  cases h : ofOptions options with
  | error other => rw [(failsFirst_of_ofOptions h).eq first]
  | ok config =>
    obtain ⟨said, rate, threshold⟩ := ofOptions_eq_ok_iff.mp h
    obtain ⟨check, fails, -⟩ := first
    exact absurd fails (said.not_fails rate threshold check failure)

/-- **There are settings exactly if no check fails.** -/
theorem exists_ofOptions_iff : (∃ config, ofOptions options = .ok config) ↔
    ∀ check failure, ¬Fails options check failure := by
  constructor
  · rintro ⟨config, h⟩
    obtain ⟨said, rate, threshold⟩ := ofOptions_eq_ok_iff.mp h
    exact said.not_fails rate threshold
  · intro none
    cases h : ofOptions options with
    | ok config => exact ⟨config, rfl⟩
    | error failure =>
      obtain ⟨check, fails, -⟩ := failsFirst_of_ofOptions h
      exact absurd fails (none check failure)

/-- The options that are looked at. -/
def keys : List String :=
  [initialThetaKey, alphaKey, thresholdKey, modelKey, policyKey, leaderKey]

/-- **No other option matters**, and of these six only what they say without blanks around it. -/
theorem ofOptions_congr {other : Options} (h : ∀ key ∈ keys, other.get? key = options.get? key) :
    ofOptions other = ofOptions options := by
  simp only [keys, List.forall_mem_cons] at h
  obtain ⟨initialTheta, alpha, threshold, model, policy, leader, -⟩ := h
  simp only [ofOptions, Options.getInt, Options.getFloat, Options.getWith, modelOf, leaderOf,
    initialTheta, alpha, threshold, model, policy, leader]

end Config

/-- **Setting a peer to train fails** where there are no settings or nobody is elected. -/
theorem Trainer.setUp_eq_error_iff {options : Options} {seat : Seat}
    {failure : TrainingError Float} : setUp options seat = .error failure ↔
      ∃ cause, failure = .config cause ∧ (Config.ofOptions options = .error cause ∨
        ∃ config, Config.ofOptions options = .ok config ∧
          config.leader.elect seat.peers = .error cause) := by
  unfold setUp
  cases h : Config.ofOptions options with
  | error cause =>
    simp [Except.mapError, bind, Except.bind, eq_comm]
  | ok config =>
    have valid : config.validate = .ok config :=
      Config.validate_eq_ok_iff.mpr ⟨(Config.ofOptions_eq_ok_iff.mp h).2, rfl⟩
    cases elected : config.leader.elect (F := Float) seat.peers with
    | error cause =>
      simp [Except.mapError, bind, Except.bind, enlist_eq_error _ valid elected, elected, eq_comm]
    | ok leader =>
      simp [Except.mapError, bind, Except.bind, enlist_eq _ valid elected, elected]

/-- **What the options of a job come to.** -/
structure Options.Settled (options : Options) : Prop where
  settings : ∀ config, Config.ofOptions options = .ok config ↔
    Config.Said options config ∧ Config.IsRate config.alpha ∧ Config.IsThreshold config.threshold
  accepted : (∃ config, Config.ofOptions options = .ok config) ↔
    ∀ check failure, ¬Config.Fails options check failure
  refused : ∀ failure, Config.ofOptions options = .error failure ↔
    Config.FailsFirst options failure
  /-- What was read passes the check for what was put together by hand. -/
  checked : ∀ config, Config.ofOptions options = .ok config → config.validate = .ok config
  setUp : ∀ seat failure, Trainer.setUp options seat = .error failure ↔
    ∃ cause, failure = .config cause ∧ (Config.ofOptions options = .error cause ∨
      ∃ config, Config.ofOptions options = .ok config ∧
        config.leader.elect seat.peers = .error cause)
  /-- Other options, and blanks, make no difference. -/
  alike : ∀ other : Options, (∀ key ∈ Config.keys, other.get? key = options.get? key) →
    Config.ofOptions other = Config.ofOptions options

/-- **Options are read as they should be**, whatever they are. -/
theorem Options.config_settled (options : Options) : options.Settled where
  settings _ := Config.ofOptions_eq_ok_iff
  accepted := Config.exists_ofOptions_iff
  refused _ := Config.ofOptions_eq_error_iff
  checked _ h := Config.validate_eq_ok_iff.mpr ⟨(Config.ofOptions_eq_ok_iff.mp h).2, rfl⟩
  setUp _ _ := Trainer.setUp_eq_error_iff
  alike _ := Config.ofOptions_congr

/-- Options with blanks around a learning rate, a leader and a policy that there is not, and a
threshold that is a number but undefined. -/
def Options.undefinedThreshold : Options :=
  .ofList [("leader.policy", "largest"), ("leader.peer", " b\n"), ("alpha", " 0.5 "),
    ("threshold", "NaN")]

/-- The policy is not looked at, and the threshold is out of range. -/
theorem Options.config_settled_undefinedThreshold :
    Config.ofOptions undefinedThreshold =
        .error (.outOfRange "threshold" (Float.ofBits 0x7FF8000000000000)) ∧
      Config.FailsFirst undefinedThreshold
        (.outOfRange "threshold" (Float.ofBits 0x7FF8000000000000)) := by
  have refused : Config.ofOptions undefinedThreshold =
      .error (.outOfRange "threshold" (Float.ofBits 0x7FF8000000000000)) := by
    rfl
  exact ⟨refused, ((config_settled undefinedThreshold).refused _).mp refused⟩

end Superstep
