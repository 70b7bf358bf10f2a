import MediaRelay.Settings.Basic
import MediaRelay.Text.Number

/-!
Settings from the environment. Only the feedback timeout is required; any other variable that is
missing or cannot be read leaves the standard value.
-/

namespace MediaRelay.Settings

abbrev Environment := String → Option String

inductive EnvironmentFault
  | timeoutUnset
  | timeoutUnreadable (fault : Text.NumberFault)
  | unusable (fault : Fault)
  deriving DecidableEq, Repr

def EnvironmentFault.message : EnvironmentFault → String
  | .timeoutUnset => "RELAY_FEEDBACK_TIMEOUT_MS must be set: environment variable not found"
  | .timeoutUnreadable fault =>
    s!"RELAY_FEEDBACK_TIMEOUT_MS must be a number of milliseconds: {fault.message}"
  | .unusable fault => fault.message

namespace Environment

/-- The largest number that a setting takes. -/
def maxNumber : Nat := 0xFFFFFFFFFFFFFFFF

def number? (env : Environment) (name : String) : Option Nat :=
  (env name).bind fun text => (Text.whole maxNumber text.toList).toOption

def number (env : Environment) (name : String) (standard : Nat) : Nat :=
  (env.number? name).getD standard

def double (env : Environment) (name : String) (standard : Float) : Float :=
  ((env name).bind fun text => Text.double? text.toList).getD standard

def estimator (env : Environment) : Estimator.Settings Float :=
  let standard : Estimator.Settings Float := standardEstimator
  { floor := env.number "RELAY_BWE_FLOOR_BPS" standard.floor
    ceiling := env.number "RELAY_BWE_CEILING_BPS" standard.ceiling
    initial := env.number "RELAY_BWE_INITIAL_BPS" standard.initial
    increase := env.number "RELAY_BWE_INCREASE_BPS" standard.increase
    decreaseFactor := env.double "RELAY_BWE_DECREASE_FACTOR" standard.decreaseFactor
    decayFactor := env.double "RELAY_BWE_DECAY_FACTOR" standard.decayFactor
    overuseMs := env.double "RELAY_BWE_OVERUSE_MS" standard.overuseMs
    smoothing := env.double "RELAY_BWE_SMOOTHING" standard.smoothing }

def timeout (env : Environment) : Except EnvironmentFault Nat :=
  match env "RELAY_FEEDBACK_TIMEOUT_MS" with
  | none => .error .timeoutUnset
  | some text => (Text.whole maxNumber text.toList).mapError .timeoutUnreadable

end Environment

def ofEnvironment (env : Environment) : Except EnvironmentFault (Settings Float) := do
  let feedbackTimeoutMs ← env.timeout
  let settings : Settings Float :=
    { bindAddress := (env "BIND_ADDRESS").getD "0.0.0.0:8080"
      mediaBindAddress := (env "MEDIA_BIND_ADDRESS").getD "0.0.0.0:7000"
      maxRooms := env.number "RELAY_MAX_ROOMS" 1000
      maxParticipants := env.number "RELAY_MAX_PARTICIPANTS" 25
      maxStreams := env.number "RELAY_MAX_STREAMS" 75
      feedbackIntervalMs := env.number "RELAY_FEEDBACK_INTERVAL_MS" 100
      feedbackTimeoutMs
      participantTimeoutMs := env.number "RELAY_PARTICIPANT_TIMEOUT_MS" 10000
      keyframeIntervalMs := env.number "RELAY_KEYFRAME_INTERVAL_MS" 500
      workers := (env.number? "RELAY_WORKERS").map (max · 1)
      queueDepth := max (env.number "RELAY_QUEUE_DEPTH" 1024) 1
      estimator := env.estimator
      hysteresis :=
        { up := env.double "RELAY_HYSTERESIS_UP" 0
          down := env.double "RELAY_HYSTERESIS_DOWN" 0 } }
  settings.check.mapError .unusable
  return settings

end MediaRelay.Settings
