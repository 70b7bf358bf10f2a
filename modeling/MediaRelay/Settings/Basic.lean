import MediaRelay.Estimator
import MediaRelay.Target

/-!
The settings of a relay. `Settings.check` says which of them it can run with: times that are not
zero, an initial rate between floor and ceiling, and factors and margins in `[0, 1)`.
-/

namespace MediaRelay

/-- Times are in milliseconds. -/
structure Settings (F : Type) where
  bindAddress : String
  mediaBindAddress : String
  maxRooms : Nat
  maxParticipants : Nat
  maxStreams : Nat
  feedbackIntervalMs : Nat
  feedbackTimeoutMs : Nat
  participantTimeoutMs : Nat
  keyframeIntervalMs : Nat
  /-- Without a number there is a worker for each processor. -/
  workers : Option Nat
  queueDepth : Nat
  estimator : Estimator.Settings F
  hysteresis : Hysteresis F

namespace Settings

open Arithmetic

variable {F : Type} [Arithmetic F]

inductive Fault
  | timeoutZero
  | intervalZero
  | floorAboveCeiling
  | initialOutside
  | factorOutside (name : String)
  | overuseNotPositive
  | marginOutside
  deriving DecidableEq, Repr

def Fault.message : Fault → String
  | .timeoutZero => "RELAY_FEEDBACK_TIMEOUT_MS must be positive"
  | .intervalZero => "RELAY_FEEDBACK_INTERVAL_MS must be positive"
  | .floorAboveCeiling => "RELAY_BWE_FLOOR_BPS must not exceed RELAY_BWE_CEILING_BPS"
  | .initialOutside => "RELAY_BWE_INITIAL_BPS must lie between floor and ceiling"
  | .factorOutside name => s!"{name} must be in [0, 1)"
  | .overuseNotPositive => "RELAY_BWE_OVERUSE_MS must be positive"
  | .marginOutside => "hysteresis margins must be in [0, 1)"

def checkFactor (name : String) (x : F) : Except Fault Unit :=
  if isFraction x then .ok () else .error (.factorOutside name)

def checkEstimator (e : Estimator.Settings F) : Except Fault Unit := do
  if e.ceiling < e.floor then throw .floorAboveCeiling
  if e.initial < e.floor || e.ceiling < e.initial then throw .initialOutside
  checkFactor "RELAY_BWE_DECREASE_FACTOR" e.decreaseFactor
  checkFactor "RELAY_BWE_DECAY_FACTOR" e.decayFactor
  checkFactor "RELAY_BWE_SMOOTHING" e.smoothing
  if atMost e.overuseMs (ofNat 0) then throw .overuseNotPositive

def checkHysteresis (h : Hysteresis F) : Except Fault Unit :=
  if isFraction h.up && isFraction h.down then .ok () else .error .marginOutside

/-- The first thing that is wrong with the settings. -/
def check (s : Settings F) : Except Fault Unit := do
  if s.feedbackTimeoutMs = 0 then throw .timeoutZero
  if s.feedbackIntervalMs = 0 then throw .intervalZero
  checkEstimator s.estimator
  checkHysteresis s.hysteresis

def standardEstimator : Estimator.Settings F :=
  { floor := 50000
    ceiling := 20000000
    initial := 300000
    increase := 50000
    decreaseFactor := ratio 85 100
    decayFactor := ratio 1 2
    overuseMs := ofNat 2
    smoothing := ratio 6 10 }

def noHysteresis : Hysteresis F := ⟨ofNat 0, ofNat 0⟩

/-- A small relay on one machine. -/
def small : Settings F :=
  { bindAddress := "127.0.0.1:0"
    mediaBindAddress := "127.0.0.1:0"
    maxRooms := 16
    maxParticipants := 8
    maxStreams := 16
    feedbackIntervalMs := 100
    feedbackTimeoutMs := 500
    participantTimeoutMs := 10000
    keyframeIntervalMs := 500
    workers := some 2
    queueDepth := 64
    estimator := standardEstimator
    hysteresis := noHysteresis }

end Settings

end MediaRelay
