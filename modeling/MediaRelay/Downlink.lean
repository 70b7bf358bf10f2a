import MediaRelay.Identity
import MediaRelay.SendLog
import MediaRelay.Target

/-! A downlink carries one stream to one receiver. -/

namespace MediaRelay

structure Downlink (F : Type) where
  receiver : ParticipantId
  estimator : Estimator F
  sent : SendLog
  epoch : Time
  target : Target
  /-- The layer graph that the target refers to. -/
  graphVersion : Nat
  forwarded : Nat
  withheld : Nat
  lastFeedback : Option Time

namespace Downlink

variable {F : Type} [Arithmetic F]

/-- Packets remembered for reports. -/
def memory : Nat := 4096

def start (receiver : ParticipantId) (settings : Estimator.Settings F) (timeout graphVersion : Nat)
    (now : Time) : Downlink F :=
  { receiver
    estimator := .start settings timeout now
    sent := .empty memory
    epoch := now
    target := .none
    graphVersion
    forwarded := 0
    withheld := 0
    lastFeedback := none }

def estimate (d : Downlink F) : Nat := d.estimator.estimate

/-- Targets of an earlier graph mean nothing in a new one. -/
def resetLayers (d : Downlink F) (graphVersion : Nat) : Downlink F :=
  { d with target := .none, graphVersion }

def recordSent (d : Downlink F) (sequence : UInt32) (now : Time) (size : Nat) : Downlink F :=
  { d with sent := d.sent.record sequence now size, forwarded := d.forwarded + 1 }

def recordWithheld (d : Downlink F) : Downlink F := { d with withheld := d.withheld + 1 }

def onReport (d : Downlink F) (report : Report) (now : Time) : Downlink F :=
  let (sent, deliveries) := d.sent.resolve report d.epoch
  { d with sent, lastFeedback := some now, estimator := d.estimator.ingest deliveries now }

def onReceiverEstimate (d : Downlink F) (rate : Nat) (now : Time) : Downlink F :=
  { d with lastFeedback := some now, estimator := d.estimator.adopt rate now }

def tick (d : Downlink F) (now : Time) : Downlink F := { d with estimator := d.estimator.tick now }

/-- Moves the target towards the layer for the present estimate. -/
def retarget (d : Downlink F) (h : Hysteresis F) (g : LayerGraph) : Downlink F × Pursuit :=
  match h.desired g d.estimate d.target.aim with
  | none => (d, ⟨false, false⟩)
  | some layer =>
    let (target, pursuit) := d.target.pursue layer
    ({ d with target }, pursuit)

end Downlink

end MediaRelay
