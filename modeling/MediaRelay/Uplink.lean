import MediaRelay.ArrivalLog
import MediaRelay.Wire.Header

/-! The relay's side of a sender's path: what arrived, and what rate that speaks for. -/

namespace MediaRelay

structure Uplink (F : Type) where
  arrivals : ArrivalLog
  estimator : Estimator F

namespace Uplink

variable {F : Type} [Arithmetic F]

def start (settings : Estimator.Settings F) (timeout : Nat) (now : Time) : Uplink F :=
  ⟨.empty now, .start settings timeout now⟩

def estimate (u : Uplink F) : Nat := u.estimator.estimate

def record (u : Uplink F) (h : Header) (size : Nat) (now : Time) : Uplink F :=
  { u with arrivals := u.arrivals.record h.sequence h.timestamp h.codec.clockRate size now }

/-- A packet whose media time does not fit is not noted, and nothing comes after it. -/
def record? (u : Uplink F) (h : Header) (size : Nat) (now : Time) : Option (Uplink F) :=
  (u.arrivals.record? h.sequence h.timestamp h.codec.clockRate size now).map fun arrivals =>
    { u with arrivals }

/-- The report on what arrived since the last one. The relay's own estimate takes it in, or, if
nothing arrived, decays. -/
def takeReport (u : Uplink F) (now : Time) : Uplink F × Option Report :=
  match u.arrivals.takeReport with
  | (arrivals, none) => (⟨arrivals, u.estimator.tick now⟩, none)
  | (arrivals, some (report, deliveries)) =>
    (⟨arrivals, u.estimator.ingest deliveries now⟩, some report)

end Uplink

end MediaRelay
