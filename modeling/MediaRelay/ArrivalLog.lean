import MediaRelay.Estimator
import MediaRelay.Serial
import MediaRelay.Table
import MediaRelay.Wire.Report

/-!
Arrivals of one stream since the last report on it. Reports follow each other without a gap, unless
more packets than one report holds lie between, in which case the newest are reported.
-/

namespace MediaRelay

structure Arrival where
  time : Nat
  /-- The sender's media time in microseconds. -/
  sent : Int
  size : Nat
  deriving DecidableEq, Repr

/-- Packets are known by their full sequence number. -/
structure ArrivalLog where
  epoch : Time
  highest : Option Nat
  /-- The last timestamp and the media time it stood for. -/
  lastTimestamp : Option (UInt32 × Int)
  /-- Where the next report begins. -/
  nextBase : Option Nat
  pending : Table Nat Arrival
  deriving DecidableEq

namespace ArrivalLog

def empty (epoch : Time) : ArrivalLog := ⟨epoch, none, none, none, ∅⟩

/-- The media time of a timestamp, the one nearest to the last. -/
def mediaTime (last : Option (UInt32 × Int)) (timestamp : UInt32) : Int :=
  match last with
  | none => timestamp.toNat
  | some (low, full) => full + Int.bmod (timestamp.toNat - low.toNat) (Serial.turn 32)

/-- Microseconds of a media time at a clock rate. -/
def micros (media : Int) (clockRate : Nat) : Int := (media * 1000000).tdiv (max clockRate 1)

/-- The product that `micros` divides lies within a signed 64-bit word. -/
def Fits (media : Int) : Prop :=
  -0x8000000000000000 ≤ media * 1000000 ∧ media * 1000000 ≤ 0x7FFFFFFFFFFFFFFF

instance (media : Int) : Decidable (Fits media) := inferInstanceAs (Decidable (_ ∧ _))

/-- Notes a packet. What the last report covered is ignored, and of two packets with one number the
first counts. Media times have no limit here; in machine words they have one (`record?`). -/
def record (log : ArrivalLog) (sequence timestamp : UInt32) (clockRate size : Nat) (now : Time) :
    ArrivalLog :=
  let number := Serial.extend 32 log.highest sequence.toNat
  let log := { log with highest := some (Serial.raise log.highest number) }
  if log.nextBase.any (number < ·) then log
  else
    let media := mediaTime log.lastTimestamp timestamp
    { log with
      lastTimestamp := some (timestamp, media)
      pending := log.pending.insertIfNew number
        { time := Time.since now log.epoch, sent := micros media clockRate, size } }

/-- Notes a packet in signed 64-bit arithmetic, which comes to no result where the media time of the
packet does not fit it. A packet that is ignored has no media time. -/
def record? (log : ArrivalLog) (sequence timestamp : UInt32) (clockRate size : Nat) (now : Time) :
    Option ArrivalLog :=
  let number := Serial.extend 32 log.highest sequence.toNat
  if log.nextBase.any (number < ·) ∨ Fits (mediaTime log.lastTimestamp timestamp) then
    some (log.record sequence timestamp clockRate size now)
  else none

/-- The last media time fits. -/
def fits (log : ArrivalLog) : Bool := log.lastTimestamp.all fun (_, media) => Fits media

/-- What is known of one packet of a report. -/
def delivery (log : ArrivalLog) (number : Nat) : Delivery :=
  let arrival := log.pending.get? number
  { sequence := .ofNat number
    sent := (arrival.map (·.sent)).getD 0
    arrival := arrival.map fun a => Serial.signed64 a.time
    size := (arrival.map (·.size)).getD 0 }

/-- The first and the last number that the next report covers. -/
def range? (log : ArrivalLog) : Option (Nat × Nat) := do
  let (first, _) ← log.pending.first?
  let (last, _) ← log.pending.last?
  let base := min (log.nextBase.getD first) first
  return (if last - base + 1 > Report.maxPackets then last + 1 - Report.maxPackets else base, last)

/-- Closes the period: its report, with the same as deliveries for the relay's own estimate. -/
def takeReport (log : ArrivalLog) : ArrivalLog × Option (Report × List Delivery) :=
  match log.range? with
  | none => (log, none)
  | some (base, last) =>
    let numbers := List.range' base (last + 1 - base)
    let times := numbers.map fun number => (log.pending.get? number).map (·.time)
    ({ log with nextBase := some (last + 1), pending := ∅ },
      some (Report.ofArrivals (.ofNat base) times, numbers.map log.delivery))

end ArrivalLog

end MediaRelay
