import MediaRelay.Estimator
import MediaRelay.Table
import MediaRelay.Wire.Report

/-!
The packets that were really sent on a downlink. Reports from the receiver are read against this
log: packets that were withheld are not in it and never count as lost, and a packet that a report
has settled is taken out.
-/

namespace MediaRelay

structure SentPacket where
  sent : Time
  size : Nat
  deriving DecidableEq, Repr

structure SendLog where
  packets : Table UInt32 SentPacket
  /-- Sequence numbers in the order of their entry, the oldest first. -/
  order : List UInt32
  capacity : Nat
  deriving DecidableEq

namespace SendLog

def empty (capacity : Nat) : SendLog := ⟨∅, [], capacity⟩

def size (log : SendLog) : Nat := log.packets.size

/-- Notes a packet, and forgets the oldest ones beyond the capacity. -/
def record (log : SendLog) (sequence : UInt32) (now : Time) (size : Nat) : SendLog :=
  let order :=
    if log.packets.contains sequence then log.order else log.order ++ [sequence]
  let excess := order.length - log.capacity
  { log with
    packets := (order.take excess).foldl .erase (log.packets.insert sequence ⟨now, size⟩)
    order := order.drop excess }

/-- Settles one entry of a report. -/
def settle (log : SendLog) (epoch : Time) (sequence : UInt32) (arrival : Option Int) :
    SendLog × Option Delivery :=
  match log.packets.get? sequence with
  | none => (log, none)
  | some packet =>
    ({ log with packets := log.packets.erase sequence },
      some {
        sequence, arrival
        sent := Serial.signed64 (Time.since packet.sent epoch)
        size := packet.size })

def settleAll (log : SendLog) (epoch : Time) :
    List (UInt32 × Option Int) → SendLog × List Delivery
  | [] => (log, [])
  | (sequence, arrival) :: rest =>
    let (log, delivery) := log.settle epoch sequence arrival
    let (log, deliveries) := settleAll log epoch rest
    (log, delivery.toList ++ deliveries)

/-- Reads a report: what became of the packets in it that are in the log. -/
def resolve (log : SendLog) (report : Report) (epoch : Time) : SendLog × List Delivery :=
  log.settleAll epoch report.arrivals

end SendLog

end MediaRelay
