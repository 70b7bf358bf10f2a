import MediaRelay.Serial
import MediaRelay.Wire.Fault

/-!
Congestion reports: for each packet of a range, whether it arrived and how long after the one before.
`ofArrivals` rounds arrival times to the unit of the wire against the time rebuilt so far, so errors
do not add up; `arrivals` rebuilds the times. On the wire a map of two-bit symbols says how many
bytes each packet's delta takes.
-/

namespace MediaRelay

/-- Deltas are in microseconds; the first one counts from the report's reference time. -/
inductive Status
  | lost
  | received (delta : Int)
  deriving DecidableEq, Repr, Inhabited

structure Report where
  base : UInt32
  referenceMs : UInt32
  statuses : List Status
  deriving DecidableEq, Repr

namespace Status

open Wire (Fault)
open Wire.Word

def isReceived : Status → Bool
  | .lost => false
  | .received _ => true

/-- Microseconds in one step of a delta. -/
def unit : Int := 250

/-- The symbol of a status and the bytes of its delta. -/
def write : Status → Except Fault (Nat × Bytes)
  | .lost => .ok (0, [])
  | .received delta =>
    let steps := delta / unit
    if delta % unit ≠ 0 then .error (.deltaNotAligned delta)
    else if 0 ≤ steps ∧ steps ≤ 255 then .ok (1, [UInt8.ofNat steps.toNat])
    else if -32768 ≤ steps ∧ steps ≤ 32767 then .ok (2, bytes16 steps)
    else .error (.deltaOutOfRange delta)

/-- Reads the delta that a symbol announces. -/
def read (symbol : Nat) (b : Bytes) : Except Fault (Status × Bytes) :=
  match symbol with
  | 0 => .ok (.lost, b)
  | 1 => do
    let (delta, rest) ← Wire.split 1 b
    return (.received (value delta * unit), rest)
  | 2 => do
    let (delta, rest) ← Wire.split 2 b
    return (.received (signed16 (value delta) * unit), rest)
  | _ => .error .invalidPacketStatus

def readAll : List Nat → Bytes → Except Fault (List Status × Bytes)
  | [], b => .ok ([], b)
  | symbol :: symbols, b => do
    let (status, b) ← read symbol b
    let (statuses, b) ← readAll symbols b
    return (status :: statuses, b)

/-- The four symbols in a byte, from the high end. -/
def symbolsOf (b : UInt8) : List Nat :=
  [b.toNat / 64, b.toNat / 16 % 4, b.toNat / 4 % 4, b.toNat % 4]

/-- Four symbols to a byte; the last byte is filled with zeros. -/
def pack : List Nat → Bytes
  | [] => []
  | [a] => [UInt8.ofNat (a * 64)]
  | [a, b] => [UInt8.ofNat (a * 64 + b * 16)]
  | [a, b, c] => [UInt8.ofNat (a * 64 + b * 16 + c * 4)]
  | a :: b :: c :: d :: rest => UInt8.ofNat (a * 64 + b * 16 + c * 4 + d) :: pack rest

/-- The delta to the wire's step nearest to a distance, or the furthest one that can be written. -/
def nearest (distance : Int) : Int :=
  max (-32768) (min 32767 ((distance + unit / 2) / unit)) * unit

/-- Deltas for arrival times, given the time rebuilt so far. -/
def quantize (rebuilt : Int) : List (Option Nat) → List Status
  | [] => []
  | none :: rest => .lost :: quantize rebuilt rest
  | some time :: rest =>
    let delta := nearest (Serial.signed64 time - rebuilt)
    .received delta :: quantize (rebuilt + delta) rest

/-- Arrival times from deltas, with the sequence number of each packet. -/
def rebuild (sequence : UInt32) (now : Int) : List Status → List (UInt32 × Option Int)
  | [] => []
  | .lost :: rest => (sequence, none) :: rebuild (sequence + 1) now rest
  | .received delta :: rest =>
    (sequence, some (now + delta)) :: rebuild (sequence + 1) (now + delta) rest

end Status

namespace Report

open Wire (Fault)
open Wire.Word

/-- The most packets one report covers. -/
def maxPackets : Nat := 8192

def packetCount (r : Report) : Nat := r.statuses.length

def receivedCount (r : Report) : Nat := (r.statuses.filter (·.isReceived)).length

/-- The report on arrival times, given in microseconds for consecutive packets from `base` on. The
first time fixes the reference. -/
def ofArrivals (base : UInt32) (times : List (Option Nat)) : Report :=
  let referenceMs := (times.findSome? id).getD 0 / 1000
  { base
    referenceMs := .ofNat referenceMs
    statuses := Status.quantize (Serial.signed64 ↑(referenceMs * 1000)) (times.take maxPackets) }

def arrivals (r : Report) : List (UInt32 × Option Int) :=
  Status.rebuild r.base (r.referenceMs.toNat * 1000) r.statuses

def decode : Bytes → Except Fault (Report × Bytes)
  | b₁ :: b₂ :: b₃ :: b₄ :: n₁ :: n₂ :: n₃ :: n₄ :: m₁ :: m₂ :: m₃ :: m₄ :: rest => do
    let count := value [n₁, n₂, n₃, n₄]
    if count > maxPackets then throw (.reportTooLarge count)
    let (bitmap, rest) ← Wire.split ((2 * count + 7) / 8) rest
    let symbols := bitmap.flatMap Status.symbolsOf
    unless (symbols.drop count).all (· == 0) do throw (.reservedBits .bitmapPadding)
    let (statuses, rest) ← Status.readAll (symbols.take count) rest
    return ({
      base := .ofNat (value [b₁, b₂, b₃, b₄])
      referenceMs := .ofNat (value [m₁, m₂, m₃, m₄])
      statuses }, rest)
  | short => .error (.truncated 12 short.length)

def encode (r : Report) : Except Fault Bytes := do
  if r.packetCount > maxPackets then throw (.reportTooLarge r.packetCount)
  let written ← r.statuses.mapM Status.write
  return bytes 4 r.base.toNat ++ bytes 4 r.packetCount ++ bytes 4 r.referenceMs.toNat ++
    Status.pack (written.map (·.1)) ++ written.flatMap (·.2)

end Report

end MediaRelay
