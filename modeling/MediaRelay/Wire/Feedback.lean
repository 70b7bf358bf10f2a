import MediaRelay.Identity
import MediaRelay.Wire.Report

/-! Feedback messages: what a receiver, or the relay, tells about a stream. -/

namespace MediaRelay

namespace Feedback

inductive Body
  | congestion (report : Report)
  | nack (sequences : List UInt32)
  | keyframeRequest
  /-- The receiver's own estimate, in bits per second. -/
  | receiverEstimate (rate : UInt64)
  deriving DecidableEq, Repr

end Feedback

structure Feedback where
  stream : StreamId
  body : Feedback.Body
  deriving DecidableEq, Repr

namespace Feedback

open Wire (Fault)
open Wire.Word

/-- The most packets one list of missing packets names. -/
def maxNack : Nat := 65535

def Body.tag : Body → UInt8
  | .congestion _ => 0
  | .nack _ => 1
  | .keyframeRequest => 2
  | .receiverEstimate _ => 3

def Body.decode (tag : UInt8) (b : Bytes) : Except Fault (Body × Bytes) :=
  match tag with
  | 0 => do
    let (report, rest) ← Report.decode b
    return (.congestion report, rest)
  | 1 => do
    let (count, rest) ← Wire.split 2 b
    let (sequences, rest) ← Wire.split (4 * value count) rest
    return (.nack (u32s sequences), rest)
  | 2 => .ok (.keyframeRequest, b)
  | 3 => do
    let (rate, rest) ← Wire.split 8 b
    return (.receiverEstimate (.ofNat (value rate)), rest)
  | tag => .error (.unknownFeedbackTag tag)

def Body.encode : Body → Except Fault Bytes
  | .congestion report => report.encode
  | .nack sequences =>
    if sequences.length > maxNack then .error (.reportTooLarge sequences.length)
    else .ok (bytes 2 sequences.length ++ sequences.flatMap (bytes 4 ·.toNat))
  | .keyframeRequest => .ok []
  | .receiverEstimate rate => .ok (bytes 8 rate.toNat)

/-- Reads one message that fills the bytes. -/
def decode : Bytes → Except Fault Feedback
  | tag :: s₁ :: s₂ :: s₃ :: s₄ :: kind :: rest => do
    let some kind' := Kind.ofCode? kind | throw (.unknownStreamKind kind)
    let (body, rest) ← Body.decode tag rest
    unless rest.isEmpty do throw (.trailingBytes rest.length)
    return { stream := ⟨⟨.ofNat (value [s₁, s₂, s₃, s₄])⟩, kind'⟩, body }
  | short => .error (.truncated 6 short.length)

def encode (m : Feedback) : Except Fault Bytes := do
  let body ← m.body.encode
  return [m.body.tag] ++ bytes 4 m.stream.sender.number.toNat ++ [m.stream.kind.code] ++ body

end Feedback

end MediaRelay
