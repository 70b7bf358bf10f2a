import MediaRelay.Wire.Descriptor
import MediaRelay.Wire.Feedback
import MediaRelay.Wire.Header

/-! Datagrams: a header, a dependency descriptor if the header announces one, and a payload. -/

namespace MediaRelay

structure Datagram where
  header : Header
  descriptor : Option Descriptor
  payload : Bytes
  deriving DecidableEq, Repr

namespace Datagram

open Wire (Fault)

def encodedSize (d : Datagram) : Nat :=
  Header.size + (d.descriptor.map Descriptor.encodedSize).getD 0 + d.payload.length

def decode (b : Bytes) : Except Fault Datagram := do
  let (header, rest) ← Header.decode b
  if header.flags.hasDescriptor then
    unless header.packetType.allowsDescriptor do throw (.descriptorNotAllowed header.packetType)
    let (descriptor, payload) ← Descriptor.decode rest
    return { header, descriptor := some descriptor, payload }
  else
    return { header, descriptor := none, payload := rest }

def encode (d : Datagram) : Except Fault Bytes := do
  if d.header.flags.hasDescriptor != d.descriptor.isSome then throw .descriptorMismatch
  if d.descriptor.isSome && !d.header.packetType.allowsDescriptor then
    throw (.descriptorNotAllowed d.header.packetType)
  let header ← d.header.encode
  let descriptor ← match d.descriptor with
    | none => pure []
    | some descriptor => descriptor.encode
  return header ++ descriptor ++ d.payload

/-- The message in a feedback datagram. -/
def feedback (d : Datagram) : Except Fault Feedback :=
  if d.header.packetType = .feedback then Feedback.decode d.payload
  else .error (.notFeedback d.header.packetType)

/-- A datagram that carries a message under the identity of a header. -/
def ofFeedback (header : Header) (message : Feedback) : Except Fault Datagram := do
  let payload ← message.encode
  return { header := { header with packetType := .feedback, flags := .none }
           descriptor := none, payload }

end Datagram

end MediaRelay
