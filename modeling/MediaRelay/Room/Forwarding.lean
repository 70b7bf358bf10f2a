import MediaRelay.Room.Outcome
import MediaRelay.Room.State
import MediaRelay.Wire.Datagram

/-!
Forwarding of media. A datagram of a known sender, of a negotiated stream and in its codec goes to
the subscribers byte for byte: audio to those who hear the sender, frames of layered streams to those
whose layer they fit within.
-/

namespace MediaRelay.Room

variable {F : Type} [Arithmetic F]

/-- The copies of a datagram that was spread. -/
def copiesOf (r : Room F) (raw : Bytes) (out : Stream.Spread) : Outcome :=
  { copies := out.sent.map fun receiver => ⟨r.id, receiver, raw⟩
    requests := []
    withheld := out.withheld }

/-- Spreads a packet of a stream and keeps the stream's new state. -/
def spread (r : Room F) (s : Stream F) (raw : Bytes) (receivers : List ParticipantId)
    (step : Downlink F → Downlink F × Fate) : Room F × Outcome :=
  let (s, out) := s.accept step receivers
  (r.setStream s.id s, r.copiesOf raw out)

def forwardAudio (r : Room F) (s : Stream F) (header : Header) (raw : Bytes)
    (receivers : List ParticipantId) (now : Time) : Room F × Outcome :=
  let s := { s with uplink := s.uplink.record header raw.length now }
  let hearing := receivers.filter fun p => (r.hears? p s.id.sender).getD false
  r.spread s raw hearing fun link => link.send header.sequence raw.length now

/-- A packet of a frame. Fresh downlinks get a target, and staged switches take place if the packet
allows it, before the packet is measured against the layer. -/
def forwardFrame (r : Room F) (h : Hysteresis F) (s : Stream F) (header : Header)
    (descriptor : Descriptor) (raw : Bytes) (receivers : List ParticipantId) (now : Time) :
    Room F × Except DropReason Outcome :=
  match s.history.observe header.layer descriptor s.graph with
  | (history, .error _) => (r.setStream s.id { s with history }, .error .dependencyMismatch)
  | (history, .ok seen) =>
    let s := { s with history, uplink := s.uplink.record header raw.length now }
    let (r, out) := r.spread s raw receivers fun link =>
      ((link.aimAt h s.graph).switchAt history seen).offer seen.layer header.sequence raw.length now
    (r, .ok out)

/-- A repair packet, measured against the layer as it is. -/
def forwardRepair (r : Room F) (s : Stream F) (header : Header) (raw : Bytes)
    (receivers : List ParticipantId) (now : Time) : Room F × Outcome :=
  r.spread s raw receivers fun link =>
    link.offer header.layer header.sequence raw.length now

/-- Finds the stream of a media datagram and its receivers. -/
def route (r : Room F) (header : Header) :
    Except DropReason (Stream F × List ParticipantId) := do
  let some kind := header.kind? | throw .malformed
  let some sender := r.routing.members.get? header.sender | throw .unknownSender
  unless sender.role.send.allows kind do throw .roleViolation
  let some subscribers := r.routing.subscribers.get? ⟨header.sender, kind⟩ | throw .notNegotiated
  let some stream := r.streams.get? ⟨header.sender, kind⟩ | throw .notNegotiated
  unless header.codec = stream.graph.codec do throw .codecMismatch
  return (stream, subscribers.keys)

def forward (r : Room F) (h : Hysteresis F) (d : Datagram) (raw : Bytes) (now : Time) :
    Room F × Except DropReason Outcome :=
  match r.route d.header with
  | .error reason => (r, .error reason)
  | .ok (s, receivers) =>
    match d.header.packetType with
    | .audio =>
      let (r, out) := r.forwardAudio s d.header raw receivers now
      (r, .ok out)
    | .video | .screen =>
      match d.descriptor with
      | none => (r, .error .missingDescriptor)
      | some descriptor => r.forwardFrame h s d.header descriptor raw receivers now
    | .fec =>
      let (r, out) := r.forwardRepair s d.header raw receivers now
      (r, .ok out)
    | .feedback => (r, .error .malformed)

end MediaRelay.Room
