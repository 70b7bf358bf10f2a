import MediaRelay.Room.Outcome
import MediaRelay.Room.State
import MediaRelay.Wire.Datagram

/-!
Feedback. The relay reports to each sender what arrived from it and asks for keyframes when receivers
wait for one; what receivers tell about a stream goes into their downlink, or on to the sender.
-/

namespace MediaRelay.Room

variable {F : Type} [Arithmetic F]

/-- A message of the relay itself, with its next sequence number. -/
def speak (r : Room F) (receiver : ParticipantId) (message : Feedback) : Room F × Option Egress :=
  let header : Header :=
    { version := r.version
      packetType := .feedback
      codec := .none
      flags := .none
      room := r.id
      sender := .relay
      sequence := r.nextSequence
      timestamp := 0
      layer := .base
      dtx := false }
  let egress := match Datagram.ofFeedback header message >>= Datagram.encode with
    | .ok payload => some ⟨r.id, receiver, payload⟩
    | .error _ => none
  ({ r with nextSequence := r.nextSequence + 1 }, egress)

/-- Asks the sender of a stream for a keyframe if one is wanted and the gate lets it pass. -/
def requestKeyframe (r : Room F) (id : StreamId) (now : Time) : Room F × Option Egress :=
  match r.streams.get? id with
  | none => (r, none)
  | some s =>
    if !s.keyframeWanted then (r, none)
    else
      let (keyframes, passed) := r.keyframes.request id now
      if !passed then (r, none)
      else
        let r := { r with keyframes }.setStream id { s with keyframeWanted := false }
        r.speak id.sender ⟨id, .keyframeRequest⟩

/-- Lets a receiver's downlink take something in, adapts its target, and asks for a keyframe if a
switch to another spatial index was staged by it. -/
def adapt (r : Room F) (h : Hysteresis F) (s : Stream F) (link : Downlink F)
    (receiver : ParticipantId) (now : Time) : Room F × Outcome :=
  let (link, pursuit) := link.retarget h s.graph
  let r := r.setStream s.id { s with
    links := s.links.insert receiver link
    keyframeWanted := s.keyframeWanted || pursuit.wantsKeyframe }
  let (r, request) := r.requestKeyframe s.id now
  (r, { Outcome.none with requests := request.toList })

/-- Takes in a feedback datagram of a subscriber. -/
def takeFeedback (r : Room F) (h : Hysteresis F) (d : Datagram) (raw : Bytes) (now : Time) :
    Room F × Except DropReason Outcome :=
  match d.feedback with
  | .error _ => (r, .error .malformed)
  | .ok message =>
    let receiver := d.header.sender
    match r.routing.subscribers.get? message.stream, r.streams.get? message.stream with
    | some subscribers, some s =>
      if !subscribers.contains receiver then (r, .error .notSubscribed)
      else match message.body, s.links.get? receiver with
        | .nack _, _ | .keyframeRequest, _ =>
          (r, .ok { Outcome.none with copies := [⟨r.id, message.stream.sender, raw⟩] })
        | .congestion report, some link =>
          let (r, out) := r.adapt h s (link.onReport report now) receiver now
          (r, .ok out)
        | .receiverEstimate rate, some link =>
          let (r, out) := r.adapt h s (link.onReceiverEstimate rate.toNat now) receiver now
          (r, .ok out)
        | _, none => (r, .error .notSubscribed)
    | _, _ => (r, .error .notNegotiated)

/-- A datagram that the relay sends on its own. -/
inductive Emission
  | report (egress : Egress)
  | request (egress : Egress)
  deriving DecidableEq, Repr

def Emission.egress : Emission → Egress
  | .report e | .request e => e

def Emission.isRequest : Emission → Bool
  | .report _ => false
  | .request _ => true

/-- Reports on a stream's arrivals since the last tick. -/
def reportArrivals (r : Room F) (id : StreamId) (now : Time) : Room F × List Emission :=
  match r.streams.get? id with
  | none => (r, [])
  | some s =>
    match s.uplink.takeReport now with
    | (uplink, none) => (r.setStream id { s with uplink }, [])
    | (uplink, some report) =>
      let (r, egress) := (r.setStream id { s with uplink }).speak id.sender ⟨id, .congestion report⟩
      (r, (egress.map .report).toList)

/-- The periodic work for one stream: a report to the sender, decay and targets of the downlinks, and
a request for a keyframe if one is wanted. -/
def tickStream (r : Room F) (h : Hysteresis F) (now : Time) (id : StreamId) :
    Room F × List Emission :=
  let (r, reports) := r.reportArrivals id now
  let r := { r with streams := r.streams.modify id (·.tickLinks h now) }
  let (r, request) := r.requestKeyframe id now
  (r, reports ++ (request.map .request).toList)

def tickStreams (r : Room F) (h : Hysteresis F) (now : Time) :
    List StreamId → Room F × List Emission
  | [] => (r, [])
  | id :: rest =>
    let (r, first) := r.tickStream h now id
    let (r, others) := tickStreams r h now rest
    (r, first ++ others)

/-- The periodic work for a room. -/
def tick (r : Room F) (h : Hysteresis F) (now : Time) : Room F × List Emission :=
  let (r, emissions) := r.tickStreams h now r.routing.subscribers.keys
  ({ r with keyframes := r.keyframes.cleanup now }, emissions)

end MediaRelay.Room
