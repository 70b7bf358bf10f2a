import MediaRelay.Refusal
import MediaRelay.Room.State

/-!
Signaling in a room: joining and leaving, negotiating streams, subscribing to them, and muting. Every
operation gives the room after it together with its answer, also when it is refused.
-/

namespace MediaRelay.Room

variable {F : Type} [Arithmetic F]

def join (r : Room F) (participant : ParticipantId) (role : Role) (version : UInt8) (now : Time) :
    Room F × Except Refusal Unit :=
  if r.closed then (r, .error .roomClosed)
  else if version ≠ r.version then (r, .error (.versionMismatch r.version version))
  else if r.members.contains participant then (r, .error (.alreadyJoined participant))
  else if r.terms.maxParticipants ≤ r.members.size then
    (r, .error (.roomFull r.terms.maxParticipants))
  else
    (publish { r with
      members := r.members.insert participant (.ofRole role)
      presence := r.presence.insert participant ⟨none, now⟩ }, .ok ())

/-- Subscriptions without those of a participant and those to its streams. -/
def withdraw (participant : ParticipantId) (subscriptions : Table StreamId (KeySet ParticipantId)) :
    Table StreamId (KeySet ParticipantId) :=
  (subscriptions.map fun _ receivers => receivers.erase participant).filter fun id receivers =>
    id.sender ≠ participant && !receivers.isEmpty

/-- Takes a participant out with all its streams, subscriptions and downlinks. The answer says
whether the room is empty, and thereby closed for good. -/
def leave (r : Room F) (participant : ParticipantId) : Room F × Except Refusal Bool :=
  if !r.members.contains participant then (r, .error (.participantNotFound participant))
  else
    let own := (r.streams.filter fun id _ => id.sender == participant).keys
    let members := (r.members.erase participant).map fun _ m =>
      { m with muted := m.muted.erase participant }
    let kept := r.streams.filter fun id _ => id.sender ≠ participant
    (publish { r with
      members
      presence := r.presence.erase participant
      streams := kept.map fun _ s => s.dropLink participant
      subscriptions := withdraw participant r.subscriptions
      keyframes := own.foldl .forget r.keyframes
      closed := members.isEmpty }, .ok members.isEmpty)

/-- A new stream, with a downlink for each receiver that waits for it. -/
def newStream (r : Room F) (id : StreamId) (graph : LayerGraph) (now : Time) : Stream F :=
  (r.receivers id).keys.foldl
    (fun s receiver => s.addLink r.terms.estimator r.terms.feedbackTimeout now receiver)
    (.start id graph r.terms.estimator r.terms.feedbackTimeout now)

/-- Creates a stream or gives it a new layer graph. The answer is the graph's version. -/
def negotiate (r : Room F) (sender : ParticipantId) (kind : Kind) (offer : Offer) (now : Time) :
    Room F × Except Refusal Nat :=
  let id : StreamId := ⟨sender, kind⟩
  if r.closed then (r, .error .roomClosed)
  else match r.members.get? sender with
    | none => (r, .error (.participantNotFound sender))
    | some member =>
      if !member.role.send.allows kind then
        (r, .error (.roleViolation "participant may not send this kind"))
      else if !r.streams.contains id && r.terms.maxStreams ≤ r.streams.size then
        (r, .error (.streamLimitReached r.terms.maxStreams))
      else
        let version := r.graphVersions + 1
        match LayerGraph.ofOffer kind offer version with
        | .error fault => (r, .error (.invalidNegotiation fault.message))
        | .ok graph =>
          let r := { r with graphVersions := version }
          match r.streams.get? id with
          | some s => (r.setStream id (s.renegotiate graph), .ok version)
          | none => (publish (r.setStream id (r.newStream id graph now)), .ok version)

/-- Subscribes to a stream, which need not be negotiated yet. -/
def subscribe (r : Room F) (receiver : ParticipantId) (stream : StreamId) (now : Time) :
    Room F × Except Refusal Unit :=
  if r.closed then (r, .error .roomClosed)
  else if receiver = stream.sender then
    (r, .error (.invalidRequest "participants cannot subscribe to their own streams"))
  else match r.members.get? receiver, r.members.get? stream.sender with
    | none, _ => (r, .error (.participantNotFound receiver))
    | _, none => (r, .error (.participantNotFound stream.sender))
    | some listener, some source =>
      if !listener.role.receive.allows stream.kind then
        (r, .error (.roleViolation "participant may not receive this kind"))
      else if !source.role.send.allows stream.kind then
        (r, .error (.roleViolation "sender may not send this kind"))
      else if (r.receivers stream).contains receiver then (r, .ok ())
      else
        let r := { r with
          subscriptions := r.subscriptions.insert stream ((r.receivers stream).insert receiver ()) }
        let r := match r.streams.get? stream with
          | some s =>
            r.setStream stream (s.addLink r.terms.estimator r.terms.feedbackTimeout now receiver)
          | none => r
        (r.publish, .ok ())

def unsubscribe (r : Room F) (receiver : ParticipantId) (stream : StreamId) :
    Room F × Except Refusal Unit :=
  if !r.subscriptions.contains stream && !r.streams.contains stream then
    (r, .error (.streamNotFound stream))
  else if !(r.receivers stream).contains receiver then
    (r, .error (.invalidRequest
      s!"participant {receiver.text} is not subscribed to {stream.text}"))
  else
    let left := (r.receivers stream).erase receiver
    (publish { r with
      subscriptions :=
        if left.isEmpty then r.subscriptions.erase stream else r.subscriptions.insert stream left
      streams := r.streams.modify stream (·.dropLink receiver) }, .ok ())

/-- Sets whether one participant hears another. -/
def setMuted (r : Room F) (receiver sender : ParticipantId) (muted : Bool) :
    Room F × Except Refusal Unit :=
  if !r.members.contains sender then (r, .error (.participantNotFound sender))
  else match r.members.get? receiver with
    | none => (r, .error (.participantNotFound receiver))
    | some m =>
      let set := if muted then m.muted.insert sender () else m.muted.erase sender
      (publish { r with members := r.members.insert receiver { m with muted := set } }, .ok ())

def setDeafened (r : Room F) (participant : ParticipantId) (deafened : Bool) :
    Room F × Except Refusal Unit :=
  match r.members.get? participant with
  | none => (r, .error (.participantNotFound participant))
  | some m => (publish { r with members := r.members.insert participant { m with deafened } }, .ok ())

end MediaRelay.Room
