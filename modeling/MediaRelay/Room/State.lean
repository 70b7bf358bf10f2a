import MediaRelay.Endpoint
import MediaRelay.KeyframeGate
import MediaRelay.Stream

/-!
The state of a room. Members, subscriptions and streams are changed by signaling; the routing table
is the view of them that datagrams are handled by, and `publish` makes it anew.
-/

namespace MediaRelay

/-- What a participant may send and receive. -/
structure Role where
  send : KindSet
  receive : KindSet
  deriving DecidableEq, Repr

def Role.all : Role := ⟨.all, .all⟩

structure Member where
  role : Role
  /-- Hears nobody. -/
  deafened : Bool
  /-- Those not heard. -/
  muted : KeySet ParticipantId
  deriving DecidableEq

def Member.ofRole (role : Role) : Member := ⟨role, false, ∅⟩

def Member.hears (m : Member) (sender : ParticipantId) : Bool :=
  !m.deafened && !m.muted.contains sender

/-- Where a participant was last heard from, and when. -/
structure Presence where
  address : Option Endpoint
  lastSeen : Time
  deriving DecidableEq

structure Routing where
  /-- The receivers of each negotiated stream. -/
  subscribers : Table StreamId (KeySet ParticipantId)
  members : Table ParticipantId Member
  deriving DecidableEq

/-- What all rooms of a relay have in common. Times are in microseconds. -/
structure Room.Terms (F : Type) where
  maxParticipants : Nat
  maxStreams : Nat
  estimator : Estimator.Settings F
  feedbackTimeout : Nat
  keyframeInterval : Nat

structure Room (F : Type) where
  id : RoomId
  version : UInt8
  terms : Room.Terms F
  closed : Bool
  members : Table ParticipantId Member
  /-- The receivers of each stream, whether it is negotiated yet or not. -/
  subscriptions : Table StreamId (KeySet ParticipantId)
  streams : Table StreamId (Stream F)
  /-- The version of the layer graph negotiated last. -/
  graphVersions : Nat
  routing : Routing
  presence : Table ParticipantId Presence
  keyframes : KeyframeGate
  /-- The sequence number of the relay's next datagram. -/
  nextSequence : UInt32

namespace Room

variable {F : Type} [Arithmetic F]

def start (id : RoomId) (version : UInt8) (terms : Terms F) : Room F :=
  { id, version, terms
    closed := false
    members := ∅
    subscriptions := ∅
    streams := ∅
    graphVersions := 0
    routing := ⟨∅, ∅⟩
    presence := ∅
    keyframes := .start terms.keyframeInterval
    nextSequence := 0 }

/-- The receivers subscribed to a stream. -/
def receivers (r : Room F) (stream : StreamId) : KeySet ParticipantId :=
  (r.subscriptions.get? stream).getD ∅

/-- The routing table that belongs to the present members, subscriptions and streams. -/
def currentRouting (r : Room F) : Routing :=
  { subscribers := r.streams.map fun id _ => r.receivers id
    members := r.members }

def publish (r : Room F) : Room F := { r with routing := r.currentRouting }

def setStream (r : Room F) (id : StreamId) (s : Stream F) : Room F :=
  { r with streams := r.streams.insert id s }

/-- Notes a datagram of a participant and its return address. Only members have a presence. -/
def touch (r : Room F) (participant : ParticipantId) (source : Endpoint) (now : Time) :
    Room F × Bool :=
  if r.presence.contains participant then
    ({ r with presence := r.presence.insert participant ⟨some source, now⟩ }, true)
  else (r, false)

def addressOf (r : Room F) (participant : ParticipantId) : Option Endpoint :=
  (r.presence.get? participant).bind (·.address)

/-- Members not heard from for longer than `timeout`. -/
def inactive (r : Room F) (now : Time) (timeout : Nat) : List ParticipantId :=
  (r.presence.filter fun _ p => timeout < Time.since now p.lastSeen).keys

/-- Whether one participant hears another, if the first is a member. -/
def hears? (r : Room F) (participant sender : ParticipantId) : Option Bool :=
  (r.routing.members.get? participant).map (·.hears sender)

def participantCount (r : Room F) : Nat := r.routing.members.size

def streamCount (r : Room F) : Nat := r.routing.subscribers.size

end Room

end MediaRelay
