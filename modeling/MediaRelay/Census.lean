import MediaRelay.Event.Writing
import MediaRelay.Relay

/-! What a relay tells about itself: its rooms, their streams and downlinks, and its counters. -/

namespace MediaRelay

variable {F : Type} [Arithmetic F]

structure LinkCensus where
  receiver : ParticipantId
  estimate : Nat
  target : Target
  forwarded : Nat
  withheld : Nat
  deriving DecidableEq

structure StreamCensus where
  id : StreamId
  codec : Codec
  graphVersion : Nat
  received : Nat
  uplinkEstimate : Nat
  links : List LinkCensus
  deriving DecidableEq

structure RoomCensus where
  id : RoomId
  version : UInt8
  participants : List ParticipantId
  streams : List StreamCensus
  deriving DecidableEq

structure RoomSummary where
  id : RoomId
  participants : Nat
  streams : Nat
  deriving DecidableEq

structure Census where
  participants : Nat
  counters : Counters
  rooms : List RoomSummary
  deriving DecidableEq

def Downlink.census (d : Downlink F) : LinkCensus :=
  { receiver := d.receiver
    estimate := d.estimate
    target := d.target
    forwarded := d.forwarded
    withheld := d.withheld }

def Stream.census (s : Stream F) : StreamCensus :=
  { id := s.id
    codec := s.graph.codec
    graphVersion := s.graph.version
    received := s.received
    uplinkEstimate := s.uplink.estimate
    links := s.links.values.map (·.census) }

/-- Rooms are described by their routing table. -/
def Room.census (r : Room F) : RoomCensus :=
  { id := r.id
    version := r.version
    participants := r.routing.members.keys
    streams := r.routing.subscribers.keys.filterMap fun id => (r.streams.get? id).map (·.census) }

def Room.summary (r : Room F) : RoomSummary := ⟨r.id, r.participantCount, r.streamCount⟩

namespace Relay

def census (r : Relay F) : Census :=
  let rooms := r.directory.rooms.values.map (·.summary)
  { participants := rooms.foldl (fun n room => n + room.participants) 0
    counters := r.counters
    rooms }

def roomCensus (r : Relay F) (id : RoomId) : Except Refusal RoomCensus :=
  match r.directory.room? id with
  | none => .error (.roomNotFound id)
  | some room => .ok room.census

end Relay

def Layer.document (l : Layer) : Document := .record l.fields

def LinkCensus.document (c : LinkCensus) : Document :=
  .record [("receiver", c.receiver.document), ("estimate_bps", .nat c.estimate),
    ("current_layer", .ofOption (c.target.current.map (·.document))),
    ("pending_layer", .ofOption (c.target.pending.map (·.document))),
    ("packets_forwarded", .nat c.forwarded), ("packets_dropped", .nat c.withheld)]

def StreamCensus.document (c : StreamCensus) : Document :=
  .record [("sender", c.id.sender.document), ("kind", c.id.kind.document),
    ("codec", .text c.codec.name), ("graph_version", .nat c.graphVersion),
    ("packets_received", .nat c.received), ("uplink_estimate_bps", .nat c.uplinkEstimate),
    ("links", .list (c.links.map (·.document)))]

def RoomCensus.document (c : RoomCensus) : Document :=
  .record [("room_id", c.id.document), ("protocol_version", .nat c.version.toNat),
    ("participants", .list (c.participants.map (·.document))),
    ("streams", .list (c.streams.map (·.document)))]

def RoomSummary.document (c : RoomSummary) : Document :=
  .record [("room_id", c.id.document), ("participants", .nat c.participants),
    ("streams", .nat c.streams)]

def Counters.document (c : Counters) : Document :=
  .record [("datagrams_received", .nat c.datagramsReceived.toNat),
    ("bytes_received", .nat c.bytesReceived.toNat),
    ("packets_forwarded", .nat c.packetsForwarded.toNat),
    ("bytes_forwarded", .nat c.bytesForwarded.toNat),
    ("layer_drops", .nat c.layerDrops.toNat),
    ("feedback_received", .nat c.feedbackReceived.toNat),
    ("feedback_sent", .nat c.feedbackSent.toNat),
    ("keyframe_requests_sent", .nat c.keyframeRequestsSent.toNat),
    ("participants_timed_out", .nat c.participantsTimedOut.toNat),
    ("drops", .record (c.dropList.map fun (reason, count) => (reason.name, .nat count.toNat)))]

def Census.document (c : Census) : Document :=
  .record [("rooms", .nat c.rooms.length), ("participants", .nat c.participants),
    ("metrics", c.counters.document), ("room_summaries", .list (c.rooms.map (·.document)))]

def Refusal.document (r : Refusal) : Document :=
  .record [("error", .text r.message), ("code", .text r.code)]

end MediaRelay
