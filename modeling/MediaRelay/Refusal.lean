import MediaRelay.Identity

/-! Why a signaling event is refused, with the code and the status of the answer. -/

namespace MediaRelay

inductive Refusal
  | roomLimitReached (max : Nat)
  | roomFull (max : Nat)
  | streamLimitReached (max : Nat)
  | roomNotFound (room : RoomId)
  | participantNotFound (participant : ParticipantId)
  | streamNotFound (stream : StreamId)
  | alreadyJoined (participant : ParticipantId)
  | versionMismatch (room requested : UInt8)
  | unsupportedVersion (version : UInt8)
  | roomClosed
  | roleViolation (act : String)
  | invalidNegotiation (reason : String)
  | invalidRequest (reason : String)
  deriving DecidableEq, Repr

namespace Refusal

def message : Refusal → String
  | .roomLimitReached max => s!"Room limit reached (max: {max})"
  | .roomFull max => s!"Room is full (max: {max})"
  | .streamLimitReached max => s!"Stream limit reached (max: {max})"
  | .roomNotFound room => s!"Room not found: {room.text}"
  | .participantNotFound participant => s!"Participant not found: {participant.text}"
  | .streamNotFound stream => s!"Stream not found: {stream.text}"
  | .alreadyJoined participant => s!"Participant already joined: {participant.text}"
  | .versionMismatch room requested =>
    s!"Protocol version {requested} does not match room version {room}"
  | .unsupportedVersion version => s!"Unsupported protocol version: {version}"
  | .roomClosed => "Room closed"
  | .roleViolation act => s!"Role does not allow {act}"
  | .invalidNegotiation reason => s!"Invalid negotiation: {reason}"
  | .invalidRequest reason => s!"Invalid request: {reason}"

def code : Refusal → String
  | .roomLimitReached _ => "ROOM_LIMIT"
  | .roomFull _ => "ROOM_FULL"
  | .streamLimitReached _ => "STREAM_LIMIT"
  | .roomNotFound _ => "ROOM_NOT_FOUND"
  | .participantNotFound _ => "PARTICIPANT_NOT_FOUND"
  | .streamNotFound _ => "STREAM_NOT_FOUND"
  | .alreadyJoined _ => "ALREADY_JOINED"
  | .versionMismatch _ _ => "VERSION_MISMATCH"
  | .unsupportedVersion _ => "UNSUPPORTED_VERSION"
  | .roomClosed => "ROOM_CLOSED"
  | .roleViolation _ => "ROLE_VIOLATION"
  | .invalidNegotiation _ => "INVALID_NEGOTIATION"
  | .invalidRequest _ => "INVALID_REQUEST"

def status : Refusal → Nat
  | .roomLimitReached _ | .roomFull _ | .streamLimitReached _ => 503
  | .roomNotFound _ | .participantNotFound _ | .streamNotFound _ => 404
  | .alreadyJoined _ | .versionMismatch _ _ | .roomClosed => 409
  | .unsupportedVersion _ | .roleViolation _ | .invalidNegotiation _ | .invalidRequest _ => 400

end Refusal

end MediaRelay
