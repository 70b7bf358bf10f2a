import MediaRelay.Room.Membership

/-!
The rooms of a relay. A room is created by the first join and removed when the last participant
leaves; a closed room is never joined again, but replaced.
-/

namespace MediaRelay

structure Directory (F : Type) where
  rooms : Table RoomId (Room F)
  maxRooms : Nat
  terms : Room.Terms F

namespace Directory

variable {F : Type} [Arithmetic F]

def room? (d : Directory F) (id : RoomId) : Option (Room F) := d.rooms.get? id

def remove (d : Directory F) (id : RoomId) : Directory F := { d with rooms := d.rooms.erase id }

/-- The room of an id, made if there is none and the limit allows it. -/
def create (d : Directory F) (id : RoomId) (version : UInt8) :
    Directory F × Except Refusal (Room F) :=
  match d.room? id with
  | some r => (d, .ok r)
  | none =>
    if d.maxRooms ≤ d.rooms.size then (d, .error (.roomLimitReached d.maxRooms))
    else
      let r := Room.start id version d.terms
      ({ d with rooms := d.rooms.insert id r }, .ok r)

/-- One attempt to join: find or create the room, then join it. -/
def tryJoin (d : Directory F) (id : RoomId) (participant : ParticipantId) (role : Role)
    (version : UInt8) (now : Time) : Directory F × Except Refusal Unit :=
  match d.create id version with
  | (d, .error refusal) => (d, .error refusal)
  | (d, .ok r) =>
    let (r, answer) := r.join participant role version now
    ({ d with rooms := d.rooms.insert id r }, answer)

/-- Joins a room. A room found closed is removed, and the attempt is made again with a new one. -/
def join (d : Directory F) (id : RoomId) (participant : ParticipantId) (role : Role)
    (version : UInt8) (now : Time) : Directory F × Except Refusal Unit :=
  if participant.isRelay then
    (d, .error (.invalidRequest "participant id 0 is reserved for the relay"))
  else if version ≠ protocolVersion then (d, .error (.unsupportedVersion version))
  else match d.tryJoin id participant role version now with
    | (d, .error .roomClosed) => (d.remove id).tryJoin id participant role version now
    | answer => answer

/-- Leaves a room, which is removed if it is empty then. -/
def leave (d : Directory F) (id : RoomId) (participant : ParticipantId) :
    Directory F × Except Refusal Unit :=
  match d.room? id with
  | none => (d, .error (.roomNotFound id))
  | some r =>
    match r.leave participant with
    | (_, .ok true) => (d.remove id, .ok ())
    | (r, .ok false) => ({ d with rooms := d.rooms.insert id r }, .ok ())
    | (r, .error refusal) => ({ d with rooms := d.rooms.insert id r }, .error refusal)

/-- Carries out an operation in a room that exists. -/
def within {α : Type} (d : Directory F) (id : RoomId) (act : Room F → Room F × Except Refusal α) :
    Directory F × Except Refusal α :=
  match d.room? id with
  | none => (d, .error (.roomNotFound id))
  | some r =>
    let (r, answer) := act r
    ({ d with rooms := d.rooms.insert id r }, answer)

end Directory

end MediaRelay
