import MediaRelay.LayerGraph
import MediaRelay.Room.State

/-! Signaling events: what the control API asks of a room. -/

namespace MediaRelay

inductive Event.Act
  | join (participant : ParticipantId) (role : Role) (version : UInt8)
  | leave (participant : ParticipantId)
  | negotiate (stream : StreamId) (offer : Offer)
  | subscribe (receiver : ParticipantId) (stream : StreamId)
  | unsubscribe (receiver : ParticipantId) (stream : StreamId)
  | setMuted (receiver sender : ParticipantId) (muted : Bool)
  | setDeafened (participant : ParticipantId) (deafened : Bool)
  deriving DecidableEq

structure Event where
  room : RoomId
  act : Event.Act
  deriving DecidableEq

end MediaRelay
