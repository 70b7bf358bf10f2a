import MediaRelay.Document.Basic
import MediaRelay.Event.Basic

/-! Signaling events as documents, with all fields and with the offer's fields beside the others. -/

namespace MediaRelay

def ParticipantId.document (p : ParticipantId) : Document := .nat p.number.toNat

def RoomId.document (r : RoomId) : Document := .nat r.number.toNat

def Kind.document (k : Kind) : Document := .text k.name

def Role.document (r : Role) : Document :=
  .record [("send", .text r.send.text), ("receive", .text r.receive.text)]

def Layer.fields (l : Layer) : List (String × Document) :=
  [("spatial", .nat l.spatial.toNat), ("temporal", .nat l.temporal.toNat)]

def LayerSpec.document (s : LayerSpec) : Document :=
  .record (s.layer.fields ++ [("bitrate_bps", .nat s.rate)])

def Template.document (t : Template) : Document :=
  .record ([("id", .nat t.id.toNat)] ++ t.layer.fields ++
    [("frame_diffs", .list (t.diffs.map fun d => .nat d.toNat))])

def Offer.fields (o : Offer) : List (String × Document) :=
  [("codec", .text o.codec.name), ("layers", .list (o.layers.map (·.document))),
    ("templates", .list (o.templates.map (·.document)))]

namespace Event

/-- The names of the acts. -/
inductive Tag
  | join
  | leave
  | negotiateCodec
  | subscribe
  | unsubscribe
  | setMuted
  | setDeafened
  deriving DecidableEq, Repr

namespace Tag

def all : List Tag :=
  [.join, .leave, .negotiateCodec, .subscribe, .unsubscribe, .setMuted, .setDeafened]

def name : Tag → String
  | .join => "join"
  | .leave => "leave"
  | .negotiateCodec => "negotiate_codec"
  | .subscribe => "subscribe"
  | .unsubscribe => "unsubscribe"
  | .setMuted => "set_muted"
  | .setDeafened => "set_deafened"

def ofName? (s : String) : Option Tag := all.find? (·.name == s)

end Tag

def Act.tag : Act → Tag
  | .join .. => .join
  | .leave .. => .leave
  | .negotiate .. => .negotiateCodec
  | .subscribe .. => .subscribe
  | .unsubscribe .. => .unsubscribe
  | .setMuted .. => .setMuted
  | .setDeafened .. => .setDeafened

def Act.fields : Act → List (String × Document)
  | .join participant role version =>
    [("participant_id", participant.document), ("role", role.document),
      ("protocol_version", .nat version.toNat)]
  | .leave participant => [("participant_id", participant.document)]
  | .negotiate stream offer =>
    [("sender_id", stream.sender.document), ("kind", stream.kind.document)] ++ offer.fields
  | .subscribe receiver stream | .unsubscribe receiver stream =>
    [("receiver_id", receiver.document), ("sender_id", stream.sender.document),
      ("kind", stream.kind.document)]
  | .setMuted receiver sender muted =>
    [("receiver_id", receiver.document), ("sender_id", sender.document), ("muted", .bool muted)]
  | .setDeafened participant deafened =>
    [("participant_id", participant.document), ("deafened", .bool deafened)]

def document (e : Event) : Document :=
  .record ([("type", .text e.act.tag.name), ("room_id", e.room.document)] ++ e.act.fields)

end Event

end MediaRelay
