import MediaRelay.Media.Kind

/-! The types of datagrams, and the kind of stream each belongs to. -/

namespace MediaRelay

inductive PacketType
  | audio
  | video
  | screen
  | fec
  | feedback
  deriving DecidableEq, Repr, Inhabited

namespace PacketType

def all : List PacketType := [.audio, .video, .screen, .fec, .feedback]

def code : PacketType → UInt8
  | .audio => 0
  | .video => 1
  | .screen => 2
  | .fec => 3
  | .feedback => 4

def ofCode? : UInt8 → Option PacketType
  | 0 => some .audio
  | 1 => some .video
  | 2 => some .screen
  | 3 => some .fec
  | 4 => some .feedback
  | _ => none

def name : PacketType → String
  | .audio => "audio"
  | .video => "video"
  | .screen => "screen"
  | .fec => "fec"
  | .feedback => "feedback"

def ofName? (s : String) : Option PacketType := all.find? (·.name == s)

/-- The name with a capital, as messages write it. -/
def title : PacketType → String
  | .audio => "Audio"
  | .video => "Video"
  | .screen => "Screen"
  | .fec => "Fec"
  | .feedback => "Feedback"

/-- The kind of the stream a packet belongs to; repair packets belong to video. -/
def kind? : PacketType → Option Kind
  | .audio => some .audio
  | .video | .fec => some .video
  | .screen => some .screen
  | .feedback => none

def ofKind : Kind → PacketType
  | .audio => .audio
  | .video => .video
  | .screen => .screen

/-- Only these packets may describe their frame's dependencies. -/
def allowsDescriptor : PacketType → Bool
  | .video | .screen => true
  | .audio | .fec | .feedback => false

theorem ofCode?_code (t : PacketType) : ofCode? t.code = some t := by cases t <;> rfl

end PacketType

end MediaRelay
