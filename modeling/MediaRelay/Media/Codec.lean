import MediaRelay.Media.Kind

/-! Codecs, the kinds each can carry, and the rate of the clock in its timestamps. -/

namespace MediaRelay

inductive Codec
  | none
  | opus
  | vp8
  | vp9
  | h264
  | av1
  deriving DecidableEq, Repr, Inhabited

namespace Codec

def all : List Codec := [.none, .opus, .vp8, .vp9, .h264, .av1]

def code : Codec → UInt8
  | .none => 0
  | .opus => 1
  | .vp8 => 2
  | .vp9 => 3
  | .h264 => 4
  | .av1 => 5

def ofCode? : UInt8 → Option Codec
  | 0 => some .none
  | 1 => some .opus
  | 2 => some .vp8
  | 3 => some .vp9
  | 4 => some .h264
  | 5 => some .av1
  | _ => Option.none

def name : Codec → String
  | .none => "none"
  | .opus => "opus"
  | .vp8 => "vp8"
  | .vp9 => "vp9"
  | .h264 => "h264"
  | .av1 => "av1"

def ofName? (s : String) : Option Codec := all.find? (·.name == s)

/-- The name with a capital, as messages write it. -/
def title : Codec → String
  | .none => "None"
  | .opus => "Opus"
  | .vp8 => "Vp8"
  | .vp9 => "Vp9"
  | .h264 => "H264"
  | .av1 => "Av1"

/-- Ticks of the media clock in a second. -/
def clockRate : Codec → Nat
  | .opus => 48000
  | _ => 90000

def supports : Codec → Kind → Bool
  | .none, _ => false
  | .opus, kind => kind == .audio
  | _, kind => kind.isLayered

theorem ofCode?_code (c : Codec) : ofCode? c.code = some c := by cases c <;> rfl

theorem ofName?_name (c : Codec) : ofName? c.name = some c := by cases c <;> decide

end Codec

end MediaRelay
