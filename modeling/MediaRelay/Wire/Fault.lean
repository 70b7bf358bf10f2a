import MediaRelay.Wire.PacketType
import MediaRelay.Wire.Word

/-! What can be wrong with bytes that should be a datagram, and with values that should become one. -/

namespace MediaRelay

namespace Wire

/-- Places with bits that must be zero. -/
inductive Reserved
  | headerFlags
  | dtxByte
  | dependencyByte
  | bitmapPadding
  deriving DecidableEq, Repr

def Reserved.text : Reserved → String
  | .headerFlags => "header flags"
  | .dtxByte => "dtx byte"
  | .dependencyByte => "descriptor dependency byte"
  | .bitmapPadding => "status bitmap padding"

inductive Fault
  | truncated (needed available : Nat)
  | unsupportedVersion (version : UInt8)
  | unknownPacketType (code : UInt8)
  | unknownCodec (code : UInt8)
  | unknownStreamKind (code : UInt8)
  | reservedBits (place : Reserved)
  | layerOutOfRange (spatial temporal : UInt8)
  | templateIdOutOfRange (id : UInt8)
  | tooManyDependencies (count : Nat)
  | zeroFrameDiff
  | unexpectedDependencyCount
  | descriptorMismatch
  | descriptorNotAllowed (type : PacketType)
  | notFeedback (type : PacketType)
  | unknownFeedbackTag (tag : UInt8)
  | invalidPacketStatus
  | reportTooLarge (count : Nat)
  | deltaOutOfRange (delta : Int)
  | deltaNotAligned (delta : Int)
  | trailingBytes (count : Nat)
  deriving DecidableEq, Repr

def Fault.message : Fault → String
  | .truncated needed available =>
    s!"truncated input: needed {needed} bytes, {available} available"
  | .unsupportedVersion version => s!"unsupported protocol version: {version}"
  | .unknownPacketType code => s!"unknown packet type: {code}"
  | .unknownCodec code => s!"unknown codec id: {code}"
  | .unknownStreamKind code => s!"unknown stream kind: {code}"
  | .reservedBits place => s!"reserved bits set in {place.text}"
  | .layerOutOfRange spatial temporal =>
    s!"layer id out of range (spatial {spatial}, temporal {temporal})"
  | .templateIdOutOfRange id => s!"template id out of range: {id}"
  | .tooManyDependencies count => s!"too many frame dependencies: {count}"
  | .zeroFrameDiff => "frame dependency diff of zero"
  | .unexpectedDependencyCount => "dependency count set without custom dependencies"
  | .descriptorMismatch => "dependency descriptor flag does not match descriptor presence"
  | .descriptorNotAllowed type => s!"dependency descriptor not allowed on {type.title} packets"
  | .notFeedback type => s!"not a feedback packet: {type.title}"
  | .unknownFeedbackTag tag => s!"unknown feedback message tag: {tag}"
  | .invalidPacketStatus => "invalid packet status symbol"
  | .reportTooLarge count => s!"congestion report too large: {count} packets"
  | .deltaOutOfRange delta => s!"arrival delta out of range: {delta}us"
  | .deltaNotAligned delta => s!"arrival delta not aligned to 250us: {delta}us"
  | .trailingBytes count => s!"{count} trailing bytes after feedback message"

/-- Splits off the first `n` bytes. -/
def split (n : Nat) (b : Bytes) : Except Fault (Bytes × Bytes) :=
  if b.length < n then .error (.truncated n b.length) else .ok (b.take n, b.drop n)

end Wire

end MediaRelay
