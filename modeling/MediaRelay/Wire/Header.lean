import MediaRelay.Identity
import MediaRelay.Media.Codec
import MediaRelay.Media.Layer
import MediaRelay.Wire.Fault

/-!
The fixed header of a datagram, 22 bytes. The pattern in `Header.decode` is the layout; `route?`
finds the room and the sender at their places without looking at anything else.
-/

namespace MediaRelay

def protocolVersion : UInt8 := 1

/-- Flag bits of a header. Five are defined; values made here may carry others. -/
structure Flags where
  bits : UInt8
  deriving DecidableEq, Repr

namespace Flags

def none : Flags := ⟨0⟩

def defined : UInt8 := 0x1F

/-- A dependency descriptor follows the header. -/
def hasDescriptor (f : Flags) : Bool := f.bits &&& 0x10 == 0x10

def isDefined (f : Flags) : Bool := f.bits &&& ~~~defined == 0

end Flags

structure Header where
  version : UInt8
  packetType : PacketType
  codec : Codec
  flags : Flags
  room : RoomId
  sender : ParticipantId
  sequence : UInt32
  timestamp : UInt32
  layer : Layer
  dtx : Bool
  deriving DecidableEq, Repr

namespace Header

open Wire (Fault)
open Wire.Word

def size : Nat := 22

def kind? (h : Header) : Option Kind := h.packetType.kind?

/-- Both indices of a layer in one byte, the spatial one in the high half. -/
def layerByte (l : Layer) : UInt8 := l.spatial <<< 4 ||| l.temporal

def layerOfByte (b : UInt8) : Layer := ⟨b >>> 4, b &&& 0x0F⟩

def decode : Bytes → Except Fault (Header × Bytes)
  | version :: type :: codec :: flags :: r₁ :: r₂ :: r₃ :: r₄ :: s₁ :: s₂ :: s₃ :: s₄ ::
      q₁ :: q₂ :: q₃ :: q₄ :: t₁ :: t₂ :: t₃ :: t₄ :: layer :: dtx :: rest => do
    unless version == protocolVersion do throw (.unsupportedVersion version)
    let some packetType := PacketType.ofCode? type | throw (.unknownPacketType type)
    let some codec' := Codec.ofCode? codec | throw (.unknownCodec codec)
    unless Flags.isDefined ⟨flags⟩ do throw (.reservedBits .headerFlags)
    unless dtx &&& 0x7F == 0 do throw (.reservedBits .dtxByte)
    return ({
      version
      packetType
      codec := codec'
      flags := ⟨flags⟩
      room := ⟨.ofNat (value [r₁, r₂, r₃, r₄])⟩
      sender := ⟨.ofNat (value [s₁, s₂, s₃, s₄])⟩
      sequence := .ofNat (value [q₁, q₂, q₃, q₄])
      timestamp := .ofNat (value [t₁, t₂, t₃, t₄])
      layer := layerOfByte layer
      dtx := dtx == 0x80 }, rest)
  | short => .error (.truncated size short.length)

def encode (h : Header) : Except Fault Bytes :=
  if h.version ≠ protocolVersion then .error (.unsupportedVersion h.version)
  else if !h.layer.isValid then .error (.layerOutOfRange h.layer.spatial h.layer.temporal)
  else .ok <|
    [h.version, h.packetType.code, h.codec.code, h.flags.bits] ++
      bytes 4 h.room.number.toNat ++ bytes 4 h.sender.number.toNat ++
      bytes 4 h.sequence.toNat ++ bytes 4 h.timestamp.toNat ++
      [layerByte h.layer, if h.dtx then 0x80 else 0]

/-- The room and the sender named by a datagram long enough to hold a header. -/
def route? (b : Bytes) : Option (RoomId × ParticipantId) :=
  if b.length < size then none
  else some (⟨.ofNat (value ((b.drop 4).take 4))⟩, ⟨.ofNat (value ((b.drop 8).take 4))⟩)

end Header

end MediaRelay
