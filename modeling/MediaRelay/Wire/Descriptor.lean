import MediaRelay.Wire.Fault

/-!
The dependency descriptor of a frame: where the frame begins and ends, its number, and the earlier
frames it refers to, either by a negotiated template or by a list of distances of its own.
-/

namespace MediaRelay

structure Descriptor where
  startOfFrame : Bool
  endOfFrame : Bool
  templateId : UInt8
  frameNumber : UInt16
  decodeTargets : UInt8
  /-- Distances to the frames referred to; without a list the template's distances hold. -/
  customDiffs : Option (List UInt16)
  deriving DecidableEq, Repr

namespace Descriptor

open Wire (Fault)
open Wire.Word

def fixedSize : Nat := 5

def maxTemplateId : UInt8 := 63

def maxDiffs : Nat := 13

/-- The first byte: two marks and the template. -/
def headByte (d : Descriptor) : UInt8 :=
  (if d.startOfFrame then 0x80 else 0) ||| (if d.endOfFrame then 0x40 else 0) ||| d.templateId

def encodedSize (d : Descriptor) : Nat :=
  fixedSize + 2 * (d.customDiffs.getD []).length

def decode : Bytes → Except Fault (Descriptor × Bytes)
  | head :: n₁ :: n₂ :: targets :: dependencies :: rest => do
    let custom := dependencies &&& 0x80 != 0
    let count := (dependencies &&& 0x1F).toNat
    unless dependencies &&& 0x60 == 0 do throw (.reservedBits .dependencyByte)
    if !custom && count != 0 then throw .unexpectedDependencyCount
    if count > maxDiffs then throw (.tooManyDependencies count)
    let (diffs, rest) ← Wire.split (2 * count) rest
    if (u16s diffs).contains 0 then throw .zeroFrameDiff
    return ({
      startOfFrame := head &&& 0x80 != 0
      endOfFrame := head &&& 0x40 != 0
      templateId := head &&& 0x3F
      frameNumber := .ofNat (value [n₁, n₂])
      decodeTargets := targets
      customDiffs := if custom then some (u16s diffs) else none }, rest)
  | short => .error (.truncated fixedSize short.length)

def encode (d : Descriptor) : Except Fault Bytes :=
  let diffs := d.customDiffs.getD []
  if d.templateId > maxTemplateId then .error (.templateIdOutOfRange d.templateId)
  else if diffs.length > maxDiffs then .error (.tooManyDependencies diffs.length)
  else if diffs.contains 0 then .error .zeroFrameDiff
  else .ok <|
    [d.headByte] ++ bytes 2 d.frameNumber.toNat ++
      [d.decodeTargets, (if d.customDiffs.isSome then 0x80 else 0) ||| .ofNat diffs.length] ++
      diffs.flatMap (bytes 2 ·.toNat)

end Descriptor

end MediaRelay
