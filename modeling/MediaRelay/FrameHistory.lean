import MediaRelay.LayerGraph
import MediaRelay.Serial
import MediaRelay.Wire.Descriptor

/-!
The recent frames of a stream. Every packet is noted with the frame it belongs to and the frames
that frame refers to; from this follows where a receiver can move to another layer without missing
a reference.
-/

namespace MediaRelay

structure Frame where
  number : Nat
  layer : Layer
  deriving DecidableEq, Repr

/-- What a packet says about its frame. -/
structure Sighting where
  frame : Nat
  layer : Layer
  startOfFrame : Bool
  references : List Nat
  /-- A reference points before the first number. -/
  unresolved : Bool
  deriving DecidableEq, Repr

/-- Frames are kept in `span` places by their number modulo `span`. -/
structure FrameHistory where
  places : Table Nat Frame
  highest : Option Nat
  deriving DecidableEq

namespace FrameHistory

inductive Fault
  | unknownLayer (layer : Layer)
  | unknownTemplate (id : UInt8)
  | layerMismatch (template header : Layer)
  | frameLayerChanged (frame : Nat)
  deriving DecidableEq, Repr

def Fault.message : Fault → String
  | .unknownLayer layer => s!"layer {layer.text} outside the negotiated range"
  | .unknownTemplate id => s!"template {id} not negotiated"
  | .layerMismatch template header =>
    s!"template layer {template.text} does not match header layer {header.text}"
  | .frameLayerChanged frame => s!"frame {frame} changed layer"

def span : Nat := 256

def empty : FrameHistory := ⟨∅, none⟩

/-- The frame at the place of a number, which may be another one. -/
def at? (h : FrameHistory) (number : Nat) : Option Frame := h.places.get? (number % span)

/-- The layer of a frame that is still remembered. -/
def layerOf? (h : FrameHistory) (number : Nat) : Option Layer :=
  ((h.at? number).filter (·.number == number)).map (·.layer)

/-- The distances that hold for a frame: its own, or those of a template for its layer. -/
def diffs (g : LayerGraph) (layer : Layer) (d : Descriptor) : Except Fault (List UInt16) :=
  if !g.covers layer then .error (.unknownLayer layer)
  else match d.customDiffs with
    | some diffs => .ok diffs
    | none =>
      match g.template? d.templateId with
      | none => .error (.unknownTemplate d.templateId)
      | some t => if t.layer = layer then .ok t.diffs else .error (.layerMismatch t.layer layer)

def sighting (frame : Nat) (layer : Layer) (startOfFrame : Bool) (diffs : List UInt16) : Sighting :=
  { frame, layer, startOfFrame
    references := (diffs.filter (·.toNat ≤ frame)).map (frame - ·.toNat)
    unresolved := diffs.any (frame < ·.toNat) }

/-- Notes a packet of a frame. Packets of one frame agree about its layer. -/
def observe (h : FrameHistory) (layer : Layer) (d : Descriptor) (g : LayerGraph) :
    FrameHistory × Except Fault Sighting :=
  match diffs g layer d with
  | .error fault => (h, .error fault)
  | .ok diffs =>
    let number := Serial.extend 16 h.highest d.frameNumber.toNat
    let h := { h with highest := some (Serial.raise h.highest number) }
    let seen := sighting number layer d.startOfFrame diffs
    match (h.at? number).filter (·.number == number) with
    | some frame =>
      if frame.layer = layer then (h, .ok seen) else (h, .error (.frameLayerChanged number))
    | none => ({ h with places := h.places.insert (number % span) ⟨number, layer⟩ }, .ok seen)

/-- Whether a receiver of `current`, or of nothing yet, can go on with `target` from this packet.
Who has nothing needs a frame without references. Otherwise the packet starts a frame of the target's
spatial index, and the frames referred to are remembered and within reach on both sides. -/
def isSwitchPoint (h : FrameHistory) (seen : Sighting) (current : Option Layer) (target : Layer) :
    Bool :=
  if !seen.startOfFrame || seen.unresolved then false
  else match current with
    | none => seen.references.isEmpty && seen.layer.fitsWithin target
    | some current =>
      seen.layer.spatial == target.spatial && seen.references.all fun frame =>
        (h.layerOf? frame).any fun layer =>
          layer.spatial ≤ min current.spatial target.spatial && layer.temporal ≤ current.temporal

end FrameHistory

end MediaRelay
