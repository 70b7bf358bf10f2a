import MediaRelay.Media.Codec
import MediaRelay.Media.Layer
import MediaRelay.Table
import MediaRelay.Wire.Descriptor

/-!
Negotiated layers. A sender offers a codec, layers with their rates and templates for the references
of frames; `LayerGraph.ofOffer` accepts an offer or says what is wrong with it. Whatever the order
of the offer, a graph lists its layers by rate.
-/

namespace MediaRelay

/-- A layer and the rate, in bits per second, of everything up to and including it. -/
structure LayerSpec where
  layer : Layer
  rate : Nat
  deriving DecidableEq, Repr

/-- A pattern of references: distances back to the frames that a frame refers to. -/
structure Template where
  id : UInt8
  layer : Layer
  diffs : List UInt16
  deriving DecidableEq, Repr

structure Offer where
  codec : Codec
  layers : List LayerSpec
  templates : List Template
  deriving DecidableEq, Repr

namespace LayerSpec

/-- By rate, then by layer. -/
def rank (s : LayerSpec) : Nat := s.rate * 65536 + s.layer.spatial.toNat * 256 + s.layer.temporal.toNat

theorem rank_inj {a b : LayerSpec} (h : a.rank = b.rank) : a = b := by
  obtain ⟨⟨i, j⟩, r⟩ := a
  obtain ⟨⟨k, l⟩, s⟩ := b
  simp only [rank] at h
  have := i.toNat_lt
  have := j.toNat_lt
  have := k.toNat_lt
  have := l.toNat_lt
  have hik : i = k := UInt8.toNat_inj.mp (by omega)
  have hjl : j = l := UInt8.toNat_inj.mp (by omega)
  have hrs : r = s := by omega
  rw [hik, hjl, hrs]

end LayerSpec

instance : Key LayerSpec where
  rank := LayerSpec.rank
  rank_inj := LayerSpec.rank_inj

namespace Offer

inductive Fault
  | cannotCarry (codec : Codec) (kind : Kind)
  | layersWithoutUse
  | noLayers
  | layerOutOfRange (layer : Layer)
  | zeroRate (layer : Layer)
  | duplicateLayer (layer : Layer)
  | mustCostLess (lower upper : Layer)
  | templateIdOutOfRange (id : UInt8)
  | templateOutside (id : UInt8) (layer : Layer)
  | invalidDiffs (id : UInt8)
  | duplicateTemplate (id : UInt8)
  deriving DecidableEq, Repr

def Fault.message : Fault → String
  | .cannotCarry codec kind => s!"codec {codec.title} cannot carry {kind.name}"
  | .layersWithoutUse => "audio streams have no layers or templates"
  | .noLayers => "at least one layer is required"
  | .layerOutOfRange layer => s!"layer {layer.text} out of range"
  | .zeroRate layer => s!"layer {layer.text} has zero bitrate"
  | .duplicateLayer layer => s!"duplicate layer {layer.text}"
  | .mustCostLess lower upper => s!"layer {lower.text} must cost less than {upper.text}"
  | .templateIdOutOfRange id => s!"template id {id} out of range"
  | .templateOutside id layer =>
    s!"template {id} references layer {layer.text} outside the negotiated range"
  | .invalidDiffs id => s!"template {id} has invalid frame diffs"
  | .duplicateTemplate id => s!"duplicate template id {id}"

/-- Each layer on its own, given the layers before it. -/
def checkLayers (seen : List Layer) : List LayerSpec → Except Fault Unit
  | [] => .ok ()
  | s :: rest =>
    if !s.layer.isValid then .error (.layerOutOfRange s.layer)
    else if s.rate = 0 then .error (.zeroRate s.layer)
    else if seen.contains s.layer then .error (.duplicateLayer s.layer)
    else checkLayers (s.layer :: seen) rest

/-- A layer within another that does not cost less. -/
def contradicts (lower upper : LayerSpec) : Bool :=
  lower.layer != upper.layer && lower.layer.fitsWithin upper.layer && upper.rate ≤ lower.rate

/-- The first contradiction in the order of the offer. -/
def contradiction? (layers : List LayerSpec) : Option (LayerSpec × LayerSpec) :=
  layers.findSome? fun lower =>
    (layers.find? fun upper => contradicts lower upper).map fun upper => (lower, upper)

end Offer

/-- The least layer that all layers of a list fit within. -/
def ceilingOf : List LayerSpec → Option Layer
  | [] => none
  | s :: rest => some (rest.foldl (fun l s => l.sup s.layer) s.layer)

structure LayerGraph where
  kind : Kind
  codec : Codec
  version : Nat
  layers : KeySet LayerSpec
  templates : Table UInt8 Template
  deriving DecidableEq

namespace LayerGraph

open Offer (Fault)

/-- The layers from the cheapest to the most expensive. -/
def listed (g : LayerGraph) : List LayerSpec := g.layers.keys

def isLayered (g : LayerGraph) : Bool := !g.layers.isEmpty

def spec? (g : LayerGraph) (layer : Layer) : Option LayerSpec := g.listed.find? (·.layer == layer)

def contains (g : LayerGraph) (layer : Layer) : Bool := (g.spec? layer).isSome

/-- An encoder that sends two layers may also send frames of the layers in between, so packets may
have any layer within the highest spatial and the highest temporal index. -/
def ceiling? (g : LayerGraph) : Option Layer := ceilingOf g.listed

def covers (g : LayerGraph) (layer : Layer) : Bool := g.ceiling?.any layer.fitsWithin

def lowest? (g : LayerGraph) : Option LayerSpec := g.listed.head?

def highest? (g : LayerGraph) : Option LayerSpec := g.listed.getLast?

def template? (g : LayerGraph) (id : UInt8) : Option Template := g.templates.get? id

/-- Takes in one more template of an offer. A descriptor must be able to name it and to hold its
distances. -/
def addTemplate (ceiling : Layer) (known : Table UInt8 Template) (t : Template) :
    Except Fault (Table UInt8 Template) :=
  if t.id > Descriptor.maxTemplateId then .error (.templateIdOutOfRange t.id)
  else if !t.layer.fitsWithin ceiling then .error (.templateOutside t.id t.layer)
  else if t.diffs.length > Descriptor.maxDiffs || t.diffs.contains 0 then .error (.invalidDiffs t.id)
  else if known.contains t.id then .error (.duplicateTemplate t.id)
  else .ok (known.insert t.id t)

def ofOffer (kind : Kind) (offer : Offer) (version : Nat) : Except Fault LayerGraph := do
  unless offer.codec.supports kind do throw (.cannotCarry offer.codec kind)
  if !kind.isLayered then
    unless offer.layers.isEmpty && offer.templates.isEmpty do throw .layersWithoutUse
    return { kind, codec := offer.codec, version, layers := ∅, templates := ∅ }
  let some ceiling := ceilingOf offer.layers | throw .noLayers
  Offer.checkLayers [] offer.layers
  if let some (lower, upper) := Offer.contradiction? offer.layers then
    throw (.mustCostLess lower.layer upper.layer)
  let templates ← offer.templates.foldlM (addTemplate ceiling) ∅
  return {
    kind, codec := offer.codec, version
    layers := Table.ofList (offer.layers.map fun s => (s, ()))
    templates }

end LayerGraph

end MediaRelay
