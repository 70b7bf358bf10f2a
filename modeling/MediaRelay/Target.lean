import MediaRelay.Arithmetic
import MediaRelay.LayerGraph

/-!
Which layer a receiver should get. `Hysteresis.desired` picks one for an estimate; `Target.pursue`
moves a receiver's target towards it, at once within a spatial index and otherwise by staging a
switch that waits for a packet where it is safe.
-/

namespace MediaRelay

/-- Shares by which a layer must be exceeded to go up to it, or missed to leave it. -/
structure Hysteresis (F : Type) where
  up : F
  down : F

namespace Hysteresis

open Arithmetic

variable {F : Type} [Arithmetic F]

/-- The estimate suffices for a rate and the margin above it. -/
def reaches (h : Hysteresis F) (rate estimate : Nat) : Bool :=
  atMost (ofNat rate * (ofNat 1 + h.up)) (ofNat estimate : F)

/-- The estimate suffices for a rate less the margin below it. -/
def keeps (h : Hysteresis F) (rate estimate : Nat) : Bool :=
  atMost (ofNat rate * (ofNat 1 - h.down)) (ofNat estimate : F)

/-- The estimate suffices for a rate. -/
def affords (_ : Hysteresis F) (rate estimate : Nat) : Bool :=
  atMost (ofNat rate : F) (ofNat estimate)

/-- The layer for an estimate, given the one aimed at so far: the most expensive layer reached, if
that is a step up; else the layer so far, if it can be kept; else the most expensive layer that the
estimate affords, and the cheapest if there is none. -/
def desired (h : Hysteresis F) (g : LayerGraph) (estimate : Nat) (reference : Option Layer) :
    Option Layer :=
  let fromTop := g.listed.reverse
  let reference := reference.bind g.spec?
  let fallback := (fromTop.find? fun s => h.affords s.rate estimate).or g.lowest?
  let held := (reference.filter fun s => h.keeps s.rate estimate).or fallback
  let raised := (fromTop.find? fun s => h.reaches s.rate estimate).filter fun s =>
    reference.all fun r => r.rate < s.rate
  (raised.or held).map (·.layer)

end Hysteresis

/-- The layer a receiver gets, and the one it waits to get. -/
structure Target where
  current : Option Layer
  pending : Option Layer
  deriving DecidableEq, Repr

/-- What a change of target amounts to. -/
structure Pursuit where
  changed : Bool
  wantsKeyframe : Bool
  deriving DecidableEq, Repr

namespace Target

def none : Target := ⟨.none, .none⟩

/-- The layer aimed at. -/
def aim (t : Target) : Option Layer := t.pending.or t.current

def pursue (t : Target) (layer : Layer) : Target × Pursuit :=
  match t.current with
  | .none => ({ t with pending := some layer }, ⟨t.pending != some layer, false⟩)
  | some current =>
    if current = layer then ({ t with pending := .none }, ⟨t.pending.isSome, false⟩)
    else if current.spatial = layer.spatial then (⟨some layer, .none⟩, ⟨true, false⟩)
    else if t.pending = some layer then (t, ⟨false, false⟩)
    else ({ t with pending := some layer }, ⟨true, current.spatial < layer.spatial⟩)

end Target

end MediaRelay
