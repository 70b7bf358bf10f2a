import MediaRelay.Downlink
import MediaRelay.FrameHistory
import MediaRelay.Uplink

/-! A negotiated stream: the sender's uplink, the frames seen, and a downlink for each subscriber. -/

namespace MediaRelay

structure Stream (F : Type) where
  id : StreamId
  graph : LayerGraph
  history : FrameHistory
  uplink : Uplink F
  links : Table ParticipantId (Downlink F)
  /-- Some receiver waits for a keyframe. -/
  keyframeWanted : Bool
  /-- Media datagrams accepted. -/
  received : Nat

/-- What became of a packet on one downlink. -/
inductive Fate
  | sent
  | withheld
  deriving DecidableEq, Repr

namespace Downlink

variable {F : Type} [Arithmetic F]

/-- Sends a packet of `size` bytes. -/
def send (d : Downlink F) (sequence : UInt32) (size : Nat) (now : Time) : Downlink F × Fate :=
  (d.recordSent sequence now size, .sent)

/-- Sends a packet whose layer fits within the current one, and withholds any other. -/
def offer (d : Downlink F) (layer : Layer) (sequence : UInt32) (size : Nat) (now : Time) :
    Downlink F × Fate :=
  if d.target.current.any layer.fitsWithin then d.send sequence size now
  else (d.recordWithheld, .withheld)

/-- A fresh downlink first gets a target. -/
def aimAt (d : Downlink F) (h : Hysteresis F) (g : LayerGraph) : Downlink F :=
  if d.target = .none then (d.retarget h g).1 else d

/-- The staged switch takes place if the packet is a safe point for it. -/
def switchAt (d : Downlink F) (history : FrameHistory) (seen : Sighting) : Downlink F :=
  match d.target.pending with
  | some layer =>
    if history.isSwitchPoint seen d.target.current layer then
      { d with target := ⟨some layer, none⟩ }
    else d
  | none => d

end Downlink

namespace Stream

variable {F : Type} [Arithmetic F]

def start (id : StreamId) (graph : LayerGraph) (settings : Estimator.Settings F) (timeout : Nat)
    (now : Time) : Stream F :=
  { id, graph
    history := .empty
    uplink := .start settings timeout now
    links := ∅
    keyframeWanted := false
    received := 0 }

def addLink (s : Stream F) (settings : Estimator.Settings F) (timeout : Nat) (now : Time)
    (receiver : ParticipantId) : Stream F :=
  { s with
    links := s.links.insertIfNew receiver
      (.start receiver settings timeout s.graph.version now)
    keyframeWanted := s.keyframeWanted || s.graph.isLayered }

def dropLink (s : Stream F) (receiver : ParticipantId) : Stream F :=
  { s with links := s.links.erase receiver }

/-- A new graph takes effect: frames and targets of the old one are forgotten. -/
def renegotiate (s : Stream F) (graph : LayerGraph) : Stream F :=
  { s with
    graph
    history := .empty
    links := s.links.map fun _ link => link.resetLayers graph.version
    keyframeWanted := graph.isLayered && !s.links.isEmpty }

/-- The outcome of offering a packet to receivers: those it was sent to, and how many it was
withheld from. -/
structure Spread where
  sent : List ParticipantId
  withheld : Nat
  deriving DecidableEq, Repr

/-- Offers a packet to receivers in turn; one without a downlink is passed over. -/
def spread (step : Downlink F → Downlink F × Fate) :
    List ParticipantId → Table ParticipantId (Downlink F) → Table ParticipantId (Downlink F) × Spread
  | [], links => (links, ⟨[], 0⟩)
  | receiver :: rest, links =>
    match links.get? receiver with
    | none => spread step rest links
    | some link =>
      let (link, fate) := step link
      let (links, out) := spread step rest (links.insert receiver link)
      match fate with
      | .sent => (links, { out with sent := link.receiver :: out.sent })
      | .withheld => (links, { out with withheld := out.withheld + 1 })

/-- One more packet is accepted and spread. -/
def accept (s : Stream F) (step : Downlink F → Downlink F × Fate) (receivers : List ParticipantId) :
    Stream F × Spread :=
  let (links, out) := spread step receivers s.links
  ({ s with links, received := s.received + 1 }, out)

/-- Adapts all targets to decayed estimates; a step up to another spatial index wants a keyframe. -/
def tickLinks (s : Stream F) (h : Hysteresis F) (now : Time) : Stream F :=
  let ticked := s.links.map fun _ link => (link.tick now).retarget h s.graph
  { s with
    links := ticked.map fun _ l => l.1
    keyframeWanted := s.keyframeWanted || ticked.values.any (·.2.wantsKeyframe) }

end Stream

end MediaRelay
