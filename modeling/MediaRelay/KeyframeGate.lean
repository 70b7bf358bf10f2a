import MediaRelay.Identity
import MediaRelay.Time

/-! The relay asks a sender for keyframes, but for one stream not more often than once per interval. -/

namespace MediaRelay

structure KeyframeGate where
  lastRequest : Table StreamId Time
  /-- Microseconds between two requests. -/
  interval : Nat
  deriving DecidableEq

namespace KeyframeGate

def start (interval : Nat) : KeyframeGate := ⟨∅, interval⟩

def isOpen (g : KeyframeGate) (stream : StreamId) (now : Time) : Bool :=
  (g.lastRequest.get? stream).all fun last => g.interval ≤ Time.since now last

/-- A request passes if the gate is open, and closes it. -/
def request (g : KeyframeGate) (stream : StreamId) (now : Time) : KeyframeGate × Bool :=
  if g.isOpen stream now then ({ g with lastRequest := g.lastRequest.insert stream now }, true)
  else (g, false)

def forget (g : KeyframeGate) (stream : StreamId) : KeyframeGate :=
  { g with lastRequest := g.lastRequest.erase stream }

/-- Forgets requests of ten intervals ago. -/
def cleanup (g : KeyframeGate) (now : Time) : KeyframeGate :=
  { g with lastRequest :=
      g.lastRequest.filter fun _ last => Time.since now last < g.interval * 10 }

end KeyframeGate

end MediaRelay
