import MediaRelay.Room.Outcome

/-! What a relay has done so far, in counters of 64 bits. -/

namespace MediaRelay

structure Counters where
  datagramsReceived : UInt64
  bytesReceived : UInt64
  packetsForwarded : UInt64
  bytesForwarded : UInt64
  layerDrops : UInt64
  feedbackReceived : UInt64
  feedbackSent : UInt64
  keyframeRequestsSent : UInt64
  participantsTimedOut : UInt64
  drops : Table DropReason UInt64
  deriving DecidableEq

namespace Counters

def zero : Counters := ⟨0, 0, 0, 0, 0, 0, 0, 0, 0, ∅⟩

def received (c : Counters) (bytes : Nat) : Counters :=
  { c with
    datagramsReceived := c.datagramsReceived + 1
    bytesReceived := c.bytesReceived + .ofNat bytes }

def forwarded (c : Counters) (packets bytes : Nat) : Counters :=
  { c with
    packetsForwarded := c.packetsForwarded + .ofNat packets
    bytesForwarded := c.bytesForwarded + .ofNat bytes }

def withheld (c : Counters) (copies : Nat) : Counters :=
  { c with layerDrops := c.layerDrops + .ofNat copies }

def tookFeedback (c : Counters) : Counters :=
  { c with feedbackReceived := c.feedbackReceived + 1 }

def sentFeedback (c : Counters) (messages : Nat) : Counters :=
  { c with feedbackSent := c.feedbackSent + .ofNat messages }

def requestedKeyframes (c : Counters) (requests : Nat) : Counters :=
  { c with keyframeRequestsSent := c.keyframeRequestsSent + .ofNat requests }

def timedOut (c : Counters) : Counters :=
  { c with participantsTimedOut := c.participantsTimedOut + 1 }

def dropCount (c : Counters) (reason : DropReason) : UInt64 := (c.drops.get? reason).getD 0

def dropped (c : Counters) (reason : DropReason) : Counters :=
  { c with drops := c.drops.insert reason (c.dropCount reason + 1) }

/-- The reasons that occurred, with their counts. -/
def dropList (c : Counters) : List (DropReason × UInt64) :=
  c.drops.entries.filter (·.2 != 0)

end Counters

end MediaRelay
