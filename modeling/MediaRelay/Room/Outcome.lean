import MediaRelay.Identity
import MediaRelay.Wire.Word

/-! What handling a datagram leads to: datagrams to send, or a reason to drop it. -/

namespace MediaRelay

structure Egress where
  room : RoomId
  receiver : ParticipantId
  payload : Bytes
  deriving DecidableEq, Repr

inductive DropReason
  | malformed
  | unknownRoom
  | unknownSender
  | versionMismatch
  | roleViolation
  | notNegotiated
  | codecMismatch
  | missingDescriptor
  | dependencyMismatch
  | notSubscribed
  | queueFull
  deriving DecidableEq, Repr

namespace DropReason

def all : List DropReason :=
  [.malformed, .unknownRoom, .unknownSender, .versionMismatch, .roleViolation, .notNegotiated,
    .codecMismatch, .missingDescriptor, .dependencyMismatch, .notSubscribed, .queueFull]

def name : DropReason → String
  | .malformed => "malformed"
  | .unknownRoom => "unknown_room"
  | .unknownSender => "unknown_sender"
  | .versionMismatch => "version_mismatch"
  | .roleViolation => "role_violation"
  | .notNegotiated => "not_negotiated"
  | .codecMismatch => "codec_mismatch"
  | .missingDescriptor => "missing_descriptor"
  | .dependencyMismatch => "dependency_mismatch"
  | .notSubscribed => "not_subscribed"
  | .queueFull => "queue_full"

def ofName? (s : String) : Option DropReason := all.find? (·.name == s)

def index : DropReason → Nat
  | .malformed => 0
  | .unknownRoom => 1
  | .unknownSender => 2
  | .versionMismatch => 3
  | .roleViolation => 4
  | .notNegotiated => 5
  | .codecMismatch => 6
  | .missingDescriptor => 7
  | .dependencyMismatch => 8
  | .notSubscribed => 9
  | .queueFull => 10

end DropReason

instance : Key DropReason where
  rank := DropReason.index
  rank_inj {a b} h := by cases a <;> cases b <;> simp [DropReason.index] at h ⊢

/-- An accepted datagram: copies of it, datagrams of the relay's own, and the number of copies that
layer selection withheld. -/
structure Outcome where
  copies : List Egress
  requests : List Egress
  withheld : Nat
  deriving DecidableEq, Repr

namespace Outcome

def none : Outcome := ⟨[], [], 0⟩

def egress (o : Outcome) : List Egress := o.copies ++ o.requests

end Outcome

end MediaRelay
