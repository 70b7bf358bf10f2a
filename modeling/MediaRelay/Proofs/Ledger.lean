import Mathlib.Algebra.BigOperators.Group.List.Basic
import Mathlib.Data.UInt
import MediaRelay.Proofs.Delivery
import MediaRelay.Proofs.Room.Speech

/-!
What an onlooker counts who sees each datagram come and go and knows who is in which room
(`Relay.ledger`). `Counters.Grows` says that counters keep up with such a ledger, each modulo `2 ^ 64`.
-/

namespace MediaRelay

namespace Egress

/-- The sender that the header names. -/
def sender? (e : Egress) : Option ParticipantId :=
  (Datagram.decode e.payload).toOption.map (·.header.sender)

def message? (e : Egress) : Option Feedback :=
  (Datagram.decode e.payload).toOption.bind (·.feedback.toOption)

/-- A datagram of a participant that is handed on. -/
def isCopy (e : Egress) : Bool := e.sender?.any (!·.isRelay)

/-- A datagram of the relay's own. -/
def isSpoken (e : Egress) : Bool := e.sender?.any (·.isRelay)

/-- The relay asks for a keyframe. -/
def asksKeyframe (e : Egress) : Bool := e.isSpoken && e.message?.any (·.body = .keyframeRequest)

theorem sender?_of_decode {e : Egress} {d : Datagram} (h : Datagram.decode e.payload = .ok d) :
    e.sender? = some d.header.sender := by
  rw [sender?, h]
  rfl

namespace Tells

variable {e : Egress} {room : RoomId} {receiver : ParticipantId} {message : Feedback}

theorem sender? (h : e.Tells room receiver message) : e.sender? = some .relay := by
  obtain ⟨d, hdecode, -, hsender, -⟩ := h.content
  rw [sender?_of_decode hdecode, hsender]

theorem message? (h : e.Tells room receiver message) : e.message? = some message := by
  obtain ⟨d, hdecode, -, -, hmessage⟩ := h.content
  rw [Egress.message?, hdecode]
  show d.feedback.toOption = some message
  rw [hmessage]
  rfl

theorem isSpoken (h : e.Tells room receiver message) : e.isSpoken := by
  rw [Egress.isSpoken, h.sender?]
  rfl

theorem not_isCopy (h : e.Tells room receiver message) : e.isCopy = false := by
  rw [isCopy, h.sender?]
  rfl

theorem asksKeyframe_iff (h : e.Tells room receiver message) :
    e.asksKeyframe ↔ message.body = .keyframeRequest := by
  simp [asksKeyframe, h.isSpoken, h.message?]

end Tells

end Egress

def isFeedback (raw : Bytes) : Bool :=
  (Datagram.decode raw).toOption.any (·.header.packetType = .feedback)

structure Ledger where
  datagrams : Nat := 0
  bytes : Nat := 0
  dropped : DropReason → Nat := fun _ => 0
  accepted : Nat := 0
  /-- The accepted ones that are feedback. -/
  feedback : Nat := 0
  copies : Nat := 0
  copiedBytes : Nat := 0
  withheld : Nat := 0
  spoken : Nat := 0
  requests : Nat := 0
  removed : Nat := 0

namespace Ledger

instance : Add Ledger where
  add l l' :=
    { datagrams := l.datagrams + l'.datagrams
      bytes := l.bytes + l'.bytes
      dropped := fun reason => l.dropped reason + l'.dropped reason
      accepted := l.accepted + l'.accepted
      feedback := l.feedback + l'.feedback
      copies := l.copies + l'.copies
      copiedBytes := l.copiedBytes + l'.copiedBytes
      withheld := l.withheld + l'.withheld
      spoken := l.spoken + l'.spoken
      requests := l.requests + l'.requests
      removed := l.removed + l'.removed }

/-- A datagram, what became of it, what was sent, and how many copies were withheld. -/
def ofDatagram (raw : Bytes) (answer : Except DropReason Outcome) (egress : List Egress)
    (withheld : Nat) : Ledger :=
  { datagrams := 1
    bytes := raw.length
    dropped := fun reason => match answer with
      | .error why => if reason = why then 1 else 0
      | .ok _ => 0
    accepted := if answer.isOk then 1 else 0
    feedback := if answer.isOk && isFeedback raw then 1 else 0
    copies := (egress.filter (·.isCopy)).length
    copiedBytes := ((egress.filter (·.isCopy)).map (·.payload.length)).sum
    withheld
    spoken := (egress.filter (·.isSpoken)).length
    requests := (egress.filter (·.asksKeyframe)).length }

/-- Messages of the relay, the keyframe requests among them, and participants it took out. -/
def ofTick (spoken requests removed : Nat) : Ledger := { spoken, requests, removed }

theorem ofTick_add (spoken requests removed spoken' requests' removed' : Nat) :
    ofTick spoken requests removed + ofTick spoken' requests' removed' =
      ofTick (spoken + spoken') (requests + requests') (removed + removed') := rfl

theorem ofTick_split (spoken requests removed : Nat) :
    ofTick spoken requests removed = ofTick 0 0 removed + ofTick spoken requests 0 := by
  rw [ofTick_add, Nat.zero_add, Nat.zero_add, Nat.add_zero]

/-- Each datagram is accepted or dropped for one reason. -/
def Balanced (l : Ledger) : Prop :=
  l.datagrams = (DropReason.all.map l.dropped).sum + l.accepted

theorem Balanced.add {l l' : Ledger} (h : l.Balanced) (h' : l'.Balanced) : (l + l').Balanced := by
  have hsum : (DropReason.all.map fun reason => l.dropped reason + l'.dropped reason).sum =
      (DropReason.all.map l.dropped).sum + (DropReason.all.map l'.dropped).sum :=
    List.sum_map_add
  show l.datagrams + l'.datagrams = (DropReason.all.map fun reason => l.dropped reason +
    l'.dropped reason).sum + (l.accepted + l'.accepted)
  rw [Balanced] at h h'
  omega

theorem ofDatagram_balanced (raw : Bytes) (answer : Except DropReason Outcome)
    (egress : List Egress) (withheld : Nat) : (ofDatagram raw answer egress withheld).Balanced := by
  cases answer with
  | error reason => cases reason <;> rfl
  | ok out => rfl

end Ledger

namespace Counters

/-- The counters grow by what a ledger says. -/
structure Grows (c c' : Counters) (l : Ledger) : Prop where
  datagrams : c'.datagramsReceived = c.datagramsReceived + .ofNat l.datagrams
  bytes : c'.bytesReceived = c.bytesReceived + .ofNat l.bytes
  dropped : ∀ reason, c'.dropCount reason = c.dropCount reason + .ofNat (l.dropped reason)
  feedback : c'.feedbackReceived = c.feedbackReceived + .ofNat l.feedback
  copies : c'.packetsForwarded = c.packetsForwarded + .ofNat l.copies
  copiedBytes : c'.bytesForwarded = c.bytesForwarded + .ofNat l.copiedBytes
  withheld : c'.layerDrops = c.layerDrops + .ofNat l.withheld
  spoken : c'.feedbackSent = c.feedbackSent + .ofNat l.spoken
  requests : c'.keyframeRequestsSent = c.keyframeRequestsSent + .ofNat l.requests
  removed : c'.participantsTimedOut = c.participantsTimedOut + .ofNat l.removed

namespace Grows

variable {c c' c'' : Counters} {l l' : Ledger}

theorem refl (c : Counters) : c.Grows c {} := by
  constructor <;> simp

theorem trans (h : c.Grows c' l) (h' : c'.Grows c'' l') : c.Grows c'' (l + l') := by
  have hsum {x y z : UInt64} {m n : Nat} (hy : y = x + .ofNat m) (hz : z = y + .ofNat n) :
      z = x + .ofNat (m + n) := by
    rw [hz, hy, UInt64.ofNat_add, UInt64.add_assoc]
  exact ⟨hsum h.datagrams h'.datagrams, hsum h.bytes h'.bytes,
    fun reason => hsum (h.dropped reason) (h'.dropped reason), hsum h.feedback h'.feedback,
    hsum h.copies h'.copies, hsum h.copiedBytes h'.copiedBytes, hsum h.withheld h'.withheld,
    hsum h.spoken h'.spoken, hsum h.requests h'.requests, hsum h.removed h'.removed⟩

end Grows

/-- The counters hold what a ledger says. -/
structure Accounts (c : Counters) (l : Ledger) : Prop where
  datagrams : c.datagramsReceived = .ofNat l.datagrams
  bytes : c.bytesReceived = .ofNat l.bytes
  outcomes : c.datagramsReceived = (DropReason.all.map c.dropCount).sum + .ofNat l.accepted
  dropped : ∀ reason, c.dropCount reason = .ofNat (l.dropped reason)
  feedback : c.feedbackReceived = .ofNat l.feedback
  copies : c.packetsForwarded = .ofNat l.copies
  copiedBytes : c.bytesForwarded = .ofNat l.copiedBytes
  withheld : c.layerDrops = .ofNat l.withheld
  spoken : c.feedbackSent = .ofNat l.spoken
  requests : c.keyframeRequestsSent = .ofNat l.requests
  removed : c.participantsTimedOut = .ofNat l.removed

theorem ofNat_sum {α : Type} (f : α → Nat) (list : List α) :
    UInt64.ofNat (list.map f).sum = (list.map fun a => UInt64.ofNat (f a)).sum := by
  induction list with
  | nil => rfl
  | cons a rest ih =>
    rw [List.map_cons, List.sum_cons, UInt64.ofNat_add, ih, List.map_cons, List.sum_cons]

/-- Counters that grew from zero by a balanced ledger hold it. -/
theorem Grows.accounts {c : Counters} {l : Ledger} (h : zero.Grows c l) (hl : l.Balanced) :
    c.Accounts l := by
  have hdropped (reason : DropReason) : c.dropCount reason = .ofNat (l.dropped reason) :=
    (h.dropped reason).trans (UInt64.zero_add _)
  have hdatagrams := h.datagrams.trans (UInt64.zero_add _)
  have houtcomes : c.datagramsReceived =
      (DropReason.all.map c.dropCount).sum + .ofNat l.accepted := by
    rw [hdatagrams, hl, UInt64.ofNat_add, ofNat_sum, List.map_congr_left fun reason _ =>
      hdropped reason]
  exact ⟨hdatagrams, h.bytes.trans (UInt64.zero_add _), houtcomes, hdropped,
    h.feedback.trans (UInt64.zero_add _), h.copies.trans (UInt64.zero_add _),
    h.copiedBytes.trans (UInt64.zero_add _), h.withheld.trans (UInt64.zero_add _),
    h.spoken.trans (UInt64.zero_add _), h.requests.trans (UInt64.zero_add _),
    h.removed.trans (UInt64.zero_add _)⟩

end Counters

namespace Relay

variable {F : Type}

def participants (r : Relay F) (id : RoomId) : List ParticipantId :=
  ((r.directory.room? id).map (·.members.keys)).getD []

theorem mem_participants_iff {r : Relay F} {id : RoomId} {p : ParticipantId} :
    p ∈ r.participants id ↔
      ∃ room, r.directory.room? id = some room ∧ room.members.contains p := by
  unfold participants
  cases hroom : r.directory.room? id with
  | none => simp
  | some room => simp [Table.mem_keys_iff]

/-- Those who are in a room in one state and not in the other. -/
def removed (r r' : Relay F) : List (RoomId × ParticipantId) :=
  r.directory.rooms.keys.flatMap fun id =>
    ((r.participants id).filter (· ∉ r'.participants id)).map (id, ·)

/-- How many packets the downlink of a receiver withheld so far. -/
def withheldOn (r : Relay F) (room : RoomId) (id : StreamId) (p : ParticipantId) : Nat :=
  ((r.link? room id p).map (·.withheld)).getD 0

/-- The subscribers of a stream whose downlinks withheld more packets in one state than in the
other. -/
def withheldFrom (r r' : Relay F) (room : RoomId) (id : StreamId) : List ParticipantId :=
  (r.subscribers room id).keys.filter fun p => r.withheldOn room id p < r'.withheldOn room id p

/-- How many copies of a datagram were withheld between one state and the other. -/
def withheldCopies (r r' : Relay F) (raw : Bytes) : Nat :=
  match (Datagram.decode raw).toOption.bind fun d => d.header.stream?.map (d.header.room, ·) with
  | some (room, id) => (r.withheldFrom r' room id).length
  | none => 0

variable [Arithmetic F]

/-- What a step adds to the ledger. -/
def posting (r : Relay F) (now : Time) (input : Input) : Ledger :=
  let (r', egress) := r.step now input
  match input with
  | .event _ => {}
  | .datagram raw source =>
    .ofDatagram raw (r.receive raw source now).2 egress (r.withheldCopies r' raw)
  | .tick =>
    .ofTick (egress.filter (·.isSpoken)).length (egress.filter (·.asksKeyframe)).length
      (r.removed r').length

theorem posting_datagram (r : Relay F) (raw : Bytes) (source : Endpoint) (now : Time) :
    r.posting now (.datagram raw source) =
      .ofDatagram raw (r.receive raw source now).2 (r.step now (.datagram raw source)).2
        (r.withheldCopies (r.receive raw source now).1 raw) := rfl

theorem posting_tick (r : Relay F) (now : Time) :
    r.posting now .tick =
      .ofTick ((r.step now .tick).2.filter (·.isSpoken)).length
        ((r.step now .tick).2.filter (·.asksKeyframe)).length
        (r.removed (r.step now .tick).1).length := rfl

/-- What a run adds up to. -/
def ledger (r : Relay F) : List (Time × Input) → Ledger
  | [] => {}
  | (now, input) :: rest => r.posting now input + ledger (r.step now input).1 rest

theorem ledger_balanced (r : Relay F) (inputs : List (Time × Input)) : (r.ledger inputs).Balanced := by
  induction inputs generalizing r with
  | nil => rfl
  | cons first rest ih =>
    obtain ⟨now, input⟩ := first
    have hstep : (r.posting now input).Balanced := by
      cases input with
      | event e => rfl
      | datagram raw source => exact Ledger.ofDatagram_balanced raw _ _ _
      | tick => rfl
    exact hstep.add (ih _)

end Relay

end MediaRelay
