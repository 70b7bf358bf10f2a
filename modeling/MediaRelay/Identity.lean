import MediaRelay.Media.Kind
import MediaRelay.Table

/-! Who is who: rooms, participants, and the streams that participants send. -/

namespace MediaRelay

structure RoomId where
  number : UInt32
  deriving DecidableEq, Repr, Inhabited

structure ParticipantId where
  number : UInt32
  deriving DecidableEq, Repr, Inhabited

/-- A stream is named by who sends it and what it carries. -/
structure StreamId where
  sender : ParticipantId
  kind : Kind
  deriving DecidableEq, Repr, Inhabited

instance : Key RoomId where
  rank r := r.number.toNat
  rank_inj := by
    rintro ⟨a⟩ ⟨b⟩ h
    exact congrArg RoomId.mk (UInt32.toNat_inj.mp h)

instance : Key ParticipantId where
  rank p := p.number.toNat
  rank_inj := by
    rintro ⟨a⟩ ⟨b⟩ h
    exact congrArg ParticipantId.mk (UInt32.toNat_inj.mp h)

namespace RoomId

def text (r : RoomId) : String := toString r.number.toNat

end RoomId

namespace ParticipantId

/-- The sender id under which the relay itself speaks; no participant has it. -/
def relay : ParticipantId := ⟨0⟩

def isRelay (p : ParticipantId) : Bool := p == relay

def text (p : ParticipantId) : String := toString p.number.toNat

end ParticipantId

namespace StreamId

/-- By sender, then by kind. -/
def rank (s : StreamId) : Nat := s.sender.number.toNat * 3 + s.kind.code.toNat

theorem rank_inj {a b : StreamId} (h : a.rank = b.rank) : a = b := by
  obtain ⟨⟨m⟩, j⟩ := a
  obtain ⟨⟨n⟩, k⟩ := b
  have hj : j.code.toNat < 3 := by cases j <;> decide
  have hk : k.code.toNat < 3 := by cases k <;> decide
  simp only [rank] at h
  have hmn : m = n := UInt32.toNat_inj.mp (by omega)
  have hjk : j.code = k.code := UInt8.toNat_inj.mp (by omega)
  have hkind : some j = some k := by rw [← Kind.ofCode?_code j, hjk, Kind.ofCode?_code k]
  rw [hmn, Option.some.inj hkind]

def text (s : StreamId) : String := s!"{s.sender.text}/{s.kind.name}"

end StreamId

instance : Key StreamId where
  rank := StreamId.rank
  rank_inj := StreamId.rank_inj

end MediaRelay
