import MediaRelay.Proofs.Room.Operations
import MediaRelay.Relay

/-!
The rooms that a relay keeps are coherent, open, of the relay's protocol version and without the
relay itself as a member (`Room.Kept`). `Room.Evolves` lists what one input can do to such a room.
-/

namespace MediaRelay

variable {F : Type}

namespace Room

structure Kept (r : Room F) (id : RoomId) : Prop extends Coherent r where
  name : r.id = id
  protocol : r.version = protocolVersion
  isOpen : r.closed = false
  withoutRelay : r.members.contains .relay = false

namespace SameSeats

variable {r r' : Room F}

theorem kept (h : r.SameSeats r') {id : RoomId} (hr : r.Kept id) (hc : r'.Coherent) : r'.Kept id :=
  ⟨hc, h.id.trans hr.name, h.version.trans hr.protocol, h.closed.trans hr.isOpen,
    h.members ▸ hr.withoutRelay⟩

end SameSeats

/-- Participants leave one after another. -/
def expel (r : Room F) : List ParticipantId → Room F
  | [] => r
  | p :: rest => (r.leave p).1.expel rest

theorem Coherent.expel {r : Room F} (h : r.Coherent) (gone : List ParticipantId) :
    (r.expel gone).Coherent := by
  induction gone generalizing r with
  | nil => exact h
  | cons p rest ih => exact ih (h.leave p)

/-- A room that is closed is not kept. -/
def unlessClosed (r : Room F) : Option (Room F) := if r.closed then none else some r

theorem unlessClosed_eq_some_iff {r r' : Room F} :
    r.unlessClosed = some r' ↔ r.closed = false ∧ r = r' := by
  unfold unlessClosed
  cases r.closed <;> simp

theorem leave_of_closed {r : Room F} (h : r.Coherent) (hclosed : r.closed) (p : ParticipantId) :
    (r.leave p).1 = r := by
  obtain ⟨-, refusal, hleave⟩ | ⟨hp, -⟩ := r.leave_cases p
  · rw [hleave]
  · rw [h.isOpen_of_member hp] at hclosed
    cases hclosed

theorem expel_of_closed {r : Room F} (h : r.Coherent) (hclosed : r.closed)
    (gone : List ParticipantId) : r.expel gone = r := by
  induction gone with
  | nil => rfl
  | cons p rest ih => rw [Room.expel, leave_of_closed h hclosed p, ih]

theorem leave_contains (r : Room F) (p q : ParticipantId) :
    (r.leave p).1.members.contains q ↔ r.members.contains q ∧ q ≠ p := by
  obtain ⟨hp, refusal, hleave⟩ | ⟨-, hleave⟩ := r.leave_cases p
  · rw [hleave]
    refine ⟨fun hq => ⟨hq, ?_⟩, fun hq => hq.1⟩
    rintro rfl
    rw [hp] at hq
    cases hq
  · rw [hleave]
    show ((r.members.erase p).map _).contains q ↔ _
    rw [Table.contains_map, Table.contains_erase, and_comm]

theorem expel_contains (r : Room F) (gone : List ParticipantId) (q : ParticipantId) :
    (r.expel gone).members.contains q ↔ r.members.contains q ∧ q ∉ gone := by
  induction gone generalizing r with
  | nil => simp [expel]
  | cons p rest ih => rw [expel, ih, leave_contains, List.mem_cons, not_or, and_assoc]

theorem leave_frame (r : Room F) (p : ParticipantId) :
    (r.leave p).1.id = r.id ∧ (r.leave p).1.version = r.version := by
  obtain ⟨-, refusal, hleave⟩ | ⟨-, hleave⟩ := r.leave_cases p
  · rw [hleave]
    exact ⟨rfl, rfl⟩
  · rw [hleave]
    exact ⟨rfl, rfl⟩

theorem expel_frame (r : Room F) (gone : List ParticipantId) :
    (r.expel gone).id = r.id ∧ (r.expel gone).version = r.version := by
  induction gone generalizing r with
  | nil => exact ⟨rfl, rfl⟩
  | cons p rest ih =>
    obtain ⟨hid, hversion⟩ := ih (r.leave p).1
    obtain ⟨hid', hversion'⟩ := r.leave_frame p
    exact ⟨hid.trans hid', hversion.trans hversion'⟩

theorem Kept.leave {r : Room F} {id : RoomId} (hr : r.Kept id) (p : ParticipantId)
    (hopen : (r.leave p).1.closed = false) : (r.leave p).1.Kept id := by
  obtain ⟨hid, hversion⟩ := r.leave_frame p
  refine ⟨hr.toCoherent.leave p, hid.trans hr.name, hversion.trans hr.protocol, hopen, ?_⟩
  rw [Bool.eq_false_iff]
  intro hrelay
  have := ((r.leave_contains p _).mp hrelay).1
  rw [hr.withoutRelay] at this
  cases this

/-- A room that closes on the way stays as it is then. -/
theorem Coherent.unlessClosed_expel {r : Room F} (h : r.Coherent) (gone : List ParticipantId) :
    r.unlessClosed.bind (fun r => (r.expel gone).unlessClosed) = (r.expel gone).unlessClosed := by
  cases hclosed : r.closed with
  | true => simp [unlessClosed, hclosed, expel_of_closed h hclosed]
  | false => simp [unlessClosed, hclosed]

/-- Only the presence of the sender changes. -/
theorem touch_eq (r : Room F) (p : ParticipantId) (source : Endpoint) (now : Time) :
    ∃ presence, (r.touch p source now).1 = { r with presence } := by
  obtain ⟨-, ht⟩ | ⟨-, ht⟩ := r.touch_cases p source now
  · exact ⟨r.presence, by rw [ht]⟩
  · exact ⟨_, by rw [ht]⟩

variable [Arithmetic F]

/-- Members come in by joining, and only leaving closes a room. -/
theorem signal_frame (r : Room F) (now : Time) (act : Event.Act) :
    (r.signal now act).id = r.id ∧ (r.signal now act).version = r.version ∧
      ((r.signal now act).closed → r.closed ∨ ∃ p, act = .leave p) ∧
      ∀ q, (r.signal now act).members.contains q →
        r.members.contains q ∨ ∃ role version, act = .join q role version := by
  cases act with
  | join p role version =>
    obtain ⟨refusal, hjoin⟩ | ⟨-, -, -, -, hjoin⟩ := r.join_cases p role version now
    · rw [signal, hjoin]
      exact ⟨rfl, rfl, .inl, fun _ => .inl⟩
    · rw [signal, hjoin]
      refine ⟨rfl, rfl, .inl, fun q hq => ?_⟩
      obtain rfl | hq := Table.contains_insert.mp hq
      · exact .inr ⟨role, version, rfl⟩
      · exact .inl hq
  | leave p =>
    obtain ⟨hid, hversion⟩ := r.leave_frame p
    exact ⟨hid, hversion, fun _ => .inr ⟨p, rfl⟩, fun q hq =>
      .inl ((r.leave_contains p q).mp hq).1⟩
  | negotiate stream offer =>
    obtain ⟨refusal, hneg⟩ | ⟨_, _, -, -, -, -, ⟨_, -, hneg⟩ | ⟨-, -, hneg⟩⟩ :=
      r.negotiate_cases stream.sender stream.kind offer now
    all_goals
      rw [signal, hneg]
      exact ⟨rfl, rfl, .inl, fun _ => .inl⟩
  | subscribe p stream =>
    obtain ⟨refusal, hsub⟩ | ⟨_, _, -, -, -, -, -, -, ⟨-, hsub⟩ | ⟨-, hsub⟩⟩ :=
      r.subscribe_cases p stream now
    all_goals
      rw [signal, hsub]
      exact ⟨rfl, rfl, .inl, fun _ => .inl⟩
  | unsubscribe p stream =>
    obtain ⟨refusal, hun⟩ | ⟨-, hun⟩ := r.unsubscribe_cases p stream
    all_goals
      rw [signal, hun]
      exact ⟨rfl, rfl, .inl, fun _ => .inl⟩
  | setMuted receiver sender muted =>
    obtain ⟨refusal, hset⟩ | ⟨m, hm, -, hset⟩ := r.setMuted_cases receiver sender muted
    · rw [signal, hset]
      exact ⟨rfl, rfl, .inl, fun _ => .inl⟩
    · rw [signal, hset]
      refine ⟨rfl, rfl, .inl, fun q hq => .inl ?_⟩
      obtain rfl | hq := Table.contains_insert.mp hq
      · exact Table.contains_of_get? hm
      · exact hq
  | setDeafened p deafened =>
    obtain ⟨refusal, hset⟩ | ⟨m, hm, hset⟩ := r.setDeafened_cases p deafened
    · rw [signal, hset]
      exact ⟨rfl, rfl, .inl, fun _ => .inl⟩
    · rw [signal, hset]
      refine ⟨rfl, rfl, .inl, fun q hq => .inl ?_⟩
      obtain rfl | hq := Table.contains_insert.mp hq
      · exact Table.contains_of_get? hm
      · exact hq

/-- Takes in a datagram of a member. -/
def handle (r : Room F) (h : Hysteresis F) (d : Datagram) (raw : Bytes) (source : Endpoint)
    (now : Time) : Room F × Except DropReason Outcome :=
  if d.header.packetType = .feedback then
    (r.touch d.header.sender source now).1.takeFeedback h d raw now
  else (r.touch d.header.sender source now).1.forward h d raw now

theorem Coherent.handle {r : Room F} (hr : r.Coherent) (h : Hysteresis F) (d : Datagram)
    (raw : Bytes) (source : Endpoint) (now : Time) : (r.handle h d raw source now).1.Coherent := by
  unfold Room.handle
  split
  · exact (hr.touch _ _ _).takeFeedback h d raw now
  · exact (hr.touch _ _ _).forward h d raw now

theorem handle_frame (r : Room F) (h : Hysteresis F) (d : Datagram) (raw : Bytes)
    (source : Endpoint) (now : Time) :
    (r.handle h d raw source now).1.id = r.id ∧
      (r.handle h d raw source now).1.version = r.version ∧
      (r.handle h d raw source now).1.members = r.members ∧
      (r.handle h d raw source now).1.closed = r.closed := by
  obtain ⟨presence, ht⟩ := r.touch_eq d.header.sender source now
  unfold handle
  rw [ht]
  split
  · have hseats := takeFeedback_sameSeats { r with presence } h d raw now
    exact ⟨hseats.id, hseats.version, hseats.members, hseats.closed⟩
  · have hseats := forward_sameSeats { r with presence } h d raw now
    exact ⟨hseats.id, hseats.version, hseats.members, hseats.closed⟩

theorem handle_sameSeats (r : Room F) (h : Hysteresis F) (d : Datagram) (raw : Bytes)
    (source : Endpoint) (now : Time) :
    ∃ presence, SameSeats { r with presence } (r.handle h d raw source now).1 := by
  obtain ⟨presence, ht⟩ := r.touch_eq d.header.sender source now
  refine ⟨presence, ?_⟩
  unfold handle
  rw [ht]
  split
  · exact takeFeedback_sameSeats { r with presence } h d raw now
  · exact forward_sameSeats { r with presence } h d raw now

inductive Evolves (h : Hysteresis F) (now : Time) (id : RoomId) :
    Relay.Input → Room F → Room F → Prop
  | idle (input : Relay.Input) (r : Room F) : Evolves h now id input r r
  | signaled (act : Event.Act) (r : Room F)
      (hact : ∀ role version, act ≠ .join .relay role version) :
    Evolves h now id (.event ⟨id, act⟩) r (r.signal now act)
  | handled (raw : Bytes) (source : Endpoint) (d : Datagram) (r : Room F)
      (hdecode : Datagram.decode raw = .ok d) (hroom : d.header.room = id)
      (hmember : r.members.contains d.header.sender) :
    Evolves h now id (.datagram raw source) r (r.handle h d raw source now).1
  | ticked (gone : List ParticipantId) (r : Room F) :
    Evolves h now id .tick r ((r.expel gone).tick h now).1

namespace Evolves

variable {h : Hysteresis F} {now : Time} {id : RoomId} {input : Relay.Input} {r r' : Room F}

theorem coherent (he : Evolves h now id input r r') (hr : r.Coherent) : r'.Coherent := by
  cases he with
  | idle => exact hr
  | signaled act _ _ => exact hr.signal now act
  | handled raw source d _ _ _ _ => exact hr.handle h d raw source now
  | ticked gone _ => exact (hr.expel gone).tick h now

theorem kept (he : Evolves h now id input r r') (hr : r.Kept id) (hopen : r'.closed = false) :
    r'.Kept id := by
  have hc := he.coherent hr.toCoherent
  have hframe : r'.id = r.id ∧ r'.version = r.version ∧
      ∀ q, r'.members.contains q → r.members.contains q ∨ q ≠ .relay := by
    cases he with
    | idle => exact ⟨rfl, rfl, fun _ => .inl⟩
    | signaled act _ hact =>
      obtain ⟨hid, hversion, -, hmembers⟩ := r.signal_frame now act
      refine ⟨hid, hversion, fun q hq => (hmembers q hq).imp_right ?_⟩
      rintro ⟨role, version, rfl⟩ rfl
      exact hact role version rfl
    | handled raw source d _ _ _ _ =>
      obtain ⟨hid, hversion, hmembers, -⟩ := r.handle_frame h d raw source now
      exact ⟨hid, hversion, fun q hq => .inl (hmembers ▸ hq)⟩
    | ticked gone _ =>
      obtain ⟨hid, hversion⟩ := r.expel_frame gone
      have hseats := tick_sameSeats (r.expel gone) h now
      exact ⟨hseats.id.trans hid, hseats.version.trans hversion,
        fun q hq => .inl ((r.expel_contains gone q).mp (hseats.members ▸ hq)).1⟩
  obtain ⟨hid, hversion, hmembers⟩ := hframe
  refine ⟨hc, hid.trans hr.name, hversion.trans hr.protocol, hopen, ?_⟩
  rw [Bool.eq_false_iff]
  intro hrelay
  obtain hrelay | hne := hmembers _ hrelay
  · rw [hr.withoutRelay] at hrelay
    cases hrelay
  · exact hne rfl

end Evolves

end Room

end MediaRelay
