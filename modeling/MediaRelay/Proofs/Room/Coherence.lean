import MediaRelay.Event.Basic
import MediaRelay.Proofs.Room.Datagrams
import MediaRelay.Proofs.Room.Membership
import MediaRelay.Proofs.Serving

/-!
The invariant of a room. Members, subscriptions, streams, downlinks and presence agree with each
other, and the routing table is the view of them (`Room.Coherent`). Whatever is done to a room, in
whatever order, keeps it so.
-/

namespace MediaRelay.Room

variable {F : Type}

def roleOf? (r : Room F) (p : ParticipantId) : Option Role := (r.members.get? p).map (·.role)

def maySend (r : Room F) (p : ParticipantId) (kind : Kind) : Prop :=
  ∃ role, r.roleOf? p = some role ∧ role.send.allows kind

def mayReceive (r : Room F) (p : ParticipantId) (kind : Kind) : Prop :=
  ∃ role, r.roleOf? p = some role ∧ role.receive.allows kind

/-- What holds of a room before its routing table is made. -/
structure Seated (r : Room F) : Prop where
  occupied : ∀ id set, r.subscriptions.get? id = some set → ∃ p, set.contains p
  subscribed : ∀ id p, (r.receivers id).contains p →
    p ≠ id.sender ∧ r.mayReceive p id.kind ∧ r.maySend id.sender id.kind
  streams : ∀ id s, r.streams.get? id = some s →
    r.maySend id.sender id.kind ∧ s.Serves id (r.receivers id)
  presence : ∀ p, r.presence.contains p = r.members.contains p
  muted : ∀ p m q, r.members.get? p = some m → m.muted.contains q → r.members.contains q
  closed : r.closed → r.members.isEmpty

structure Coherent (r : Room F) : Prop extends Seated r where
  routing : r.routing = r.currentRouting

theorem contains_of_roleOf? {r : Room F} {p : ParticipantId} {role : Role}
    (h : r.roleOf? p = some role) : r.members.contains p := by
  unfold roleOf? at h
  cases hm : r.members.get? p with
  | none => simp [hm] at h
  | some m => exact Table.contains_of_get? hm

theorem roleOf?_of_get? {r : Room F} {p : ParticipantId} {m : Member}
    (h : r.members.get? p = some m) : r.roleOf? p = some m.role := by
  simp [roleOf?, h]

theorem maySend.member {r : Room F} {p : ParticipantId} {kind : Kind} (h : r.maySend p kind) :
    r.members.contains p :=
  let ⟨_, hrole, _⟩ := h
  contains_of_roleOf? hrole

theorem mayReceive.member {r : Room F} {p : ParticipantId} {kind : Kind} (h : r.mayReceive p kind) :
    r.members.contains p :=
  let ⟨_, hrole, _⟩ := h
  contains_of_roleOf? hrole

namespace Coherent

theorem publish {r : Room F} (h : r.Seated) : r.publish.Coherent :=
  ⟨⟨h.occupied, h.subscribed, h.streams, h.presence, h.muted, h.closed⟩, rfl⟩

variable {r : Room F}

theorem members_eq (h : r.Coherent) : r.routing.members = r.members := by rw [h.routing]; rfl

theorem subscribers_eq (h : r.Coherent) (id : StreamId) :
    r.routing.subscribers.get? id = (r.streams.get? id).map fun _ => r.receivers id := by
  rw [h.routing]
  exact Table.get?_map _ _ _

/-- The routing table names the streams. -/
theorem contains_subscribers (h : r.Coherent) (id : StreamId) :
    r.routing.subscribers.contains id = r.streams.contains id := by
  rw [Table.contains, h.subscribers_eq, Option.isSome_map, Table.contains]

theorem same_streams (h : r.Coherent) {r' : Room F} (h' : r'.Coherent)
    (hrouting : r'.routing = r.routing) (id : StreamId) :
    r'.streams.contains id = r.streams.contains id := by
  rw [← h'.contains_subscribers, hrouting, h.contains_subscribers]

/-- A room with somebody in it is open. -/
theorem isOpen_of_member (h : r.Coherent) {p : ParticipantId} (hp : r.members.contains p) :
    r.closed = false := by
  rw [Bool.eq_false_iff]
  intro hclosed
  have hempty := Table.isEmpty_iff.mp (h.closed hclosed) p
  simp [Table.contains, hempty] at hp

/-- A room with streams has members. -/
theorem isOpen_of_stream (h : r.Coherent) {id : StreamId} {s : Stream F}
    (hs : r.streams.get? id = some s) : r.closed = false :=
  h.isOpen_of_member (h.streams id s hs).1.member

end Coherent

namespace Seated

variable {r r' : Room F}

/-- Subscriptions and streams stay, and nobody loses the role they need. -/
theorem of_members (h : r.Seated) (hsubscriptions : r'.subscriptions = r.subscriptions)
    (hstreams : r'.streams = r.streams)
    (hroles : ∀ p role, r.roleOf? p = some role → r'.roleOf? p = some role)
    (hpresence : ∀ p, r'.presence.contains p = r'.members.contains p)
    (hmuted : ∀ p m q, r'.members.get? p = some m → m.muted.contains q → r'.members.contains q)
    (hclosed : r'.closed → r'.members.isEmpty) : r'.Seated := by
  have hreceivers (id : StreamId) : r'.receivers id = r.receivers id := by
    rw [receivers, hsubscriptions, receivers]
  have hsend {p : ParticipantId} {kind : Kind} (hp : r.maySend p kind) : r'.maySend p kind :=
    let ⟨role, hrole, ha⟩ := hp
    ⟨role, hroles p role hrole, ha⟩
  refine ⟨?_, ?_, ?_, hpresence, hmuted, hclosed⟩
  · rw [hsubscriptions]
    exact h.occupied
  · intro id p hp
    rw [hreceivers] at hp
    obtain ⟨hne, ⟨role, hrole, ha⟩, hsender⟩ := h.subscribed id p hp
    exact ⟨hne, ⟨role, hroles p role hrole, ha⟩, hsend hsender⟩
  · intro id s hs
    rw [hstreams] at hs
    obtain ⟨hsender, hserves⟩ := h.streams id s hs
    exact ⟨hsend hsender, hreceivers id ▸ hserves⟩

/-- Only streams change. -/
theorem of_streams (h : r.Seated) (hmembers : r'.members = r.members)
    (hsubscriptions : r'.subscriptions = r.subscriptions) (hpresence : r'.presence = r.presence)
    (hclosed : r'.closed = r.closed)
    (hstreams : ∀ id s', r'.streams.get? id = some s' →
      r.maySend id.sender id.kind ∧ s'.Serves id (r.receivers id)) : r'.Seated := by
  have hroles (p : ParticipantId) : r'.roleOf? p = r.roleOf? p := by rw [roleOf?, hmembers, roleOf?]
  have hreceivers (id : StreamId) : r'.receivers id = r.receivers id := by
    rw [receivers, hsubscriptions, receivers]
  refine ⟨?_, ?_, ?_, ?_, ?_, ?_⟩
  · rw [hsubscriptions]
    exact h.occupied
  · simpa only [hreceivers, mayReceive, maySend, hroles] using h.subscribed
  · simpa only [hreceivers, maySend, hroles] using hstreams
  · rw [hpresence, hmembers]
    exact h.presence
  · rw [hmembers]
    exact h.muted
  · rw [hclosed, hmembers]
    exact h.closed

theorem setStream (h : r.Seated) {id : StreamId} {s : Stream F}
    (hsend : r.maySend id.sender id.kind) (hs : s.Serves id (r.receivers id)) :
    (r.setStream id s).Seated := by
  refine h.of_streams rfl rfl rfl rfl fun other s' hget => ?_
  by_cases ho : other = id
  · subst ho
    simp only [Room.setStream, Table.get?_insert_self, Option.some.injEq] at hget
    exact ⟨hsend, hget ▸ hs⟩
  · rw [Room.setStream, Table.get?_insert_of_ne _ _ ho] at hget
    exact h.streams other s' hget

end Seated

/-- Only streams change, and each serves those it served before. -/
theorem Coherent.of_sameSeats {r r' : Room F} (h : r.Coherent) (hseats : r.SameSeats r')
    (hkeys : ∀ id, r'.streams.contains id = r.streams.contains id)
    (hstreams : ∀ id s s', r.streams.get? id = some s → r'.streams.get? id = some s' →
      s.Serves id (r.receivers id) → s'.Serves id (r.receivers id)) : r'.Coherent := by
  have hseated : r'.Seated := by
    refine h.toSeated.of_streams hseats.members hseats.subscriptions hseats.presence hseats.closed
      fun id s' hs' => ?_
    have hc := hkeys id
    rw [Table.contains_of_get? hs'] at hc
    obtain ⟨s, hs⟩ := Table.contains_iff.mp hc.symm
    obtain ⟨hsend, hserves⟩ := h.streams id s hs
    exact ⟨hsend, hstreams id s s' hs hs' hserves⟩
  refine ⟨hseated, ?_⟩
  rw [hseats.routing, h.routing, currentRouting, currentRouting, hseats.members]
  congr 1
  refine Table.ext_get? fun id => ?_
  have hreceivers : r'.receivers id = r.receivers id := by
    rw [receivers, hseats.subscriptions, receivers]
  have hc := hkeys id
  unfold Table.contains at hc
  rw [Table.get?_map, Table.get?_map, hreceivers]
  cases hs : r.streams.get? id <;> cases hs' : r'.streams.get? id <;> simp_all

end MediaRelay.Room
