import MediaRelay.Proofs.Counting
import MediaRelay.Proofs.Delivery
import MediaRelay.Proofs.Room.Effects

/-!
How far a datagram reaches. One that is dropped leaves no more than the address of its sender; one
that is accepted changes its own room, and there no more than `Relay.Isolated` says.
-/

namespace MediaRelay

variable {F : Type}

namespace Directory

/-- The directory with a room in its present state. -/
def withRoom (d : Directory F) (id : RoomId) (r : Room F) : Directory F :=
  { d with rooms := d.rooms.insert id r }

theorem room?_withRoom_self (dir : Directory F) (id : RoomId) (r : Room F) :
    (dir.withRoom id r).room? id = some r := Table.get?_insert_self _ _ _

theorem room?_withRoom_of_ne (dir : Directory F) {id other : RoomId} (r : Room F)
    (h : other ≠ id) : (dir.withRoom id r).room? other = dir.room? other :=
  Table.get?_insert_of_ne _ _ h

end Directory

namespace Relay

variable [Arithmetic F] {r : Relay F}

theorem step_datagram (r : Relay F) (raw : Bytes) (source : Endpoint) (now : Time) :
    r.step now (.datagram raw source) = ((r.receive raw source now).1,
      ((r.receive raw source now).2.toOption.map (·.egress)).getD []) := rfl

theorem receive_settings (r : Relay F) (raw : Bytes) (source : Endpoint) (now : Time) :
    (r.receive raw source now).1.settings = r.settings := by
  unfold receive
  split <;> rfl

theorem receive_error_counters {raw : Bytes} {source : Endpoint} {now : Time} {reason : DropReason}
    (herr : (r.receive raw source now).2 = .error reason) :
    (r.receive raw source now).1.counters = (r.counters.received raw.length).dropped reason := by
  unfold receive at herr ⊢
  split
  · rename_i fault hdecode
    rw [hdecode] at herr
    cases herr
    rfl
  · rename_i d hdecode
    rw [hdecode] at herr
    simp only at herr ⊢
    rw [herr, countAnswer]

/-- A datagram that is accepted is one of a member, and its room takes it in. -/
theorem Reachable.accepted (h : r.Reachable) {raw : Bytes} {source : Endpoint} {now : Time}
    {d : Datagram} {out : Outcome} (hdecode : Datagram.decode raw = .ok d)
    (hok : (r.receive raw source now).2 = .ok out) :
    ∃ room room', r.directory.room? d.header.room = some room ∧ room.Kept d.header.room ∧
      room.members.contains d.header.sender ∧
      room.handle r.settings.hysteresis d raw source now = (room', .ok out) ∧
      (r.receive raw source now).1.directory = r.directory.withRoom d.header.room room' := by
  obtain ⟨-, reason, hrefused⟩ | ⟨d', room, hdecode', hroom, hm, hrooms, hanswer⟩ :=
    receive_cases h.sound raw source now
  · cases hok.symm.trans hrefused
  · obtain rfl : d = d' := Except.ok.inj (hdecode.symm.trans hdecode')
    exact ⟨room, _, hroom, h.sound _ _ hroom, hm, Prod.ext rfl (hanswer.symm.trans hok), hrooms⟩

theorem Reachable.feedback_accepted (h : r.Reachable) {raw : Bytes} {source : Endpoint} {now : Time}
    {d : Datagram} {message : Feedback} {out : Outcome} (hdecode : Datagram.decode raw = .ok d)
    (hmessage : d.feedback = .ok message) (hok : (r.receive raw source now).2 = .ok out) :
    ∃ room room', r.directory.room? d.header.room = some room ∧
      (room.receivers message.stream).contains d.header.sender ∧
      (r.receive raw source now).1.directory = r.directory.withRoom d.header.room room' ∧
      if message.body.isForSender then
        room' = room.heard d.header.sender source now ∧
          out.egress = [⟨d.header.room, message.stream.sender, raw⟩]
      else
        (room.heard d.header.sender source now).Adapted room' message.stream d.header.sender := by
  obtain ⟨room, room', hroom, hkept, hm, hhandle, hrooms⟩ := h.accepted hdecode hok
  rw [hkept.handle_of_member hm, if_pos (Datagram.type_of_feedback hmessage)] at hhandle
  obtain ⟨hsubscribed, htaken⟩ := (hkept.heard hm source now).takeFeedback_message hmessage hhandle
  rw [show (room.heard d.header.sender source now).id = d.header.room from hkept.name] at htaken
  exact ⟨room, room', hroom, hsubscribed, hrooms, htaken⟩

/-- What a datagram changes, by what becomes of it. -/
structure Isolated (r r' : Relay F) (raw : Bytes) (source : Endpoint) (now : Time)
    (answer : Except DropReason Outcome) (egress : List Egress) : Prop where
  settings : r'.settings = r.settings
  dropped : ∀ reason, answer = .error reason →
    egress = [] ∧
    (∀ other, r'.counters.dropCount other =
      if other = reason then r.counters.dropCount other + 1 else r.counters.dropCount other) ∧
    (r'.directory = r.directory ∨
      ∃ d room, Datagram.decode raw = .ok d ∧ r.directory.room? d.header.room = some room ∧
        r'.directory =
          r.directory.withRoom d.header.room (room.heard d.header.sender source now))
  media : ∀ d out, Datagram.decode raw = .ok d → d.header.packetType ≠ .feedback →
    answer = .ok out →
    ∃ room id s', r.directory.room? d.header.room = some room ∧ d.header.stream? = some id ∧
      r'.directory = r.directory.withRoom d.header.room
        ((room.heard d.header.sender source now).setStream id s')
  passed : ∀ d message out, Datagram.decode raw = .ok d → d.feedback = .ok message →
    message.body.isForSender → answer = .ok out →
    egress = [⟨d.header.room, message.stream.sender, raw⟩] ∧
    ∃ room, r.directory.room? d.header.room = some room ∧
      (room.receivers message.stream).contains d.header.sender ∧
      r'.directory = r.directory.withRoom d.header.room (room.heard d.header.sender source now)
  told : ∀ d message out, Datagram.decode raw = .ok d → d.feedback = .ok message →
    message.body.isForSender = false → answer = .ok out →
    ∃ room room', r.directory.room? d.header.room = some room ∧
      (room.receivers message.stream).contains d.header.sender ∧
      (room.heard d.header.sender source now).Adapted room' message.stream d.header.sender ∧
      r'.directory = r.directory.withRoom d.header.room room'

theorem Reachable.datagram_isolation (h : r.Reachable) (raw : Bytes) (source : Endpoint)
    (now : Time) :
    Isolated r (r.step now (.datagram raw source)).1 raw source now (r.receive raw source now).2
      (r.step now (.datagram raw source)).2 := by
  refine ⟨receive_settings r raw source now, fun reason herr => ⟨?_, fun other => ?_, ?_⟩,
    ?_, ?_, ?_⟩
  · rw [step_datagram, herr]
    rfl
  · rw [step_datagram, receive_error_counters herr, Counters.dropCount_dropped]
    rfl
  · obtain ⟨hsame, -⟩ | ⟨d, room, hdecode, hroom, hm, hrooms, hanswer⟩ :=
      receive_cases h.sound raw source now
    · exact .inl hsame
    · have hheard := (h.sound _ _ hroom).handle_error hm (Prod.ext rfl (hanswer.symm.trans herr))
      exact .inr ⟨d, room, hdecode, hroom, hheard ▸ hrooms⟩
  · intro d out hdecode htype hok
    obtain ⟨room, room', hroom, hkept, hm, hhandle, hrooms⟩ := h.accepted hdecode hok
    obtain ⟨id, s', hid, rfl⟩ := hkept.handle_media hm htype hhandle
    exact ⟨room, id, s', hroom, hid, hrooms⟩
  · intro d message out hdecode hmessage hbody hok
    obtain ⟨room, room', hroom, hsubscribed, hrooms, htaken⟩ :=
      h.feedback_accepted hdecode hmessage hok
    rw [if_pos hbody] at htaken
    obtain ⟨rfl, hegress⟩ := htaken
    refine ⟨?_, room, hroom, hsubscribed, hrooms⟩
    rw [step_datagram, hok]
    exact hegress
  · intro d message out hdecode hmessage hbody hok
    obtain ⟨room, room', hroom, hsubscribed, hrooms, htaken⟩ :=
      h.feedback_accepted hdecode hmessage hok
    rw [if_neg (Bool.eq_false_iff.mp hbody)] at htaken
    exact ⟨room, room', hroom, hsubscribed, htaken, hrooms⟩

/-- A packet that puts a frame that was seen already into another layer. -/
theorem datagram_isolation_contradiction :
    let r := (callOfTwo [⟨.base, 200000⟩, ⟨⟨1, 0⟩, 500000⟩]).run
      [(0, .datagram (wireBytes (videoPacket 0 0 .base [])) anyEndpoint)]
    let raw := wireBytes (videoPacket 1 0 ⟨1, 0⟩ [])
    let r' := (r.step 1 (.datagram raw anyEndpoint)).1
    r.Reachable ∧ r'.counters.dropCount .dependencyMismatch = 1 ∧
      Isolated r r' raw anyEndpoint 1 (r.receive raw anyEndpoint 1).2
        (r.step 1 (.datagram raw anyEndpoint)).2 := by
  intro r raw r'
  have hr : r.Reachable := (callOfTwo_reachable _).run _
  exact ⟨hr, by decide +kernel, hr.datagram_isolation raw anyEndpoint 1⟩

end Relay

end MediaRelay
