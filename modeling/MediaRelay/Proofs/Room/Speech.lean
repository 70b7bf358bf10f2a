import MediaRelay.Proofs.Room.Coherence
import MediaRelay.Proofs.Wire.Messages

/-!
What the relay says on its own. A message that has a wire form goes out under the relay's identity
(`Room.speak_tells`), and what goes out is read as it was meant (`Room.speak_said`). A tick tells the
sender of each stream what arrived of it (`Room.Coherent.tick_reports`).
-/

namespace MediaRelay

/-- The egress carries a message of the relay to a participant. -/
structure Egress.Tells (e : Egress) (room : RoomId) (receiver : ParticipantId) (message : Feedback) :
    Prop where
  home : e.room = room
  addressee : e.receiver = receiver
  content : ∃ d, Datagram.decode e.payload = .ok d ∧ d.header.room = room ∧
    d.header.sender = .relay ∧ d.feedback = .ok message

namespace Room

variable {F : Type} {r : Room F}

/-- What goes out is read under the identity of the relay, with the number that was next. -/
theorem speak_decode {receiver : ParticipantId} {message : Feedback} {e : Egress}
    (h : (r.speak receiver message).2 = some e) :
    e.room = r.id ∧ e.receiver = receiver ∧ ∃ d, Datagram.decode e.payload = .ok d ∧
      d.header.version = r.version ∧ d.header.room = r.id ∧ d.header.sender = .relay ∧
      d.header.sequence = r.nextSequence ∧ d.feedback = .ok message := by
  simp only [speak] at h
  split at h
  · rename_i payload hsaid
    obtain rfl := Option.some.inj h
    obtain ⟨d, hmade, hencode⟩ := Guard.bind_eq_ok.mp hsaid
    obtain ⟨body, hbody, hd⟩ := Guard.bind_eq_ok.mp hmade
    obtain rfl := Except.ok.inj hd
    have hdefined : Flags.none.isDefined := by decide
    exact ⟨rfl, rfl, _, Datagram.decode_eq_ok_iff.mpr ⟨hdefined, hencode⟩, rfl, rfl, rfl, rfl,
      (if_pos rfl).trans (Feedback.decode_of_encode hbody)⟩
  · cases h

/-- What the relay sends of its own is read as it was meant. -/
theorem speak_said {receiver : ParticipantId} {message : Feedback} {e : Egress}
    (h : (r.speak receiver message).2 = some e) : e.Tells r.id receiver message := by
  obtain ⟨hhome, haddressee, d, hdecode, -, hroom, hsender, -, hmessage⟩ := speak_decode h
  exact ⟨hhome, haddressee, d, hdecode, hroom, hsender, hmessage⟩

theorem speak_tells (hversion : r.version = protocolVersion) (receiver : ParticipantId)
    {message : Feedback} (h : message.body.IsWritable) :
    ∃ e, (r.speak receiver message).2 = some e ∧ e.Tells r.id receiver message := by
  obtain ⟨body, hbody⟩ := Feedback.Body.exists_encode_iff.mpr h
  obtain ⟨payload, hpayload⟩ : ∃ payload, message.encode = .ok payload :=
    ⟨_, Feedback.encode_eq_ok_iff.mpr ⟨body, hbody, rfl⟩⟩
  let d : Datagram :=
    { header := ⟨r.version, .feedback, .none, .none, r.id, .relay, r.nextSequence, 0, .base, false⟩
      descriptor := none
      payload }
  have hplain : Flags.none.hasDescriptor = false := by decide
  have hd : d.IsWritable := ⟨hversion, rfl, hplain, nofun, nofun⟩
  obtain ⟨b, hb⟩ := Datagram.exists_encode_iff.mpr hd
  have hmade : Datagram.ofFeedback d.header message = .ok d := by
    rw [Datagram.ofFeedback, hpayload]
    rfl
  have hsaid : (Datagram.ofFeedback d.header message >>= Datagram.encode) = .ok b := by
    rw [hmade]
    exact hb
  have hegress : (r.speak receiver message).2 = some ⟨r.id, receiver, b⟩ := by
    simp only [speak]
    rw [show (Datagram.ofFeedback _ message >>= Datagram.encode) = _ from hsaid]
  exact ⟨_, hegress, speak_said hegress⟩

theorem requestKeyframe_said {id : StreamId} {now : Time} {e : Egress}
    (h : (r.requestKeyframe id now).2 = some e) : e.Tells r.id id.sender ⟨id, .keyframeRequest⟩ := by
  unfold requestKeyframe at h
  split at h
  · cases h
  split at h
  · cases h
  simp only at h
  split at h
  · cases h
  · exact speak_said h

/-- A message of the relay, a request exactly if it asks for a keyframe. -/
def Emission.IsSpoken (e : Emission) : Prop :=
  ∃ room receiver message, e.egress.Tells room receiver message ∧
    (e.isRequest ↔ message.body = .keyframeRequest)

variable [Arithmetic F] {id : StreamId} {s : Stream F} {now : Time} {report : Report}

theorem reportArrivals_tells (hversion : r.version = protocolVersion)
    (hs : r.streams.get? id = some s) (htake : (s.uplink.takeReport now).2 = some report)
    (hreport : report.IsWritable) :
    ∃ e, .report e ∈ (r.reportArrivals id now).2 ∧
      e.Tells r.id id.sender ⟨id, .congestion report⟩ := by
  cases htaken : s.uplink.takeReport now with
  | mk uplink answer =>
    rw [htaken] at htake
    obtain rfl : answer = some report := htake
    have hspoken : ∃ e,
        ((r.setStream id { s with uplink }).speak id.sender ⟨id, .congestion report⟩).2 = some e ∧
          e.Tells r.id id.sender ⟨id, .congestion report⟩ :=
      speak_tells (r := r.setStream id { s with uplink }) hversion id.sender hreport
    obtain ⟨e, hsaid, htells⟩ := hspoken
    refine ⟨e, ?_, htells⟩
    simp only [reportArrivals, hs, htaken, hsaid]
    exact List.mem_singleton_self _

theorem tickStreams_reports (h : Hysteresis F) (hversion : r.version = protocolVersion)
    {ids : List StreamId} (hid : id ∈ ids) (hs : r.streams.get? id = some s)
    (htake : (s.uplink.takeReport now).2 = some report) (hreport : report.IsWritable) :
    ∃ e, .report e ∈ (r.tickStreams h now ids).2 ∧
      e.Tells r.id id.sender ⟨id, .congestion report⟩ := by
  induction ids generalizing r with
  | nil => cases hid
  | cons first rest ih =>
    simp only [tickStreams, tickStream, List.mem_append]
    by_cases hfirst : id = first
    · subst hfirst
      obtain ⟨e, he, htells⟩ := reportArrivals_tells hversion hs htake hreport
      exact ⟨e, .inl (.inl he), htells⟩
    · have hseats := tickStream_sameSeats r h now first
      have hs' : (r.tickStream h now first).1.streams.get? id = some s := by
        rw [tickStream_get?, if_neg hfirst, hs]
      obtain ⟨e, he, htells⟩ := ih (hseats.version.trans hversion)
        ((List.mem_cons.mp hid).resolve_left hfirst) hs'
      exact ⟨e, .inr he, hseats.id ▸ htells⟩

theorem reportArrivals_spoken (r : Room F) (id : StreamId) (now : Time) :
    ∀ e ∈ (r.reportArrivals id now).2, e.IsSpoken := by
  intro e he
  unfold reportArrivals at he
  split at he
  · cases he
  split at he
  · cases he
  · obtain ⟨egress, hsaid, rfl⟩ := Option.map_eq_some_iff.mp (Option.mem_toList.mp he)
    exact ⟨_, _, _, speak_said hsaid, by simp [Emission.isRequest]⟩

theorem tickStream_spoken (r : Room F) (h : Hysteresis F) (now : Time) (id : StreamId) :
    ∀ e ∈ (r.tickStream h now id).2, e.IsSpoken := by
  intro e he
  obtain hreport | hrequest := List.mem_append.mp he
  · exact r.reportArrivals_spoken id now e hreport
  · obtain ⟨egress, hsaid, rfl⟩ := Option.map_eq_some_iff.mp (Option.mem_toList.mp hrequest)
    exact ⟨_, _, _, requestKeyframe_said hsaid, by simp [Emission.isRequest]⟩

/-- All that a tick of a room sends is the relay's own. -/
theorem tickStreams_spoken (r : Room F) (h : Hysteresis F) (now : Time) (ids : List StreamId) :
    ∀ e ∈ (r.tickStreams h now ids).2, e.IsSpoken := by
  induction ids generalizing r with
  | nil => exact fun e he => by cases he
  | cons id rest ih =>
    intro e he
    obtain hfirst | hrest := List.mem_append.mp he
    · exact r.tickStream_spoken h now id e hfirst
    · exact ih _ e hrest

namespace Coherent

omit [Arithmetic F] in
theorem routed (hr : r.Coherent) (hs : r.streams.get? id = some s) :
    r.routing.subscribers.contains id := by
  have hreceivers := hr.subscribers_eq id
  rw [hs] at hreceivers
  exact Table.contains_of_get? hreceivers

/-- A tick is for all streams. -/
theorem tick_get? (hr : r.Coherent) (h : Hysteresis F) (now : Time) (id : StreamId) :
    (r.tick h now).1.streams.get? id =
      (r.streams.get? id).map (·.tick h now (r.keyframes.isOpen id now)) := by
  refine (r.tickStreams_get? h now r.routing.subscribers.keys_nodup id).trans ?_
  split
  · rfl
  · rename_i hid
    cases hs : r.streams.get? id with
    | none => rfl
    | some s => exact absurd (Table.mem_keys_iff.mpr (hr.routed hs)) hid

/-- The sender of a stream is told what arrived of it. -/
theorem tick_reports (hr : r.Coherent) (h : Hysteresis F) (hversion : r.version = protocolVersion)
    (hs : r.streams.get? id = some s) (htake : (s.uplink.takeReport now).2 = some report)
    (hreport : report.IsWritable) :
    ∃ e, .report e ∈ (r.tick h now).2 ∧ e.Tells r.id id.sender ⟨id, .congestion report⟩ :=
  tickStreams_reports h hversion (Table.mem_keys_iff.mpr (hr.routed hs)) hs htake hreport

end Coherent

end Room

end MediaRelay
