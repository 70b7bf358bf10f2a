import MediaRelay.Proofs.Attribution

/-!
What a datagram of a member does to its room. Refused, it leaves the room as it was; media writes
the stream it belongs to; feedback goes on to the sender or changes the reporter's own downlink
(`Room.Adapted`).
-/

namespace MediaRelay

variable {F : Type}

namespace Room

/-- The room after a datagram of a member came in. -/
def heard (r : Room F) (p : ParticipantId) (source : Endpoint) (now : Time) : Room F :=
  { r with presence := r.presence.insert p ⟨some source, now⟩ }

theorem Coherent.touch_of_member {r : Room F} (hr : r.Coherent) {p : ParticipantId}
    (hp : r.members.contains p) (source : Endpoint) (now : Time) :
    r.touch p source now = (r.heard p source now, true) :=
  if_pos ((hr.presence p).trans hp)

theorem Coherent.heard {r : Room F} (hr : r.Coherent) {p : ParticipantId}
    (hp : r.members.contains p) (source : Endpoint) (now : Time) :
    (r.heard p source now).Coherent := by
  have htouched := hr.touch p source now
  rwa [hr.touch_of_member hp] at htouched

variable [Arithmetic F]

theorem Coherent.handle_of_member {r : Room F} (hr : r.Coherent) {d : Datagram}
    (hp : r.members.contains d.header.sender) (h : Hysteresis F) (raw : Bytes) (source : Endpoint)
    (now : Time) :
    r.handle h d raw source now =
      if d.header.packetType = .feedback then
        (r.heard d.header.sender source now).takeFeedback h d raw now
      else (r.heard d.header.sender source now).forward h d raw now := by
  rw [Room.handle, hr.touch_of_member hp]

theorem Coherent.handle_error {r r' : Room F} (hr : r.Coherent) {h : Hysteresis F} {d : Datagram}
    (hp : r.members.contains d.header.sender) {raw : Bytes} {source : Endpoint} {now : Time}
    {reason : DropReason} (herr : r.handle h d raw source now = (r', .error reason)) :
    r' = r.heard d.header.sender source now := by
  rw [hr.handle_of_member hp] at herr
  split at herr
  · exact takeFeedback_error herr
  · exact (hr.heard hp source now).forward_error herr

omit [Arithmetic F] in
theorem Coherent.stream?_of_route {r : Room F} (hr : r.Coherent) {header : Header} {s : Stream F}
    {receivers : List ParticipantId} (hroute : r.route header = .ok (s, receivers)) :
    header.stream? = some s.id := by
  obtain ⟨kind, -, -, hkind, -, -, -, hs, -, -⟩ := route_eq_ok_iff.mp hroute
  rw [Header.stream?, hkind, (hr.streams _ s hs).2.name]
  rfl

theorem Coherent.handle_media {r r' : Room F} (hr : r.Coherent) {h : Hysteresis F} {d : Datagram}
    (hp : r.members.contains d.header.sender) {raw : Bytes} {source : Endpoint} {now : Time}
    {out : Outcome} (htype : d.header.packetType ≠ .feedback)
    (hok : r.handle h d raw source now = (r', .ok out)) :
    ∃ id s', d.header.stream? = some id ∧
      r' = (r.heard d.header.sender source now).setStream id s' := by
  rw [hr.handle_of_member hp, if_neg htype] at hok
  obtain ⟨s, receivers, s', receivers', step, hroute, -, hset, -⟩ := forward_eq_ok_iff.mp hok
  exact ⟨s.id, _, (hr.heard hp source now).stream?_of_route hroute, hset⟩

/-- One downlink of a stream changes, and with it the wish for a keyframe, which may take the gate
of the stream and the next sequence number of the relay. -/
def Adapted (r r' : Room F) (id : StreamId) (p : ParticipantId) : Prop :=
  ∃ s link link' keyframeWanted lastRequest nextSequence,
    r.streams.get? id = some s ∧ s.links.get? p = some link ∧
    (∀ other, other ≠ id → lastRequest.get? other = r.keyframes.lastRequest.get? other) ∧
    r' = { r with
      streams := r.streams.insert id { s with links := s.links.insert p link', keyframeWanted }
      keyframes := { r.keyframes with lastRequest }
      nextSequence }

omit [Arithmetic F] in
theorem requestKeyframe_eq {r : Room F} {id : StreamId} {s : Stream F}
    (hs : r.streams.get? id = some s) (now : Time) :
    ∃ keyframeWanted lastRequest nextSequence,
      (∀ other, other ≠ id → lastRequest.get? other = r.keyframes.lastRequest.get? other) ∧
      (r.requestKeyframe id now).1 = { r with
        streams := r.streams.insert id { s with keyframeWanted }
        keyframes := { r.keyframes with lastRequest }
        nextSequence } := by
  have hidle : r = { r with
      streams := r.streams.insert id { s with keyframeWanted := s.keyframeWanted }
      keyframes := { r.keyframes with lastRequest := r.keyframes.lastRequest }
      nextSequence := r.nextSequence } := by
    rw [show { s with keyframeWanted := s.keyframeWanted } = s from rfl, Table.insert_eq_self hs]
  unfold requestKeyframe
  rw [hs]
  simp only
  split
  · exact ⟨_, _, _, fun _ _ => rfl, hidle⟩
  · unfold KeyframeGate.request
    split
    · exact ⟨_, _, _, fun other hother => Table.get?_insert_of_ne _ _ hother, rfl⟩
    · exact ⟨_, _, _, fun _ _ => rfl, hidle⟩

theorem adapt_adapted {r : Room F} {s : Stream F} {p : ParticipantId} {link : Downlink F}
    (hs : r.streams.get? s.id = some s) (hl : s.links.get? p = some link) (h : Hysteresis F)
    (told : Downlink F) (now : Time) : r.Adapted (r.adapt h s told p now).1 s.id p := by
  have hset := Table.get?_insert_self r.streams s.id
    { s with
      links := s.links.insert p (told.retarget h s.graph).1
      keyframeWanted := s.keyframeWanted || (told.retarget h s.graph).2.wantsKeyframe }
  obtain ⟨keyframeWanted, lastRequest, nextSequence, hothers, hrequest⟩ :=
    requestKeyframe_eq (r := r.setStream s.id _) hset now
  refine ⟨s, link, (told.retarget h s.graph).1, keyframeWanted, lastRequest, nextSequence, hs, hl,
    hothers, hrequest.trans ?_⟩
  simp only [setStream, Table.insert_insert_self]

end Room

/-- Lists of missing packets and requests for keyframes are for the sender. -/
def Feedback.Body.isForSender : Feedback.Body → Bool
  | .nack _ | .keyframeRequest => true
  | .congestion _ | .receiverEstimate _ => false

namespace Room

variable [Arithmetic F]

theorem Intake.not_forSender {link link' : Downlink F} {now : Time} {body : Feedback.Body}
    (h : Intake link now body link') : body.isForSender = false := by
  cases h <;> rfl

theorem exists_intake (link : Downlink F) (now : Time) {body : Feedback.Body}
    (h : body.isForSender = false) : ∃ link', Intake link now body link' := by
  cases body with
  | nack _ | keyframeRequest => cases h
  | congestion report => exact ⟨_, .report report⟩
  | receiverEstimate rate => exact ⟨_, .estimate rate⟩

theorem Coherent.takeFeedback_message {r r' : Room F} (hr : r.Coherent) {h : Hysteresis F}
    {d : Datagram} {raw : Bytes} {now : Time} {out : Outcome} {message : Feedback}
    (hmessage : d.feedback = .ok message) (hok : r.takeFeedback h d raw now = (r', .ok out)) :
    (r.receivers message.stream).contains d.header.sender ∧
      if message.body.isForSender then
        r' = r ∧ out.egress = [⟨r.id, message.stream.sender, raw⟩]
      else r.Adapted r' message.stream d.header.sender := by
  obtain ⟨message', subscribers, s, hm, hsubscribers, hp, hs, htaken⟩ := takeFeedback_ok hok
  obtain rfl : message' = message := Except.ok.inj (hm.symm.trans hmessage)
  have hreceivers : subscribers = r.receivers message'.stream := by
    have hget := (hr.subscribers_eq message'.stream).symm.trans hsubscribers
    rw [hs] at hget
    exact (Option.some.inj hget).symm
  rw [hreceivers] at hp
  obtain ⟨-, hserves⟩ := hr.streams _ s hs
  refine ⟨hp, ?_⟩
  obtain ⟨rfl, rfl, hnone⟩ | ⟨link, link', hl, hintake, hadapt⟩ := htaken
  · obtain ⟨link, -⟩ := hserves.link_of_receiver hp
    have hbody : message'.body.isForSender := by
      rw [← Bool.not_eq_false]
      intro hbody
      obtain ⟨link', hintake⟩ := exists_intake link now hbody
      exact hnone link link' hintake
    rw [if_pos hbody]
    exact ⟨rfl, rfl⟩
  · rw [if_neg (Bool.eq_false_iff.mp hintake.not_forSender),
      show r' = (r.adapt h s link' d.header.sender now).1 from congrArg Prod.fst hadapt,
      ← hserves.name]
    exact adapt_adapted (hserves.name.symm ▸ hs) hl h link' now

end Room

end MediaRelay
