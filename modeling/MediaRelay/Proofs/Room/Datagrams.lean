import MediaRelay.Proofs.Guard
import MediaRelay.Proofs.Room.Media

/-!
Datagrams in a room. A media datagram that is accepted passes through one stream in one of three
ways (`Room.Passage`), one that is refused is stopped in one of three (`Room.Stopped`), and feedback
either goes on to the sender or into the reporter's own downlink.
-/

namespace MediaRelay

variable {F : Type}

theorem PacketType.of_frame {type : PacketType} (h : type = .video ∨ type = .screen) :
    type ≠ .audio ∧ type ≠ .fec ∧ type ≠ .feedback := by
  obtain rfl | rfl := h
  · exact ⟨nofun, nofun, nofun⟩
  · exact ⟨nofun, nofun, nofun⟩

theorem Datagram.type_of_feedback {d : Datagram} {message : Feedback}
    (h : d.feedback = .ok message) : d.header.packetType = .feedback := by
  unfold feedback at h
  split at h
  · assumption
  · cases h

namespace Room

/-- A media datagram finds its stream if the sender may send the kind and the stream is negotiated
in the datagram's codec. -/
theorem route_eq_ok_iff {r : Room F} {header : Header} {s : Stream F}
    {receivers : List ParticipantId} :
    r.route header = .ok (s, receivers) ↔
      ∃ kind sender subscribers, header.kind? = some kind ∧
        r.routing.members.get? header.sender = some sender ∧ sender.role.send.allows kind ∧
        r.routing.subscribers.get? ⟨header.sender, kind⟩ = some subscribers ∧
        r.streams.get? ⟨header.sender, kind⟩ = some s ∧ header.codec = s.graph.codec ∧
        receivers = subscribers.keys := by
  constructor
  · intro h
    unfold route at h
    cases hk : header.kind? with
    | none => simp [hk, Guard.throw_eq] at h
    | some kind =>
      cases hm : r.routing.members.get? header.sender with
      | none => simp [hk, hm, Guard.throw_eq] at h
      | some sender =>
        cases ha : sender.role.send.allows kind with
        | false => simp [hk, hm, ha, Guard.throw_eq, Guard.error_bind] at h
        | true =>
          cases hb : r.routing.subscribers.get? ⟨header.sender, kind⟩ with
          | none => simp [hk, hm, ha, hb, Guard.throw_eq] at h
          | some subscribers =>
            cases hs : r.streams.get? ⟨header.sender, kind⟩ with
            | none => simp [hk, hm, ha, hb, hs, Guard.throw_eq] at h
            | some s' =>
              by_cases hc : header.codec = s'.graph.codec
              · simp [hk, hm, ha, hb, hs, hc, Guard.pure_eq] at h
                obtain ⟨rfl, rfl⟩ := h
                exact ⟨kind, sender, subscribers, rfl, rfl, ha, hb, hs, hc, rfl⟩
              · simp only [hk, hm, ha, hb, hs, if_true, if_neg hc, Guard.throw_eq, Guard.error_bind,
                  reduceCtorEq] at h
  · rintro ⟨kind, sender, subscribers, hk, hm, ha, hb, hs, hc, rfl⟩
    simp [route, hk, hm, ha, hb, hs, hc, Guard.pure_eq]

/-- How an accepted media datagram passes through its stream `s`: the stream with the packet noted,
those it is offered to, and what their downlinks do. -/
inductive Passage [Arithmetic F] (r : Room F) (h : Hysteresis F) (d : Datagram) (raw : Bytes)
    (now : Time) (s : Stream F) (receivers : List ParticipantId) :
    Stream F → List ParticipantId → (Downlink F → Downlink F × Fate) → Prop
  | audio (htype : d.header.packetType = .audio) :
    Passage r h d raw now s receivers
      { s with uplink := s.uplink.record d.header raw.length now }
      (receivers.filter fun p => (r.hears? p s.id.sender).getD false)
      fun link => link.send d.header.sequence raw.length now
  | frame (descriptor : Descriptor) (history : FrameHistory) (seen : Sighting)
      (htype : d.header.packetType = .video ∨ d.header.packetType = .screen)
      (hdescriptor : d.descriptor = some descriptor)
      (hseen : s.history.observe d.header.layer descriptor s.graph = (history, .ok seen)) :
    Passage r h d raw now s receivers
      { s with history, uplink := s.uplink.record d.header raw.length now }
      receivers
      fun link => ((link.aimAt h s.graph).switchAt history seen).offer seen.layer
        d.header.sequence raw.length now
  | repair (htype : d.header.packetType = .fec) :
    Passage r h d raw now s receivers s receivers
      fun link => link.offer d.header.layer d.header.sequence raw.length now

/-- A packet is accepted if it has a route and a passage, and then spread over the stream. -/
theorem forward_eq_ok_iff [Arithmetic F] {r r' : Room F} {h : Hysteresis F} {d : Datagram}
    {raw : Bytes} {now : Time} {out : Outcome} :
    r.forward h d raw now = (r', .ok out) ↔
      ∃ s receivers s' receivers' step, r.route d.header = .ok (s, receivers) ∧
        Passage r h d raw now s receivers s' receivers' step ∧
        r' = r.setStream s.id (s'.accept step receivers').1 ∧
        out = r.copiesOf raw (s'.accept step receivers').2 := by
  constructor
  · intro hok
    unfold forward at hok
    cases hr : r.route d.header with
    | error reason => simp [hr] at hok
    | ok found =>
      obtain ⟨s, receivers⟩ := found
      simp only [hr] at hok
      cases ht : d.header.packetType with
      | audio =>
        simp only [ht, Prod.mk.injEq, Except.ok.injEq] at hok
        exact ⟨s, receivers, _, _, _, rfl, .audio ht, hok.1.symm, hok.2.symm⟩
      | fec =>
        simp only [ht, Prod.mk.injEq, Except.ok.injEq] at hok
        exact ⟨s, receivers, _, _, _, rfl, .repair ht, hok.1.symm, hok.2.symm⟩
      | feedback => simp [ht] at hok
      | video | screen =>
        simp only [ht] at hok
        cases hd : d.descriptor with
        | none => simp [hd] at hok
        | some descriptor =>
          simp only [hd, forwardFrame] at hok
          cases hseen : s.history.observe d.header.layer descriptor s.graph with
          | mk history answer =>
            cases answer with
            | error fault => simp [hseen] at hok
            | ok seen =>
              simp only [hseen, Prod.mk.injEq, Except.ok.injEq] at hok
              exact ⟨s, receivers, _, _, _, rfl,
                .frame descriptor history seen (by simp [ht]) hd hseen, hok.1.symm, hok.2.symm⟩
  · rintro ⟨s, receivers, s', receivers', step, hr, hpass, rfl, rfl⟩
    unfold forward
    cases hpass with
    | audio ht => simp only [hr, ht]; rfl
    | repair ht => simp only [hr, ht]; rfl
    | frame descriptor history seen ht hd hseen =>
      obtain ht | ht := ht
      · simp only [hr, ht, hd, forwardFrame, hseen]; rfl
      · simp only [hr, ht, hd, forwardFrame, hseen]; rfl

/-- How a media datagram is stopped: it has no route, or it is a packet of a frame that does not say
what the frame depends on, or that contradicts the history. -/
inductive Stopped (r : Room F) (d : Datagram) : Room F → DropReason → Prop
  | astray (reason : DropReason) (hroute : r.route d.header = .error reason) : Stopped r d r reason
  | bare (s : Stream F) (receivers : List ParticipantId)
      (hroute : r.route d.header = .ok (s, receivers))
      (htype : d.header.packetType = .video ∨ d.header.packetType = .screen)
      (hdescriptor : d.descriptor = none) :
    Stopped r d r .missingDescriptor
  | contradicted (s : Stream F) (receivers : List ParticipantId) (descriptor : Descriptor)
      (history : FrameHistory) (fault : FrameHistory.Fault)
      (hroute : r.route d.header = .ok (s, receivers))
      (htype : d.header.packetType = .video ∨ d.header.packetType = .screen)
      (hdescriptor : d.descriptor = some descriptor)
      (hseen : s.history.observe d.header.layer descriptor s.graph = (history, .error fault)) :
    Stopped r d (r.setStream s.id { s with history }) .dependencyMismatch

theorem forward_eq_error_iff [Arithmetic F] {r r' : Room F} {h : Hysteresis F} {d : Datagram}
    {raw : Bytes} {now : Time} {reason : DropReason} :
    r.forward h d raw now = (r', .error reason) ↔ Stopped r d r' reason := by
  constructor
  · intro herr
    unfold forward at herr
    cases hr : r.route d.header with
    | error why =>
      simp only [hr, Prod.mk.injEq, Except.error.injEq] at herr
      obtain ⟨rfl, rfl⟩ := herr
      exact .astray why hr
    | ok found =>
      obtain ⟨s, receivers⟩ := found
      simp only [hr] at herr
      cases ht : d.header.packetType with
      | audio | fec => simp [ht] at herr
      | feedback =>
        -- feedback is of no kind, so it has no route
        obtain ⟨kind, -, -, hkind, -⟩ := route_eq_ok_iff.mp hr
        rw [Header.kind?, ht] at hkind
        cases hkind
      | video | screen =>
        have htype : d.header.packetType = .video ∨ d.header.packetType = .screen := by simp [ht]
        simp only [ht] at herr
        cases hd : d.descriptor with
        | none =>
          simp only [hd, Prod.mk.injEq, Except.error.injEq] at herr
          obtain ⟨rfl, rfl⟩ := herr
          exact .bare s receivers hr htype hd
        | some descriptor =>
          simp only [hd, forwardFrame] at herr
          cases hseen : s.history.observe d.header.layer descriptor s.graph with
          | mk history answer =>
            cases answer with
            | ok seen => simp [hseen] at herr
            | error fault =>
              simp only [hseen, Prod.mk.injEq, Except.error.injEq] at herr
              obtain ⟨rfl, rfl⟩ := herr
              exact .contradicted s receivers descriptor history fault hr htype hd hseen
  · intro hstopped
    unfold forward
    cases hstopped with
    | astray _ hr => rw [hr]
    | bare s receivers hr htype hd =>
      obtain ht | ht := htype
      · simp only [hr, ht, hd]
      · simp only [hr, ht, hd]
    | contradicted s receivers descriptor history fault hr htype hd hseen =>
      obtain ht | ht := htype
      · simp only [hr, ht, hd, forwardFrame, hseen]
      · simp only [hr, ht, hd, forwardFrame, hseen]

/-- A media datagram that is refused leaves the room as it was, unless the history noted the frame
number of a packet that contradicts an earlier one. -/
theorem forward_error_cases [Arithmetic F] {r r' : Room F} {h : Hysteresis F} {d : Datagram}
    {raw : Bytes} {now : Time} {reason : DropReason}
    (herr : r.forward h d raw now = (r', .error reason)) :
    r' = r ∨ ∃ s receivers descriptor history fault, r.route d.header = .ok (s, receivers) ∧
      d.descriptor = some descriptor ∧
      s.history.observe d.header.layer descriptor s.graph = (history, .error fault) ∧
      r' = r.setStream s.id { s with history } := by
  cases forward_eq_error_iff.mp herr with
  | astray _ _ => exact .inl rfl
  | bare _ _ _ _ _ => exact .inl rfl
  | contradicted s receivers descriptor history fault hroute _ hdescriptor hseen =>
    exact .inr ⟨s, receivers, descriptor, history, fault, hroute, hdescriptor, hseen, rfl⟩

namespace Passage

variable [Arithmetic F] {r : Room F} {h : Hysteresis F} {d : Datagram} {raw : Bytes} {now : Time}
  {s s' : Stream F} {receivers receivers' : List ParticipantId}
  {step : Downlink F → Downlink F × Fate}

theorem same_id (hp : Passage r h d raw now s receivers s' receivers' step) : s'.id = s.id := by
  cases hp <;> rfl

theorem same_graph (hp : Passage r h d raw now s receivers s' receivers' step) :
    s'.graph = s.graph := by
  cases hp <;> rfl

theorem same_links (hp : Passage r h d raw now s receivers s' receivers' step) :
    s'.links = s.links := by
  cases hp <;> rfl

theorem step_receiver (hp : Passage r h d raw now s receivers s' receivers' step)
    (link : Downlink F) : (step link).1.receiver = link.receiver := by
  cases hp with
  | audio _ => rfl
  | frame _ _ _ _ _ _ => simp
  | repair _ => simp

theorem sublist (hp : Passage r h d raw now s receivers s' receivers' step) :
    receivers'.Sublist receivers := by
  cases hp with
  | audio _ => exact List.filter_sublist
  | frame _ _ _ _ _ _ => exact List.Sublist.refl _
  | repair _ => exact List.Sublist.refl _

/-- The downlinks after an accepted packet. -/
theorem link_get? (hp : Passage r h d raw now s receivers s' receivers' step)
    (hn : receivers.Nodup) (p : ParticipantId) :
    (s'.accept step receivers').1.links.get? p =
      if p ∈ receivers' then (s.links.get? p).map fun link => (step link).1
      else s.links.get? p := by
  rw [← hp.same_links]
  exact Stream.spread_get? (hn.sublist hp.sublist) p

end Passage

/-- What a message of a receiver tells its downlink. -/
inductive Intake [Arithmetic F] (link : Downlink F) (now : Time) :
    Feedback.Body → Downlink F → Prop
  | report (report : Report) : Intake link now (.congestion report) (link.onReport report now)
  | estimate (rate : UInt64) :
    Intake link now (.receiverEstimate rate) (link.onReceiverEstimate rate.toNat now)

/-- Feedback that is accepted comes from a subscriber. It is passed on to the sender, or its
downlink takes it in. -/
theorem takeFeedback_ok [Arithmetic F] {r r' : Room F} {h : Hysteresis F} {d : Datagram}
    {raw : Bytes} {now : Time} {out : Outcome}
    (hok : r.takeFeedback h d raw now = (r', .ok out)) :
    ∃ message subscribers s, d.feedback = .ok message ∧
      r.routing.subscribers.get? message.stream = some subscribers ∧
      subscribers.contains d.header.sender ∧ r.streams.get? message.stream = some s ∧
      ((r' = r ∧ out = { Outcome.none with copies := [⟨r.id, message.stream.sender, raw⟩] } ∧
          ∀ link link', ¬Intake (F := F) link now message.body link') ∨
        ∃ link link', s.links.get? d.header.sender = some link ∧
          Intake link now message.body link' ∧
          (r', out) = r.adapt h s link' d.header.sender now) := by
  unfold takeFeedback at hok
  cases hm : d.feedback with
  | error fault => simp [hm] at hok
  | ok message =>
    simp only [hm] at hok
    cases hb : r.routing.subscribers.get? message.stream with
    | none => simp [hb] at hok
    | some subscribers =>
      cases hs : r.streams.get? message.stream with
      | none => simp [hb, hs] at hok
      | some s =>
        simp only [hb, hs] at hok
        cases hc : subscribers.contains d.header.sender with
        | false => simp [hc] at hok
        | true =>
          refine ⟨message, subscribers, s, rfl, hb, hc, hs, ?_⟩
          simp only [hc, Bool.not_true, Bool.false_eq_true, if_false] at hok
          cases hbody : message.body with
          | nack sequences =>
            simp only [hbody, Prod.mk.injEq, Except.ok.injEq] at hok
            exact .inl ⟨hok.1.symm, hok.2.symm, fun _ _ hi => by cases hi⟩
          | keyframeRequest =>
            simp only [hbody, Prod.mk.injEq, Except.ok.injEq] at hok
            exact .inl ⟨hok.1.symm, hok.2.symm, fun _ _ hi => by cases hi⟩
          | congestion report =>
            cases hl : s.links.get? d.header.sender with
            | none => simp [hbody, hl] at hok
            | some link =>
              simp only [hbody, hl, Prod.mk.injEq, Except.ok.injEq] at hok
              exact .inr ⟨link, _, rfl, .report report, Prod.ext hok.1.symm hok.2.symm⟩
          | receiverEstimate rate =>
            cases hl : s.links.get? d.header.sender with
            | none => simp [hbody, hl] at hok
            | some link =>
              simp only [hbody, hl, Prod.mk.injEq, Except.ok.injEq] at hok
              exact .inr ⟨link, _, rfl, .estimate rate, Prod.ext hok.1.symm hok.2.symm⟩

theorem takeFeedback_error [Arithmetic F] {r r' : Room F} {h : Hysteresis F} {d : Datagram}
    {raw : Bytes} {now : Time} {reason : DropReason}
    (herr : r.takeFeedback h d raw now = (r', .error reason)) : r' = r := by
  unfold takeFeedback at herr
  split at herr
  · cases herr; rfl
  split at herr
  · simp only at herr
    split at herr
    · cases herr; rfl
    · split at herr <;> cases herr
      rfl
  · cases herr; rfl

theorem adapt_sameSeats [Arithmetic F] (r : Room F) (h : Hysteresis F) (s : Stream F)
    (link : Downlink F) (receiver : ParticipantId) (now : Time) :
    r.SameSeats (r.adapt h s link receiver now).1 :=
  (SameSeats.setStream r _ _).trans (requestKeyframe_sameSeats _ _ _)

/-- Only the reporter's downlink and the wish for a keyframe change. -/
theorem adapt_get? [Arithmetic F] (r : Room F) (h : Hysteresis F) (s : Stream F)
    (link : Downlink F) (receiver : ParticipantId) (now : Time) (other : StreamId) :
    (r.adapt h s link receiver now).1.streams.get? other =
      if other = s.id then
        some ({ s with
          links := s.links.insert receiver (link.retarget h s.graph).1
          keyframeWanted := s.keyframeWanted || (link.retarget h s.graph).2.wantsKeyframe
          }.asked (r.keyframes.isOpen s.id now))
      else r.streams.get? other := by
  unfold adapt
  simp only [requestKeyframe_streams, setStream]
  by_cases ho : other = s.id
  · simp [ho]
  · simp [ho, Table.get?_modify_of_ne, Table.get?_insert_of_ne]

theorem forward_sameSeats [Arithmetic F] (r : Room F) (h : Hysteresis F) (d : Datagram)
    (raw : Bytes) (now : Time) : r.SameSeats (r.forward h d raw now).1 := by
  cases hf : r.forward h d raw now with
  | mk r' answer =>
    cases answer with
    | error reason =>
      obtain rfl | ⟨s, _, _, history, _, -, -, -, rfl⟩ := forward_error_cases hf
      · exact .refl _
      · exact .setStream r _ _
    | ok out =>
      obtain ⟨s, _, s', _, _, -, -, rfl, -⟩ := forward_eq_ok_iff.mp hf
      exact .setStream r _ _

theorem takeFeedback_sameSeats [Arithmetic F] (r : Room F) (h : Hysteresis F) (d : Datagram)
    (raw : Bytes) (now : Time) : r.SameSeats (r.takeFeedback h d raw now).1 := by
  cases hf : r.takeFeedback h d raw now with
  | mk r' answer =>
    cases answer with
    | error reason =>
      rw [takeFeedback_error hf]
      exact .refl r
    | ok out =>
      obtain ⟨_, _, s, -, -, -, -, ⟨rfl, -, -⟩ | ⟨_, link', -, -, hadapt⟩⟩ := takeFeedback_ok hf
      · exact .refl _
      · rw [show r' = (r.adapt h s link' d.header.sender now).1 from congrArg Prod.fst hadapt]
        exact adapt_sameSeats _ _ _ _ _ _

end Room

end MediaRelay
