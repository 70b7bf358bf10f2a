import MediaRelay.Proofs.Room.Keyframes

/-!
What becomes of the wish for a keyframe when nobody receives the stream. Receivers that go do not
take it along, and no datagram changes it then. It ends when a tick asks (`Room.Coherent.tick_bare`)
or when the stream is negotiated anew (`Room.negotiate_bare`).
-/

namespace MediaRelay

variable {F : Type}

namespace Stream

variable [Arithmetic F]

/-- Without receivers a tick finds no further reason to want a keyframe. -/
theorem tickLinks_bare {s : Stream F} (hbare : s.links.isEmpty) (h : Hysteresis F) (now : Time) :
    (s.tickLinks h now).keyframeWanted = s.keyframeWanted := by
  rw [tickLinks, Table.values_of_isEmpty (by rw [Table.isEmpty_map, hbare]), List.any_nil,
    Bool.or_false]

end Stream

namespace Room

/-- Whether a keyframe of the stream is wanted, if there is the stream. -/
def wish? (r : Room F) (id : StreamId) : Option Bool := (r.streams.get? id).map (·.keyframeWanted)

variable {r : Room F} {id : StreamId} {s s' : Stream F} {now : Time}

theorem wish?_of_get? (hs : r.streams.get? id = some s) : r.wish? id = some s.keyframeWanted := by
  rw [wish?, hs, Option.map_some]

/-- Who leaves does not change what the others' streams want. -/
theorem leave_wish {p : ParticipantId} (hs' : (r.leave p).1.streams.get? id = some s') :
    r.wish? id = some s'.keyframeWanted ∧
      ∀ now, (r.leave p).1.keyframes.isOpen id now = r.keyframes.isOpen id now := by
  obtain ⟨-, _, hleave⟩ | ⟨-, hleave⟩ := r.leave_cases p
  · rw [hleave] at hs' ⊢
    exact ⟨wish?_of_get? hs', fun _ => rfl⟩
  · rw [hleave] at hs' ⊢
    rw [stream_without] at hs'
    split at hs'
    · cases hs'
    · rename_i hid
      obtain ⟨s, hs, rfl⟩ := Option.map_eq_some_iff.mp hs'
      obtain ⟨hperiod, hentry⟩ := r.keyframes_without p
      refine ⟨(wish?_of_get? hs :), fun now => ?_⟩
      rw [KeyframeGate.isOpen, hentry, if_neg fun hown => hid hown.1, hperiod]
      rfl

theorem expel_wish {gone : List ParticipantId}
    (hs' : (r.expel gone).streams.get? id = some s') :
    r.wish? id = some s'.keyframeWanted ∧
      ∀ now, (r.expel gone).keyframes.isOpen id now = r.keyframes.isOpen id now := by
  induction gone generalizing r with
  | nil => exact ⟨wish?_of_get? hs', fun _ => rfl⟩
  | cons p rest ih =>
    obtain ⟨hwish, hopen⟩ := ih hs'
    obtain ⟨left, hleft, hsame⟩ := Option.map_eq_some_iff.mp hwish
    obtain ⟨hwish', hopen'⟩ := leave_wish hleft
    exact ⟨hsame ▸ hwish', fun now => (hopen now).trans (hopen' now)⟩

variable [Arithmetic F] {h : Hysteresis F} {d : Datagram} {raw : Bytes} {source : Endpoint}

/-- A stream without receivers does not come to want a keyframe by signaling. -/
theorem signal_bare {act : Event.Act} (hact : ∀ stream offer, act ≠ .negotiate stream offer)
    (hs' : (r.signal now act).streams.get? id = some s') (hbare : s'.links.isEmpty) :
    r.wish? id = some s'.keyframeWanted := by
  have hsame {r' : Room F} (hstreams : r'.streams = r.streams)
      (hs' : r'.streams.get? id = some s') : r.wish? id = some s'.keyframeWanted :=
    wish?_of_get? (hstreams ▸ hs')
  cases act with
  | join p role version => exact hsame (r.join_streams p role version now) hs'
  | leave p => exact (leave_wish hs').1
  | negotiate stream offer => exact absurd rfl (hact stream offer)
  | subscribe p stream =>
    obtain ⟨_, hsub⟩ | ⟨_, _, -, -, -, -, -, -, ⟨-, hsub⟩ | ⟨-, hsub⟩⟩ :=
      r.subscribe_cases p stream now
    · exact hsame (congrArg (·.1.streams) hsub) hs'
    · exact hsame (congrArg (·.1.streams) hsub) hs'
    · rw [signal, hsub, withReceiver, publish] at hs'
      by_cases hid : id = stream
      · subst hid
        rw [Table.get?_modify_self] at hs'
        obtain ⟨s, -, rfl⟩ := Option.map_eq_some_iff.mp hs'
        simp [Stream.addLink] at hbare
      · rw [Table.get?_modify_of_ne _ _ hid] at hs'
        exact wish?_of_get? hs'
  | unsubscribe p stream =>
    obtain ⟨_, hun⟩ | ⟨-, hun⟩ := r.unsubscribe_cases p stream
    · exact hsame (congrArg (·.1.streams) hun) hs'
    · rw [signal, hun, withoutReceiver, publish] at hs'
      by_cases hid : id = stream
      · subst hid
        rw [Table.get?_modify_self] at hs'
        obtain ⟨s, hs, rfl⟩ := Option.map_eq_some_iff.mp hs'
        exact (wish?_of_get? hs :)
      · rw [Table.get?_modify_of_ne _ _ hid] at hs'
        exact wish?_of_get? hs'
  | setMuted receiver sender muted => exact hsame (r.setMuted_streams receiver sender muted) hs'
  | setDeafened p deafened => exact hsame (r.setDeafened_streams p deafened) hs'

/-- A new stream that nobody waits for wants no keyframe. -/
theorem newStream_bare (r : Room F) (id : StreamId) (graph : LayerGraph) (now : Time)
    (hbare : (r.newStream id graph now).links.isEmpty) :
    (r.newStream id graph now).keyframeWanted = false := by
  refine List.foldlRecOn (motive := fun s : Stream F => s.links.isEmpty → s.keyframeWanted = false)
    _ _ (fun _ => rfl) (fun s _ p _ hbare => ?_) hbare
  simp [Stream.addLink] at hbare

/-- A negotiation that is accepted takes back the wish, if there are no receivers. -/
theorem negotiate_bare {stream : StreamId} {offer : Offer}
    (hs' : (r.negotiate stream.sender stream.kind offer now).1.streams.get? id = some s')
    (hbare : s'.links.isEmpty) :
    s'.keyframeWanted ↔ r.wish? id = some true ∧
      ¬(stream = id ∧
        Relay.done (r.negotiate stream.sender stream.kind offer now).2 = .ok ()) := by
  have hother {t : Stream F} {accepted : Prop}
      (hs' : (r.streams.insert stream t).get? id = some s') (hid : ¬stream = id) :
      s'.keyframeWanted ↔ r.wish? id = some true ∧ ¬(stream = id ∧ accepted) := by
    rw [Table.get?_insert_of_ne _ _ (Ne.symm hid)] at hs'
    simp [wish?_of_get? hs', hid]
  obtain ⟨_, hneg⟩ | ⟨_, graph, -, -, -, -, ⟨s, hs, hneg⟩ | ⟨hnone, -, hneg⟩⟩ :=
    r.negotiate_cases stream.sender stream.kind offer now
  · rw [hneg] at hs' ⊢
    simp [wish?_of_get? hs', Relay.done, Except.map]
  · rw [hneg] at hs' ⊢
    by_cases hid : stream = id
    · subst hid
      rw [setStream, Table.get?_insert_self] at hs'
      obtain rfl := Option.some.inj hs'
      simp only [Stream.renegotiate, Table.isEmpty_map] at hbare
      simp [Stream.renegotiate, hbare, Relay.done, Except.map]
    · exact hother hs' hid
  · rw [hneg] at hs' ⊢
    by_cases hid : stream = id
    · subst hid
      rw [publish, setStream, Table.get?_insert_self] at hs'
      obtain rfl := Option.some.inj hs'
      simp [newStream_bare _ _ _ _ hbare, Relay.done, Except.map]
    · exact hother hs' hid

/-- What a stream wants does not depend on the packets of it. -/
theorem Passage.same_wish {receivers receivers' : List ParticipantId}
    {step : Downlink F → Downlink F × Fate}
    (hp : Passage r h d raw now s receivers s' receivers' step) :
    s'.keyframeWanted = s.keyframeWanted := by
  cases hp <;> rfl

theorem Coherent.forward_wish (hr : r.Coherent)
    (hs' : (r.forward h d raw now).1.streams.get? id = some s') :
    r.wish? id = some s'.keyframeWanted := by
  cases hf : r.forward h d raw now with
  | mk after answer =>
    rw [hf] at hs'
    cases answer with
    | error reason =>
      rw [hr.forward_error hf] at hs'
      exact wish?_of_get? hs'
    | ok out =>
      obtain ⟨s, _, _, _, _, hroute, hpass, rfl, -⟩ := forward_eq_ok_iff.mp hf
      obtain ⟨kind, _, _, -, -, -, -, hs, -, -⟩ := route_eq_ok_iff.mp hroute
      rw [Room.setStream, (hr.streams _ s hs).2.name] at hs'
      by_cases hid : id = ⟨d.header.sender, kind⟩
      · subst hid
        rw [Table.get?_insert_self] at hs'
        obtain rfl := Option.some.inj hs'
        exact hpass.same_wish ▸ wish?_of_get? hs
      · rw [Table.get?_insert_of_ne _ _ hid] at hs'
        exact wish?_of_get? hs'

/-- Feedback on a stream without receivers is no reason to want a keyframe. -/
theorem takeFeedback_bare (hs' : (r.takeFeedback h d raw now).1.streams.get? id = some s')
    (hbare : s'.links.isEmpty) :
    r.wish? id = some s'.keyframeWanted := by
  cases hf : r.takeFeedback h d raw now with
  | mk after answer =>
    rw [hf] at hs'
    cases answer with
    | error reason =>
      rw [takeFeedback_error hf] at hs'
      exact wish?_of_get? hs'
    | ok out =>
      obtain ⟨_, _, s, -, -, -, -, ⟨rfl, -, -⟩ | ⟨_, _, -, -, hadapt⟩⟩ := takeFeedback_ok hf
      · exact wish?_of_get? hs'
      · rw [show after = _ from congrArg Prod.fst hadapt, adapt_get?] at hs'
        split at hs'
        · obtain rfl := Option.some.inj hs'
          simp [Stream.asked] at hbare
        · exact wish?_of_get? hs'

/-- Nobody can prompt a request for a stream without receivers. -/
theorem not_mem_prompted (hs : r.streams.get? id = some s) (hbare : s.links.isEmpty) :
    ⟨id, .keyframeRequest⟩ ∉ r.prompted h now d := by
  unfold prompted
  split
  · exact List.not_mem_nil
  · rename_i message _
    rw [Feedback.mem_askIf]
    rintro ⟨hdue, hbody⟩
    obtain rfl : id = message.stream := congrArg Feedback.stream hbody
    simp [hs, Stream.wantsOnce, Table.isEmpty_iff.mp hbare d.header.sender] at hdue

omit [Arithmetic F] in
/-- A stream that nobody receives had no receivers before, either, if nobody unsubscribed. -/
theorem Coherent.bare_of_bare (hr : r.Coherent) {r' : Room F} (hr' : r'.Coherent)
    (hsubscriptions : r'.subscriptions = r.subscriptions) (hs : r.streams.get? id = some s)
    (hs' : r'.streams.get? id = some s') (hbare : s'.links.isEmpty) : s.links.isEmpty := by
  refine Table.isEmpty_iff.mpr fun p => ?_
  have hlinks := (hr.streams id s hs).2.links p
  have hlinks' := (hr'.streams id s' hs').2.links p
  rw [receivers, hsubscriptions, ← receivers, ← hlinks, Table.isEmpty_iff.mp hbare p] at hlinks'
  exact Option.map_eq_none_iff.mp hlinks'.symm

theorem Coherent.handle_bare (hr : r.Coherent)
    (hs' : (r.handle h d raw source now).1.streams.get? id = some s') (hbare : s'.links.isEmpty) :
    ⟨id, .keyframeRequest⟩ ∉ r.prompted h now d ∧ r.wish? id = some s'.keyframeWanted := by
  have hwish : r.wish? id = some s'.keyframeWanted := by
    -- a touch changes the presence only, and no stream
    have htouched := hr.touch d.header.sender source now
    obtain ⟨presence, htouch⟩ := r.touch_eq d.header.sender source now
    rw [Room.handle, htouch] at hs'
    rw [htouch] at htouched
    split at hs'
    · exact takeFeedback_bare (r := { r with presence }) hs' hbare
    · exact htouched.forward_wish hs'
  obtain ⟨s, hs, -⟩ := Option.map_eq_some_iff.mp hwish
  obtain ⟨presence, hseats⟩ := r.handle_sameSeats h d raw source now
  have hempty := hr.bare_of_bare (hr.handle h d raw source now) hseats.subscriptions hs hs' hbare
  exact ⟨not_mem_prompted hs hempty, hwish⟩

/-- A tick asks for a keyframe that is wanted, with receivers or without, and so ends the wish. -/
theorem Coherent.tick_bare (hr : r.Coherent) {gone : List ParticipantId}
    (hs' : ((r.expel gone).tick h now).1.streams.get? id = some s') (hbare : s'.links.isEmpty) :
    ∃ wanted, r.wish? id = some wanted ∧
      s'.keyframeWanted = (wanted && !r.keyframes.isOpen id now) ∧
      (⟨id, .keyframeRequest⟩ ∈ (r.expel gone).agenda h now ↔
        wanted ∧ r.keyframes.isOpen id now) := by
  rw [(hr.expel gone).tick_get? h now id] at hs'
  obtain ⟨left, hleft, rfl⟩ := Option.map_eq_some_iff.mp hs'
  obtain ⟨hwish, hopen⟩ := expel_wish hleft
  have hempty : left.links.isEmpty := by
    simpa [Stream.tick, Stream.asked, Stream.tickLinks] using hbare
  refine ⟨left.keyframeWanted, hwish, ?_, ?_⟩
  · rw [← hopen, ← Stream.tickLinks_bare hempty h now]
    rfl
  · rw [mem_agenda_iff, hleft, ← hopen]
    simp [Stream.tickLinks_bare hempty]

end Room

end MediaRelay
