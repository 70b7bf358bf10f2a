import MediaRelay.Proofs.Reachability

/-!
What changed a stream. For a stream that is there before and after an input, `Relay.StreamStep` says
what the input did to it; everything about downlinks over a run is read off these cases.
-/

namespace MediaRelay

variable {F : Type}

namespace Stream

/-- The stream goes on as it was, and so does each downlink that stays. -/
structure SameCourse (s s' : Stream F) : Prop where
  name : s'.id = s.id
  graph : s'.graph = s.graph
  history : s'.history = s.history
  uplink : s'.uplink = s.uplink
  links : ∀ p link link', s.links.get? p = some link → s'.links.get? p = some link' → link' = link

/-- Nothing changes but that downlinks may be missing. -/
structure Thinned (s s' : Stream F) : Prop where
  name : s'.id = s.id
  graph : s'.graph = s.graph
  history : s'.history = s.history
  uplink : s'.uplink = s.uplink
  links : ∀ p link, s'.links.get? p = some link → s.links.get? p = some link

variable {s s' s'' : Stream F}

theorem SameCourse.refl (s : Stream F) : s.SameCourse s :=
  ⟨rfl, rfl, rfl, rfl, fun _ _ _ h h' => Option.some.inj (h'.symm.trans h)⟩

theorem Thinned.refl (s : Stream F) : s.Thinned s := ⟨rfl, rfl, rfl, rfl, fun _ _ h => h⟩

theorem Thinned.trans (h : s.Thinned s') (h' : s'.Thinned s'') : s.Thinned s'' :=
  ⟨h'.name.trans h.name, h'.graph.trans h.graph, h'.history.trans h.history,
    h'.uplink.trans h.uplink, fun p link hl => h.links p link (h'.links p link hl)⟩

theorem Thinned.sameCourse (h : s.Thinned s') : s.SameCourse s' :=
  ⟨h.name, h.graph, h.history, h.uplink, fun p _ link' hl hl' =>
    Option.some.inj ((h.links p link' hl').symm.trans hl)⟩

theorem dropLink_get? (s : Stream F) {p q : ParticipantId} (hq : q ≠ p) :
    (s.dropLink p).links.get? q = s.links.get? q := Table.get?_erase_of_ne _ hq

theorem dropLink_thinned (s : Stream F) (p : ParticipantId) : s.Thinned (s.dropLink p) := by
  refine ⟨rfl, rfl, rfl, rfl, fun q link hl => ?_⟩
  by_cases hq : q = p
  · have hnone : (s.dropLink p).links.get? p = none := Table.get?_erase_self _ _
    rw [hq, hnone] at hl
    cases hl
  · rwa [dropLink_get? s hq] at hl

/-- A downlink that is there stays when another is added. -/
theorem addLink_get? [Arithmetic F] (s : Stream F) (settings : Estimator.Settings F) (timeout : Nat)
    (now : Time) {p q : ParticipantId} {link : Downlink F} (hl : s.links.get? q = some link) :
    (s.addLink settings timeout now p).links.get? q = some link := by
  show (s.links.insertIfNew p _).get? q = some link
  rw [Table.get?_insertIfNew]
  split
  · rename_i hk
    rw [← Key.rank_inj hk, hl]
    rfl
  · exact hl

theorem addLink_sameCourse [Arithmetic F] (s : Stream F) (settings : Estimator.Settings F)
    (timeout : Nat) (now : Time) (p : ParticipantId) :
    s.SameCourse (s.addLink settings timeout now p) :=
  ⟨rfl, rfl, rfl, rfl, fun _ _ _ hl hl' =>
    Option.some.inj (hl'.symm.trans (addLink_get? s settings timeout now hl))⟩

end Stream

namespace Room

theorem leave_stream (r : Room F) (p : ParticipantId) (id : StreamId) :
    (r.leave p).1.streams.get? id = r.streams.get? id ∨
      (r.leave p).1.streams.get? id =
        if id.sender = p then none else (r.streams.get? id).map (·.dropLink p) := by
  obtain ⟨-, _, hleave⟩ | ⟨-, hleave⟩ := r.leave_cases p
  · exact .inl (by rw [hleave])
  · refine .inr ?_
    rw [hleave]
    exact r.stream_without p id

theorem expel_stream (r : Room F) (gone : List ParticipantId) {id : StreamId} {s' : Stream F}
    (hs' : (r.expel gone).streams.get? id = some s') :
    ∃ s, r.streams.get? id = some s ∧ s.Thinned s' := by
  induction gone generalizing r with
  | nil => exact ⟨s', hs', .refl s'⟩
  | cons p rest ih =>
    obtain ⟨s, hs, hthin⟩ := ih (r.leave p).1 hs'
    obtain hsame | hleft := r.leave_stream p id
    · exact ⟨s, hsame ▸ hs, hthin⟩
    · rw [hleft] at hs
      split at hs
      · cases hs
      · obtain ⟨before, hbefore, rfl⟩ := Option.map_eq_some_iff.mp hs
        exact ⟨before, hbefore, (before.dropLink_thinned p).trans hthin⟩

theorem join_streams (r : Room F) (p : ParticipantId) (role : Role) (version : UInt8) (now : Time) :
    (r.join p role version now).1.streams = r.streams := by
  obtain ⟨_, hjoin⟩ | ⟨-, -, -, -, hjoin⟩ := r.join_cases p role version now
  · rw [hjoin]
  · rw [hjoin]
    rfl

theorem setMuted_streams (r : Room F) (receiver sender : ParticipantId) (muted : Bool) :
    (r.setMuted receiver sender muted).1.streams = r.streams := by
  obtain ⟨_, hset⟩ | ⟨_, -, -, hset⟩ := r.setMuted_cases receiver sender muted
  · rw [hset]
  · rw [hset]
    rfl

theorem setDeafened_streams (r : Room F) (p : ParticipantId) (deafened : Bool) :
    (r.setDeafened p deafened).1.streams = r.streams := by
  obtain ⟨_, hset⟩ | ⟨_, -, hset⟩ := r.setDeafened_cases p deafened
  · rw [hset]
  · rw [hset]
    rfl

theorem unsubscribe_stream (r : Room F) {id : StreamId} {s : Stream F}
    (hs : r.streams.get? id = some s) (p : ParticipantId) (stream : StreamId) :
    (r.unsubscribe p stream).1.streams.get? id = some s ∨
      stream = id ∧ (r.unsubscribe p stream).1.streams.get? id = some (s.dropLink p) := by
  obtain ⟨_, hun⟩ | ⟨-, hun⟩ := r.unsubscribe_cases p stream
  · exact .inl (by rw [hun, hs])
  · rw [hun]
    by_cases hid : id = stream
    · subst hid
      exact .inr ⟨rfl, by simp [withoutReceiver, publish, hs]⟩
    · exact .inl ((Table.get?_modify_of_ne _ _ hid).trans hs)

section Signaling

variable [Arithmetic F] (r : Room F) {id : StreamId} {s : Stream F}

theorem negotiate_stream (hs : r.streams.get? id = some s) (stream : StreamId) (offer : Offer)
    (now : Time) :
    (r.negotiate stream.sender stream.kind offer now).1.streams.get? id = some s ∨
      stream = id ∧ ∃ graph,
        (r.negotiate stream.sender stream.kind offer now).2 = .ok (r.graphVersions + 1) ∧
        (r.negotiate stream.sender stream.kind offer now).1.streams.get? id =
          some (s.renegotiate graph) := by
  obtain ⟨_, hneg⟩ | ⟨_, graph, -, -, -, -, hgraph⟩ :=
    r.negotiate_cases stream.sender stream.kind offer now
  · exact .inl (by rw [hneg, hs])
  obtain ⟨t, ht, hneg⟩ | ⟨hnone, -, hneg⟩ := hgraph
  · by_cases hid : stream = id
    · subst hid
      obtain rfl : s = t := Option.some.inj (hs.symm.trans ht)
      refine .inr ⟨rfl, graph, by rw [hneg], ?_⟩
      rw [hneg]
      exact Table.get?_insert_self _ _ _
    · refine .inl ?_
      rw [hneg]
      exact (Table.get?_insert_of_ne _ _ fun e => hid e.symm).trans hs
  · have hid : id ≠ stream := by
      rintro rfl
      rw [hs] at hnone
      cases hnone
    refine .inl ?_
    rw [hneg]
    exact (Table.get?_insert_of_ne _ _ hid).trans hs

theorem subscribe_stream (hs : r.streams.get? id = some s) (p : ParticipantId) (stream : StreamId)
    (now : Time) :
    (r.subscribe p stream now).1.streams.get? id = some s ∨
      (r.subscribe p stream now).1.streams.get? id =
        some (s.addLink r.terms.estimator r.terms.feedbackTimeout now p) := by
  obtain ⟨_, hsub⟩ | ⟨_, _, -, -, -, -, -, -, ⟨-, hsub⟩ | ⟨-, hsub⟩⟩ :=
    r.subscribe_cases p stream now
  · exact .inl (by rw [hsub, hs])
  · exact .inl (by rw [hsub, hs])
  · rw [hsub]
    by_cases hid : id = stream
    · subst hid
      exact .inr (by simp [withReceiver, publish, hs])
    · exact .inl ((Table.get?_modify_of_ne _ _ hid).trans hs)

/-- What signaling does to a stream that is there. -/
theorem signal_stream (now : Time) (act : Event.Act) (hs : r.streams.get? id = some s) :
    (∃ offer graph, act = .negotiate id offer ∧
        (r.negotiate id.sender id.kind offer now).2 = .ok (r.graphVersions + 1) ∧
        (r.signal now act).streams.get? id = some (s.renegotiate graph)) ∨
      (act = .leave id.sender ∧ (r.signal now act).streams.get? id = none) ∨
      ∃ s', (r.signal now act).streams.get? id = some s' ∧ s.SameCourse s' ∧
        ∀ p link, s.links.get? p = some link → s'.links.get? p = some link ∨
          act = .leave p ∨ act = .unsubscribe p id := by
  have hstay (h : (r.signal now act).streams.get? id = some s) :
      ∃ s', (r.signal now act).streams.get? id = some s' ∧ s.SameCourse s' ∧
        ∀ p link, s.links.get? p = some link → s'.links.get? p = some link ∨
          act = .leave p ∨ act = .unsubscribe p id :=
    ⟨s, h, .refl s, fun _ _ hl => .inl hl⟩
  have hdrop (p : ParticipantId) (h : (r.signal now act).streams.get? id = some (s.dropLink p))
      (hact : act = .leave p ∨ act = .unsubscribe p id) :
      ∃ s', (r.signal now act).streams.get? id = some s' ∧ s.SameCourse s' ∧
        ∀ p link, s.links.get? p = some link → s'.links.get? p = some link ∨
          act = .leave p ∨ act = .unsubscribe p id := by
    refine ⟨s.dropLink p, h, (s.dropLink_thinned p).sameCourse, fun q link hl => ?_⟩
    by_cases hq : q = p
    · exact .inr (hq ▸ hact)
    · exact .inl ((s.dropLink_get? hq).trans hl)
  cases act with
  | join p role version =>
    exact .inr (.inr (hstay ((congrArg (·.get? id) (r.join_streams p role version now)).trans hs)))
  | leave p =>
    obtain hsame | hleft := r.leave_stream p id
    · exact .inr (.inr (hstay (hsame.trans hs)))
    · rw [hs] at hleft
      by_cases hid : id.sender = p
      · exact .inr (.inl ⟨by rw [hid], hleft.trans (if_pos hid)⟩)
      · exact .inr (.inr (hdrop p (hleft.trans (if_neg hid)) (.inl rfl)))
  | negotiate stream offer =>
    obtain hsame | ⟨rfl, graph, hok, hget⟩ := r.negotiate_stream hs stream offer now
    · exact .inr (.inr (hstay hsame))
    · exact .inl ⟨offer, graph, rfl, hok, hget⟩
  | subscribe p stream =>
    obtain hsame | hadded := r.subscribe_stream hs p stream now
    · exact .inr (.inr (hstay hsame))
    · exact .inr (.inr ⟨_, hadded, s.addLink_sameCourse _ _ _ _,
        fun _ _ hl => .inl (s.addLink_get? _ _ _ hl)⟩)
  | unsubscribe p stream =>
    obtain hsame | ⟨rfl, hdropped⟩ := r.unsubscribe_stream hs p stream
    · exact .inr (.inr (hstay hsame))
    · exact .inr (.inr (hdrop p hdropped (.inr rfl)))
  | setMuted receiver sender muted =>
    exact .inr (.inr (hstay
      ((congrArg (·.get? id) (r.setMuted_streams receiver sender muted)).trans hs)))
  | setDeafened p deafened =>
    exact .inr (.inr (hstay ((congrArg (·.get? id) (r.setDeafened_streams p deafened)).trans hs)))

end Signaling

end Room

/-- The stream that a media datagram belongs to. -/
def Header.stream? (h : Header) : Option StreamId := h.kind?.map (⟨h.sender, ·⟩)

namespace Room

/-- A media datagram leaves the streams alone that it does not belong to. -/
theorem handle_get?_of_ne [Arithmetic F] {r : Room F} {room : RoomId} (hr : r.Kept room)
    (h : Hysteresis F) {d : Datagram} (htype : d.header.packetType ≠ .feedback) (raw : Bytes)
    (source : Endpoint) (now : Time) {id : StreamId} (hid : d.header.stream? ≠ some id) :
    (r.handle h d raw source now).1.streams.get? id = r.streams.get? id := by
  obtain ⟨presence, htouch⟩ := r.touch_eq d.header.sender source now
  rw [handle, if_neg htype, htouch]
  have hother {t t' : Stream F} {receivers : List ParticipantId}
      (hroute : route { r with presence } d.header = .ok (t, receivers)) :
      (r.streams.insert t.id t').get? id = r.streams.get? id := by
    obtain ⟨kind, _, _, hkind, -, -, -, ht, -, -⟩ := route_eq_ok_iff.mp hroute
    have hname : t.id = ⟨d.header.sender, kind⟩ := (hr.streams _ t ht).2.name
    refine Table.get?_insert_of_ne _ _ ?_
    rintro rfl
    exact hid (by simp [Header.stream?, hkind, hname])
  cases hf : forward { r with presence } h d raw now with
  | mk after answer =>
    cases answer with
    | error reason =>
      obtain rfl | ⟨_, _, _, _, _, hroute, -, -, rfl⟩ := forward_error_cases hf
      · rfl
      · exact hother hroute
    | ok out =>
      obtain ⟨_, _, _, _, _, hroute, -, rfl, -⟩ := forward_eq_ok_iff.mp hf
      exact hother hroute

end Room

namespace Relay

def stream? (r : Relay F) (room : RoomId) (id : StreamId) : Option (Stream F) :=
  (r.directory.room? room).bind (·.streams.get? id)

def link? (r : Relay F) (room : RoomId) (id : StreamId) (p : ParticipantId) : Option (Downlink F) :=
  (r.stream? room id).bind (·.links.get? p)

theorem stream?_eq_some_iff {r : Relay F} {room : RoomId} {id : StreamId} {s : Stream F} :
    r.stream? room id = some s ↔
      ∃ within, r.directory.room? room = some within ∧ within.streams.get? id = some s :=
  Option.bind_eq_some_iff

theorem link?_eq_some_iff {r : Relay F} {room : RoomId} {id : StreamId} {p : ParticipantId}
    {link : Downlink F} :
    r.link? room id p = some link ↔
      ∃ s, r.stream? room id = some s ∧ s.links.get? p = some link :=
  Option.bind_eq_some_iff

variable [Arithmetic F]

/-- What an input did to a stream that was there before and is there after it. -/
inductive StreamStep (r : Relay F) (now : Time) (room : RoomId) (id : StreamId) (s : Stream F) :
    Input → Stream F → Prop
  | rewired (input : Input) (s' : Stream F) (hsame : s.SameCourse s') :
    StreamStep r now room id s input s'
  | renegotiated (offer : Offer) (graph : LayerGraph)
      (hok : (r.apply ⟨room, .negotiate id offer⟩ now).2 = .ok ()) :
    StreamStep r now room id s (.event ⟨room, .negotiate id offer⟩) (s.renegotiate graph)
  | noted (raw : Bytes) (source : Endpoint) (history : FrameHistory) :
    StreamStep r now room id s (.datagram raw source) { s with history }
  | passed (raw : Bytes) (source : Endpoint) (d : Datagram) (out : Outcome) (within : Room F)
      (receivers : List ParticipantId) (s' : Stream F) (receivers' : List ParticipantId)
      (step : Downlink F → Downlink F × Fate) (hdecode : Datagram.decode raw = .ok d)
      (hroom : d.header.room = room) (hid : d.header.stream? = some id)
      (hok : (r.receive raw source now).2 = .ok out) (hn : receivers.Nodup)
      (hpass : Room.Passage within r.settings.hysteresis d raw now s receivers s' receivers' step) :
    StreamStep r now room id s (.datagram raw source) (s'.accept step receivers').1
  | adapted (raw : Bytes) (source : Endpoint) (d : Datagram) (out : Outcome) (message : Feedback)
      (link link' : Downlink F) (isOpen : Bool) (hdecode : Datagram.decode raw = .ok d)
      (hroom : d.header.room = room) (hmessage : d.feedback = .ok message)
      (hid : message.stream = id) (hok : (r.receive raw source now).2 = .ok out)
      (hlink : s.links.get? d.header.sender = some link)
      (hintake : Room.Intake link now message.body link') :
    StreamStep r now room id s (.datagram raw source)
      ({ s with
        links := s.links.insert d.header.sender (link'.retarget r.settings.hysteresis s.graph).1
        keyframeWanted := s.keyframeWanted ||
          (link'.retarget r.settings.hysteresis s.graph).2.wantsKeyframe }.asked isOpen)
  | ticked (left : Stream F) (isOpen : Bool) (hthin : s.Thinned left) :
    StreamStep r now room id s .tick (left.tick r.settings.hysteresis now isOpen)

theorem apply_negotiate_ok {r : Relay F} {room : RoomId} {within : Room F} {id : StreamId}
    {offer : Offer} {now : Time} {version : Nat} (hroom : r.directory.room? room = some within)
    (hok : (within.negotiate id.sender id.kind offer now).2 = .ok version) :
    (r.apply ⟨room, .negotiate id offer⟩ now).2 = .ok () := by
  simp only [apply, act, Directory.within, hroom, hok, done]
  rfl

theorem feedback_stream_step {r : Relay F} (hr : r.directory.Sound) {raw : Bytes}
    {source : Endpoint} {now : Time} {d : Datagram} {within : Room F} {id : StreamId}
    {s s' : Stream F} (hdecode : Datagram.decode raw = .ok d)
    (hroom : r.directory.room? d.header.room = some within)
    (hm : within.members.contains d.header.sender) (htype : d.header.packetType = .feedback)
    (hs : within.streams.get? id = some s)
    (hs' : (within.handle r.settings.hysteresis d raw source now).1.streams.get? id = some s') :
    StreamStep r now d.header.room id s (.datagram raw source) s' := by
  have hanswer := (receive_of_member hr source now hdecode hroom hm).2
  obtain ⟨presence, htouch⟩ := within.touch_eq d.header.sender source now
  rw [Room.handle, if_pos htype, htouch] at hs' hanswer
  have hidle (h : some s = some s') :
      StreamStep r now d.header.room id s (.datagram raw source) s' :=
    .rewired _ _ (Option.some.inj h ▸ .refl s)
  cases hf : Room.takeFeedback { within with presence } r.settings.hysteresis d raw now with
  | mk after answer =>
    rw [hf] at hs' hanswer
    cases answer with
    | error reason =>
      rw [Room.takeFeedback_error hf] at hs'
      exact hidle (hs.symm.trans hs')
    | ok out =>
      obtain ⟨message, _, t, hmessage, -, -, ht, htaken⟩ := Room.takeFeedback_ok hf
      obtain ⟨rfl, -, -⟩ | ⟨link, link', hl, hintake, hadapt⟩ := htaken
      · exact hidle (hs.symm.trans hs')
      · have hname : t.id = message.stream := ((hr _ _ hroom).streams _ t ht).2.name
        rw [show after = _ from congrArg Prod.fst hadapt, Room.adapt_get?] at hs'
        by_cases hid : id = t.id
        · rw [if_pos hid] at hs'
          rw [hname] at hid
          subst hid
          have hts : t = s := Option.some.inj (ht.symm.trans hs)
          subst hts
          cases hs'
          exact .adapted raw source d out message link link' _ hdecode rfl hmessage rfl hanswer hl
            hintake
        · rw [if_neg hid] at hs'
          exact hidle (hs.symm.trans hs')

theorem media_stream_step {r : Relay F} (hr : r.directory.Sound) {raw : Bytes}
    {source : Endpoint} {now : Time} {d : Datagram} {within : Room F} {id : StreamId}
    {s s' : Stream F} (hdecode : Datagram.decode raw = .ok d)
    (hroom : r.directory.room? d.header.room = some within)
    (hm : within.members.contains d.header.sender) (htype : d.header.packetType ≠ .feedback)
    (hs : within.streams.get? id = some s)
    (hs' : (within.handle r.settings.hysteresis d raw source now).1.streams.get? id = some s') :
    StreamStep r now d.header.room id s (.datagram raw source) s' := by
  have hanswer := (receive_of_member hr source now hdecode hroom hm).2
  have hidle (h : some s = some s') :
      StreamStep r now d.header.room id s (.datagram raw source) s' :=
    .rewired _ _ (Option.some.inj h ▸ .refl s)
  by_cases hid : d.header.stream? = some id
  case neg =>
    rw [Room.handle_get?_of_ne (hr _ _ hroom) _ htype raw source now hid] at hs'
    exact hidle (hs.symm.trans hs')
  obtain ⟨presence, htouch⟩ := within.touch_eq d.header.sender source now
  rw [Room.handle, if_neg htype, htouch] at hs' hanswer
  have hput {t : Stream F} (hset : (within.streams.insert s.id t).get? id = some s') : t = s' := by
    rw [((hr _ _ hroom).streams id s hs).2.name, Table.get?_insert_self] at hset
    exact Option.some.inj hset
  have hfound {t : Stream F} {kind : Kind} (hkind : d.header.kind? = some kind)
      (ht : within.streams.get? ⟨d.header.sender, kind⟩ = some t) : t = s := by
    have hkey : (⟨d.header.sender, kind⟩ : StreamId) = id := by
      simpa [Header.stream?, hkind] using hid
    rw [hkey, hs] at ht
    exact (Option.some.inj ht).symm
  cases hf : Room.forward { within with presence } r.settings.hysteresis d raw now with
  | mk after answer =>
    rw [hf] at hs' hanswer
    cases answer with
    | error reason =>
      obtain rfl | ⟨t, receivers, _, history, _, hroute, -, -, rfl⟩ := Room.forward_error_cases hf
      · exact hidle (hs.symm.trans hs')
      · obtain ⟨kind, _, _, hkind, -, -, -, ht, -, -⟩ := Room.route_eq_ok_iff.mp hroute
        obtain rfl := hfound hkind ht
        obtain rfl := hput hs'
        exact .noted raw source history
    | ok out =>
      obtain ⟨t, receivers, t', receivers', step, hroute, hpass, rfl, -⟩ :=
        Room.forward_eq_ok_iff.mp hf
      obtain ⟨kind, _, subscribers, hkind, -, -, -, ht, -, rfl⟩ := Room.route_eq_ok_iff.mp hroute
      obtain rfl := hfound hkind ht
      obtain rfl := hput hs'
      exact .passed raw source d out _ _ _ _ _ hdecode rfl hid hanswer subscribers.keys_nodup hpass

namespace Reachable

theorem stream_step {r : Relay F} (h : r.Reachable) (now : Time) (input : Input) {room : RoomId}
    {id : StreamId} {s s' : Stream F} (hs : r.stream? room id = some s)
    (hs' : (r.step now input).1.stream? room id = some s') :
    StreamStep r now room id s input s' := by
  rw [stream?_eq_some_iff] at hs hs'
  obtain ⟨within, hroom, hs⟩ := hs
  obtain ⟨after, hafter, hs'⟩ := hs'
  obtain ⟨after', hevolves, hstep⟩ := step_room h.sound now input hroom
  rw [hafter] at hstep
  obtain ⟨-, rfl⟩ := Room.unlessClosed_eq_some_iff.mp hstep.symm
  cases hevolves with
  | idle =>
    rw [hs] at hs'
    cases hs'
    exact .rewired _ _ (.refl s)
  | signaled act _ _ =>
    obtain ⟨offer, graph, rfl, hok, hget⟩ | ⟨-, hget⟩ | ⟨t, hget, hsame, -⟩ :=
      within.signal_stream now act hs
    · rw [hget] at hs'
      cases hs'
      exact .renegotiated offer graph (apply_negotiate_ok hroom hok)
    · rw [hget] at hs'
      cases hs'
    · rw [hget] at hs'
      cases hs'
      exact .rewired _ _ hsame
  | handled raw source d _ hdecode hname hm =>
    subst hname
    by_cases htype : d.header.packetType = .feedback
    · exact feedback_stream_step h.sound hdecode hroom hm htype hs hs'
    · exact media_stream_step h.sound hdecode hroom hm htype hs hs'
  | ticked gone _ =>
    have hget := Room.tickStreams_get? (within.expel gone) r.settings.hysteresis now
      (within.expel gone).routing.subscribers.keys_nodup id
    have hs' := hget.symm.trans hs'
    split at hs'
    · obtain ⟨left, hleft, rfl⟩ := Option.map_eq_some_iff.mp hs'
      obtain ⟨before, hbefore, hthin⟩ := within.expel_stream gone hleft
      rw [hs] at hbefore
      cases hbefore
      exact .ticked left _ hthin
    · obtain ⟨before, hbefore, hthin⟩ := within.expel_stream gone hs'
      rw [hs] at hbefore
      cases hbefore
      exact .rewired _ _ hthin.sameCourse

end Reachable

end Relay

end MediaRelay
