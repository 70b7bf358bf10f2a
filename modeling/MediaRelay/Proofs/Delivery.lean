import MediaRelay.Proofs.Attribution

/-!
Delivery of media. An accepted media datagram passes through the stream it names; who gets a copy
is told by the subscriptions, the mutes and the layers of the downlinks alone (`delivery_exact`).
-/

namespace MediaRelay

variable {F : Type}

namespace Room.Passage

variable [Arithmetic F] {r : Room F} {h : Hysteresis F} {d : Datagram} {raw : Bytes} {now : Time}
  {s s' : Stream F} {receivers receivers' : List ParticipantId}
  {step : Downlink F → Downlink F × Fate}

/-- Those it is offered to and whose downlink sends it get a copy. -/
theorem sent_eq (hp : Passage r h d raw now s receivers s' receivers' step) {id : StreamId}
    {served : KeySet ParticipantId} (hs : s.Serves id served) (hn : receivers.Nodup) :
    (s'.accept step receivers').2.sent =
      receivers'.filter fun p => (s.links.get? p).any fun link => (step link).2 = .sent := by
  rw [← hp.same_links]
  refine Stream.spread_sent (hn.sublist hp.sublist) fun p _ link hl => ?_
  rw [hp.same_links] at hl
  exact (hp.step_receiver link).trans (hs.receiver_eq hl)

theorem mem_sent_iff (hp : Passage r h d raw now s receivers s' receivers' step) {id : StreamId}
    {served : KeySet ParticipantId} (hs : s.Serves id served) (hn : receivers.Nodup)
    (p : ParticipantId) :
    p ∈ (s'.accept step receivers').2.sent ↔
      p ∈ receivers' ∧ ∃ link, s.links.get? p = some link ∧ (step link).2 = .sent := by
  rw [hp.sent_eq hs hn, List.mem_filter, Option.any_eq_true]
  simp

theorem total_eq (hp : Passage r h d raw now s receivers s' receivers' step) {id : StreamId}
    {served : KeySet ParticipantId} (hs : s.Serves id served) (hn : receivers.Nodup)
    (hserved : ∀ p ∈ receivers, served.contains p) :
    (s'.accept step receivers').2.sent.length + (s'.accept step receivers').2.withheld =
      receivers'.length := by
  refine Stream.spread_total (hn.sublist hp.sublist) fun p hmem => ?_
  rw [hp.same_links, hs.contains_iff]
  exact hserved p (hp.sublist.subset hmem)

/-- Audio is sent on every downlink it is offered to. -/
theorem audio_sent (hp : Passage r h d raw now s receivers s' receivers' step)
    (htype : d.header.packetType = .audio) :
    receivers' = receivers.filter (fun p => (r.hears? p s.id.sender).getD false) ∧
      ∀ link, (step link).2 = .sent := by
  cases hp with
  | audio _ => exact ⟨rfl, fun _ => rfl⟩
  | frame _ _ _ ht _ _ => simp [htype] at ht
  | repair ht => simp [htype] at ht

/-- Any other packet is offered to all, and sent if its layer fits within the current one then. -/
theorem layered_sent_iff (hp : Passage r h d raw now s receivers s' receivers' step)
    (htype : d.header.packetType ≠ .audio) :
    receivers' = receivers ∧ ∀ link, ((step link).2 = .sent ↔
      ∃ c, (step link).1.target.current = some c ∧ d.header.layer.fitsWithin c) := by
  cases hp with
  | audio ht => exact absurd ht htype
  | frame descriptor history seen _ _ hseen =>
    obtain ⟨ds, -, rfl⟩ := FrameHistory.observe_ok hseen
    refine ⟨rfl, fun link => ?_⟩
    rw [Downlink.offer_sent_iff, Downlink.offer_target]
    rfl
  | repair _ =>
    refine ⟨rfl, fun link => ?_⟩
    rw [Downlink.offer_sent_iff, Downlink.offer_target]

/-- A packet is counted once on each downlink that it is offered to. -/
theorem counted (hp : Passage r h d raw now s receivers s' receivers' step) (link : Downlink F) :
    link.CountedOnce (step link).1 (step link).2 := by
  cases hp with
  | audio _ => exact .inl ⟨rfl, rfl, rfl⟩
  | frame descriptor history seen _ _ hseen =>
    have hcount := ((link.aimAt h s.graph).switchAt history seen).offer_counted seen.layer
      d.header.sequence raw.length now
    obtain ⟨hforwarded, hwithheld⟩ := link.aim_switch_counters h s.graph history seen
    unfold Downlink.CountedOnce at hcount ⊢
    rwa [hforwarded, hwithheld] at hcount
  | repair _ => exact link.offer_counted _ _ _ _

/-- A repair packet leaves targets alone. -/
theorem repair_target (hp : Passage r h d raw now s receivers s' receivers' step)
    (htype : d.header.packetType = .fec) (link : Downlink F) :
    (step link).1.target = link.target := by
  cases hp with
  | audio ht => simp [htype] at ht
  | frame _ _ _ ht _ _ => simp [htype] at ht
  | repair _ => exact link.offer_target _ _ _ _

end Room.Passage

namespace Relay

/-- Those subscribed to a stream. -/
def subscribers (r : Relay F) (room : RoomId) (id : StreamId) : KeySet ParticipantId :=
  ((r.directory.room? room).map (·.receivers id)).getD ∅

/-- A member that is not deafened and has not muted the sender. -/
def hears (r : Relay F) (room : RoomId) (p sender : ParticipantId) : Prop :=
  ∃ within m, r.directory.room? room = some within ∧ within.members.get? p = some m ∧
    m.deafened = false ∧ m.muted.contains sender = false

theorem subscribers_eq {r : Relay F} {room : RoomId} {within : Room F}
    (hroom : r.directory.room? room = some within)
    (id : StreamId) : r.subscribers room id = within.receivers id := by
  rw [subscribers, hroom]
  rfl

theorem hears_iff {r : Relay F} {room : RoomId} {within : Room F}
    (hroom : r.directory.room? room = some within)
    (hmembers : within.routing.members = within.members) (p sender : ParticipantId) :
    r.hears room p sender ↔ (within.hears? p sender).getD false := by
  unfold hears Room.hears?
  rw [hmembers]
  constructor
  · rintro ⟨within', m, hroom', hm, hdeafened, hmuted⟩
    rw [hroom] at hroom'
    cases hroom'
    simp [hm, Member.hears, hdeafened, hmuted]
  · intro hhears
    cases hm : within.members.get? p with
    | none => simp [hm] at hhears
    | some m =>
      simp only [hm, Option.map_some, Option.getD_some, Member.hears, Bool.and_eq_true,
        Bool.not_eq_true'] at hhears
      exact ⟨within, m, hroom, hm, hhears.1, hhears.2⟩

variable [Arithmetic F] {r r' : Relay F} {raw : Bytes} {source : Endpoint} {now : Time}
  {d : Datagram} {out : Outcome}

/-- The way of an accepted media datagram: it names stream `s`, and what the stream makes of it is
spread by `step` over those it is offered to. -/
structure Passes (r r' : Relay F) (d : Datagram) (raw : Bytes) (now : Time) (out : Outcome)
    (id : StreamId) (within : Room F) (s s' : Stream F) (receivers' : List ParticipantId)
    (step : Downlink F → Downlink F × Fate) : Prop where
  named : d.header.stream? = some id
  room : r.directory.room? d.header.room = some within
  kept : within.Kept d.header.room
  stream : within.streams.get? id = some s
  passage : ∃ presence, Room.Passage { within with presence } r.settings.hysteresis d raw now s
    (within.receivers id).keys s' receivers' step
  outcome : out = within.copiesOf raw (s'.accept step receivers').2
  after : r'.stream? d.header.room id = some (s'.accept step receivers').1

theorem Reachable.media_accepted (h : r.Reachable) (hdecode : Datagram.decode raw = .ok d)
    (hmedia : d.header.packetType ≠ .feedback) (hok : r.receive raw source now = (r', .ok out)) :
    ∃ id within s s' receivers' step, Passes r r' d raw now out id within s s' receivers' step := by
  have hanswer : (r.receive raw source now).2 = .ok out := by rw [hok]
  obtain ⟨-, reason, hrefused⟩ | ⟨d', within, hdecode', hroom, hm, hrooms, hhandled⟩ :=
    receive_cases h.sound raw source now
  · rw [hrefused] at hanswer
    cases hanswer
  · rw [hdecode] at hdecode'
    cases hdecode'
    rw [hhandled] at hanswer
    rw [hok] at hrooms
    obtain ⟨presence, htouch⟩ := within.touch_eq d.header.sender source now
    rw [Room.handle, if_neg hmedia, htouch] at hrooms hanswer
    cases hf : Room.forward { within with presence } r.settings.hysteresis d raw now with
    | mk after answer =>
      rw [hf] at hrooms hanswer
      cases hanswer
      obtain ⟨s, receivers, s', receivers', step, hroute, hpass, rfl, rfl⟩ :=
        Room.forward_eq_ok_iff.mp hf
      obtain ⟨kind, sender, subscribers, hkind, -, -, hsubscribers, hs, -, rfl⟩ :=
        Room.route_eq_ok_iff.mp hroute
      have hkept := h.sound _ _ hroom
      obtain ⟨-, hserves⟩ := hkept.streams _ s hs
      have hreceivers : subscribers = within.receivers ⟨d.header.sender, kind⟩ := by
        have hget := (hkept.subscribers_eq _).symm.trans hsubscribers
        rw [hs] at hget
        exact (Option.some.inj hget).symm
      have hafter := congrArg (·.room? d.header.room) hrooms
      refine ⟨_, within, s, s', receivers', step, by simp [Header.stream?, hkind], hroom, hkept, hs,
        ⟨presence, hreceivers ▸ hpass⟩, rfl, ?_⟩
      refine stream?_eq_some_iff.mpr ⟨_, hafter.trans (Table.get?_insert_self _ _ _), ?_⟩
      rw [hserves.name]
      exact Table.get?_insert_self _ _ _

namespace Passes

variable {id : StreamId} {within : Room F} {s s' : Stream F} {receivers' : List ParticipantId}
  {step : Downlink F → Downlink F × Fate}

theorem serves (h : Passes r r' d raw now out id within s s' receivers' step) :
    s.Serves id (within.receivers id) := (h.kept.streams id s h.stream).2

theorem before (h : Passes r r' d raw now out id within s s' receivers' step) :
    r.stream? d.header.room id = some s := stream?_eq_some_iff.mpr ⟨within, h.room, h.stream⟩

theorem sender_eq (h : Passes r r' d raw now out id within s s' receivers' step) :
    id.sender = d.header.sender := by
  obtain ⟨kind, -, rfl⟩ := Option.map_eq_some_iff.mp h.named
  rfl

theorem receivers_eq (h : Passes r r' d raw now out id within s s' receivers' step) :
    out.egress.map (·.receiver) = (s'.accept step receivers').2.sent := by
  rw [h.outcome]
  simp [Room.copiesOf, Outcome.egress, Function.comp_def]

theorem mem_receivers_iff (h : Passes r r' d raw now out id within s s' receivers' step)
    (p : ParticipantId) :
    p ∈ out.egress.map (·.receiver) ↔
      p ∈ receivers' ∧ ∃ link, s.links.get? p = some link ∧ (step link).2 = .sent := by
  obtain ⟨presence, hpass⟩ := h.passage
  rw [h.receivers_eq]
  exact hpass.mem_sent_iff h.serves (within.receivers id).keys_nodup p

theorem subscribed_of_mem (h : Passes r r' d raw now out id within s s' receivers' step)
    {p : ParticipantId} (hp : p ∈ out.egress.map (·.receiver)) :
    (within.receivers id).contains p := by
  obtain ⟨presence, hpass⟩ := h.passage
  exact Table.mem_keys_iff.mp (hpass.sublist.subset ((h.mem_receivers_iff p).mp hp).1)

/-- Audio goes to the subscribers that hear the sender. -/
theorem audio_mem_iff (h : Passes r r' d raw now out id within s s' receivers' step)
    (htype : d.header.packetType = .audio) (p : ParticipantId) :
    p ∈ out.egress.map (·.receiver) ↔
      (within.receivers id).contains p ∧ r.hears d.header.room p d.header.sender := by
  obtain ⟨presence, hpass⟩ := h.passage
  obtain ⟨hheard, hsends⟩ := hpass.audio_sent htype
  rw [h.mem_receivers_iff, hheard, List.mem_filter, Table.mem_keys_iff, h.serves.name, h.sender_eq,
    hears_iff h.room h.kept.members_eq]
  constructor
  · rintro ⟨hp, -⟩
    exact hp
  · rintro ⟨hp, hhears⟩
    obtain ⟨link, hl⟩ := h.serves.link_of_receiver hp
    exact ⟨⟨hp, hhears⟩, link, hl, hsends link⟩

/-- The downlink of a subscriber before and after a packet that is not audio. -/
theorem offered (h : Passes r r' d raw now out id within s s' receivers' step)
    (htype : d.header.packetType ≠ .audio) {p : ParticipantId}
    (hp : (within.receivers id).contains p) :
    ∃ link, r.link? d.header.room id p = some link ∧
      r'.link? d.header.room id p = some (step link).1 ∧
      (p ∈ out.egress.map (·.receiver) ↔ (step link).2 = .sent) := by
  obtain ⟨presence, hpass⟩ := h.passage
  obtain ⟨hall, -⟩ := hpass.layered_sent_iff htype
  have hmem : p ∈ (within.receivers id).keys := Table.mem_keys_iff.mpr hp
  obtain ⟨link, hl⟩ := h.serves.link_of_receiver hp
  refine ⟨link, link?_eq_some_iff.mpr ⟨s, h.before, hl⟩, link?_eq_some_iff.mpr ⟨_, h.after, ?_⟩, ?_⟩
  · rw [hpass.link_get? (within.receivers id).keys_nodup, hall, if_pos hmem, hl]
    rfl
  · rw [h.mem_receivers_iff, hall, hl]
    simp [hmem]

end Passes

/-- Whether a subscriber is due a copy, judged by the mutes for audio, by the layer the downlink has
after the packet for frames, and by the layer it had already for repair. -/
def Due (r r' : Relay F) (d : Datagram) (id : StreamId) (p : ParticipantId) : Prop :=
  match d.header.packetType with
  | .audio => r.hears d.header.room p d.header.sender
  | .video | .screen => ∃ link c, r'.link? d.header.room id p = some link ∧
      link.target.current = some c ∧ d.header.layer.fitsWithin c
  | .fec => ∃ link link' c, r.link? d.header.room id p = some link ∧
      r'.link? d.header.room id p = some link' ∧ link'.target = link.target ∧
      link.target.current = some c ∧ d.header.layer.fitsWithin c
  | .feedback => False

theorem Passes.mem_iff_due {id : StreamId} {within : Room F} {s s' : Stream F}
    {receivers' : List ParticipantId} {step : Downlink F → Downlink F × Fate}
    (h : Passes r r' d raw now out id within s s' receivers' step)
    (hmedia : d.header.packetType ≠ .feedback) (p : ParticipantId) :
    p ∈ out.egress.map (·.receiver) ↔ (within.receivers id).contains p ∧ Due r r' d id p := by
  have hlayered (htype : d.header.packetType ≠ .audio)
      (hdue : ∀ link, r.link? d.header.room id p = some link →
        r'.link? d.header.room id p = some (step link).1 →
        ((∃ c, (step link).1.target.current = some c ∧ d.header.layer.fitsWithin c) ↔
          Due r r' d id p)) :
      p ∈ out.egress.map (·.receiver) ↔ (within.receivers id).contains p ∧ Due r r' d id p := by
    obtain ⟨presence, hpass⟩ := h.passage
    constructor
    · intro hp
      obtain ⟨link, hl, hl', hsent⟩ := h.offered htype (h.subscribed_of_mem hp)
      refine ⟨h.subscribed_of_mem hp, (hdue link hl hl').mp ?_⟩
      exact ((hpass.layered_sent_iff htype).2 link).mp (hsent.mp hp)
    · rintro ⟨hp, hd⟩
      obtain ⟨link, hl, hl', hsent⟩ := h.offered htype hp
      exact hsent.mpr (((hpass.layered_sent_iff htype).2 link).mpr ((hdue link hl hl').mpr hd))
  cases ht : d.header.packetType with
  | audio =>
    rw [h.audio_mem_iff ht]
    simp only [Due, ht]
  | feedback => exact absurd ht hmedia
  | video | screen =>
    refine hlayered (by simp [ht]) fun link hl hl' => ?_
    simp only [Due, ht, hl', Option.some.injEq]
    exact ⟨fun ⟨c, hc⟩ => ⟨_, c, rfl, hc⟩, fun ⟨_, c, e, hc⟩ => ⟨c, e ▸ hc⟩⟩
  | fec =>
    refine hlayered (by simp [ht]) fun link hl hl' => ?_
    obtain ⟨presence, hpass⟩ := h.passage
    have htarget := hpass.repair_target ht link
    simp only [Due, ht, hl, hl', Option.some.injEq]
    rw [htarget]
    exact ⟨fun ⟨c, hc⟩ => ⟨_, _, c, rfl, rfl, htarget, hc⟩,
      fun ⟨_, _, c, e, _, _, hc⟩ => ⟨c, e ▸ hc⟩⟩

/-- What an accepted media datagram of stream `id` leads to. -/
structure DeliversExactly (r r' : Relay F) (d : Datagram) (raw : Bytes) (out : Outcome)
    (id : StreamId) : Prop where
  once : (out.egress.map (·.receiver)).Nodup
  unchanged : ∀ e ∈ out.egress,
    e.payload = raw ∧ e.room = d.header.room ∧ e.receiver ≠ d.header.sender
  receivers : ∀ p, p ∈ out.egress.map (·.receiver) ↔
    (r.subscribers d.header.room id).contains p ∧ Due r r' d id p
  total : d.header.packetType ≠ .audio →
    out.copies.length + out.withheld = (r.subscribers d.header.room id).size
  counted : d.header.packetType ≠ .audio → ∀ p, (r.subscribers d.header.room id).contains p →
    ∃ before after fate, r.link? d.header.room id p = some before ∧
      r'.link? d.header.room id p = some after ∧ before.CountedOnce after fate ∧
      (fate = .sent ↔ p ∈ out.egress.map (·.receiver))

theorem Reachable.delivery_exact (h : r.Reachable) (hdecode : Datagram.decode raw = .ok d)
    (hmedia : d.header.packetType ≠ .feedback) (hok : r.receive raw source now = (r', .ok out)) :
    ∃ id, d.header.stream? = some id ∧ DeliversExactly r r' d raw out id := by
  obtain ⟨id, within, s, s', receivers', step, hp⟩ := h.media_accepted hdecode hmedia hok
  obtain ⟨presence, hpass⟩ := hp.passage
  have hn := (within.receivers id).keys_nodup
  have hsubscribers := subscribers_eq hp.room id
  refine ⟨id, hp.named, ?_, ?_, ?_, ?_, ?_⟩
  · rw [hp.receivers_eq, hpass.sent_eq hp.serves hn]
    exact (hn.sublist hpass.sublist).sublist List.filter_sublist
  · intro e he
    have hmem : e.receiver ∈ out.egress.map (·.receiver) := List.mem_map_of_mem he
    have hne := (hp.kept.subscribed id e.receiver (hp.subscribed_of_mem hmem)).1
    rw [hp.outcome] at he
    simp only [Room.copiesOf, Outcome.egress, List.append_nil, List.mem_map] at he
    obtain ⟨p, -, rfl⟩ := he
    exact ⟨rfl, hp.kept.name, hp.sender_eq ▸ hne⟩
  · intro p
    rw [hsubscribers]
    exact hp.mem_iff_due hmedia p
  · intro htype
    have htotal := hpass.total_eq hp.serves hn fun p hp => Table.mem_keys_iff.mp hp
    rw [(hpass.layered_sent_iff htype).1, Table.length_keys] at htotal
    rw [hsubscribers, hp.outcome, ← htotal]
    simp [Room.copiesOf, (hpass.layered_sent_iff htype).1]
  · intro htype p hsubscribed
    rw [hsubscribers] at hsubscribed
    obtain ⟨link, hl, hl', hsent⟩ := hp.offered htype hsubscribed
    exact ⟨link, _, _, hl, hl', hpass.counted link, hsent.symm⟩

/-- A call of two, with exact numbers: participant 1 sends video in layers to participant 2. -/
def callOfTwo (layers : List LayerSpec) : Relay Rat :=
  (Relay.start Settings.small).run
    [(0, .event ⟨⟨7⟩, .join ⟨1⟩ .all protocolVersion⟩),
      (0, .event ⟨⟨7⟩, .join ⟨2⟩ .all protocolVersion⟩),
      (0, .event ⟨⟨7⟩, .negotiate ⟨⟨1⟩, .video⟩ ⟨.vp9, layers, []⟩⟩),
      (0, .event ⟨⟨7⟩, .subscribe ⟨2⟩ ⟨⟨1⟩, .video⟩⟩)]

theorem callOfTwo_reachable (layers : List LayerSpec) : (callOfTwo layers).Reachable :=
  (Reachable.start _).run _

/-- A packet of participant 1 that starts a frame with references of its own. -/
def videoPacket (sequence : UInt32) (number : UInt16) (layer : Layer) (diffs : List UInt16) :
    Datagram :=
  { header :=
      { version := protocolVersion
        packetType := .video
        codec := .vp9
        flags := ⟨0x10⟩
        room := ⟨7⟩
        sender := ⟨1⟩
        sequence
        timestamp := 0
        layer
        dtx := false }
    descriptor := some ⟨true, false, 0, number, 0, some diffs⟩
    payload := [] }

def wireBytes (d : Datagram) : Bytes := d.encode.toOption.getD []

def anyEndpoint : Endpoint := ⟨.v4 127 0 0 1, 9⟩

theorem delivery_exact_first_frame :
    let r := callOfTwo [⟨.base, 200000⟩]
    let d := videoPacket 0 0 .base []
    let out : Outcome := ⟨[⟨⟨7⟩, ⟨2⟩, wireBytes d⟩], [], 0⟩
    Datagram.decode (wireBytes d) = .ok d ∧ d.header.packetType ≠ .feedback ∧
      (r.receive (wireBytes d) anyEndpoint 0).2 = .ok out ∧
      ∃ id, d.header.stream? = some id ∧
        DeliversExactly r (r.receive (wireBytes d) anyEndpoint 0).1 d (wireBytes d) out id := by
  intro r d out
  have hdecode : Datagram.decode (wireBytes d) = .ok d :=
    Guard.eq_ok_of_toOption (by decide +kernel)
  have hok : (r.receive (wireBytes d) anyEndpoint 0).2 = .ok out :=
    Guard.eq_ok_of_toOption (by decide +kernel)
  exact ⟨hdecode, nofun, hok,
    (callOfTwo_reachable _).delivery_exact hdecode nofun (Prod.ext rfl hok)⟩

end Relay

end MediaRelay
