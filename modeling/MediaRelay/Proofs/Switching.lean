import Mathlib.Logic.ExistsUnique
import MediaRelay.Proofs.Delivery

/-!
When the layer of a downlink changes. There are three causes, and each change has exactly one
(`current_change_cause`): the stream is renegotiated, the estimate moves the layer within its
spatial index, or a staged switch takes place at the start of a frame.
-/

namespace MediaRelay

variable {F : Type} [Arithmetic F]

namespace Downlink

variable (d : Downlink F)

/-- An estimate changes the layer within its spatial index only. -/
theorem retarget_current (h : Hysteresis F) (g : LayerGraph) :
    (d.retarget h g).1.target.current = d.target.current ∨
      ∃ a b, d.target.current = some a ∧ (d.retarget h g).1.target.current = some b ∧
        a.spatial = b.spatial := by
  unfold retarget
  split
  · exact .inl rfl
  · rename_i layer _
    simp only [Target.pursue]
    cases hc : d.target.current with
    | none => exact .inl (by simp)
    | some current =>
      simp only
      by_cases heq : current = layer
      · exact .inl (by simp [heq])
      · by_cases hspatial : current.spatial = layer.spatial
        · exact .inr ⟨current, layer, rfl, by simp [heq, hspatial], hspatial⟩
        · refine .inl ?_
          rw [if_neg heq, if_neg hspatial]
          split <;> simp [hc]

/-- The layer that a packet can switch a downlink to: the one that is staged, or for a fresh
downlink the one it gets. -/
def staged (h : Hysteresis F) (g : LayerGraph) : Option Layer :=
  if d.target = .none then h.desired g d.estimate none else d.target.pending

theorem aimAt_target (h : Hysteresis F) (g : LayerGraph) :
    (d.aimAt h g).target = ⟨d.target.current, d.staged h g⟩ := by
  unfold aimAt staged
  by_cases hfresh : d.target = .none
  · simp only [hfresh, if_true, retarget, Target.none, Target.aim, Option.none_or]
    cases h.desired g d.estimate none with
    | none => simp [hfresh, Target.none]
    | some layer => simp [Target.pursue]
  · simp [hfresh]

/-- A packet changes the layer to the staged one, at a switch point, or not at all. -/
theorem switchAt_current (h : Hysteresis F) (g : LayerGraph) (history : FrameHistory)
    (seen : Sighting) :
    ((d.aimAt h g).switchAt history seen).target.current = d.target.current ∨
      ∃ layer, d.staged h g = some layer ∧
        history.isSwitchPoint seen d.target.current layer ∧
        ((d.aimAt h g).switchAt history seen).target.current = some layer := by
  unfold switchAt
  rw [d.aimAt_target h g]
  cases hstaged : d.staged h g with
  | none => exact .inl (by simp [d.aimAt_target h g])
  | some layer =>
    simp only
    split
    · rename_i hpoint
      exact .inr ⟨layer, rfl, hpoint, rfl⟩
    · exact .inl (by simp [d.aimAt_target h g])

end Downlink

namespace Room.Intake

variable {link link' : Downlink F} {now : Time} {body : Feedback.Body}

theorem target (h : Intake link now body link') : link'.target = link.target := by
  cases h <;> rfl

theorem tellsRate (h : Intake link now body link') :
    (∃ report, body = .congestion report) ∨ ∃ rate, body = .receiverEstimate rate := by
  cases h with
  | report report => exact .inl ⟨report, rfl⟩
  | estimate rate => exact .inr ⟨rate, rfl⟩

end Room.Intake

namespace Relay

/-- The receiver tells what rate its path takes, by a report or by an estimate of its own. -/
def ReportsRate (r : Relay F) (now : Time) (room : RoomId) (id : StreamId) (p : ParticipantId)
    (input : Input) : Prop :=
  ∃ raw source d message out, input = .datagram raw source ∧ Datagram.decode raw = .ok d ∧
    d.header.room = room ∧ d.header.sender = p ∧ d.feedback = .ok message ∧ message.stream = id ∧
    ((∃ report, message.body = .congestion report) ∨
      ∃ rate, message.body = .receiverEstimate rate) ∧
    (r.receive raw source now).2 = .ok out

/-- A packet of a frame of the stream is accepted. -/
def AcceptsFrame (r : Relay F) (now : Time) (room : RoomId) (id : StreamId) (input : Input)
    (d : Datagram) (descriptor : Descriptor) : Prop :=
  ∃ raw source out, input = .datagram raw source ∧ Datagram.decode raw = .ok d ∧
    d.header.room = room ∧ d.header.stream? = some id ∧
    (d.header.packetType = .video ∨ d.header.packetType = .screen) ∧
    d.descriptor = some descriptor ∧ (r.receive raw source now).2 = .ok out

/-- Why the layer of a downlink can change. -/
inductive Cause
  | renegotiation
  | adaptation
  | switch
  deriving DecidableEq

/-- Whether a cause accounts for the layer after an input of the downlink to `p` in stream `id`,
given the stream and the downlink before it. -/
def Cause.Explains (r : Relay F) (now : Time) (room : RoomId) (id : StreamId) (p : ParticipantId)
    (s : Stream F) (link : Downlink F) (input : Input) (after : Option Layer) : Cause → Prop
  | .renegotiation => ∃ offer, input = .event ⟨room, .negotiate id offer⟩ ∧
      (r.apply ⟨room, .negotiate id offer⟩ now).2 = .ok () ∧ after = none
  | .adaptation => (input = .tick ∨ ReportsRate r now room id p input) ∧
      ∃ a b, link.target.current = some a ∧ after = some b ∧ a.spatial = b.spatial
  | .switch => ∃ d descriptor layer, AcceptsFrame r now room id input d descriptor ∧
      descriptor.startOfFrame ∧ after = some layer ∧
      link.staged r.settings.hysteresis s.graph = some layer ∧
      (link.target.current ≠ none → d.header.layer.spatial = layer.spatial) ∧
      (link.target.current = none →
        FrameHistory.diffs s.graph d.header.layer descriptor = .ok [] ∧
          d.header.layer.fitsWithin layer)

theorem ReportsRate.not_event {r : Relay F} {now : Time} {room : RoomId} {id : StreamId}
    {p : ParticipantId} {input : Input} {e : Event}
    (h : input = .tick ∨ ReportsRate r now room id p input) : input ≠ .event e := by
  rintro rfl
  obtain h | ⟨_, _, _, _, _, h, -⟩ := h
  · cases h
  · cases h

theorem AcceptsFrame.not_rate {r : Relay F} {now : Time} {room : RoomId} {id : StreamId}
    {p : ParticipantId} {input : Input} {d : Datagram} {descriptor : Descriptor}
    (hf : AcceptsFrame r now room id input d descriptor) :
    ¬(input = .tick ∨ ReportsRate r now room id p input) := by
  obtain ⟨raw, source, out, rfl, hdecode, -, -, htype, -⟩ := hf
  rintro (h | ⟨_, _, d', message, _, h, hdecode', -, -, hmessage, -⟩)
  · cases h
  · cases h
    cases hdecode.symm.trans hdecode'
    exact (PacketType.of_frame htype).2.2 (Datagram.type_of_feedback hmessage)

/-- No change has two causes. -/
theorem Cause.explains_inj {r : Relay F} {now : Time} {room : RoomId} {id : StreamId}
    {p : ParticipantId} {s : Stream F} {link : Downlink F} {input : Input} {after : Option Layer}
    {c c' : Cause} (h : c.Explains r now room id p s link input after)
    (h' : c'.Explains r now room id p s link input after) : c = c' := by
  cases c <;> cases c'
  case renegotiation.renegotiation | adaptation.adaptation | switch.switch => rfl
  case renegotiation.adaptation =>
    obtain ⟨offer, hi, -⟩ := h
    exact absurd hi (ReportsRate.not_event h'.1)
  case adaptation.renegotiation =>
    obtain ⟨offer, hi, -⟩ := h'
    exact absurd hi (ReportsRate.not_event h.1)
  case renegotiation.switch =>
    obtain ⟨offer, hi, -⟩ := h
    obtain ⟨d, descriptor, layer, ⟨raw, source, out, hi', -⟩, -⟩ := h'
    cases hi.symm.trans hi'
  case switch.renegotiation =>
    obtain ⟨offer, hi, -⟩ := h'
    obtain ⟨d, descriptor, layer, ⟨raw, source, out, hi', -⟩, -⟩ := h
    cases hi.symm.trans hi'
  case adaptation.switch =>
    obtain ⟨d, descriptor, layer, hf, -⟩ := h'
    exact absurd h.1 hf.not_rate
  case switch.adaptation =>
    obtain ⟨d, descriptor, layer, hf, -⟩ := h
    exact absurd h'.1 hf.not_rate

/-- A frame packet changes the layer of a downlink by the staged switch. -/
theorem frame_current {r : Relay F} {now : Time} {within : Room F} {d : Datagram} {raw : Bytes}
    {s s' : Stream F} {receivers receivers' : List ParticipantId}
    {step : Downlink F → Downlink F × Fate} {link : Downlink F}
    (hpass : Room.Passage within r.settings.hysteresis d raw now s receivers s' receivers' step)
    (hne : (step link).1.target.current ≠ link.target.current) :
    ∃ descriptor layer, (d.header.packetType = .video ∨ d.header.packetType = .screen) ∧
      d.descriptor = some descriptor ∧ descriptor.startOfFrame ∧
      (step link).1.target.current = some layer ∧
      link.staged r.settings.hysteresis s.graph = some layer ∧
      (link.target.current ≠ none → d.header.layer.spatial = layer.spatial) ∧
      (link.target.current = none →
        FrameHistory.diffs s.graph d.header.layer descriptor = .ok [] ∧
          d.header.layer.fitsWithin layer) := by
  cases hpass with
  | audio _ => exact absurd rfl hne
  | repair _ => exact absurd (congrArg Target.current (link.offer_target _ _ _ _)) hne
  | frame descriptor history seen htype hdescriptor hseen =>
    rw [Downlink.offer_target] at hne ⊢
    obtain hsame | ⟨layer, hstaged, hpoint, hlayer⟩ :=
      link.switchAt_current r.settings.hysteresis s.graph history seen
    · exact absurd hsame hne
    · obtain ⟨ds, hdiffs, rfl⟩ := FrameHistory.observe_ok hseen
      obtain ⟨hstart, hfresh, hswitch⟩ := FrameHistory.isSwitchPoint_start hpoint
      refine ⟨descriptor, layer, htype, hdescriptor, hstart, hlayer, hstaged, hswitch,
        fun hnone => ?_⟩
      obtain ⟨rfl, hfits⟩ := hfresh hnone
      exact ⟨hdiffs, hfits⟩

theorem Reachable.current_change_cause {r : Relay F} (h : r.Reachable) (now : Time) (input : Input)
    {room : RoomId} {id : StreamId} {p : ParticipantId} {s : Stream F} {before after : Downlink F}
    (hs : r.stream? room id = some s) (hbefore : s.links.get? p = some before)
    (hafter : (r.step now input).1.link? room id p = some after)
    (hchange : after.target.current ≠ before.target.current) :
    ∃! c : Cause, c.Explains r now room id p s before input after.target.current := by
  suffices hcause : ∃ c : Cause, c.Explains r now room id p s before input after.target.current by
    obtain ⟨c, hc⟩ := hcause
    exact ⟨c, hc, fun c' hc' => Cause.explains_inj hc' hc⟩
  obtain ⟨s', hs', hafter⟩ := link?_eq_some_iff.mp hafter
  cases h.stream_step now input hs hs' with
  | rewired _ _ hsame =>
    exact absurd (congrArg (·.target.current) (hsame.links p before after hbefore hafter)) hchange
  | noted raw source history =>
    exact absurd (congrArg (·.target.current) (Option.some.inj (hafter.symm.trans hbefore))) hchange
  | renegotiated offer graph hok =>
    have hreset : after = before.resetLayers graph.version := by
      simp only [Stream.renegotiate, Table.get?_map, hbefore] at hafter
      exact (Option.some.inj hafter).symm
    exact ⟨.renegotiation, offer, rfl, hok, by rw [hreset]; rfl⟩
  | passed raw source d out within receivers t receivers' step hdecode hroom hid hok hn hpass =>
    rw [hpass.link_get? hn, hbefore] at hafter
    split at hafter
    · obtain rfl := Option.some.inj hafter
      obtain ⟨descriptor, layer, htype, hdescriptor, hswitch⟩ := frame_current hpass hchange
      exact ⟨.switch, d, descriptor, layer,
        ⟨raw, source, out, rfl, hdecode, hroom, hid, htype, hdescriptor, hok⟩, hswitch⟩
    · exact absurd (congrArg (·.target.current) (Option.some.inj hafter).symm) hchange
  | adapted raw source d out message link link' _ hdecode hroom hmessage hid hok hlink hintake =>
    by_cases hp : p = d.header.sender
    · subst hp
      rw [hlink] at hbefore
      obtain rfl := Option.some.inj hbefore
      rw [Stream.asked, Table.get?_insert_self] at hafter
      obtain rfl := Option.some.inj hafter
      have hrate : ReportsRate r now room id d.header.sender (.datagram raw source) :=
        ⟨raw, source, d, message, out, rfl, hdecode, hroom, rfl, hmessage, hid, hintake.tellsRate,
          hok⟩
      obtain hsame | hmoved := link'.retarget_current r.settings.hysteresis s.graph
      · exact absurd (hsame.trans (congrArg Target.current hintake.target)) hchange
      · rw [hintake.target] at hmoved
        exact ⟨.adaptation, .inr hrate, hmoved⟩
    · rw [Stream.asked, Table.get?_insert_of_ne _ _ hp, hbefore] at hafter
      exact absurd (congrArg (·.target.current) (Option.some.inj hafter).symm) hchange
  | ticked left isOpen hthin =>
    rw [Stream.tick_link] at hafter
    obtain ⟨link, hl, rfl⟩ := Option.map_eq_some_iff.mp hafter
    obtain rfl := Option.some.inj ((hthin.links p link hl).symm.trans hbefore)
    obtain hsame | hmoved := (link.tick now).retarget_current r.settings.hysteresis left.graph
    · exact absurd hsame hchange
    · exact ⟨.adaptation, .inl rfl, hmoved⟩

theorem current_change_cause_first_frame :
    let r := callOfTwo [⟨.base, 200000⟩]
    let input := Input.datagram (wireBytes (videoPacket 0 0 .base [])) anyEndpoint
    ∃ s before after, r.stream? ⟨7⟩ ⟨⟨1⟩, .video⟩ = some s ∧ s.links.get? ⟨2⟩ = some before ∧
      (r.step 0 input).1.link? ⟨7⟩ ⟨⟨1⟩, .video⟩ ⟨2⟩ = some after ∧
      after.target.current ≠ before.target.current ∧
      ∃! c : Cause, c.Explains r 0 ⟨7⟩ ⟨⟨1⟩, .video⟩ ⟨2⟩ s before input after.target.current := by
  intro r input
  have hfresh : (r.link? ⟨7⟩ ⟨⟨1⟩, .video⟩ ⟨2⟩).map (·.target.current) = some none := by
    decide +kernel
  have hgot : ((r.step 0 input).1.link? ⟨7⟩ ⟨⟨1⟩, .video⟩ ⟨2⟩).map (·.target.current) =
      some (some .base) := by decide +kernel
  obtain ⟨before, hlink, hnone⟩ := Option.map_eq_some_iff.mp hfresh
  obtain ⟨s, hs, hbefore⟩ := link?_eq_some_iff.mp hlink
  obtain ⟨after, hafter, hsome⟩ := Option.map_eq_some_iff.mp hgot
  have hchange : after.target.current ≠ before.target.current := by
    rw [hnone, hsome]
    exact nofun
  exact ⟨s, before, after, hs, hbefore, hafter, hchange,
    (callOfTwo_reachable _).current_change_cause 0 input hs hbefore hafter hchange⟩

/-- A switch point is within the spatial index of its target; that the temporal index is, too, is
only asked of the first frame of a fresh downlink. -/
theorem isSwitchPoint_fits_iff {history : FrameHistory} {seen : Sighting} {current : Option Layer}
    {target : Layer} (h : history.isSwitchPoint seen current target) :
    (seen.layer.fitsWithin target ↔ seen.layer.temporal ≤ target.temporal) ∧
      (current = none → seen.layer.fitsWithin target) := by
  unfold FrameHistory.isSwitchPoint at h
  split at h
  · cases h
  cases current with
  | none =>
    have hfits := (Bool.and_eq_true_iff.mp h).2
    have htemporal := hfits
    simp only [Layer.fitsWithin, Bool.and_eq_true, decide_eq_true_eq] at htemporal
    exact ⟨⟨fun _ => htemporal.2, fun _ => hfits⟩, fun _ => hfits⟩
  | some c =>
    have hspatial : seen.layer.spatial = target.spatial :=
      beq_iff_eq.mp (Bool.and_eq_true_iff.mp h).1
    refine ⟨?_, fun hnone => absurd hnone (Option.some_ne_none c)⟩
    simp [Layer.fitsWithin, hspatial]

theorem switch_forwarded_iff :
    (∀ (history : FrameHistory) (seen : Sighting) (current : Option Layer) (target : Layer),
      history.isSwitchPoint seen current target →
        (seen.layer.fitsWithin target ↔ seen.layer.temporal ≤ target.temporal) ∧
          (current = none → seen.layer.fitsWithin target)) ∧
    ∀ {r r' : Relay F} {raw : Bytes} {source : Endpoint} {now : Time} {d : Datagram}
      {out : Outcome} {id : StreamId} {p : ParticipantId} {before after : Downlink F},
      r.Reachable → Datagram.decode raw = .ok d →
      d.header.packetType = .video ∨ d.header.packetType = .screen →
      r.receive raw source now = (r', .ok out) → d.header.stream? = some id →
      r.link? d.header.room id p = some before → r'.link? d.header.room id p = some after →
      after.target.current ≠ before.target.current →
      ∃ layer, after.target.current = some layer ∧
        (p ∈ out.egress.map (·.receiver) ↔ d.header.layer.temporal ≤ layer.temporal) ∧
        (before.target.current = none → p ∈ out.egress.map (·.receiver)) := by
  refine ⟨fun _ _ _ _ h => isSwitchPoint_fits_iff h, ?_⟩
  intro r r' raw source now d out id p before after h hdecode htype hok hid hbefore hafter hchange
  obtain ⟨haudio, -, hmedia⟩ := PacketType.of_frame htype
  obtain ⟨id', within, s, s', receivers', step, hp⟩ := h.media_accepted hdecode hmedia hok
  obtain rfl := Option.some.inj (hp.named.symm.trans hid)
  obtain ⟨presence, hpass⟩ := hp.passage
  obtain ⟨t, ht, hl⟩ := link?_eq_some_iff.mp hbefore
  obtain rfl := Option.some.inj (ht.symm.trans hp.before)
  obtain ⟨link, hlink, hlink', hsent⟩ := hp.offered haudio (hp.serves.receiver_of_link hl)
  obtain rfl := Option.some.inj (hbefore.symm.trans hlink)
  obtain rfl := Option.some.inj (hafter.symm.trans hlink')
  obtain ⟨_, layer, -, -, -, hlayer, -, hswitch, hfresh⟩ := frame_current hpass hchange
  have hfits : p ∈ out.egress.map (·.receiver) ↔ d.header.layer.fitsWithin layer := by
    rw [hsent, (hpass.layered_sent_iff haudio).2, hlayer]
    simp
  refine ⟨layer, hlayer, ?_, fun hnone => hfits.mpr (hfresh hnone).2⟩
  rw [hfits]
  by_cases hnone : before.target.current = none
  · have hwithin := (hfresh hnone).2
    simp only [Layer.fitsWithin, Bool.and_eq_true, decide_eq_true_eq] at hwithin
    simp [Layer.fitsWithin, hwithin]
  · simp [Layer.fitsWithin, hswitch hnone]

theorem switch_forwarded_first_frame :
    let r := callOfTwo [⟨.base, 200000⟩]
    let d := videoPacket 0 0 .base []
    let id : StreamId := ⟨⟨1⟩, .video⟩
    let out : Outcome := ⟨[⟨⟨7⟩, ⟨2⟩, wireBytes d⟩], [], 0⟩
    ∃ before after, r.receive (wireBytes d) anyEndpoint 0 =
        ((r.receive (wireBytes d) anyEndpoint 0).1, .ok out) ∧
      r.link? ⟨7⟩ id ⟨2⟩ = some before ∧
      (r.receive (wireBytes d) anyEndpoint 0).1.link? ⟨7⟩ id ⟨2⟩ = some after ∧
      after.target.current ≠ before.target.current ∧
      ∃ layer, after.target.current = some layer ∧
        (⟨2⟩ ∈ out.egress.map (·.receiver) ↔ d.header.layer.temporal ≤ layer.temporal) ∧
        (before.target.current = none → ⟨2⟩ ∈ out.egress.map (·.receiver)) := by
  intro r d id out
  have hdecode : Datagram.decode (wireBytes d) = .ok d :=
    Guard.eq_ok_of_toOption (by decide +kernel)
  have hanswer : (r.receive (wireBytes d) anyEndpoint 0).2 = .ok out :=
    Guard.eq_ok_of_toOption (by decide +kernel)
  have hok : r.receive (wireBytes d) anyEndpoint 0 =
      ((r.receive (wireBytes d) anyEndpoint 0).1, .ok out) := Prod.ext rfl hanswer
  have hfresh : (r.link? ⟨7⟩ id ⟨2⟩).map (·.target.current) = some none := by decide +kernel
  have hgot : ((r.receive (wireBytes d) anyEndpoint 0).1.link? ⟨7⟩ id ⟨2⟩).map
      (·.target.current) = some (some .base) := by decide +kernel
  obtain ⟨before, hbefore, hnone⟩ := Option.map_eq_some_iff.mp hfresh
  obtain ⟨after, hafter, hsome⟩ := Option.map_eq_some_iff.mp hgot
  have hchange : after.target.current ≠ before.target.current := by
    rw [hnone, hsome]
    exact nofun
  exact ⟨before, after, hok, hbefore, hafter, hchange,
    switch_forwarded_iff.2 (callOfTwo_reachable _) hdecode (.inl rfl) hok rfl hbefore hafter
      hchange⟩

/-- Participant 2 tells the rate it can take of the stream in `callOfTwo`. -/
def ratePacket (rate : UInt64) : Datagram :=
  { header :=
      { version := protocolVersion
        packetType := .feedback
        codec := .none
        flags := .none
        room := ⟨7⟩
        sender := ⟨2⟩
        sequence := 0
        timestamp := 0
        layer := .base
        dtx := false }
    descriptor := none
    payload := (Feedback.encode ⟨⟨⟨1⟩, .video⟩, .receiverEstimate rate⟩).toOption.getD [] }

/-- The first frame of `callOfTwo` has come, and its receiver has told a rate. -/
def toldRate (layers : List LayerSpec) (rate : UInt64) : Relay Rat :=
  (callOfTwo layers).run
    [(0, .datagram (wireBytes (videoPacket 0 0 .base [])) anyEndpoint),
      (0, .datagram (wireBytes (ratePacket rate)) anyEndpoint)]

theorem toldRate_reachable (layers : List LayerSpec) (rate : UInt64) :
    (toldRate layers rate).Reachable :=
  (callOfTwo_reachable layers).run _

/-- The switch to S1T0 takes place on a packet of S1T1, which the receiver does not get. -/
theorem switch_withheld :
    let r := toldRate [⟨.base, 200000⟩, ⟨⟨1, 0⟩, 500000⟩, ⟨⟨1, 1⟩, 900000⟩] 600000
    let d := videoPacket 1 1 ⟨1, 1⟩ [1]
    r.Reachable ∧ Datagram.decode (wireBytes d) = .ok d ∧
      (r.link? ⟨7⟩ ⟨⟨1⟩, .video⟩ ⟨2⟩).map (·.target) = some ⟨some ⟨0, 0⟩, some ⟨1, 0⟩⟩ ∧
      (r.receive (wireBytes d) anyEndpoint 0).2 = .ok ⟨[], [], 1⟩ ∧
      ((r.receive (wireBytes d) anyEndpoint 0).1.link? ⟨7⟩ ⟨⟨1⟩, .video⟩ ⟨2⟩).map (·.target) =
        some ⟨some ⟨1, 0⟩, none⟩ :=
  ⟨toldRate_reachable _ _, Guard.eq_ok_of_toOption (by decide +kernel), by decide +kernel,
    Guard.eq_ok_of_toOption (by decide +kernel), by decide +kernel⟩

end Relay

end MediaRelay
