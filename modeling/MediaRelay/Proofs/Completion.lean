import MediaRelay.Proofs.MediaClock
import MediaRelay.Proofs.Reporting
import MediaRelay.Proofs.Versions

/-!
Relays whose media times are in machine words. Such a relay comes through a run exactly if the media
times of all streams fit on the way, and is then what it would be without a limit
(`Relay.run?_eq_some_iff`). They fit as long as no stream had more than 4293 packets accepted
(`Relay.Reachable.fits_of_received`). What stops a relay is a packet that it accepts and whose media
time does not fit, and nothing else (`Relay.Reachable.step?_eq_none_iff`).
-/

namespace MediaRelay

variable {F : Type}

theorem Uplink.record?_isSome_iff (u : Uplink F) (hg : u.arrivals.Grounded)
    (hfits : u.arrivals.fits) (h : Header) (size : Nat) (now : Time) :
    (u.record? h size now).isSome ↔ (u.record h size now).arrivals.fits := by
  rw [Uplink.record?, Option.isSome_map, Uplink.record, hg.fits_record_iff _ _ _ _ _ hfits]

variable [Arithmetic F]

/-- A stream hears a timestamp with a packet that it accepts, or none. -/
theorem Stream.heard_inductive (settings : Settings F) :
    Stream.Inductive settings fun s =>
      ∃ ts, s.uplink.arrivals.Hears ts ∧ ts.length ≤ s.received where
  start _ _ now _ := ⟨[], ArrivalLog.hears_start now, Nat.le_refl _⟩
  addLink _ _ _ hs := hs
  dropLink _ _ hs := hs
  renegotiate _ _ _ hs := hs
  noted _ _ _ _ _ _ hs := hs
  passed r d raw now s _ s' receivers' step _ hpass hs := by
    obtain ⟨ts, hhears, hlength⟩ := hs
    have hreceived : (s'.accept step receivers').1.received = s.received + 1 :=
      congrArg (· + 1) hpass.same_received
    rw [hreceived]
    show ∃ ts, s'.uplink.arrivals.Hears ts ∧ _
    obtain ⟨-, hsame⟩ | ⟨-, hnoted⟩ := hpass.uplink_cases
    · exact ⟨ts, hsame ▸ hhears, Nat.le_succ_of_le hlength⟩
    · let packet : ArrivalLog.Act :=
        .packet ⟨d.header.sequence, d.header.timestamp, d.header.codec.clockRate, raw.length, now⟩
      have hone : (s.uplink.arrivals.timestamp? packet).toList.length ≤ 1 :=
        Option.length_toList_le
      rw [hnoted]
      refine ⟨_, hhears.step packet, ?_⟩
      rw [List.length_append]
      omega
  adapted _ _ _ _ _ _ _ _ _ hs := hs
  ticked s now isOpen hs := by
    obtain ⟨ts, hhears, hlength⟩ := hs
    refine ⟨ts, ?_, hlength⟩
    rw [Stream.tick_uplink, Uplink.takeReport_arrivals]
    exact hhears.step .report

theorem Room.newStream_uplink (r : Room F) (id : StreamId) (graph : LayerGraph) (now : Time) :
    (r.newStream id graph now).uplink = .start r.terms.estimator r.terms.feedbackTimeout now :=
  List.foldlRecOn (motive := fun s : Stream F =>
    s.uplink = .start r.terms.estimator r.terms.feedbackTimeout now) _ _ rfl fun _ hs _ _ => hs

/-- A stream that signaling brings has heard nothing. -/
theorem Room.negotiate_new_stream {r : Room F} {stream : StreamId} {offer : Offer} {now : Time}
    {id : StreamId} {s' : Stream F} (hnone : r.streams.get? id = none)
    (hs' : (r.negotiate stream.sender stream.kind offer now).1.streams.get? id = some s') :
    s'.uplink.arrivals.fits := by
  have hother {s : Stream F} (hid : id ≠ stream)
      (hget : (r.streams.insert stream s).get? id = some s') : False := by
    rw [Table.get?_insert_of_ne _ _ hid, hnone] at hget
    cases hget
  obtain ⟨_, hneg⟩ | ⟨_, graph, -, -, -, -, ⟨s, hs, hneg⟩ | ⟨-, -, hneg⟩⟩ :=
    r.negotiate_cases stream.sender stream.kind offer now <;> rw [hneg] at hs'
  · rw [hnone] at hs'
    cases hs'
  · refine (hother (fun hid => ?_) hs').elim
    rw [← hid, hnone] at hs
    cases hs
  · by_cases hid : id = stream
    · subst hid
      obtain rfl := Option.some.inj ((Table.get?_insert_self _ _ _).symm.trans hs')
      rw [newStream_uplink]
      rfl
    · exact (hother hid hs').elim

namespace Relay

variable {r r' : Relay F} {now : Time} {input : Input}

omit [Arithmetic F] in
theorem fits_iff : r.fits ↔
    ∀ room id s, r.stream? room id = some s → s.uplink.arrivals.fits := by
  simp only [fits, Table.all_values_iff, stream?_eq_some_iff]
  constructor
  · rintro hall room id s ⟨within, hroom, hs⟩
    exact hall room within hroom id s hs
  · intro hall room within hroom id s hs
    exact hall room id s ⟨within, hroom, hs⟩

theorem step?_eq_some_iff {out : Relay F × List Egress} :
    r.step? now input = some out ↔ r.step now input = out ∧ out.1.fits := by
  rw [step?]
  simp only [Option.ite_none_right_eq_some, Option.some_inj]
  constructor
  · rintro ⟨hfits, rfl⟩
    exact ⟨rfl, hfits⟩
  · rintro ⟨rfl, hfits⟩
    exact ⟨hfits, rfl⟩

theorem run?_eq_some_iff (hr : r.fits) (inputs : List (Time × Input)) :
    r.run? inputs = some r' ↔
      r.run inputs = r' ∧ ∀ before, before <+: inputs → (r.run before).fits := by
  induction inputs generalizing r with
  | nil => simp [run?, run, hr]
  | cons first rest ih =>
    obtain ⟨now, input⟩ := first
    simp only [run?, run, Option.bind_eq_bind, Option.bind_eq_some_iff, step?_eq_some_iff,
      List.prefix_cons_iff]
    constructor
    · rintro ⟨_, ⟨rfl, hfits⟩, hrest⟩
      obtain ⟨hrun, hway⟩ := (ih hfits).mp hrest
      refine ⟨hrun, ?_⟩
      rintro _ (rfl | ⟨before, rfl, hbefore⟩)
      · exact hr
      · exact hway before hbefore
    · rintro ⟨hrun, hway⟩
      have hfits : (r.step now input).1.fits := hway _ (.inr ⟨[], rfl, List.nil_prefix⟩)
      refine ⟨_, ⟨rfl, hfits⟩, (ih hfits).mpr ⟨hrun, fun before hbefore => ?_⟩⟩
      exact hway _ (.inr ⟨before, rfl, hbefore⟩)

/-- What takes a stream to a media time that does not fit is a packet that it notes. -/
theorem StreamStep.fits_cases {room : RoomId} {id : StreamId} {s s' : Stream F}
    (h : StreamStep r now room id s input s') (hfits : s.uplink.arrivals.fits) :
    s'.uplink.arrivals.fits ∨ ∃ raw source d out, input = .datagram raw source ∧
      Datagram.decode raw = .ok d ∧ d.header.room = room ∧ d.header.stream? = some id ∧
      (r.receive raw source now).2 = .ok out ∧ d.header.packetType ≠ .fec ∧
      s'.uplink = s.uplink.record d.header raw.length now := by
  cases h with
  | rewired _ _ hsame => exact .inl (hsame.uplink ▸ hfits)
  | renegotiated | noted | adapted => exact .inl hfits
  | passed raw source d out _ _ _ _ _ hdecode hroom hid hok _ hpass =>
    obtain ⟨-, hsame⟩ | ⟨hfec, hnoted⟩ := hpass.uplink_cases
    · exact .inl (hsame.symm ▸ hfits)
    · exact .inr ⟨raw, source, d, out, rfl, hdecode, hroom, hid, hok, hfec, hnoted⟩
  | ticked left isOpen hthin =>
    refine .inl ?_
    rwa [Stream.tick_uplink, Uplink.takeReport_arrivals, hthin.uplink, ArrivalLog.fits,
      (ArrivalLog.takeReport_fields _).2.2]

namespace Reachable

theorem fits_of_received (h : r.Reachable)
    (hfew : ∀ room id s, r.stream? room id = some s → s.received ≤ 4293) : r.fits := by
  refine fits_iff.mpr fun room id s hs => ?_
  obtain ⟨ts, hhears, hlength⟩ := h.stream_invariant (Stream.heard_inductive r.settings) hs
  exact hhears.fits (Nat.le_trans hlength (hfew room id s hs))

theorem run?_of_received (h : r.Reachable) {inputs : List (Time × Input)}
    (hfew : ∀ before, before <+: inputs → ∀ room id s,
      (r.run before).stream? room id = some s → s.received ≤ 4293) :
    r.run? inputs = some (r.run inputs) := by
  have hway (before : List (Time × Input)) (hbefore : before <+: inputs) : (r.run before).fits :=
    (h.run before).fits_of_received (hfew before hbefore)
  exact (run?_eq_some_iff (hway [] List.nil_prefix) inputs).mpr ⟨rfl, hway⟩

/-- A stream that an input brings has heard nothing. -/
theorem new_stream_fits (h : r.Reachable) {room : RoomId} {id : StreamId} {s' : Stream F}
    (hnone : r.stream? room id = none)
    (hs' : (r.step now input).1.stream? room id = some s') : s'.uplink.arrivals.fits := by
  obtain ⟨after, hafter, hs'⟩ := stream?_eq_some_iff.mp hs'
  cases hroom : r.directory.room? room with
  | none =>
    obtain ⟨p, role, -, rfl⟩ := step_new_room h.sound now input hroom hafter
    rw [Room.join_streams] at hs'
    cases hs'
  | some within =>
    have hnone : within.streams.get? id = none := by rwa [stream?, hroom] at hnone
    obtain ⟨after', hevolves, hstep⟩ := step_room h.sound now input hroom
    rw [hafter] at hstep
    obtain ⟨-, rfl⟩ := Room.unlessClosed_eq_some_iff.mp hstep.symm
    by_cases hinput : ∃ stream offer, input = .event ⟨room, .negotiate stream offer⟩
    · obtain ⟨stream, offer, rfl⟩ := hinput
      cases hevolves with
      | idle =>
        rw [hnone] at hs'
        cases hs'
      | signaled => exact Room.negotiate_new_stream hnone hs'
    · have hsame := hevolves.sameGraphs (h.sound _ _ hroom).toCoherent fun stream offer heq =>
        hinput ⟨stream, offer, heq⟩
      obtain ⟨s, hs, -⟩ := hsame.graphs id s' hs'
      rw [hnone] at hs
      cases hs

/-- A relay stops at a packet that it accepts, that is no repair packet and whose media time does
not fit, and at nothing else. -/
theorem step?_eq_none_iff (h : r.Reachable) (hfits : r.fits) :
    r.step? now input = none ↔ ∃ raw source d out id s, input = .datagram raw source ∧
      Datagram.decode raw = .ok d ∧ (r.receive raw source now).2 = .ok out ∧
      d.header.packetType ≠ .fec ∧ d.header.stream? = some id ∧
      r.stream? d.header.room id = some s ∧ s.uplink.record? d.header raw.length now = none := by
  have hstops : r.step? now input = none ↔ ¬(r.step now input).1.fits := by simp [step?]
  have hunnoted {room : RoomId} {id : StreamId} {s : Stream F} (hs : r.stream? room id = some s)
      (header : Header) (size : Nat) : s.uplink.record? header size now = none ↔
        ¬(s.uplink.record header size now).arrivals.fits := by
    have hgrounded := h.stream_invariant (Stream.grounded_inductive r.settings) hs
    rw [← Option.not_isSome_iff_eq_none,
      s.uplink.record?_isSome_iff hgrounded (fits_iff.mp hfits room id s hs)]
  rw [hstops]
  constructor
  · intro hlarge
    simp only [fits_iff, not_forall] at hlarge
    obtain ⟨room, id, s', hs', hlarge⟩ := hlarge
    cases hs : r.stream? room id with
    | none => exact absurd (h.new_stream_fits hs hs') hlarge
    | some s =>
      have hstep := h.stream_step now input hs hs'
      obtain ⟨raw, source, d, out, rfl, hdecode, rfl, hid, hok, hfec, hnoted⟩ :=
        (hstep.fits_cases (fits_iff.mp hfits room id s hs)).resolve_left hlarge
      refine ⟨raw, source, d, out, id, s, rfl, hdecode, hok, hfec, hid, hs, ?_⟩
      rwa [hunnoted hs, ← hnoted]
  · rintro ⟨raw, source, d, out, id, s, rfl, hdecode, hok, hfec, hid, hs, hnone⟩ hafter
    have hmedia : d.header.packetType ≠ .feedback := by
      intro htype
      simp [Header.stream?, Header.kind?, htype, PacketType.kind?] at hid
    obtain ⟨id', within, t, t', receivers', step, hpasses⟩ :=
      h.media_accepted hdecode hmedia (Prod.ext rfl hok)
    obtain rfl := Option.some.inj (hid.symm.trans hpasses.named)
    obtain rfl := Option.some.inj (hs.symm.trans hpasses.before)
    obtain ⟨presence, hpass⟩ := hpasses.passage
    have hnoted : (t'.accept step receivers').1.uplink = s.uplink.record d.header raw.length now :=
      (hpass.uplink_cases.resolve_left fun hrepair => hfec hrepair.1).2
    refine (hunnoted hs _ _).mp hnone ?_
    rw [← hnoted]
    exact fits_iff.mp hafter _ _ _ hpasses.after

end Reachable

end Relay

end MediaRelay
