import MediaRelay.Proofs.ArrivalLog
import MediaRelay.Proofs.Delivery
import MediaRelay.Proofs.Invariant
import MediaRelay.Proofs.Room.Speech

/-!
From a packet to the report on it. What a stream accepts is noted in its uplink, all but repair
packets; what is noted stays pending until the next tick, and the report that the tick sends marks it
as received (`Relay.Reachable.media_reported`).
-/

namespace MediaRelay

variable {F : Type} [Arithmetic F]

namespace Uplink

theorem takeReport_arrivals (u : Uplink F) (now : Time) :
    (u.takeReport now).1.arrivals = u.arrivals.takeReport.1 := by
  unfold takeReport
  split
  · rename_i h
    rw [h]
  · rename_i h
    rw [h]

theorem takeReport_report (u : Uplink F) (now : Time) :
    (u.takeReport now).2 = u.arrivals.takeReport.2.map (·.1) := by
  unfold takeReport
  split
  · rename_i h
    rw [h]
    rfl
  · rename_i h
    rw [h]
    rfl

end Uplink

namespace Room.Passage

variable {r : Room F} {h : Hysteresis F} {d : Datagram} {raw : Bytes} {now : Time}
  {s s' : Stream F} {receivers receivers' : List ParticipantId}
  {step : Downlink F → Downlink F × Fate}

/-- The uplink takes note of a packet, but not of a repair packet. -/
theorem uplink_cases (hp : Passage r h d raw now s receivers s' receivers' step) :
    d.header.packetType = .fec ∧ s'.uplink = s.uplink ∨
      d.header.packetType ≠ .fec ∧ s'.uplink = s.uplink.record d.header raw.length now := by
  cases hp with
  | audio htype => exact .inr ⟨by rw [htype]; decide, rfl⟩
  | frame _ _ _ htype _ _ =>
    refine .inr ⟨?_, rfl⟩
    obtain htype | htype := htype
    · rw [htype]
      decide
    · rw [htype]
      decide
  | repair htype => exact .inl ⟨htype, rfl⟩

theorem same_received (hp : Passage r h d raw now s receivers s' receivers' step) :
    s'.received = s.received := by
  cases hp <;> rfl

end Room.Passage

theorem Stream.grounded_inductive (settings : Settings F) :
    Stream.Inductive settings fun s => s.uplink.arrivals.Grounded where
  start _ _ now _ := ArrivalLog.grounded_empty now
  addLink _ _ _ hs := hs
  dropLink _ _ hs := hs
  renegotiate _ _ _ hs := hs
  noted _ _ _ _ _ _ hs := hs
  passed _ _ _ _ s _ s' receivers' step _ hpass hs := by
    show s'.uplink.arrivals.Grounded
    obtain ⟨-, hsame⟩ | ⟨-, hnoted⟩ := hpass.uplink_cases
    · rwa [hsame]
    · rw [hnoted]
      exact hs.record _ _ _ _ _
  adapted _ _ _ _ _ _ _ _ _ hs := hs
  ticked s now isOpen hs := by
    rw [Stream.tick_uplink, Uplink.takeReport_arrivals]
    exact hs.takeReport

/-- The room once those have left who were silent for too long. -/
def Room.awake (r : Room F) (settings : Settings F) (now : Time) : Room F :=
  r.expel (r.inactive now (Time.ofMillis settings.participantTimeoutMs))

namespace Relay

variable {r r' : Relay F} {room : RoomId} {id : StreamId} {s s' : Stream F} {now : Time}

section Tick

/-- What a tick of a room says. -/
def tickedAnswers (settings : Settings F) (now : Time) (room : Room F) : List Room.Emission :=
  ((room.awake settings now).tick settings.hysteresis now).2

theorem tickRoom_answers (hr : r.directory.Sound) {within : Room F}
    (hroom : r.directory.room? room = some within)
    (hopen : (within.awake r.settings now).closed = false) :
    (r.tickRoom room now).2 = tickedAnswers r.settings now within := by
  unfold tickRoom tickedAnswers
  unfold Room.awake at hopen ⊢
  simp only [hroom]
  generalize within.inactive now (Time.ofMillis r.settings.participantTimeoutMs) = gone at hopen ⊢
  obtain ⟨-, hsettings, hrooms⟩ := foldl_expire hr room gone
  have hleft : (gone.foldl (expire room) r).directory.room? room = some (within.expel gone) := by
    rw [hrooms, if_pos rfl, hroom, Option.bind_some, Room.unlessClosed, hopen]
    rfl
  simp only [hleft, hopen, Bool.false_eq_true, if_false, hsettings]

/-- Each room that stays speaks for itself. -/
theorem tickRooms_answers (hr : r.directory.Sound) {within : Room F} {rooms : List RoomId}
    (hmem : room ∈ rooms) (hroom : r.directory.room? room = some within)
    (hopen : (within.awake r.settings now).closed = false) {e : Room.Emission}
    (he : e ∈ tickedAnswers r.settings now within) : e ∈ (r.tickRooms now rooms).2 := by
  induction rooms generalizing r with
  | nil => cases hmem
  | cons first rest ih =>
    rw [tickRooms]
    refine List.mem_append.mpr ?_
    by_cases hfirst : room = first
    · subst hfirst
      exact .inl (tickRoom_answers hr hroom hopen ▸ he)
    · obtain ⟨hsettings, hrooms⟩ := tickRoom_spec hr first now
      refine .inr (ih (sound_tickRoom hr first now) ((List.mem_cons.mp hmem).resolve_left hfirst)
        ?_ (hsettings ▸ hopen) (hsettings ▸ he))
      rw [hrooms, if_neg hfirst, hroom]

end Tick

/-- The uplink of a stream changes between ticks only by what it takes note of. -/
theorem StreamStep.uplink_cases {input : Input} (h : StreamStep r now room id s input s')
    (hinput : input ≠ .tick) :
    s'.uplink = s.uplink ∨ ∃ header size, s'.uplink = s.uplink.record header size now := by
  cases h with
  | rewired _ _ hsame => exact .inl hsame.uplink
  | renegotiated _ _ _ => exact .inl rfl
  | noted _ _ _ => exact .inl rfl
  | passed _ _ d _ _ _ _ _ _ _ _ _ _ _ hpass =>
    obtain ⟨-, hsame⟩ | ⟨-, hnoted⟩ := hpass.uplink_cases
    · exact .inl hsame
    · exact .inr ⟨_, _, hnoted⟩
  | adapted _ _ _ _ _ _ _ _ _ _ _ _ _ _ _ => exact .inl rfl
  | ticked _ _ _ => exact absurd rfl hinput

/-- A run without ticks that the stream outlasts. -/
def BetweenTicks (room : RoomId) (id : StreamId) : Relay F → List (Time × Input) → Prop
  | _, [] => True
  | r, (now, input) :: rest => input ≠ .tick ∧
      (∃ s, (r.step now input).1.stream? room id = some s) ∧
      BetweenTicks room id (r.step now input).1 rest

/-- A tick takes the report of a stream, which was in state `s`, on the numbers from `base` to
`last`, and sends it. -/
structure Reports (r : Relay F) (now : Time) (room : RoomId) (id : StreamId) (s : Stream F)
    (base last : Nat) (report : Report) : Prop where
  range : s.uplink.arrivals.range? = some (base, last)
  verdicts : report.verdicts = (List.range' base (last + 1 - base)).map fun number =>
    (.ofNat number, s.uplink.arrivals.pending.contains number)
  sent : ∃ e ∈ (r.step now .tick).2, e.Tells room id.sender ⟨id, .congestion report⟩

/-- The next report on a stream marks a packet as received, unless the packet lies further back than
one report reaches. -/
def NextReportMarks (r : Relay F) (room : RoomId) (id : StreamId) (sequence : UInt32)
    (number : Nat) : Prop :=
  ∀ (inputs : List (Time × Input)) (now : Time) (after : Stream F),
    BetweenTicks room id r inputs →
    ((r.run inputs).step now .tick).1.stream? room id = some after →
    ∃ before base last report, (r.run inputs).stream? room id = some before ∧
      Reports (r.run inputs) now room id before base last report ∧ number ≤ last ∧
      (last ≤ number + 8191 → (sequence, true) ∈ report.verdicts)

namespace Reachable

theorem arrivals_grounded (h : r.Reachable) (hs : r.stream? room id = some s) :
    s.uplink.arrivals.Grounded := h.stream_invariant (Stream.grounded_inductive r.settings) hs

theorem pending_step (h : r.Reachable) {input : Input} (hinput : input ≠ .tick)
    (hs : r.stream? room id = some s) (hs' : (r.step now input).1.stream? room id = some s')
    {number : Nat} (hnumber : s.uplink.arrivals.pending.contains number) :
    s'.uplink.arrivals.pending.contains number := by
  obtain hsame | ⟨_, _, hnoted⟩ := (h.stream_step now input hs hs').uplink_cases hinput
  · rwa [hsame]
  · rw [hnoted]
    exact ArrivalLog.pending_record _ _ _ _ _ hnumber

theorem pending_run (h : r.Reachable) (inputs : List (Time × Input))
    (hbetween : BetweenTicks room id r inputs) (hs : r.stream? room id = some s) {number : Nat}
    (hnumber : s.uplink.arrivals.pending.contains number) :
    ∃ s', (r.run inputs).stream? room id = some s' ∧
      s'.uplink.arrivals.pending.contains number := by
  induction inputs generalizing r s with
  | nil => exact ⟨s, hs, hnumber⟩
  | cons first rest ih =>
    obtain ⟨now, input⟩ := first
    obtain ⟨hinput, ⟨s₁, hs₁⟩, hrest⟩ := hbetween
    exact ih (h.step now input) hrest hs₁ (h.pending_step hinput hs hs₁ hnumber)

/-- A tick finds a stream that it does not end as it was, but for participants that have been silent
for too long. -/
theorem tick_finds (h : r.Reachable) (hs : r.stream? room id = some s)
    (hs' : (r.step now .tick).1.stream? room id = some s') :
    ∃ within left, r.directory.room? room = some within ∧ within.Kept room ∧
      (within.awake r.settings now).streams.get? id = some left ∧ s.Thinned left := by
  obtain ⟨within, hroom, hs⟩ := stream?_eq_some_iff.mp hs
  obtain ⟨after, hafter, hs'⟩ := stream?_eq_some_iff.mp hs'
  have hkept := h.sound _ _ hroom
  obtain ⟨-, rfl⟩ :=
    Room.unlessClosed_eq_some_iff.mp ((room?_tick h.sound now hroom).symm.trans hafter)
  have hawake : (within.awake r.settings now).Coherent := hkept.expel _
  have hs' := (hawake.tick_get? r.settings.hysteresis now id).symm.trans hs'
  obtain ⟨left, hleft, -⟩ := Option.map_eq_some_iff.mp hs'
  obtain ⟨before, hbefore, hthin⟩ := within.expel_stream _ hleft
  obtain rfl := Option.some.inj (hs.symm.trans hbefore)
  exact ⟨within, left, hroom, hkept, hleft, hthin⟩

/-- A tick that a stream with something pending survives reports on it. -/
theorem tick_reports (h : r.Reachable) (hs : r.stream? room id = some s)
    (hs' : (r.step now .tick).1.stream? room id = some s') {number : Nat}
    (hnumber : s.uplink.arrivals.pending.contains number) :
    ∃ base last report, Reports r now room id s base last report := by
  obtain ⟨base, last, hrange⟩ := ArrivalLog.exists_range? hnumber
  obtain ⟨report, _, htake, hwritable, hverdicts⟩ := ArrivalLog.takeReport_of_range? hrange
  obtain ⟨within, left, hroom, hkept, hleft, hthin⟩ := h.tick_finds hs hs'
  have hawake : (within.awake r.settings now).Coherent := hkept.expel _
  obtain ⟨hname, hversion⟩ :=
    within.expel_frame (within.inactive now (Time.ofMillis r.settings.participantTimeoutMs))
  have htaken : (left.uplink.takeReport now).2 = some report := by
    rw [Uplink.takeReport_report, hthin.uplink, htake]
    rfl
  obtain ⟨e, he, htells⟩ := hawake.tick_reports r.settings.hysteresis
    (hversion.trans hkept.protocol) hleft htaken hwritable
  have hmem : room ∈ r.directory.rooms.keys := Directory.mem_keys_iff.mpr ⟨within, hroom⟩
  have hsaid := tickRooms_answers h.sound hmem hroom (hawake.isOpen_of_stream hleft) he
  exact ⟨base, last, report, hrange, hverdicts, e, List.mem_map.mpr ⟨.report e, hsaid, rfl⟩,
    (hname.trans hkept.name) ▸ htells⟩

theorem marks_of_pending (h : r.Reachable) (hs : r.stream? room id = some s) {sequence : UInt32}
    {number : Nat} (hnumber : s.uplink.arrivals.pending.contains number)
    (hsequence : UInt32.ofNat number = sequence) : NextReportMarks r room id sequence number := by
  intro inputs now after hbetween hafter
  obtain ⟨before, hbefore, hpending⟩ := h.pending_run inputs hbetween hs hnumber
  obtain ⟨base, last, report, hreports⟩ := (h.run inputs).tick_reports hbefore hafter hpending
  obtain ⟨-, hhigh, -, -, hlow⟩ := ArrivalLog.range?_spec hreports.range
  have hlast := hhigh number hpending
  refine ⟨before, base, last, report, hbefore, hreports, hlast, fun hnear => ?_⟩
  have hbase : base ≤ number := (hlow number hpending).resolve_right (by
    rw [Report.maxPackets]
    omega)
  rw [hreports.verdicts]
  exact List.mem_map.mpr ⟨number, List.mem_range'_1.mpr ⟨hbase, by omega⟩,
    Prod.ext hsequence hpending⟩

/-- A media datagram that is accepted is marked in the next report as received, unless it comes too
late for that report or repairs others; then the uplink takes no note of it. -/
theorem media_reported (h : r.Reachable) {raw : Bytes} {source : Endpoint} {d : Datagram}
    {out : Outcome} (hdecode : Datagram.decode raw = .ok d)
    (hmedia : d.header.packetType ≠ .feedback) (hok : r.receive raw source now = (r', .ok out)) :
    ∃ id s s', d.header.stream? = some id ∧ r.stream? d.header.room id = some s ∧
      r'.stream? d.header.room id = some s' ∧ s'.received = s.received + 1 ∧
      let number := s.uplink.arrivals.numberOf d.header.sequence
      (d.header.packetType ≠ .fec → ¬s.uplink.arrivals.IsPast number →
        NextReportMarks r' d.header.room id d.header.sequence number) ∧
      (d.header.packetType = .fec ∨ s.uplink.arrivals.IsPast number →
        s'.uplink = s.uplink) := by
  obtain ⟨id, within, s, s', receivers', step, hpasses⟩ := h.media_accepted hdecode hmedia hok
  obtain ⟨presence, hpass⟩ := hpasses.passage
  have hgrounded := h.arrivals_grounded hpasses.before
  have h' : r'.Reachable := by
    have hstep := h.step now (.datagram raw source)
    rwa [show (r.step now (.datagram raw source)).1 = r' from congrArg Prod.fst hok] at hstep
  refine ⟨id, s, _, hpasses.named, hpasses.before, hpasses.after,
    congrArg (· + 1) hpass.same_received, fun hfec hpast => ?_, fun hunnoted => ?_⟩
  · refine h'.marks_of_pending hpasses.after ?_ (hgrounded.ofNat_numberOf d.header.sequence)
    show s'.uplink.arrivals.pending.contains _
    rw [(hpass.uplink_cases.resolve_left fun hrepair => hfec hrepair.1).2]
    exact ArrivalLog.contains_record _ _ _ _ _ hpast
  · show s'.uplink = s.uplink
    obtain ⟨-, hsame⟩ | ⟨hfec, hnoted⟩ := hpass.uplink_cases
    · exact hsame
    · rw [hnoted, Uplink.record,
        hgrounded.record_of_isPast _ _ _ _ _ (hunnoted.resolve_left hfec)]

/-- The first frame of a call, reported with the second. -/
theorem media_reported_first_frame :
    let r := callOfTwo [⟨.base, 200000⟩]
    let d := videoPacket 0 0 .base []
    let r' := (r.receive (wireBytes d) anyEndpoint 0).1
    let second := videoPacket 1 1 .base [1]
    Datagram.decode (wireBytes d) = .ok d ∧ d.header.packetType ≠ .feedback ∧
      (∃ out, r.receive (wireBytes d) anyEndpoint 0 = (r', .ok out)) ∧
      d.header.packetType ≠ .fec ∧
      ∃ before base last report,
        Reports (r'.run [(50000, .datagram (wireBytes second) anyEndpoint)]) 100000 ⟨7⟩
          ⟨⟨1⟩, .video⟩ before base last report ∧ (0, true) ∈ report.verdicts := by
  intro r d r' second
  have hdecode : Datagram.decode (wireBytes d) = .ok d :=
    Guard.eq_ok_of_toOption (by decide +kernel)
  have hok : (r.receive (wireBytes d) anyEndpoint 0).2 = .ok ⟨[⟨⟨7⟩, ⟨2⟩, wireBytes d⟩], [], 0⟩ :=
    Guard.eq_ok_of_toOption (by decide +kernel)
  obtain ⟨id, s, s', hid, hs, -, -, hmarks, -⟩ :=
    (callOfTwo_reachable _).media_reported hdecode nofun (Prod.ext rfl hok)
  obtain rfl : (⟨⟨1⟩, .video⟩ : StreamId) = id := Option.some.inj hid
  have hfresh : (r.stream? ⟨7⟩ ⟨⟨1⟩, .video⟩).map
      (fun s => (s.uplink.arrivals.nextBase, s.uplink.arrivals.numberOf 0)) =
      some (none, 4294967296) := by decide +kernel
  rw [show r.stream? ⟨7⟩ ⟨⟨1⟩, .video⟩ = some s from hs] at hfresh
  obtain ⟨hnone, hnumber⟩ := Prod.mk.inj (Option.some.inj hfresh)
  have hmarks : NextReportMarks r' ⟨7⟩ ⟨⟨1⟩, .video⟩ 0 (s.uplink.arrivals.numberOf 0) :=
    hmarks nofun (ArrivalLog.not_isPast_of_none hnone _)
  let inputs : List (Time × Input) := [(50000, .datagram (wireBytes second) anyEndpoint)]
  have hbetween : BetweenTicks ⟨7⟩ ⟨⟨1⟩, .video⟩ r' inputs :=
    ⟨nofun, Option.isSome_iff_exists.mp (by decide +kernel), trivial⟩
  obtain ⟨after, hafter⟩ :
      ∃ after, ((r'.run inputs).step 100000 .tick).1.stream? ⟨7⟩ ⟨⟨1⟩, .video⟩ = some after :=
    Option.isSome_iff_exists.mp (by decide +kernel)
  obtain ⟨before, base, last, report, hbefore, hreports, -, hmark⟩ :=
    hmarks inputs 100000 after hbetween hafter
  have hrange : ((r'.run inputs).stream? ⟨7⟩ ⟨⟨1⟩, .video⟩).bind (·.uplink.arrivals.range?) =
      some (4294967296, 4294967297) := by decide +kernel
  rw [hbefore, Option.bind_some, hreports.range] at hrange
  cases hrange
  rw [hnumber] at hmark
  exact ⟨hdecode, nofun, ⟨_, Prod.ext rfl hok⟩, nofun, before, _, _, report, hreports,
    hmark (by decide)⟩

end Reachable

/-- A repair packet of participant 1. -/
def repairPacket (sequence : UInt32) : Datagram :=
  { header := { (videoPacket sequence 0 .base []).header with packetType := .fec, flags := .none }
    descriptor := none
    payload := [] }

/-- A repair packet between two frames is accepted, but the next report does not mark it as
received. -/
theorem repair_unreported :
    let r := ((callOfTwo [⟨.base, 200000⟩]).step 0
      (.datagram (wireBytes (videoPacket 0 0 .base [])) anyEndpoint)).1
    let d := repairPacket 1
    let r' := (r.receive (wireBytes d) anyEndpoint 0).1
    r.Reachable ∧ Datagram.decode (wireBytes d) = .ok d ∧
      (∃ out, r.receive (wireBytes d) anyEndpoint 0 = (r', .ok out)) ∧
      ∃ s s', r.stream? ⟨7⟩ ⟨⟨1⟩, .video⟩ = some s ∧ r'.stream? ⟨7⟩ ⟨⟨1⟩, .video⟩ = some s' ∧
        s'.received = s.received + 1 ∧
        ¬s.uplink.arrivals.IsPast (s.uplink.arrivals.numberOf 1) ∧
        ¬NextReportMarks r' ⟨7⟩ ⟨⟨1⟩, .video⟩ 1 (s.uplink.arrivals.numberOf 1) := by
  intro r d r'
  have hreachable : r.Reachable := (callOfTwo_reachable _).step _ _
  have hdecode : Datagram.decode (wireBytes d) = .ok d :=
    Guard.eq_ok_of_toOption (by decide +kernel)
  have hok : (r.receive (wireBytes d) anyEndpoint 0).2 = .ok ⟨[⟨⟨7⟩, ⟨2⟩, wireBytes d⟩], [], 0⟩ :=
    Guard.eq_ok_of_toOption (by decide +kernel)
  have hfresh : (r.stream? ⟨7⟩ ⟨⟨1⟩, .video⟩).map
      (fun s => (s.received, s.uplink.arrivals.nextBase, s.uplink.arrivals.numberOf 1)) =
      some (1, none, 4294967297) := by decide +kernel
  have hcounted : (r'.stream? ⟨7⟩ ⟨⟨1⟩, .video⟩).map (·.received) = some 2 := by decide +kernel
  obtain ⟨s, hs, hfresh⟩ := Option.map_eq_some_iff.mp hfresh
  obtain ⟨s', hs', hcounted⟩ := Option.map_eq_some_iff.mp hcounted
  obtain ⟨hreceived, hfresh⟩ := Prod.mk.inj hfresh
  obtain ⟨hnone, hnumber⟩ := Prod.mk.inj hfresh
  refine ⟨hreachable, hdecode, ⟨_, Prod.ext rfl hok⟩, s, s', hs, hs', by rw [hcounted, hreceived],
    ArrivalLog.not_isPast_of_none hnone _, fun hmarks => ?_⟩
  let inputs : List (Time × Input) :=
    [(0, .datagram (wireBytes (videoPacket 2 1 .base [1])) anyEndpoint)]
  have hbetween : BetweenTicks ⟨7⟩ ⟨⟨1⟩, .video⟩ r' inputs :=
    ⟨nofun, Option.isSome_iff_exists.mp (by decide +kernel), trivial⟩
  obtain ⟨after, hafter⟩ :
      ∃ after, ((r'.run inputs).step 100000 .tick).1.stream? ⟨7⟩ ⟨⟨1⟩, .video⟩ = some after :=
    Option.isSome_iff_exists.mp (by decide +kernel)
  obtain ⟨before, base, last, report, hbefore, hreports, -, hmark⟩ :=
    hmarks inputs 100000 after hbetween hafter
  have hpending : ((r'.run inputs).stream? ⟨7⟩ ⟨⟨1⟩, .video⟩).map
      (fun s => (s.uplink.arrivals.range?, s.uplink.arrivals.pending.contains 4294967297)) =
      some (some (4294967296, 4294967298), false) := by decide +kernel
  rw [hbefore, Option.map_some, hreports.range] at hpending
  obtain ⟨hrange, hunnoted⟩ := Prod.mk.inj (Option.some.inj hpending)
  cases hrange
  rw [hreports.verdicts, hnumber] at hmark
  obtain ⟨number, hmem, hverdict⟩ := List.mem_map.mp (hmark (by decide))
  obtain ⟨hlow, hhigh⟩ := List.mem_range'_1.mp hmem
  obtain ⟨hsequence, hcontained⟩ := Prod.mk.inj hverdict
  obtain rfl | rfl | rfl :
      number = 4294967296 ∨ number = 4294967297 ∨ number = 4294967298 := by omega
  · exact absurd hsequence (by decide)
  · rw [hunnoted] at hcontained
    cases hcontained
  · exact absurd hsequence (by decide)

end Relay

end MediaRelay
