import MediaRelay.Proofs.Isolation
import MediaRelay.Proofs.Ledger

/-!
The counters account for every datagram and every copy. One step makes them grow by what it adds to
the ledger (`Relay.Reachable.step_grows`), so after a run they hold the ledger of that run
(`Relay.run_accounts`).
-/

namespace MediaRelay

variable {F : Type}

/-- What goes out for a datagram: copies of it as it came, and requests of the relay. -/
structure Outcome.Answers (o : Outcome) (raw : Bytes) : Prop where
  copies : ∀ e ∈ o.copies, e.payload = raw
  requests : ∀ e ∈ o.requests, ∃ room receiver id, e.Tells room receiver ⟨id, .keyframeRequest⟩

namespace Outcome

variable {o : Outcome}

theorem filter_copies {p : Egress → Bool} (hcopies : ∀ e ∈ o.copies, p e)
    (hrequests : ∀ e ∈ o.requests, p e = false) : o.egress.filter p = o.copies := by
  have hnone : o.requests.filter p = [] :=
    List.filter_eq_nil_iff.mpr fun e he => Bool.eq_false_iff.mp (hrequests e he)
  rw [egress, List.filter_append, List.filter_eq_self.mpr hcopies, hnone, List.append_nil]

theorem filter_requests {p : Egress → Bool} (hcopies : ∀ e ∈ o.copies, p e = false)
    (hrequests : ∀ e ∈ o.requests, p e) : o.egress.filter p = o.requests := by
  have hnone : o.copies.filter p = [] :=
    List.filter_eq_nil_iff.mpr fun e he => Bool.eq_false_iff.mp (hcopies e he)
  rw [egress, List.filter_append, List.filter_eq_self.mpr hrequests, hnone, List.nil_append]

namespace Answers

variable {raw : Bytes} {d : Datagram}

theorem of_request (h : o.Answers raw) {e : Egress} (he : e ∈ o.requests) :
    e.isCopy = false ∧ e.isSpoken ∧ e.asksKeyframe := by
  obtain ⟨_, _, _, htells⟩ := h.requests e he
  exact ⟨htells.not_isCopy, htells.isSpoken, htells.asksKeyframe_iff.mpr rfl⟩

theorem of_copy (h : o.Answers raw) (hdecode : Datagram.decode raw = .ok d)
    (hsender : d.header.sender ≠ .relay) {e : Egress} (he : e ∈ o.copies) :
    e.isCopy ∧ e.isSpoken = false := by
  have hdecode : Datagram.decode e.payload = .ok d := by rw [h.copies e he, hdecode]
  simpa [Egress.isCopy, Egress.isSpoken, Egress.sender?_of_decode hdecode, ParticipantId.isRelay]
    using hsender

/-- Copies and requests are told apart by the sender in the header. -/
theorem filter_egress (h : o.Answers raw) (hdecode : Datagram.decode raw = .ok d)
    (hsender : d.header.sender ≠ .relay) :
    o.egress.filter (·.isCopy) = o.copies ∧ o.egress.filter (·.isSpoken) = o.requests ∧
      o.egress.filter (·.asksKeyframe) = o.requests := by
  refine ⟨filter_copies (fun e he => (h.of_copy hdecode hsender he).1)
      fun e he => (h.of_request he).1,
    filter_requests (fun e he => (h.of_copy hdecode hsender he).2)
      fun e he => (h.of_request he).2.1,
    filter_requests (fun e he => ?_) fun e he => (h.of_request he).2.2⟩
  rw [Egress.asksKeyframe, (h.of_copy hdecode hsender he).2, Bool.false_and]

end Answers

end Outcome

namespace Room.Emission

/-- Of what a tick sends all is the relay's own, and the requests ask for keyframes. -/
theorem filter_egress {emissions : List Room.Emission} (h : ∀ e ∈ emissions, e.IsSpoken) :
    (emissions.map (·.egress)).filter (·.isSpoken) = emissions.map (·.egress) ∧
      (emissions.map (·.egress)).filter (·.asksKeyframe) =
        (emissions.filter (·.isRequest)).map (·.egress) := by
  constructor
  · refine List.filter_eq_self.mpr fun e he => ?_
    obtain ⟨emission, hemission, rfl⟩ := List.mem_map.mp he
    obtain ⟨_, _, _, htells, -⟩ := h emission hemission
    exact htells.isSpoken
  · rw [List.filter_map]
    refine congrArg _ (List.filter_congr fun e he => ?_)
    obtain ⟨_, _, _, htells, hrequest⟩ := h e he
    exact Bool.eq_iff_iff.mpr (htells.asksKeyframe_iff.trans hrequest.symm)

end Room.Emission

section Room

variable [Arithmetic F] {r r' : Room F}

namespace Room

theorem handle_answers {h : Hysteresis F} {d : Datagram} {raw : Bytes} {source : Endpoint}
    {now : Time} {out : Outcome} (hok : r.handle h d raw source now = (r', .ok out)) :
    out.Answers raw := by
  unfold handle at hok
  split at hok
  · obtain ⟨_, _, _, -, -, -, -, ⟨-, rfl, -⟩ | ⟨_, _, -, -, hadapt⟩⟩ := takeFeedback_ok hok
    · refine ⟨fun e he => ?_, fun e he => by cases he⟩
      obtain rfl := List.mem_singleton.mp he
      rfl
    · obtain rfl := congrArg Prod.snd hadapt
      refine ⟨fun e he => (List.not_mem_nil he).elim, fun e he => ?_⟩
      exact ⟨_, _, _, requestKeyframe_said (Option.mem_toList.mp he)⟩
  · obtain ⟨_, _, _, _, _, -, -, -, rfl⟩ := forward_eq_ok_iff.mp hok
    refine ⟨fun e he => ?_, fun e he => by cases he⟩
    obtain ⟨_, -, rfl⟩ := List.mem_map.mp he
    rfl

theorem takeFeedback_withheld {h : Hysteresis F} {d : Datagram} {raw : Bytes} {now : Time}
    {out : Outcome} (hok : r.takeFeedback h d raw now = (r', .ok out)) : out.withheld = 0 := by
  obtain ⟨_, _, _, -, -, -, -, ⟨-, rfl, -⟩ | ⟨_, _, -, -, hadapt⟩⟩ := takeFeedback_ok hok
  · rfl
  · obtain rfl := congrArg Prod.snd hadapt
    rfl

omit [Arithmetic F] in
/-- The silent participants are members. -/
theorem Coherent.member_of_inactive (hr : r.Coherent) {now : Time} {timeout : Nat}
    {p : ParticipantId} (hp : p ∈ r.inactive now timeout) : r.members.contains p := by
  obtain ⟨seen, hseen⟩ := Table.contains_iff.mp (Table.mem_keys_iff.mp hp)
  rw [Table.get?_filter, Option.filter_eq_some_iff] at hseen
  rw [← hr.presence]
  exact Table.contains_of_get? hseen.1

end Room

end Room

namespace Relay

section Expiry

variable {r : Relay F} {id : RoomId}

/-- Who leaves is counted, and the others stay. -/
theorem expire_participant (hr : r.directory.Sound) {p : ParticipantId}
    (hp : p ∈ r.participants id) :
    (expire id r p).counters = r.counters.timedOut ∧
      ∀ q ∈ r.participants id, q ≠ p → q ∈ (expire id r p).participants id := by
  obtain ⟨room, hroom, hmember⟩ := mem_participants_iff.mp hp
  constructor
  · have hanswer : (r.directory.leave id p).2 = .ok () := by
      obtain ⟨hstranger, -⟩ | ⟨-, hleave⟩ := room.leave_cases p
      · rw [hmember] at hstranger
        cases hstranger
      · simp only [Directory.leave, hroom, hleave]
        cases (room.without p).closed <;> rfl
    unfold expire
    split
    · rfl
    · rename_i hrefused
      rw [hrefused] at hanswer
      cases hanswer
  · intro q hq hne
    obtain ⟨room', hroom', hstays⟩ := mem_participants_iff.mp hq
    obtain rfl := Option.some.inj (hroom.symm.trans hroom')
    have hleft := (room.leave_contains p q).mpr ⟨hstays, hne⟩
    refine mem_participants_iff.mpr ⟨(room.leave p).1, ?_, hleft⟩
    rw [(expire_eq id r p).1, Directory.leave_room? hr, if_pos rfl, hroom, Option.bind_some]
    exact Room.unlessClosed_eq_some_iff.mpr
      ⟨((hr _ _ hroom).toCoherent.leave p).isOpen_of_member hleft, rfl⟩

theorem foldl_expire_counters (hr : r.directory.Sound) {gone : List ParticipantId}
    (hn : gone.Nodup) (hgone : ∀ p ∈ gone, p ∈ r.participants id) :
    r.counters.Grows (gone.foldl (expire id) r).counters (.ofTick 0 0 gone.length) := by
  induction gone generalizing r with
  | nil => exact .refl _
  | cons p rest ih =>
    obtain ⟨hp, hrest⟩ := List.nodup_cons.mp hn
    obtain ⟨hcounted, hothers⟩ := expire_participant hr (hgone p List.mem_cons_self)
    have hsound : (expire id r p).directory.Sound := (expire_eq id r p).1 ▸ sound_leave hr id p
    have hfirst : r.counters.Grows (expire id r p).counters (.ofTick 0 0 1) := by
      rw [hcounted]
      constructor <;> simp [Ledger.ofTick, Counters.timedOut, Counters.dropCount]
    have hgrows := hfirst.trans (ih hsound hrest fun q hq =>
      hothers q (hgone q (List.mem_cons_of_mem _ hq)) fun heq => hp (heq ▸ hq))
    rw [Ledger.ofTick_add, Nat.add_comm 1] at hgrows
    exact hgrows

end Expiry

section Tick

variable [Arithmetic F] {r : Relay F}

/-- Those in a room who have been silent for too long. -/
def silent (r : Relay F) (now : Time) (id : RoomId) : List ParticipantId :=
  ((r.directory.room? id).map
    (·.inactive now (Time.ofMillis r.settings.participantTimeoutMs))).getD []

omit [Arithmetic F] in
theorem silent_eq {id : RoomId} {room : Room F} (hroom : r.directory.room? id = some room)
    (now : Time) :
    r.silent now id = room.inactive now (Time.ofMillis r.settings.participantTimeoutMs) := by
  rw [silent, hroom]
  rfl

theorem tickRoom_grows (hr : r.directory.Sound) (id : RoomId) (now : Time) :
    r.counters.Grows (r.tickRoom id now).1.counters
      (.ofTick (r.tickRoom id now).2.length ((r.tickRoom id now).2.filter (·.isRequest)).length
        (r.silent now id).length) := by
  unfold tickRoom
  cases hroom : r.directory.room? id with
  | none =>
    rw [silent, hroom]
    exact .refl _
  | some room =>
    simp only [← silent_eq hroom]
    have hgone : ∀ p ∈ r.silent now id, p ∈ r.participants id := by
      intro p hp
      rw [silent_eq hroom] at hp
      exact mem_participants_iff.mpr ⟨room, hroom, (hr _ _ hroom).member_of_inactive hp⟩
    have hn : (r.silent now id).Nodup := by
      rw [silent_eq hroom]
      exact Table.keys_nodup _
    have hexpired := foldl_expire_counters hr hn hgone
    split
    · exact hexpired
    split
    · exact hexpired
    · have hsaid (c : Counters) (n m : Nat) :
          c.Grows ((c.sentFeedback n).requestedKeyframes m) (.ofTick n m 0) := by
        constructor <;>
          simp [Ledger.ofTick, Counters.sentFeedback, Counters.requestedKeyframes,
            Counters.dropCount]
      rw [Ledger.ofTick_split]
      exact hexpired.trans (hsaid _ _ _)

theorem tickRooms_grows (hr : r.directory.Sound) (now : Time) {ids : List RoomId} (hn : ids.Nodup) :
    r.counters.Grows (r.tickRooms now ids).1.counters
      (.ofTick (r.tickRooms now ids).2.length
        ((r.tickRooms now ids).2.filter (·.isRequest)).length
        (ids.map fun id => (r.silent now id).length).sum) := by
  induction ids generalizing r with
  | nil => exact .refl _
  | cons id rest ih =>
    obtain ⟨hid, hrest⟩ := List.nodup_cons.mp hn
    obtain ⟨hsettings, hrooms⟩ := tickRoom_spec hr id now
    have hothers : ∀ other ∈ rest,
        ((r.tickRoom id now).1.silent now other).length = (r.silent now other).length := by
      intro other hother
      have hne : other ≠ id := by
        rintro rfl
        exact hid hother
      rw [silent, hrooms, hsettings, if_neg hne, silent]
    have hgrows := (tickRoom_grows hr id now).trans (ih (sound_tickRoom hr id now) hrest)
    rw [Ledger.ofTick_add, List.map_congr_left hothers, ← List.length_append, ← List.length_append,
      ← List.filter_append] at hgrows
    exact hgrows

theorem tickRoom_spoken (r : Relay F) (id : RoomId) (now : Time) :
    ∀ e ∈ (r.tickRoom id now).2, e.IsSpoken := by
  intro e he
  unfold tickRoom at he
  split at he
  · cases he
  simp only at he
  split at he
  · cases he
  split at he
  · cases he
  · exact Room.tickStreams_spoken _ _ _ _ e he

theorem tickRooms_spoken (r : Relay F) (now : Time) (ids : List RoomId) :
    ∀ e ∈ (r.tickRooms now ids).2, e.IsSpoken := by
  induction ids generalizing r with
  | nil => exact fun e he => by cases he
  | cons id rest ih =>
    intro e he
    obtain hfirst | hrest := List.mem_append.mp he
    · exact r.tickRoom_spoken id now e hfirst
    · exact ih _ e hrest

/-- After a tick those are left who were not silent. -/
theorem mem_participants_tick (hr : r.directory.Sound) (now : Time) {id : RoomId}
    (hid : id ∈ r.directory.rooms.keys) (p : ParticipantId) :
    p ∈ (r.step now .tick).1.participants id ↔ p ∈ r.participants id ∧ p ∉ r.silent now id := by
  obtain ⟨room, hroom⟩ := Directory.mem_keys_iff.mp hid
  have hticked := room?_tick hr now hroom
  have hcoherent : (tickedRoom r.settings now room).Coherent :=
    (tickedRoom_evolves r.settings now id room).coherent (hr _ _ hroom).toCoherent
  have hmembers : (tickedRoom r.settings now room).members =
      (room.expel (r.silent now id)).members := by
    rw [silent_eq hroom]
    exact (Room.tick_sameSeats _ _ _).members
  rw [mem_participants_iff, mem_participants_iff, hroom]
  constructor
  · rintro ⟨after, hafter, hp⟩
    obtain ⟨-, rfl⟩ := Room.unlessClosed_eq_some_iff.mp (hticked.symm.trans hafter)
    rw [hmembers] at hp
    obtain ⟨hp, hstays⟩ := (room.expel_contains _ p).mp hp
    exact ⟨⟨room, rfl, hp⟩, hstays⟩
  · rintro ⟨⟨_, hsame, hp⟩, hstays⟩
    obtain rfl := Option.some.inj hsame
    have hp := (room.expel_contains _ p).mpr ⟨hp, hstays⟩
    rw [← hmembers] at hp
    have hopen := Room.unlessClosed_eq_some_iff.mpr ⟨hcoherent.isOpen_of_member hp, rfl⟩
    exact ⟨_, hticked.trans hopen, hp⟩

theorem length_removed_tick (hr : r.directory.Sound) (now : Time) :
    (r.removed (r.step now .tick).1).length =
      (r.directory.rooms.keys.map fun id => (r.silent now id).length).sum := by
  rw [removed, List.length_flatMap]
  refine congrArg List.sum (List.map_congr_left fun id hid => ?_)
  rw [List.length_map]
  obtain ⟨room, hroom⟩ := Directory.mem_keys_iff.mp hid
  have hparticipants : (r.participants id).Nodup := by
    rw [participants, hroom]
    exact Table.keys_nodup _
  have hsilent : (r.silent now id).Nodup := by
    rw [silent_eq hroom]
    exact Table.keys_nodup _
  -- both lists are without repetition and have the same members
  refine ((List.perm_ext_iff_of_nodup (hparticipants.filter _) hsilent).mpr fun p => ?_).length_eq
  rw [List.mem_filter, decide_eq_true_iff, mem_participants_tick hr now hid]
  constructor
  · rintro ⟨hp, hleft⟩
    by_contra hstays
    exact hleft ⟨hp, hstays⟩
  · intro hp
    refine ⟨?_, fun hstays => hstays.2 hp⟩
    rw [silent_eq hroom] at hp
    exact mem_participants_iff.mpr ⟨room, hroom, (hr _ _ hroom).member_of_inactive hp⟩

theorem tick_grows (hr : r.directory.Sound) (now : Time) :
    r.counters.Grows (r.step now .tick).1.counters (r.posting now .tick) := by
  have hegress : (r.step now .tick).2 =
      (r.tickRooms now r.directory.rooms.keys).2.map (·.egress) := rfl
  obtain ⟨hspoken, hrequests⟩ :=
    Room.Emission.filter_egress (r.tickRooms_spoken now r.directory.rooms.keys)
  rw [posting_tick, hegress, hspoken, hrequests, List.length_map, List.length_map,
    length_removed_tick hr]
  exact tickRooms_grows hr now r.directory.rooms.keys_nodup

end Tick

section Counting

variable (c : Counters) (size : Nat)

theorem dropped_grows (reason : DropReason) :
    c.Grows ((c.received size).dropped reason)
      { datagrams := 1
        bytes := size
        dropped := fun other => if other = reason then 1 else 0 } := by
  have hdropped (other : DropReason) : ((c.received size).dropped reason).dropCount other =
      c.dropCount other + .ofNat (if other = reason then 1 else 0) := by
    rw [Counters.dropCount_dropped]
    by_cases hother : other = reason
    · simp [hother, Counters.dropCount, Counters.received]
    · simp [hother, Counters.dropCount, Counters.received]
  constructor
  case dropped => exact hdropped
  all_goals simp [Counters.dropped, Counters.received]

theorem countAnswer_grows (type : PacketType) (out : Outcome) :
    c.Grows (countAnswer (c.received size) type (.ok out))
      { datagrams := 1
        bytes := size
        accepted := 1
        feedback := if type = .feedback then 1 else 0
        copies := out.copies.length
        copiedBytes := (out.copies.map (·.payload.length)).sum
        withheld := out.withheld
        spoken := out.requests.length
        requests := out.requests.length } := by
  have hsize : out.copies.foldl (fun n copy => n + copy.payload.length) 0 =
      (out.copies.map (·.payload.length)).sum := by
    rw [List.sum_eq_foldl, List.foldl_map]
  rw [countAnswer, countOutcome, hsize]
  by_cases htype : type = .feedback
  · constructor <;> simp [htype, Counters.sentFeedback, Counters.requestedKeyframes,
      Counters.withheld, Counters.forwarded, Counters.tookFeedback, Counters.received,
      Counters.dropCount]
  · constructor <;> simp [htype, Counters.sentFeedback, Counters.requestedKeyframes,
      Counters.withheld, Counters.forwarded, Counters.received, Counters.dropCount]

end Counting

section Datagram

variable [Arithmetic F] {r : Relay F} {raw : Bytes} {source : Endpoint} {now : Time}

theorem receive_ok_counters {d : Datagram} {out : Outcome} (hdecode : Datagram.decode raw = .ok d)
    (hok : (r.receive raw source now).2 = .ok out) :
    (r.receive raw source now).1.counters =
      countAnswer (r.counters.received raw.length) d.header.packetType (.ok out) := by
  unfold receive at hok ⊢
  simp only [hdecode] at hok ⊢
  rw [hok]

omit [Arithmetic F] in
theorem withheldFrom_of_same {r r' : Relay F} {room : RoomId} {id : StreamId}
    (h : r'.stream? room id = r.stream? room id) : r.withheldFrom r' room id = [] := by
  refine List.filter_eq_nil_iff.mpr fun p _ => ?_
  rw [withheldOn, withheldOn, link?, link?, h]
  simp

/-- A datagram that is dropped leaves all streams as they are. -/
theorem receive_error_stream? (hr : r.directory.Sound) {reason : DropReason}
    (herr : (r.receive raw source now).2 = .error reason) (room : RoomId) (id : StreamId) :
    (r.receive raw source now).1.stream? room id = r.stream? room id := by
  obtain ⟨hsame, -⟩ | ⟨d, before, -, hroom, hm, hrooms, hanswer⟩ := receive_cases hr raw source now
  · rw [stream?, hsame, stream?]
  · have hheard := (hr _ _ hroom).handle_error hm (Prod.ext rfl (hanswer.symm.trans herr))
    have hrooms : (r.receive raw source now).1.directory =
        r.directory.withRoom d.header.room (before.heard d.header.sender source now) :=
      hheard ▸ hrooms
    rw [stream?, hrooms, stream?]
    by_cases hid : room = d.header.room
    · rw [hid, Directory.room?_withRoom_self, hroom]
      rfl
    · rw [Directory.room?_withRoom_of_ne _ _ hid]

/-- The copies that an accepted media datagram's outcome counts as withheld are withheld on the
downlinks. -/
theorem Passes.length_withheldFrom {r' : Relay F} {d : Datagram} {out : Outcome} {id : StreamId}
    {within : Room F} {s s' : Stream F} {receivers' : List ParticipantId}
    {step : Downlink F → Downlink F × Fate}
    (h : Passes r r' d raw now out id within s s' receivers' step) :
    (r.withheldFrom r' d.header.room id).length = out.withheld := by
  obtain ⟨presence, hpass⟩ := h.passage
  have hn := (within.receivers id).keys_nodup
  have hout : out.withheld = (receivers'.filter fun p =>
      !(s.links.get? p).any fun link => (step link).2 = .sent).length := by
    have htotal := hpass.total_eq h.serves hn fun p hp => Table.mem_keys_iff.mp hp
    rw [hpass.sent_eq h.serves hn] at htotal
    have hsplit := List.length_eq_length_filter_add (l := receivers')
      fun p => (s.links.get? p).any fun link => (step link).2 = .sent
    rw [h.outcome]
    exact Nat.add_left_cancel (htotal.trans hsplit)
  rw [hout, withheldFrom, subscribers_eq h.room]
  refine ((List.perm_ext_iff_of_nodup (hn.filter _)
    ((hn.sublist hpass.sublist).filter _)).mpr fun p => ?_).length_eq
  rw [List.mem_filter, List.mem_filter, decide_eq_true_iff]
  by_cases hp : p ∈ (within.receivers id).keys
  · obtain ⟨link, hl⟩ := h.serves.link_of_receiver (Table.mem_keys_iff.mp hp)
    have hbefore : r.withheldOn d.header.room id p = link.withheld := by
      rw [withheldOn, link?_eq_some_iff.mpr ⟨s, h.before, hl⟩]
      rfl
    have hafter : r'.withheldOn d.header.room id p =
        if p ∈ receivers' then (step link).1.withheld else link.withheld := by
      rw [withheldOn, link?, h.after, Option.bind_some, hpass.link_get? hn, hl]
      split <;> rfl
    rw [hbefore, hafter, hl]
    by_cases hoffered : p ∈ receivers'
    · obtain ⟨hfate, -, hsame⟩ | ⟨hfate, -, hmore⟩ := hpass.counted link
      · simp [hoffered, hfate, hsame]
      · simp [hp, hoffered, hfate, hmore]
    · simp [hoffered]
  · have hoffered : p ∉ receivers' := fun hmem => hp (hpass.sublist.subset hmem)
    simp [hp, hoffered]

namespace Reachable

/-- The downlinks withhold as many copies of a datagram as its outcome says. -/
theorem withheldCopies_eq (h : r.Reachable) {d : Datagram} {out : Outcome}
    (hdecode : Datagram.decode raw = .ok d) (hok : (r.receive raw source now).2 = .ok out) :
    r.withheldCopies (r.receive raw source now).1 raw = out.withheld := by
  rw [withheldCopies, hdecode]
  by_cases htype : d.header.packetType = .feedback
  · obtain ⟨room, room', -, hkept, hm, hhandle, -⟩ := h.accepted hdecode hok
    rw [hkept.handle_of_member hm, if_pos htype] at hhandle
    have hnone : d.header.stream? = none := by
      rw [Header.stream?, Header.kind?, htype]
      rfl
    rw [Room.takeFeedback_withheld hhandle]
    simp [Except.toOption, hnone]
  · obtain ⟨id, within, s, s', receivers', step, hpasses⟩ :=
      h.media_accepted hdecode htype (Prod.ext rfl hok)
    simp [Except.toOption, hpasses.named, hpasses.length_withheldFrom]

theorem withheldCopies_of_error (h : r.Reachable) {reason : DropReason}
    (herr : (r.receive raw source now).2 = .error reason) :
    r.withheldCopies (r.receive raw source now).1 raw = 0 := by
  unfold withheldCopies
  split
  · rw [withheldFrom_of_same (receive_error_stream? h.sound herr _ _)]
    rfl
  · rfl

theorem receive_error_grows (h : r.Reachable) {reason : DropReason}
    (herr : (r.receive raw source now).2 = .error reason) :
    r.counters.Grows (r.step now (.datagram raw source)).1.counters
      (r.posting now (.datagram raw source)) := by
  have hposting : r.posting now (.datagram raw source) =
      { datagrams := 1
        bytes := raw.length
        dropped := fun other => if other = reason then 1 else 0 } := by
    rw [posting_datagram, step_datagram, herr, h.withheldCopies_of_error herr]
    rfl
  rw [hposting, step_datagram, receive_error_counters herr]
  exact dropped_grows _ _ _

theorem receive_ok_grows (h : r.Reachable) {out : Outcome}
    (hok : (r.receive raw source now).2 = .ok out) :
    r.counters.Grows (r.step now (.datagram raw source)).1.counters
      (r.posting now (.datagram raw source)) := by
  obtain ⟨d, hdecode⟩ : ∃ d, Datagram.decode raw = .ok d := by
    obtain ⟨-, reason, hrefused⟩ | ⟨d, _, hdecode, -⟩ := receive_cases h.sound raw source now
    · cases hok.symm.trans hrefused
    · exact ⟨d, hdecode⟩
  obtain ⟨room, room', -, hkept, hm, hhandle, -⟩ := h.accepted hdecode hok
  have hsender : d.header.sender ≠ .relay := by
    intro hrelay
    rw [hrelay, hkept.withoutRelay] at hm
    cases hm
  obtain ⟨hcopies, hspoken, hrequests⟩ :=
    (Room.handle_answers hhandle).filter_egress hdecode hsender
  have hfeedback : isFeedback raw = (d.header.packetType = .feedback) := by
    simp [isFeedback, hdecode, Except.toOption]
  have hposting : r.posting now (.datagram raw source) =
      { datagrams := 1
        bytes := raw.length
        accepted := 1
        feedback := if d.header.packetType = .feedback then 1 else 0
        copies := out.copies.length
        copiedBytes := (out.copies.map (·.payload.length)).sum
        withheld := out.withheld
        spoken := out.requests.length
        requests := out.requests.length } := by
    rw [posting_datagram, step_datagram, hok, h.withheldCopies_eq hdecode hok]
    show Ledger.ofDatagram raw (.ok out) out.egress out.withheld = _
    simp [Ledger.ofDatagram, Except.isOk, Except.toBool, hfeedback, hcopies, hspoken, hrequests]
  rw [hposting, step_datagram, receive_ok_counters hdecode hok]
  exact countAnswer_grows _ _ _ _

/-- The counters grow by what a step adds to the ledger. -/
theorem step_grows (h : r.Reachable) (now : Time) (input : Input) :
    r.counters.Grows (r.step now input).1.counters (r.posting now input) := by
  cases input with
  | event e => exact .refl _
  | datagram raw source =>
    cases hanswer : (r.receive raw source now).2 with
    | error reason => exact h.receive_error_grows hanswer
    | ok out => exact h.receive_ok_grows hanswer
  | tick => exact tick_grows h.sound now

theorem run_grows (h : r.Reachable) (inputs : List (Time × Input)) :
    r.counters.Grows (r.run inputs).counters (r.ledger inputs) := by
  induction inputs generalizing r with
  | nil => exact .refl _
  | cons first rest ih => exact (h.step_grows first.1 first.2).trans (ih (h.step first.1 first.2))

end Reachable

end Datagram

/-- After any run from the start the counters hold what an onlooker of the run counts. -/
theorem run_accounts [Arithmetic F] (settings : Settings F) (inputs : List (Time × Input)) :
    ((start settings).run inputs).counters.Accounts ((start settings).ledger inputs) :=
  ((Reachable.start settings).run_grows inputs).accounts (ledger_balanced _ inputs)

/-- A frame and a datagram that is none, then a tick with a report and a request for a keyframe, then
one that both participants are too late for. -/
example :
    let l := (callOfTwo [⟨.base, 200000⟩]).ledger
      [(0, .datagram (wireBytes (videoPacket 0 0 .base [])) anyEndpoint),
        (0, .datagram [] anyEndpoint), (100000, .tick), (100000000, .tick)]
    l.datagrams = 2 ∧ l.dropped .malformed = 1 ∧ l.accepted = 1 ∧ l.copies = 1 ∧ l.spoken = 2 ∧
      l.requests = 1 ∧ l.removed = 2 := by decide +kernel

end Relay

end MediaRelay
