import MediaRelay.Proofs.Spacing
import MediaRelay.Proofs.Occupancy
import MediaRelay.Proofs.Room.Departure

/-!
Who is taken out for being silent. What a room remembers of a participant is when it was last heard,
by joining or by a datagram (`Relay.Reachable.run_lastSeen`); a tick takes out those who were heard
too long ago, with all that is theirs, and nobody is ever sent to who is not in the room
(`Relay.run_expires`).
-/

namespace MediaRelay

theorem Table.eq_nil_iff_isEmpty {κ ν : Type} [Key κ] {t : Table κ ν} {keys : List κ}
    (h : ∀ k, k ∈ keys ↔ t.contains k) : keys = [] ↔ t.isEmpty := by
  constructor
  · rintro rfl
    by_contra hsome
    obtain ⟨k, hk⟩ := Table.exists_contains (Bool.not_eq_true _ ▸ hsome)
    cases (h k).mpr hk
  · intro hempty
    refine List.eq_nil_iff_forall_not_mem.mpr fun k hk => ?_
    rw [Table.isEmpty_eq_false ((h k).mp hk)] at hempty
    cases hempty

variable {F : Type} [Arithmetic F]

namespace Room

variable {r r' : Room F} {now : Time} {p : ParticipantId}

/-- Only a join makes a member. -/
theorem member_of_signal {act : Event.Act}
    (hp : (r.signal now act).members.contains p)
    (hact : ∀ role version, act ≠ .join p role version) : r.members.contains p :=
  ((r.signal_frame now act).2.2.2 p hp).resolve_right fun h =>
    h.elim fun role h => h.elim fun version h => hact role version h

/-- Signaling notes when a participant comes, and leaves the presence of others as it is. -/
theorem signal_presence (r : Room F) (now : Time) (act : Event.Act)
    (hp : (r.signal now act).members.contains p) :
    (r.signal now act).presence.get? p =
      if r.members.contains p then r.presence.get? p else some ⟨none, now⟩ := by
  have hsame (hmember : r.members.contains p)
      (hpresence : (r.signal now act).presence = r.presence) :
      (r.signal now act).presence.get? p =
        if r.members.contains p then r.presence.get? p else some ⟨none, now⟩ := by
    rw [hpresence, if_pos hmember]
  cases act with
  | join q role version =>
    obtain ⟨_, hjoin⟩ | ⟨-, -, hnew, -, hjoin⟩ := r.join_cases q role version now
    · rw [signal, hjoin] at hp
      exact hsame hp (congrArg (·.1.presence) hjoin)
    · rw [signal, hjoin] at hp ⊢
      by_cases hq : p = q
      · subst hq
        rw [hnew]
        exact Table.get?_insert_self _ _ _
      · rw [if_pos ((Table.contains_insert.mp hp).resolve_left hq)]
        exact Table.get?_insert_of_ne _ _ hq
  | leave q =>
    have hmember : r.members.contains p := member_of_signal hp (by simp)
    obtain ⟨-, _, hleave⟩ | ⟨-, hleave⟩ := r.leave_cases q
    · exact hsame hmember (congrArg (·.1.presence) hleave)
    · rw [signal, hleave] at hp ⊢
      rw [if_pos hmember]
      exact Table.get?_erase_of_ne _ ((r.contains_without q p).mp hp).1
  | negotiate stream offer =>
    have hmember : r.members.contains p := member_of_signal hp (by simp)
    obtain ⟨_, hneg⟩ | ⟨_, _, -, -, -, -, ⟨_, -, hneg⟩ | ⟨-, -, hneg⟩⟩ :=
      r.negotiate_cases stream.sender stream.kind offer now
    all_goals exact hsame hmember (congrArg (·.1.presence) hneg)
  | subscribe q stream =>
    have hmember : r.members.contains p := member_of_signal hp (by simp)
    obtain ⟨_, hsub⟩ | ⟨_, _, -, -, -, -, -, -, ⟨-, hsub⟩ | ⟨-, hsub⟩⟩ :=
      r.subscribe_cases q stream now
    all_goals exact hsame hmember (congrArg (·.1.presence) hsub)
  | unsubscribe q stream =>
    have hmember : r.members.contains p := member_of_signal hp (by simp)
    obtain ⟨_, hun⟩ | ⟨-, hun⟩ := r.unsubscribe_cases q stream
    all_goals exact hsame hmember (congrArg (·.1.presence) hun)
  | setMuted receiver sender muted =>
    have hmember : r.members.contains p := member_of_signal hp (by simp)
    obtain ⟨_, hset⟩ | ⟨_, -, -, hset⟩ := r.setMuted_cases receiver sender muted
    all_goals exact hsame hmember (congrArg (·.1.presence) hset)
  | setDeafened q deafened =>
    have hmember : r.members.contains p := member_of_signal hp (by simp)
    obtain ⟨_, hset⟩ | ⟨_, -, hset⟩ := r.setDeafened_cases q deafened
    all_goals exact hsame hmember (congrArg (·.1.presence) hset)

theorem Coherent.handle_presence (hr : r.Coherent) (h : Hysteresis F) {d : Datagram}
    (hm : r.members.contains d.header.sender) (raw : Bytes) (source : Endpoint) (now : Time) :
    (r.handle h d raw source now).1.presence =
      r.presence.insert d.header.sender ⟨some source, now⟩ := by
  rw [hr.handle_of_member hm]
  split
  · exact (takeFeedback_sameSeats _ h d raw now).presence
  · exact (forward_sameSeats _ h d raw now).presence

omit [Arithmetic F] in
theorem mem_inactive_iff {timeout : Nat} {seen : Presence} (hseen : r.presence.get? p = some seen) :
    p ∈ r.inactive now timeout ↔ seen.lastSeen + timeout < now := by
  have hlong : timeout < now - seen.lastSeen ↔ seen.lastSeen + timeout < now :=
    Nat.lt_sub_iff_add_lt'
  rw [inactive, Table.mem_keys_iff, Table.contains, Table.get?_filter, hseen, Option.filter_some,
    ← hlong]
  by_cases hsilent : timeout < now - seen.lastSeen
  · simp [Time.since, hsilent]
  · simp [Time.since, hsilent]

/-- Feedback that is passed on goes to a member, and so does what it leads to. -/
theorem Coherent.takeFeedback_addressed (hr : r.Coherent) {h : Hysteresis F} {d : Datagram}
    {raw : Bytes} {out : Outcome} (hok : r.takeFeedback h d raw now = (r', .ok out)) {e : Egress}
    (he : e ∈ out.egress) : e.room = r.id ∧ r.members.contains e.receiver := by
  obtain ⟨message, _, s, -, -, -, hs, htaken⟩ := takeFeedback_ok hok
  have hsender := hr.member_of_stream (Table.contains_of_get? hs)
  obtain ⟨-, rfl, -⟩ | ⟨_, link', -, -, hadapt⟩ := htaken
  · obtain rfl := List.mem_singleton.mp he
    exact ⟨rfl, hsender⟩
  · obtain rfl := congrArg Prod.snd hadapt
    have htells := requestKeyframe_said (Option.mem_toList.mp he)
    rw [(hr.streams _ s hs).2.name] at htells
    exact ⟨htells.home, htells.addressee ▸ hsender⟩

/-- What is due at a tick is due to members. -/
theorem Coherent.agenda_addressed (hr : r.Coherent) {h : Hysteresis F} {message : Feedback}
    (hmem : message ∈ r.agenda h now) : r.members.contains message.stream.sender := by
  obtain ⟨id, hid, hmem⟩ := List.mem_flatMap.mp hmem
  rw [stream_of_mem_agendaOf hmem]
  exact hr.member_of_stream (Table.mem_keys_iff.mp hid)

end Room

namespace Relay

variable {r : Relay F} {room : RoomId} {within : Room F} {p : ParticipantId} {now : Time}

section LastSeen

omit [Arithmetic F]

/-- When a participant was last heard, as its room remembers it. -/
def lastSeen (r : Relay F) (room : RoomId) (p : ParticipantId) : Option Time :=
  ((r.directory.room? room).bind (·.presence.get? p)).map (·.lastSeen)

theorem lastSeen_eq (hroom : r.directory.room? room = some within) :
    r.lastSeen room p = (within.presence.get? p).map (·.lastSeen) := by
  rw [lastSeen, hroom]
  rfl

theorem lastSeen_of_stranger (hr : r.directory.Sound) (hp : p ∉ r.participants room) :
    r.lastSeen room p = none := by
  cases hroom : r.directory.room? room with
  | none => rw [lastSeen, hroom]; rfl
  | some within =>
    rw [lastSeen_eq hroom, Option.map_eq_none_iff]
    refine Option.not_isSome_iff_eq_none.mp fun hseen => hp ?_
    exact mem_participants_iff.mpr ⟨within, hroom, ((hr _ _ hroom).presence p).symm.trans hseen⟩

/-- A datagram that names the room and, as its sender, the participant. -/
def Input.isFrom (room : RoomId) (p : ParticipantId) : Input → Bool
  | .datagram raw _ => (Datagram.decode raw).toOption.any fun d =>
    d.header.room = room && d.header.sender = p
  | .event _ | .tick => false

theorem Input.isFrom_iff {raw : Bytes} {source : Endpoint} :
    (Input.datagram raw source).isFrom room p ↔
      ∃ d, Datagram.decode raw = .ok d ∧ d.header.room = room ∧ d.header.sender = p := by
  cases hdecode : Datagram.decode raw <;> simp [isFrom, hdecode, Except.toOption]

end LastSeen

/-- When a participant was last heard once an input came in. It is heard as it comes into the room
and by each datagram that it sends there. -/
def heard (r : Relay F) (room : RoomId) (p : ParticipantId) (last : Option Time) (now : Time)
    (input : Input) : Option Time :=
  if p ∉ (r.step now input).1.participants room then none
  else if p ∈ r.participants room ∧ ¬input.isFrom room p then last
  else some now

/-- When a participant was last heard in a run, given when it was heard before. -/
def lastHeard (room : RoomId) (p : ParticipantId) (r : Relay F) (last : Option Time) :
    List (Time × Input) → Option Time
  | [] => last
  | (now, input) :: rest =>
    lastHeard room p (r.step now input).1 (r.heard room p last now input) rest

namespace Reachable

/-- A room that is there notes each datagram of a member, and those who come. -/
theorem step_presence (h : r.Reachable) (hroom : r.directory.room? room = some within)
    {input : Input} {after : Room F}
    (hafter : (r.step now input).1.directory.room? room = some after)
    (hp : after.members.contains p) :
    (after.presence.get? p).map (·.lastSeen) =
      if within.members.contains p ∧ ¬input.isFrom room p then
        (within.presence.get? p).map (·.lastSeen)
      else some now := by
  have hkept := h.sound _ _ hroom
  cases input with
  | event e =>
    obtain ⟨stays, hevolves, hstays⟩ := step_room h.sound now (.event e) hroom
    obtain ⟨-, rfl⟩ := Room.unlessClosed_eq_some_iff.mp (hstays.symm.trans hafter)
    have hnotfrom : ¬(Input.event e).isFrom room p := Bool.false_ne_true
    cases hevolves with
    | idle => rw [if_pos ⟨hp, hnotfrom⟩]
    | signaled act _ _ =>
      rw [within.signal_presence now act hp]
      by_cases hmember : within.members.contains p
      · rw [if_pos hmember, if_pos ⟨hmember, hnotfrom⟩]
      · rw [if_neg hmember, if_neg fun hboth => hmember hboth.1]
        rfl
  | datagram raw source =>
    obtain ⟨d, hdecode, hid, hm, hthere⟩ | ⟨hthere, hothers⟩ :=
      room?_datagram h.sound hroom raw source now
    · obtain rfl := Option.some.inj (hthere.symm.trans hafter)
      rw [(within.handle_frame r.settings.hysteresis d raw source now).2.2.1] at hp
      rw [hkept.handle_presence r.settings.hysteresis hm raw source now]
      by_cases hsender : p = d.header.sender
      · have hfrom : (Input.datagram raw source).isFrom room p :=
          Input.isFrom_iff.mpr ⟨d, hdecode, hid, hsender.symm⟩
        rw [if_neg fun hboth => hboth.2 hfrom, hsender, Table.get?_insert_self]
        rfl
      · have hnotfrom : ¬(Input.datagram raw source).isFrom room p := fun hfrom => by
          obtain ⟨_, hdecode', -, hsent⟩ := Input.isFrom_iff.mp hfrom
          cases hdecode.symm.trans hdecode'
          exact hsender hsent.symm
        rw [if_pos ⟨hp, hnotfrom⟩, Table.get?_insert_of_ne _ _ hsender]
    · obtain rfl := Option.some.inj (hthere.symm.trans hafter)
      have hnotfrom : ¬(Input.datagram raw source).isFrom room p := fun hfrom => by
        obtain ⟨d, hdecode, hid, rfl⟩ := Input.isFrom_iff.mp hfrom
        cases (hothers d hdecode hid).symm.trans hp
      rw [if_pos ⟨hp, hnotfrom⟩]
  | tick =>
    have hticked := room?_tick h.sound now hroom
    obtain ⟨-, rfl⟩ := Room.unlessClosed_eq_some_iff.mp (hticked.symm.trans hafter)
    have hrid : within.RidOf _ (tickedRoom r.settings now within) :=
      hkept.ridOf_ticked _ r.settings.hysteresis now
    obtain ⟨hmember, hstays⟩ := (hrid.members p).mp hp
    rw [hrid.presence, if_neg hstays, if_pos ⟨hmember, Bool.false_ne_true⟩]

theorem step_lastSeen (h : r.Reachable) (now : Time) (input : Input) (room : RoomId)
    (p : ParticipantId) :
    (r.step now input).1.lastSeen room p = r.heard room p (r.lastSeen room p) now input := by
  have hsound := (h.step now input).sound
  unfold heard
  split
  · rename_i hgone
    exact lastSeen_of_stranger hsound hgone
  rename_i hthere
  obtain ⟨after, hafter, hp⟩ := mem_participants_iff.mp (not_not.mp hthere)
  rw [lastSeen_eq hafter]
  cases hroom : r.directory.room? room with
  | none =>
    have hnew : p ∉ r.participants room := fun hp => by
      obtain ⟨_, hroom', -⟩ := mem_participants_iff.mp hp
      cases hroom.symm.trans hroom'
    obtain ⟨q, role, -, rfl⟩ := step_new_room h.sound now input hroom hafter
    rw [if_neg fun hboth => hnew hboth.1]
    have hcame := Room.signal_presence _ now (.join q role protocolVersion) hp
    exact congrArg (Option.map (·.lastSeen)) (hcame.trans (if_neg nofun))
  | some within =>
    rw [h.step_presence hroom hafter hp, lastSeen_eq hroom]
    simp only [mem_participants_iff, hroom, Option.some.injEq, exists_eq_left']

/-- What a room remembers is when a participant was last heard. -/
theorem run_lastSeen (h : r.Reachable) (room : RoomId) (p : ParticipantId)
    (inputs : List (Time × Input)) :
    (r.run inputs).lastSeen room p = lastHeard room p r (r.lastSeen room p) inputs := by
  induction inputs generalizing r with
  | nil => rfl
  | cons first rest ih =>
    obtain ⟨now, input⟩ := first
    rw [lastHeard, ← h.step_lastSeen]
    exact ih (h.step now input)

end Reachable

section Tick

theorem tickedRoom_sameSeats (settings : Settings F) (now : Time) (within : Room F) :
    (within.awake settings now).SameSeats (tickedRoom settings now within) :=
  Room.tick_sameSeats _ _ _

/-- A room closes at a tick if it had members and has none left. -/
theorem tickedRoom_closed_iff (hkept : within.Kept room) (settings : Settings F) (now : Time) :
    (tickedRoom settings now within).closed ↔
      within.members.isEmpty = false ∧ (tickedRoom settings now within).members.isEmpty := by
  have hcoherent : (within.awake settings now).Coherent := hkept.expel _
  have hseats := tickedRoom_sameSeats settings now within
  rw [hseats.closed, hseats.members]
  constructor
  · intro hclosed
    refine ⟨?_, hcoherent.closed hclosed⟩
    by_contra hvacant
    rw [Bool.not_eq_false] at hvacant
    have hstays : within.awake settings now = within := by
      rw [Room.awake, Room.inactive, (hkept.vacant hvacant).2.2]
      rfl
    rw [hstays, hkept.isOpen] at hclosed
    cases hclosed
  · rintro ⟨hoccupied, hvacant⟩
    refine (hkept.expel_entered (.inr hoccupied) _).resolve_right fun hothers => ?_
    exact Bool.false_ne_true (hothers.symm.trans hvacant)

namespace Reachable

theorem room?_tick_eq_none_iff (h : r.Reachable) (now : Time) (room : RoomId) :
    (r.step now .tick).1.directory.room? room = none ↔
      r.directory.room? room = none ∨
        r.participants room ≠ [] ∧ (r.step now .tick).1.participants room = [] := by
  cases hroom : r.directory.room? room with
  | none => exact iff_of_true (room?_tick_of_none h.sound now hroom) (.inl rfl)
  | some within =>
    have hkept := h.sound _ _ hroom
    have hafter := room?_tick h.sound now hroom
    have hcoherent : (tickedRoom r.settings now within).Coherent :=
      (tickedRoom_evolves r.settings now room within).coherent hkept.toCoherent
    have hbefore : r.participants room = [] ↔ within.members.isEmpty :=
      Table.eq_nil_iff_isEmpty fun p => by simp [mem_participants_iff, hroom]
    have hleft : (r.step now .tick).1.participants room = [] ↔
        (tickedRoom r.settings now within).members.isEmpty :=
      Table.eq_nil_iff_isEmpty fun p => mem_participants_of_stays hafter hcoherent
    rw [hafter, Ne, hbefore, hleft, Bool.not_eq_true, ← tickedRoom_closed_iff hkept]
    simp [Room.unlessClosed]

/-- What a tick leaves of a room that stays. -/
theorem tick_rids (h : r.Reachable) (now : Time) (hroom : r.directory.room? room = some within)
    {after : Room F} (hafter : (r.step now .tick).1.directory.room? room = some after) :
    within.RidOf ((r.participants room).filter (· ∉ (r.step now .tick).1.participants room)) after ∧
      after.routing = after.currentRouting := by
  have hkept := h.sound _ _ hroom
  have hticked := room?_tick h.sound now hroom
  obtain ⟨-, rfl⟩ := Room.unlessClosed_eq_some_iff.mp (hticked.symm.trans hafter)
  have hrid : within.RidOf (r.silent now room) (tickedRoom r.settings now within) := by
    rw [silent_eq hroom]
    exact hkept.ridOf_ticked _ r.settings.hysteresis now
  refine ⟨hrid.congr fun p => ?_, ((h.step now .tick).sound _ _ hafter).routing⟩
  have hid := Directory.mem_keys_iff.mpr ⟨within, hroom⟩
  rw [List.mem_filter, decide_eq_true_iff, mem_participants_tick h.sound now hid]
  constructor
  · intro hp
    refine ⟨?_, fun hboth => hboth.2 hp⟩
    rw [silent_eq hroom] at hp
    exact mem_participants_iff.mpr ⟨within, hroom, hkept.member_of_inactive hp⟩
  · rintro ⟨hp, hleft⟩
    by_contra hstays
    exact hleft ⟨hp, hstays⟩

/-- A tick keeps those who were heard within the timeout. -/
theorem tick_keeps (h : r.Reachable) (now : Time) {p : ParticipantId}
    (hp : p ∈ r.participants room) :
    ∃ t, r.lastSeen room p = some t ∧
      (p ∈ (r.step now .tick).1.participants room ↔
        now ≤ t + Time.ofMillis r.settings.participantTimeoutMs) := by
  obtain ⟨within, hroom, hmember⟩ := mem_participants_iff.mp hp
  obtain ⟨seen, hseen⟩ :=
    Table.contains_iff.mp (((h.sound _ _ hroom).presence p).trans hmember)
  refine ⟨seen.lastSeen, by rw [lastSeen_eq hroom, hseen]; rfl, ?_⟩
  rw [mem_participants_tick h.sound now (Directory.mem_keys_iff.mpr ⟨within, hroom⟩),
    silent_eq hroom, Room.mem_inactive_iff hseen, Nat.not_lt]
  exact and_iff_right hp

end Reachable

end Tick

section Addressed

namespace Reachable

theorem receive_addressed (h : r.Reachable) {raw : Bytes} {source : Endpoint} {e : Egress}
    (he : e ∈ (r.step now (.datagram raw source)).2) :
    e.receiver ∈ (r.step now (.datagram raw source)).1.participants e.room := by
  rw [step_datagram] at he ⊢
  cases hanswer : (r.receive raw source now).2 with
  | error reason =>
    rw [hanswer] at he
    cases he
  | ok out =>
    have he : e ∈ out.egress := by rwa [hanswer] at he
    obtain ⟨d, hdecode⟩ : ∃ d, Datagram.decode raw = .ok d := by
      obtain ⟨-, _, hrefused⟩ | ⟨d, _, hdecode, -⟩ := receive_cases h.sound raw source now
      · cases hanswer.symm.trans hrefused
      · exact ⟨d, hdecode⟩
    obtain ⟨within, after, hroom, hkept, hm, hhandle, hrooms⟩ := h.accepted hdecode hanswer
    have hmembers : after.members = within.members := by
      have hframe := within.handle_frame r.settings.hysteresis d raw source now
      rw [hhandle] at hframe
      exact hframe.2.2.1
    obtain ⟨hhome, hreceiver⟩ : e.room = d.header.room ∧ within.members.contains e.receiver := by
      by_cases htype : d.header.packetType = .feedback
      · rw [hkept.handle_of_member hm, if_pos htype] at hhandle
        obtain ⟨hhome, hreceiver⟩ :=
          (hkept.heard hm source now).takeFeedback_addressed hhandle he
        exact ⟨hhome.trans hkept.name, hreceiver⟩
      · obtain ⟨id, _, s, s', receivers', step, hpasses⟩ :=
          h.media_accepted hdecode htype (Prod.ext rfl hanswer)
        obtain rfl := Option.some.inj (hroom.symm.trans hpasses.room)
        have hsubscribed := hpasses.subscribed_of_mem (List.mem_map_of_mem he)
        rw [hpasses.outcome] at he
        simp only [Room.copiesOf, Outcome.egress, List.append_nil, List.mem_map] at he
        obtain ⟨_, -, rfl⟩ := he
        exact ⟨hkept.name, (hkept.subscribed _ _ hsubscribed).2.1.member⟩
    refine mem_participants_iff.mpr ⟨after, ?_, hmembers ▸ hreceiver⟩
    rw [hrooms, hhome]
    exact Directory.room?_withRoom_self _ _ _

theorem tick_addressed (h : r.Reachable) {e : Egress} (he : e ∈ (r.step now .tick).2) :
    e.receiver ∈ (r.step now .tick).1.participants e.room := by
  obtain ⟨emission, hemission, rfl⟩ := List.mem_map.mp he
  rw [tickRooms_announced h.sound now r.directory.rooms.keys_nodup] at hemission
  obtain ⟨id, hid, hemission⟩ := List.mem_flatMap.mp hemission
  obtain ⟨within, hroom⟩ := Directory.mem_keys_iff.mp hid
  have hkept := h.sound _ _ hroom
  rw [announced_eq hroom] at hemission
  have hsaid := (tickedRoom_recites hkept r.settings now).recited
  obtain ⟨message, hmessage, htells⟩ := hsaid.exists_of_mem (List.mem_map_of_mem hemission)
  have hawake : (within.awake r.settings now).Coherent := hkept.expel _
  have hreceiver := hawake.agenda_addressed hmessage
  rw [htells.home, hkept.name, htells.addressee]
  refine (mem_participants_of_stays (room?_tick h.sound now hroom)
    (hawake.tick r.settings.hysteresis now)).mpr ?_
  rwa [(tickedRoom_sameSeats r.settings now within).members]

/-- Whoever is sent to is in the room that the datagram is sent for. -/
theorem step_addressed (h : r.Reachable) (now : Time) (input : Input) :
    ∀ e ∈ (r.step now input).2, e.receiver ∈ (r.step now input).1.participants e.room := by
  intro e he
  cases input with
  | event _ => cases he
  | datagram raw source => exact h.receive_addressed he
  | tick => exact h.tick_addressed he

end Reachable

end Addressed

/-- A tick takes out those who were last heard more than the timeout ago and nobody else, with all
that is theirs, and closes the rooms that this leaves without participants. At the tick and ever
after, whoever is sent to is in the room at that time. -/
theorem run_expires (settings : Settings F) (inputs : List (Time × Input)) (now : Time) :
    let r := (start settings).run inputs
    let r' := (r.step now .tick).1
    (∀ room p, p ∈ r.participants room →
      ∃ t, lastHeard room p (start settings) none inputs = some t ∧
        (p ∈ r'.participants room ↔ now ≤ t + Time.ofMillis settings.participantTimeoutMs)) ∧
    (∀ room p, p ∈ r'.participants room → p ∈ r.participants room) ∧
    (∀ room within after, r.directory.room? room = some within →
      r'.directory.room? room = some after →
      within.RidOf ((r.participants room).filter (· ∉ r'.participants room)) after ∧
        after.routing = after.currentRouting) ∧
    (∀ room, r'.directory.room? room = none ↔
      r.directory.room? room = none ∨ r.participants room ≠ [] ∧ r'.participants room = []) ∧
    (∀ e ∈ (r.step now .tick).2, e.receiver ∈ r'.participants e.room) ∧
    ∀ later now' input, let q := r'.run later
      ∀ e ∈ (q.step now' input).2, e.receiver ∈ (q.step now' input).1.participants e.room := by
  intro r r'
  have hr : r.Reachable := (Reachable.start settings).run inputs
  have hsettings : r.settings = settings := (Reachable.start settings).run_settings inputs
  refine ⟨fun room p hp => ?_, fun room p hp => ?_, fun room within after hroom hafter =>
    hr.tick_rids now hroom hafter, hr.room?_tick_eq_none_iff now, hr.step_addressed now .tick,
    fun later now' input => ?_⟩
  · obtain ⟨t, ht, hkeeps⟩ := hr.tick_keeps now hp
    rw [(Reachable.start settings).run_lastSeen room p inputs] at ht
    exact ⟨t, ht, hsettings ▸ hkeeps⟩
  · cases hroom : r.directory.room? room with
    | none =>
      obtain ⟨_, hafter, -⟩ := mem_participants_iff.mp hp
      cases (room?_tick_of_none hr.sound now hroom).symm.trans hafter
    | some within =>
      have hid := Directory.mem_keys_iff.mpr ⟨within, hroom⟩
      exact ((mem_participants_tick hr.sound now hid p).mp hp).1
  · exact ((hr.step now .tick).run later).step_addressed now' input

/-- Of two participants the one that sends stays longer, and the room no longer than it. -/
example :
    let r := (callOfTwo [⟨.base, 200000⟩]).run
      [(5000000, .datagram (wireBytes (videoPacket 0 0 .base [])) anyEndpoint), (12000000, .tick)]
    r.participants ⟨7⟩ = [⟨1⟩] ∧
      ((r.step 20000000 .tick).1.directory.room? ⟨7⟩).isNone := by decide +kernel

end Relay

end MediaRelay
