import MediaRelay.Proofs.Room.Evolution
import MediaRelay.Proofs.Wire.Canonical

/-!
The states a relay can be in. In a reachable state all rooms are as `Room.Kept` says; one input
changes a room that is there as `Room.Evolves` says, and the room stays unless that closes it
(`Relay.step_room`).
-/

namespace MediaRelay

variable {F : Type}

namespace Directory

def Sound (d : Directory F) : Prop := ∀ id r, d.room? id = some r → r.Kept id

variable {d : Directory F}

theorem mem_keys_iff {id : RoomId} : id ∈ d.rooms.keys ↔ ∃ r, d.room? id = some r :=
  Table.mem_keys_iff.trans Table.contains_iff

theorem within_room? {α : Type} (d : Directory F) (id : RoomId)
    (act : Room F → Room F × Except Refusal α) (other : RoomId) :
    (d.within id act).1.room? other =
      if other = id then (d.room? id).map fun r => (act r).1 else d.room? other := by
  unfold within
  cases hr : d.room? id with
  | none =>
    by_cases ho : other = id
    · simp [ho, hr]
    · simp [ho]
  | some r =>
    by_cases ho : other = id
    · simp [ho, room?]
    · simp [ho, room?, Table.get?_insert_of_ne]

theorem leave_room? (hd : d.Sound) (id : RoomId) (p : ParticipantId) (other : RoomId) :
    (d.leave id p).1.room? other =
      if other = id then (d.room? id).bind fun r => (r.leave p).1.unlessClosed
      else d.room? other := by
  unfold leave
  cases hr : d.room? id with
  | none =>
    by_cases ho : other = id
    · simp [ho, hr]
    · simp [ho]
  | some r =>
    obtain ⟨-, refusal, hleave⟩ | ⟨-, hleave⟩ := r.leave_cases p
    · have hopen := (hd id r hr).isOpen
      by_cases ho : other = id
      · simp [hleave, ho, room?, Room.unlessClosed, hopen]
      · simp [hleave, ho, room?, Table.get?_insert_of_ne]
    · cases hc : (r.without p).closed with
      | true =>
        by_cases ho : other = id
        · simp [hleave, hc, ho, room?, remove, Room.unlessClosed]
        · simp [hleave, hc, ho, room?, remove, Table.get?_erase_of_ne]
      | false =>
        by_cases ho : other = id
        · simp [hleave, hc, ho, room?, Room.unlessClosed]
        · simp [hleave, hc, ho, room?, Table.get?_insert_of_ne]

theorem tryJoin_found {id : RoomId} {r : Room F} (hr : d.room? id = some r) (p : ParticipantId)
    (role : Role) (version : UInt8) (now : Time) :
    d.tryJoin id p role version now =
      ({ d with rooms := d.rooms.insert id (r.join p role version now).1 },
        (r.join p role version now).2) := by
  simp [tryJoin, create, hr]

theorem tryJoin_full {id : RoomId} (hnone : d.room? id = none) (hfull : d.maxRooms ≤ d.rooms.size)
    (p : ParticipantId) (role : Role) (version : UInt8) (now : Time) :
    d.tryJoin id p role version now = (d, .error (.roomLimitReached d.maxRooms)) := by
  simp [tryJoin, create, hnone, hfull]

/-- A join where there is no room makes one, if there may be another. -/
theorem tryJoin_vacant {id : RoomId} (hnone : d.room? id = none)
    (hlimit : d.rooms.size < d.maxRooms) (p : ParticipantId) (role : Role) (version : UInt8)
    (now : Time) :
    d.tryJoin id p role version now =
      ({ d with
          rooms := d.rooms.insert id
            ((Room.start id version d.terms).join p role version now).1 },
        ((Room.start id version d.terms).join p role version now).2) := by
  simp [tryJoin, create, hnone, Nat.not_le_of_lt hlimit, Table.insert_insert_self]

theorem tryJoin_cases (d : Directory F) (id : RoomId) (p : ParticipantId) (role : Role)
    (version : UInt8) (now : Time) :
    d.tryJoin id p role version now = (d, .error (.roomLimitReached d.maxRooms)) ∨
      ∃ r, r = (d.room? id).getD (.start id version d.terms) ∧
        (d.tryJoin id p role version now).2 = (r.join p role version now).2 ∧
        ∀ other, (d.tryJoin id p role version now).1.room? other =
          if other = id then some (r.join p role version now).1 else d.room? other := by
  have hinsert (room : Room F) (other : RoomId) :
      (d.rooms.insert id room).get? other = if other = id then some room else d.room? other := by
    by_cases ho : other = id
    · simp [ho]
    · simp [ho, room?, Table.get?_insert_of_ne]
  cases hr : d.room? id with
  | some r =>
    rw [tryJoin_found hr]
    exact .inr ⟨r, rfl, rfl, hinsert _⟩
  | none =>
    by_cases hfull : d.maxRooms ≤ d.rooms.size
    · exact .inl (tryJoin_full hr hfull p role version now)
    · rw [tryJoin_vacant hr (Nat.lt_of_not_le hfull)]
      exact .inr ⟨_, rfl, rfl, hinsert _⟩

theorem tryJoin_ne_roomClosed (hd : d.Sound) (id : RoomId) (p : ParticipantId) (role : Role)
    (version : UInt8) (now : Time) :
    (d.tryJoin id p role version now).2 ≠ .error .roomClosed := by
  obtain hfull | ⟨r, hr, hanswer, -⟩ := d.tryJoin_cases id p role version now
  · rw [hfull]
    nofun
  · rw [hanswer]
    refine r.join_ne_roomClosed ?_ p role version now
    rw [hr]
    cases hroom : d.room? id with
    | none => rfl
    | some r => exact (hd id r hroom).isOpen

/-- No second attempt is needed where the first one finds an open room. -/
theorem join_eq_tryJoin {id : RoomId} {p : ParticipantId} {role : Role} {version : UInt8}
    {now : Time} (hp : p.isRelay = false) (hv : version = protocolVersion)
    (hopen : (d.tryJoin id p role version now).2 ≠ .error .roomClosed) :
    d.join id p role version now = d.tryJoin id p role version now := by
  rw [join, if_neg (Bool.eq_false_iff.mp hp), if_neg (not_not_intro hv)]
  split
  · rename_i hclosed
    exact absurd (congrArg Prod.snd hclosed) hopen
  · rfl

theorem join_cases (hd : d.Sound) (id : RoomId) (p : ParticipantId) (role : Role)
    (version : UInt8) (now : Time) :
    (∃ refusal, d.join id p role version now = (d, .error refusal)) ∨
      p ≠ .relay ∧ version = protocolVersion ∧
        d.join id p role version now = d.tryJoin id p role version now := by
  by_cases hp : p.isRelay
  · exact .inl ⟨_, if_pos hp⟩
  by_cases hv : version ≠ protocolVersion
  · exact .inl ⟨_, by rw [join, if_neg hp, if_pos hv]⟩
  rw [not_not] at hv
  exact .inr ⟨by simpa [ParticipantId.isRelay] using hp, hv,
    join_eq_tryJoin (Bool.eq_false_iff.mpr hp) hv (tryJoin_ne_roomClosed hd id p role version now)⟩

/-- A join reaches the room that is there, or a new one. -/
theorem join_room? (hd : d.Sound) (id : RoomId) (p : ParticipantId) (role : Role)
    (version : UInt8) (now : Time) :
    (d.join id p role version now).1 = d ∨
      p ≠ .relay ∧ version = protocolVersion ∧
        ∀ other, (d.join id p role version now).1.room? other =
          if other = id then
            some (((d.room? id).getD (.start id version d.terms)).join p role version now).1
          else d.room? other := by
  obtain ⟨refusal, hjoin⟩ | ⟨hp, hv, hjoin⟩ := join_cases hd id p role version now
  · exact .inl (congrArg Prod.fst hjoin)
  rw [hjoin]
  obtain hfull | ⟨r, rfl, -, hrooms⟩ := d.tryJoin_cases id p role version now
  · exact .inl (congrArg Prod.fst hfull)
  · exact .inr ⟨hp, hv, hrooms⟩

end Directory

namespace Relay

open Directory

variable {d : Directory F}

/-- What an event may make of a room that is there, and of one that is not. -/
structure Acted [Arithmetic F] (d d' : Directory F) (e : Event) (now : Time) : Prop where
  others : ∀ id, id ≠ e.room → d'.room? id = d.room? id
  present : ∀ r, d.room? e.room = some r → (∀ role version, e.act ≠ .join .relay role version) ∧
    d'.room? e.room = (r.signal now e.act).unlessClosed
  absent : ∀ r', d.room? e.room = none → d'.room? e.room = some r' →
    ∃ p role, p ≠ ParticipantId.relay ∧
      r' = ((Room.start e.room protocolVersion d.terms).join p role protocolVersion now).1

theorem acted_within [Arithmetic F] {α : Type} (hd : d.Sound) (e : Event) (now : Time)
    (f : Room F → Room F × Except Refusal α) (hf : ∀ r, (f r).1 = r.signal now e.act)
    (hjoin : ∀ p role version, e.act ≠ .join p role version) (hleave : ∀ p, e.act ≠ .leave p) :
    Acted d (d.within e.room f).1 e now := by
  refine ⟨fun id hid => ?_, fun r hr => ⟨hjoin .relay, ?_⟩, fun r' hnone hr' => ?_⟩
  · rw [within_room?, if_neg hid]
  · have hopen : (r.signal now e.act).closed = false := by
      rw [Bool.eq_false_iff]
      intro hclosed
      obtain hc | ⟨p, hp⟩ := (r.signal_frame now e.act).2.2.1 hclosed
      · rw [(hd _ r hr).isOpen] at hc
        cases hc
      · exact hleave p hp
    simp [within_room?, hr, hf, Room.unlessClosed, hopen]
  · simp [within_room?, hnone] at hr'

theorem act_cases [Arithmetic F] (hd : d.Sound) (e : Event) (now : Time) :
    (act d e now).1 = d ∨ Acted d (act d e now).1 e now := by
  obtain ⟨room, a⟩ := e
  cases a with
  | join p role version =>
    obtain hsame | ⟨hp, rfl, hrooms⟩ := join_room? hd room p role version now
    · exact .inl hsame
    · have hroom : (act d ⟨room, .join p role protocolVersion⟩ now).1.room? room =
          some (((d.room? room).getD (.start room protocolVersion d.terms)).join p role
            protocolVersion now).1 := (hrooms room).trans (if_pos rfl)
      refine .inr ⟨fun id hid => ?_, fun r hr => ⟨?_, ?_⟩, fun r' hnone hr' => ?_⟩
      · exact (hrooms id).trans (if_neg hid)
      · rintro _ _ ⟨⟩
        exact hp rfl
      · have hopen : (r.signal now (.join p role protocolVersion)).closed = false := by
          rw [Bool.eq_false_iff]
          intro hclosed
          obtain hc | ⟨q, hq⟩ := (r.signal_frame now _).2.2.1 hclosed
          · rw [(hd _ r hr).isOpen] at hc
            cases hc
          · cases hq
        rw [hroom, hr, Room.unlessClosed, hopen]
        rfl
      · rw [hroom, hnone] at hr'
        exact ⟨p, role, hp, (Option.some.inj hr').symm⟩
  | leave p =>
    have hroom : (act d ⟨room, .leave p⟩ now).1.room? room = (d.room? room).bind fun r =>
        (r.leave p).1.unlessClosed :=
      (leave_room? hd room p room).trans (if_pos rfl)
    refine .inr ⟨fun id hid => ?_, fun r hr => ⟨?_, ?_⟩, fun r' hnone hr' => ?_⟩
    · exact (leave_room? hd room p id).trans (if_neg hid)
    · rintro _ _ ⟨⟩
    · rw [hroom, hr]
      rfl
    · simp [hroom, hnone] at hr'
  | negotiate stream offer =>
    refine .inr (acted_within hd ⟨room, .negotiate stream offer⟩ now _ (fun _ => rfl) ?_ ?_)
    · rintro _ _ _ ⟨⟩
    · rintro _ ⟨⟩
  | subscribe p stream =>
    refine .inr (acted_within hd ⟨room, .subscribe p stream⟩ now _ (fun _ => rfl) ?_ ?_)
    · rintro _ _ _ ⟨⟩
    · rintro _ ⟨⟩
  | unsubscribe p stream =>
    refine .inr (acted_within hd ⟨room, .unsubscribe p stream⟩ now _ (fun _ => rfl) ?_ ?_)
    · rintro _ _ _ ⟨⟩
    · rintro _ ⟨⟩
  | setMuted p sender muted =>
    refine .inr (acted_within hd ⟨room, .setMuted p sender muted⟩ now _ (fun _ => rfl) ?_ ?_)
    · rintro _ _ _ ⟨⟩
    · rintro _ ⟨⟩
  | setDeafened p deafened =>
    refine .inr (acted_within hd ⟨room, .setDeafened p deafened⟩ now _ (fun _ => rfl) ?_ ?_)
    · rintro _ _ _ ⟨⟩
    · rintro _ ⟨⟩

section Receive

variable [Arithmetic F]

theorem dispatch_of_member (hd : d.Sound) (h : Hysteresis F) {datagram : Datagram} (raw : Bytes)
    (source : Endpoint) (now : Time) {r : Room F} (hr : d.room? datagram.header.room = some r)
    (hm : r.members.contains datagram.header.sender)
    (hv : datagram.header.version = protocolVersion) :
    dispatch d h datagram raw source now =
      ({ d with
          rooms := d.rooms.insert datagram.header.room (r.handle h datagram raw source now).1 },
        (r.handle h datagram raw source now).2) := by
  have hkept := hd _ r hr
  have hrelay : datagram.header.sender.isRelay = false := by
    rw [Bool.eq_false_iff]
    intro hrelay
    have hsender : datagram.header.sender = .relay := by simpa [ParticipantId.isRelay] using hrelay
    rw [hsender, hkept.withoutRelay] at hm
    cases hm
  have hpresence : r.presence.contains datagram.header.sender := (hkept.presence _).trans hm
  unfold dispatch Room.handle
  simp only [hrelay, hr, hkept.protocol, hv, Room.touch, hpresence, if_true]
  rfl

theorem dispatch_of_stranger (hd : d.Sound) (h : Hysteresis F) {datagram : Datagram} (raw : Bytes)
    (source : Endpoint) (now : Time)
    (hm : ∀ r, d.room? datagram.header.room = some r →
      r.members.contains datagram.header.sender = false) :
    ∃ reason, dispatch d h datagram raw source now = (d, .error reason) := by
  unfold dispatch
  simp only
  split
  · exact ⟨_, rfl⟩
  split
  · exact ⟨_, rfl⟩
  rename_i r hr
  split
  · exact ⟨_, rfl⟩
  have hpresence := ((hd _ r hr).presence datagram.header.sender).trans (hm r hr)
  simp only [Room.touch, hpresence]
  exact ⟨_, rfl⟩

theorem receive_of_member {r : Relay F} (hr : r.directory.Sound) {raw : Bytes} (source : Endpoint)
    (now : Time) {d : Datagram} {room : Room F} (hdecode : Datagram.decode raw = .ok d)
    (hroom : r.directory.room? d.header.room = some room)
    (hm : room.members.contains d.header.sender) :
    (r.receive raw source now).1.directory = { r.directory with
        rooms := r.directory.rooms.insert d.header.room
          (room.handle r.settings.hysteresis d raw source now).1 } ∧
      (r.receive raw source now).2 = (room.handle r.settings.hysteresis d raw source now).2 := by
  have hdispatch := dispatch_of_member hr r.settings.hysteresis raw source now hroom hm
    (Datagram.decode_version hdecode)
  unfold receive
  simp only [hdecode, hdispatch, and_self]

/-- Bytes reach a room if they are a datagram of one of its members. -/
theorem receive_cases {r : Relay F} (hr : r.directory.Sound) (raw : Bytes) (source : Endpoint)
    (now : Time) :
    ((r.receive raw source now).1.directory = r.directory ∧
      ∃ reason, (r.receive raw source now).2 = .error reason) ∨
      ∃ d room, Datagram.decode raw = .ok d ∧ r.directory.room? d.header.room = some room ∧
        room.members.contains d.header.sender ∧
        (r.receive raw source now).1.directory = { r.directory with
          rooms := r.directory.rooms.insert d.header.room
            (room.handle r.settings.hysteresis d raw source now).1 } ∧
        (r.receive raw source now).2 = (room.handle r.settings.hysteresis d raw source now).2 := by
  cases hdecode : Datagram.decode raw with
  | error fault =>
    unfold receive
    simp only [hdecode]
    exact .inl ⟨trivial, _, rfl⟩
  | ok d =>
    by_cases hm : ∃ room, r.directory.room? d.header.room = some room ∧
        room.members.contains d.header.sender
    · obtain ⟨room, hroom, hmember⟩ := hm
      exact .inr ⟨d, room, rfl, hroom, hmember,
        receive_of_member hr source now hdecode hroom hmember⟩
    · obtain ⟨reason, hdispatch⟩ := dispatch_of_stranger hr r.settings.hysteresis raw source now
        fun room hroom => by
          rw [Bool.eq_false_iff]
          exact fun hmember => hm ⟨room, hroom, hmember⟩
      unfold receive
      simp only [hdecode, hdispatch]
      exact .inl ⟨trivial, reason, rfl⟩

end Receive

section Tick

variable {r : Relay F}

theorem sound_leave (hd : d.Sound) (id : RoomId) (p : ParticipantId) : (d.leave id p).1.Sound := by
  intro other room hroom
  rw [leave_room? hd] at hroom
  by_cases ho : other = id
  · subst ho
    rw [if_pos rfl] at hroom
    obtain ⟨before, hbefore, hstays⟩ := Option.bind_eq_some_iff.mp hroom
    obtain ⟨hopen, rfl⟩ := Room.unlessClosed_eq_some_iff.mp hstays
    exact (hd _ _ hbefore).leave p hopen
  · rw [if_neg ho] at hroom
    exact hd _ _ hroom

theorem expire_eq (id : RoomId) (r : Relay F) (p : ParticipantId) :
    (expire id r p).directory = (r.directory.leave id p).1 ∧
      (expire id r p).settings = r.settings := by
  unfold expire
  split
  · rename_i h
    exact ⟨by rw [h], rfl⟩
  · rename_i h
    exact ⟨by rw [h], rfl⟩

theorem foldl_expire (hr : r.directory.Sound) (id : RoomId) (gone : List ParticipantId) :
    (gone.foldl (expire id) r).directory.Sound ∧
      (gone.foldl (expire id) r).settings = r.settings ∧
      ∀ other, (gone.foldl (expire id) r).directory.room? other =
        if other = id then (r.directory.room? id).bind fun room => (room.expel gone).unlessClosed
        else r.directory.room? other := by
  induction gone generalizing r with
  | nil =>
    refine ⟨hr, rfl, fun other => ?_⟩
    by_cases ho : other = id
    · subst ho
      cases hroom : r.directory.room? other with
      | none => simp [hroom]
      | some room => simp [hroom, Room.expel, Room.unlessClosed, (hr _ _ hroom).isOpen]
    · simp [ho]
  | cons p rest ih =>
    obtain ⟨hdirectory, hsettings⟩ := expire_eq id r p
    have hsound : (expire id r p).directory.Sound := hdirectory ▸ sound_leave hr id p
    obtain ⟨hrest, hkept, hrooms⟩ := ih hsound
    refine ⟨hrest, hkept.trans hsettings, fun other => ?_⟩
    rw [List.foldl_cons, hrooms, hdirectory, leave_room? hr, leave_room? hr, if_pos rfl]
    by_cases ho : other = id
    · rw [if_pos ho, if_pos ho, Option.bind_assoc]
      cases hroom : r.directory.room? id with
      | none => rfl
      | some room =>
        exact ((hr _ _ hroom).toCoherent.leave p).unlessClosed_expel rest
    · rw [if_neg ho, if_neg ho, if_neg ho]

variable [Arithmetic F]

/-- What a tick makes of a room. -/
def tickedRoom (settings : Settings F) (now : Time) (room : Room F) : Room F :=
  ((room.expel (room.inactive now (Time.ofMillis settings.participantTimeoutMs))).tick
    settings.hysteresis now).1

theorem tickRoom_spec (hr : r.directory.Sound) (id : RoomId) (now : Time) :
    (r.tickRoom id now).1.settings = r.settings ∧
      ∀ other, (r.tickRoom id now).1.directory.room? other =
        if other = id then
          (r.directory.room? id).bind fun room => (tickedRoom r.settings now room).unlessClosed
        else r.directory.room? other := by
  unfold tickRoom
  cases hroom : r.directory.room? id with
  | none =>
    refine ⟨rfl, fun other => ?_⟩
    by_cases ho : other = id
    · simp [ho, hroom]
    · simp [ho]
  | some room =>
    simp only
    generalize hgone : room.inactive now (Time.ofMillis r.settings.participantTimeoutMs) = gone
    obtain ⟨-, hsettings, hrooms⟩ := foldl_expire hr id gone
    have hthere := hrooms id
    rw [if_pos rfl, hroom, Option.bind_some] at hthere
    have hclosed := (Room.tick_sameSeats (room.expel gone) r.settings.hysteresis now).closed
    have hticked : tickedRoom r.settings now room =
        ((room.expel gone).tick r.settings.hysteresis now).1 := by rw [tickedRoom, hgone]
    cases hc : (room.expel gone).closed with
    | true =>
      have hnone : (gone.foldl (expire id) r).directory.room? id = none := by
        rw [hthere, Room.unlessClosed, hc]
        rfl
      simp only [hnone]
      refine ⟨hsettings, fun other => ?_⟩
      rw [hrooms]
      by_cases ho : other = id
      · simp [ho, hroom, hticked, Room.unlessClosed, hclosed, hc]
      · simp [ho]
    | false =>
      have hsome : (gone.foldl (expire id) r).directory.room? id = some (room.expel gone) := by
        rw [hthere, Room.unlessClosed, hc]
        rfl
      simp only [hsome, hc, Bool.false_eq_true, if_false, hsettings]
      refine ⟨trivial, fun other => ?_⟩
      by_cases ho : other = id
      · simp [ho, room?, hticked, Room.unlessClosed, hclosed, hc]
      · simpa [ho, room?, Table.get?_insert_of_ne] using hrooms other

theorem tickedRoom_evolves (settings : Settings F) (now : Time) (id : RoomId) (room : Room F) :
    Room.Evolves settings.hysteresis now id .tick room (tickedRoom settings now room) :=
  .ticked _ _

theorem sound_tickRoom (hr : r.directory.Sound) (id : RoomId) (now : Time) :
    (r.tickRoom id now).1.directory.Sound := by
  intro other room hroom
  rw [(tickRoom_spec hr id now).2] at hroom
  by_cases ho : other = id
  · subst ho
    rw [if_pos rfl] at hroom
    obtain ⟨before, hbefore, hstays⟩ := Option.bind_eq_some_iff.mp hroom
    obtain ⟨hopen, rfl⟩ := Room.unlessClosed_eq_some_iff.mp hstays
    exact (tickedRoom_evolves r.settings now other before).kept (hr _ _ hbefore) hopen
  · rw [if_neg ho] at hroom
    exact hr _ _ hroom

theorem tickRooms_spec (hr : r.directory.Sound) (now : Time) {ids : List RoomId} (hn : ids.Nodup) :
    (r.tickRooms now ids).1.settings = r.settings ∧
      ∀ other, (r.tickRooms now ids).1.directory.room? other =
        if other ∈ ids then
          (r.directory.room? other).bind fun room => (tickedRoom r.settings now room).unlessClosed
        else r.directory.room? other := by
  induction ids generalizing r with
  | nil => exact ⟨rfl, fun _ => by simp [tickRooms]⟩
  | cons id rest ih =>
    obtain ⟨hid, hrest⟩ := List.nodup_cons.mp hn
    obtain ⟨hsettings, hrooms⟩ := tickRoom_spec hr id now
    obtain ⟨hsettings', hrooms'⟩ := ih (sound_tickRoom hr id now) hrest
    refine ⟨hsettings'.trans hsettings, fun other => ?_⟩
    rw [tickRooms]
    simp only
    rw [hrooms', hsettings, hrooms]
    by_cases ho : other = id
    · simp [ho, hid]
    · simp [ho]

end Tick

section Step

variable [Arithmetic F] {r : Relay F}

/-- A tick leaves of a room what it makes of it, unless that is closed. -/
theorem room?_tick (hr : r.directory.Sound) (now : Time) {id : RoomId} {room : Room F}
    (hroom : r.directory.room? id = some room) :
    (r.step now .tick).1.directory.room? id = (tickedRoom r.settings now room).unlessClosed := by
  have hticked := (tickRooms_spec hr now r.directory.rooms.keys_nodup).2 id
  rwa [if_pos (mem_keys_iff.mpr ⟨room, hroom⟩), hroom, Option.bind_some] at hticked

theorem room?_tick_of_none (hr : r.directory.Sound) (now : Time) {id : RoomId}
    (hnone : r.directory.room? id = none) : (r.step now .tick).1.directory.room? id = none := by
  have hticked := (tickRooms_spec hr now r.directory.rooms.keys_nodup).2 id
  rwa [hnone, Option.bind_none, ite_self] at hticked

/-- A room takes in the datagrams that its members send to it, and no others. -/
theorem room?_datagram (hr : r.directory.Sound) {id : RoomId} {room : Room F}
    (hroom : r.directory.room? id = some room) (raw : Bytes) (source : Endpoint) (now : Time) :
    (∃ d, Datagram.decode raw = .ok d ∧ d.header.room = id ∧
        room.members.contains d.header.sender ∧
        (r.step now (.datagram raw source)).1.directory.room? id =
          some (room.handle r.settings.hysteresis d raw source now).1) ∨
      (r.step now (.datagram raw source)).1.directory.room? id = some room ∧
        ∀ d, Datagram.decode raw = .ok d → d.header.room = id →
          room.members.contains d.header.sender = false := by
  by_cases hspoken : ∃ d, Datagram.decode raw = .ok d ∧ d.header.room = id ∧
      room.members.contains d.header.sender
  · obtain ⟨d, hdecode, rfl, hm⟩ := hspoken
    obtain ⟨hrooms, -⟩ := receive_of_member hr source now hdecode hroom hm
    refine .inl ⟨d, hdecode, rfl, hm, (congrArg (·.room? d.header.room) hrooms).trans ?_⟩
    exact Table.get?_insert_self _ _ _
  · refine .inr ⟨?_, fun d hdecode hid =>
      Bool.eq_false_iff.mpr fun hm => hspoken ⟨d, hdecode, hid, hm⟩⟩
    rw [← hroom]
    obtain ⟨hsame, -⟩ | ⟨d, before, hdecode, hbefore, hm, hrooms, -⟩ :=
      receive_cases hr raw source now
    · exact congrArg (·.room? id) hsame
    · have hid : id ≠ d.header.room := by
        rintro rfl
        obtain rfl := Option.some.inj (hroom.symm.trans hbefore)
        exact hspoken ⟨d, hdecode, rfl, hm⟩
      exact (congrArg (·.room? id) hrooms).trans (Table.get?_insert_of_ne _ _ hid)

/-- A room that is there evolves, and stays unless that closes it. -/
theorem step_room (hr : r.directory.Sound) (now : Time) (input : Input) {id : RoomId}
    {room : Room F} (hroom : r.directory.room? id = some room) :
    ∃ room', Room.Evolves r.settings.hysteresis now id input room room' ∧
      (r.step now input).1.directory.room? id = room'.unlessClosed := by
  have hidle : room.unlessClosed = some room := by simp [Room.unlessClosed, (hr _ _ hroom).isOpen]
  cases input with
  | event e =>
    obtain hsame | hacted := act_cases hr e now
    · refine ⟨room, .idle _ _, ?_⟩
      rw [hidle, ← hroom]
      exact congrArg (·.room? id) hsame
    · by_cases hid : id = e.room
      · subst hid
        obtain ⟨hact, hthere⟩ := hacted.present room hroom
        exact ⟨_, .signaled e.act room hact, hthere⟩
      · refine ⟨room, .idle _ _, ?_⟩
        rw [hidle, ← hroom]
        exact hacted.others id hid
  | datagram raw source =>
    obtain ⟨d, hdecode, hid, hm, hafter⟩ | ⟨hafter, -⟩ := room?_datagram hr hroom raw source now
    · have hclosed := (room.handle_frame r.settings.hysteresis d raw source now).2.2.2
      refine ⟨_, .handled raw source d room hdecode hid hm, hafter.trans ?_⟩
      simp [Room.unlessClosed, hclosed, (hr _ _ hroom).isOpen]
    · exact ⟨room, .idle _ _, hafter.trans hidle.symm⟩
  | tick => exact ⟨_, tickedRoom_evolves r.settings now id room, room?_tick hr now hroom⟩

/-- Only a join makes a new room. -/
theorem step_new_room (hr : r.directory.Sound) (now : Time) (input : Input) {id : RoomId}
    {room' : Room F} (hnone : r.directory.room? id = none)
    (hroom' : (r.step now input).1.directory.room? id = some room') :
    ∃ p role, p ≠ ParticipantId.relay ∧ room' =
      ((Room.start id protocolVersion r.directory.terms).join p role protocolVersion now).1 := by
  cases input with
  | event e =>
    have hstep : (act r.directory e now).1.room? id = some room' := hroom'
    obtain hsame | hacted := act_cases hr e now
    · rw [hsame, hnone] at hstep
      cases hstep
    · by_cases hid : id = e.room
      · subst hid
        exact hacted.absent room' hnone hstep
      · rw [hacted.others id hid, hnone] at hstep
        cases hstep
  | datagram raw source =>
    have hstep : (r.receive raw source now).1.directory.room? id = some room' := hroom'
    obtain ⟨hsame, -⟩ | ⟨d, before, -, hbefore, -, hrooms, -⟩ := receive_cases hr raw source now
    · rw [hsame, hnone] at hstep
      cases hstep
    · have hid : id ≠ d.header.room := by
        rintro rfl
        rw [hnone] at hbefore
        cases hbefore
      rw [hrooms, room?, Table.get?_insert_of_ne _ _ hid] at hstep
      exact absurd (hnone.symm.trans hstep) nofun
  | tick =>
    rw [room?_tick_of_none hr now hnone] at hroom'
    cases hroom'

theorem sound_step (hr : r.directory.Sound) (now : Time) (input : Input) :
    (r.step now input).1.directory.Sound := by
  intro id room' hroom'
  cases hroom : r.directory.room? id with
  | some room =>
    obtain ⟨after, hevolves, hafter⟩ := step_room hr now input hroom
    rw [hroom'] at hafter
    obtain ⟨hopen, rfl⟩ := Room.unlessClosed_eq_some_iff.mp hafter.symm
    exact hevolves.kept (hr _ _ hroom) hopen
  | none =>
    obtain ⟨p, role, hp, rfl⟩ := step_new_room hr now input hroom hroom'
    have hstart : (Room.start id protocolVersion r.directory.terms).Kept id :=
      ⟨Room.coherent_start _ _ _, rfl, rfl, rfl, rfl⟩
    have hevolves : Room.Evolves r.settings.hysteresis now id
        (.event ⟨id, .join p role protocolVersion⟩)
        (Room.start id protocolVersion r.directory.terms) _ :=
      .signaled (.join p role protocolVersion) _ (by rintro _ _ ⟨⟩; exact hp rfl)
    refine hevolves.kept hstart ?_
    rw [Bool.eq_false_iff]
    intro hclosed
    obtain hc | ⟨q, hq⟩ := (Room.signal_frame _ now _).2.2.1 hclosed
    · cases hc
    · cases hq

end Step

/-- The states that inputs lead to, one after another, from any settings. -/
inductive Reachable [Arithmetic F] : Relay F → Prop
  | start (settings : Settings F) : Reachable (Relay.start settings)
  | step {r : Relay F} (h : Reachable r) (now : Time) (input : Input) :
    Reachable (r.step now input).1

namespace Reachable

variable [Arithmetic F] {r : Relay F}

theorem sound (h : r.Reachable) : r.directory.Sound := by
  induction h with
  | start settings => exact fun _ _ hroom => by cases hroom
  | step _ now input ih => exact sound_step ih now input

theorem run (h : r.Reachable) (inputs : List (Time × Input)) : (r.run inputs).Reachable := by
  induction inputs generalizing r with
  | nil => exact h
  | cons first rest ih => exact ih (h.step first.1 first.2)

end Reachable

end Relay

end MediaRelay
