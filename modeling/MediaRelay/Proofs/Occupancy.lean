import MediaRelay.Proofs.Invariant
import MediaRelay.Proofs.Room.Representation

/-!
How long rooms live. There are never more of them than the settings allow, and each has a member
from the join that made it until it closes, provided that a room may have members at all.
-/

namespace MediaRelay

variable {F : Type}

namespace Room

/-- Somebody is in the room, or was. -/
def Entered (r : Room F) : Prop := r.closed ∨ r.members.isEmpty = false

section Entered

variable [Arithmetic F] {r : Room F}

theorem Coherent.perform_entered (h : r.Coherent) (he : r.Entered) (now : Time) (op : Op F) :
    (r.perform now op).Entered := by
  cases hempty : (r.perform now op).members.isEmpty with
  | true => exact .inl ((h.perform_closed_iff now op).mpr ⟨he, hempty⟩)
  | false => exact .inr hempty

theorem Coherent.expel_entered (h : r.Coherent) (he : r.Entered) (gone : List ParticipantId) :
    (r.expel gone).Entered := by
  induction gone generalizing r with
  | nil => exact he
  | cons p rest ih => exact ih (h.leave p) (h.perform_entered he 0 (.signal (.leave p)))

theorem Evolves.entered {h : Hysteresis F} {now : Time} {id : RoomId} {input : Relay.Input}
    {r' : Room F} (he : Evolves h now id input r r') (hr : r.Coherent) (hentered : r.Entered) :
    r'.Entered := by
  cases he with
  | idle => exact hentered
  | signaled act _ _ => exact hr.perform_entered hentered now (.signal act)
  | handled raw source d _ _ _ _ =>
    obtain ⟨-, -, hmembers, hclosed⟩ := r.handle_frame h d raw source now
    rwa [Entered, hmembers, hclosed]
  | ticked gone _ =>
    exact (hr.expel gone).perform_entered (hr.expel_entered hentered gone) now (.tick h)

end Entered

/-- A new room takes in whoever comes first, if it may have members. -/
theorem join_start (id : RoomId) (version : UInt8) {terms : Terms F}
    (hmax : 0 < terms.maxParticipants) (p : ParticipantId) (role : Role) (now : Time) :
    ((start id version terms).join p role version now).2 = .ok () ∧
      ((start id version terms).join p role version now).1.members.contains p := by
  have hroom : terms.maxParticipants ≠ 0 := Nat.ne_of_gt hmax
  have hjoin : (start id version terms).join p role version now =
      (publish { start id version terms with
        members := (start id version terms).members.insert p (.ofRole role)
        presence := (start id version terms).presence.insert p ⟨none, now⟩ }, .ok ()) := by
    simp [join, start, hroom]
  rw [hjoin]
  exact ⟨rfl, Table.contains_insert.mpr (.inl rfl)⟩

/-- A room that may not have members turns everybody away. -/
theorem join_start_full (id : RoomId) (version : UInt8) {terms : Terms F}
    (hmax : terms.maxParticipants = 0) (p : ParticipantId) (role : Role) (now : Time) :
    (start id version terms).join p role version now =
      (start id version terms, .error (.roomFull 0)) := by
  simp [join, start, hmax]

end Room

namespace Directory

variable {d d' d'' : Directory F}

/-- The limit stays, and so does the number of rooms within it. -/
structure Limited (d d' : Directory F) : Prop where
  maxRooms : d'.maxRooms = d.maxRooms
  size : d.rooms.size ≤ d.maxRooms → d'.rooms.size ≤ d'.maxRooms

namespace Limited

theorem refl (d : Directory F) : Limited d d := ⟨rfl, id⟩

theorem trans (h : Limited d d') (h' : Limited d' d'') : Limited d d'' :=
  ⟨h'.maxRooms.trans h.maxRooms, fun hsize => h'.size (h.size hsize)⟩

/-- A room that is there is replaced. -/
theorem replace {id : RoomId} {r : Room F} (hr : d.room? id = some r) (r' : Room F) :
    Limited d { d with rooms := d.rooms.insert id r' } := by
  refine ⟨rfl, fun hsize => ?_⟩
  show (d.rooms.insert id r').size ≤ d.maxRooms
  rwa [Table.size_insert, if_pos (Table.contains_of_get? hr)]

theorem remove (d : Directory F) (id : RoomId) : Limited d (d.remove id) :=
  ⟨rfl, Nat.le_trans (d.rooms.size_erase_le id)⟩

theorem tryJoin (d : Directory F) (id : RoomId) (p : ParticipantId) (role : Role)
    (version : UInt8) (now : Time) : Limited d (d.tryJoin id p role version now).1 := by
  cases hr : d.room? id with
  | some r =>
    rw [tryJoin_found hr]
    exact replace hr _
  | none =>
    by_cases hfull : d.maxRooms ≤ d.rooms.size
    · rw [tryJoin_full hr hfull]
      exact refl d
    · rw [tryJoin_vacant hr (Nat.lt_of_not_le hfull)]
      refine ⟨rfl, fun _ => ?_⟩
      show (d.rooms.insert id _).size ≤ d.maxRooms
      rw [Table.size_insert]
      split <;> omega

theorem join (d : Directory F) (id : RoomId) (p : ParticipantId) (role : Role)
    (version : UInt8) (now : Time) : Limited d (d.join id p role version now).1 := by
  unfold Directory.join
  split
  · exact refl d
  split
  · exact refl d
  have hfirst := tryJoin d id p role version now
  split
  · rename_i d' hclosed
    rw [hclosed] at hfirst
    exact (hfirst.trans (remove d' id)).trans (tryJoin _ id p role version now)
  · exact hfirst

theorem leave (d : Directory F) (id : RoomId) (p : ParticipantId) :
    Limited d (d.leave id p).1 := by
  unfold Directory.leave
  split
  · exact refl d
  rename_i r hr
  split
  · exact remove d id
  · exact replace hr _
  · exact replace hr _

theorem within {α : Type} (d : Directory F) (id : RoomId)
    (f : Room F → Room F × Except Refusal α) : Limited d (d.within id f).1 := by
  unfold Directory.within
  split
  · exact refl d
  · rename_i r hr
    exact replace hr _

end Limited

end Directory

namespace Relay

open Directory

variable [Arithmetic F] {r : Relay F}

theorem act_limited (d : Directory F) (e : Event) (now : Time) : Limited d (act d e now).1 := by
  obtain ⟨room, a⟩ := e
  cases a with
  | join p role version => exact .join d room p role version now
  | leave p => exact .leave d room p
  | negotiate stream offer =>
    exact .within d room fun r => r.negotiate stream.sender stream.kind offer now
  | subscribe p stream | unsubscribe p stream | setMuted receiver sender muted
  | setDeafened p deafened => exact .within d room _

omit [Arithmetic F] in
theorem expire_limited (id : RoomId) (r : Relay F) (p : ParticipantId) :
    Limited r.directory (expire id r p).directory := by
  rw [(expire_eq id r p).1]
  exact .leave r.directory id p

theorem tickRoom_limited (r : Relay F) (id : RoomId) (now : Time) :
    Limited r.directory (r.tickRoom id now).1.directory := by
  have hexpire (gone : List ParticipantId) :
      Limited r.directory (gone.foldl (expire id) r).directory :=
    List.foldlRecOn (motive := fun r' : Relay F => Limited r.directory r'.directory) gone _
      (.refl _) fun r' h p _ => h.trans (expire_limited id r' p)
  unfold tickRoom
  split
  · exact .refl _
  simp only
  split
  · exact hexpire _
  split
  · exact hexpire _
  · rename_i hroom _
    exact (hexpire _).trans (.replace hroom _)

theorem tickRooms_limited (r : Relay F) (now : Time) (ids : List RoomId) :
    Limited r.directory (r.tickRooms now ids).1.directory := by
  induction ids generalizing r with
  | nil => exact .refl _
  | cons id rest ih => exact (r.tickRoom_limited id now).trans (ih (r.tickRoom id now).1)

theorem step_limited (hr : r.directory.Sound) (now : Time) (input : Input) :
    Limited r.directory (r.step now input).1.directory := by
  cases input with
  | event e => exact act_limited r.directory e now
  | datagram raw source =>
    show Limited r.directory (r.receive raw source now).1.directory
    obtain ⟨hsame, -⟩ | ⟨d, room, -, hroom, -, hrooms, -⟩ := receive_cases hr raw source now
    · exact hsame ▸ .refl _
    · exact hrooms ▸ .replace hroom _
  | tick => exact r.tickRooms_limited now r.directory.rooms.keys

/-- There are never more rooms than the settings allow. -/
theorem Reachable.limit (h : r.Reachable) :
    r.directory.maxRooms = r.settings.maxRooms ∧
      r.directory.rooms.size ≤ r.settings.maxRooms := by
  induction h with
  | start settings => exact ⟨rfl, Nat.zero_le _⟩
  | @step r hr now input ih =>
    obtain ⟨hmax, hsize⟩ := ih
    have hlimited := step_limited hr.sound now input
    rw [(step_settings hr.sound now input).1, ← hmax]
    exact ⟨hlimited.maxRooms, hlimited.maxRooms ▸ hlimited.size (hmax.symm ▸ hsize)⟩

end Relay

namespace Directory

/-- Every room is open and has a member. -/
def Occupied (d : Directory F) : Prop :=
  ∀ id r, d.room? id = some r → r.closed = false ∧ r.members.isEmpty = false

/-- A room that is made can also be entered. -/
def Admits (d : Directory F) : Prop := 0 < d.terms.maxParticipants ∨ d.maxRooms = 0

variable {d : Directory F}

/-- A join that is refused changes nothing, if rooms can be entered. -/
theorem tryJoin_refused (hadmits : d.Admits) {id : RoomId} {p : ParticipantId}
    {role : Role} {version : UInt8} {now : Time} {refusal : Refusal}
    (hrefused : (d.tryJoin id p role version now).2 = .error refusal) :
    (d.tryJoin id p role version now).1 = d := by
  cases hr : d.room? id with
  | some r =>
    rw [tryJoin_found hr] at hrefused ⊢
    obtain ⟨_, hjoin⟩ | ⟨-, -, -, -, hjoin⟩ := r.join_cases p role version now
    · rw [hjoin, Table.insert_eq_self hr]
    · rw [hjoin] at hrefused
      cases hrefused
  | none =>
    by_cases hfull : d.maxRooms ≤ d.rooms.size
    · rw [tryJoin_full hr hfull]
    · have hmax : 0 < d.terms.maxParticipants := hadmits.resolve_right (by omega)
      rw [tryJoin_vacant hr (Nat.lt_of_not_le hfull),
        (Room.join_start id version hmax p role now).1] at hrefused
      cases hrefused

theorem join_refused (hd : d.Sound) (hadmits : d.Admits) {id : RoomId} {p : ParticipantId}
    {role : Role} {version : UInt8} {now : Time} {refusal : Refusal}
    (hrefused : (d.join id p role version now).2 = .error refusal) :
    (d.join id p role version now).1 = d := by
  obtain ⟨_, hjoin⟩ | ⟨-, -, hjoin⟩ := join_cases hd id p role version now
  · rw [hjoin]
  · rw [hjoin] at hrefused ⊢
    exact tryJoin_refused hadmits hrefused

/-- Where no room can be entered, the first join leaves a room behind that nobody is in. -/
theorem join_vacant_refused (d : Directory F) (id : RoomId) (p : ParticipantId) (role : Role)
    (now : Time) (hnone : d.room? id = none) (hlimit : d.rooms.size < d.maxRooms)
    (hmax : d.terms.maxParticipants = 0) (hp : p.isRelay = false) :
    d.join id p role protocolVersion now =
      ({ d with rooms := d.rooms.insert id (Room.start id protocolVersion d.terms) },
        .error (.roomFull 0)) := by
  simp [join, hp, tryJoin_vacant hnone hlimit, Room.join_start_full id protocolVersion hmax]

end Directory

namespace Relay

open Directory

variable [Arithmetic F] {r : Relay F}

theorem Reachable.admits_iff (h : r.Reachable) :
    r.directory.Admits ↔ 0 < r.settings.maxParticipants ∨ r.settings.maxRooms = 0 := by
  rw [Admits, h.terms, h.limit.1]
  rfl

theorem Reachable.entered (h : r.Reachable) (hadmits : r.directory.Admits) {id : RoomId}
    {room : Room F} (hroom : r.directory.room? id = some room) : room.Entered := by
  induction h generalizing id room with
  | start settings => cases hroom
  | @step r hr now input ih =>
    have hbefore : r.directory.Admits := by
      have hsettings := (step_settings hr.sound now input).1
      rwa [(hr.step now input).admits_iff, hsettings, ← hr.admits_iff] at hadmits
    cases hold : r.directory.room? id with
    | some old =>
      obtain ⟨room', hevolves, hafter⟩ := step_room hr.sound now input hold
      rw [hroom] at hafter
      obtain ⟨-, rfl⟩ := Room.unlessClosed_eq_some_iff.mp hafter.symm
      exact hevolves.entered (hr.sound id old hold).toCoherent (ih hbefore hold)
    | none =>
      obtain ⟨p, role, -, rfl⟩ := step_new_room hr.sound now input hold hroom
      have hsome := Table.size_pos (Table.contains_of_get? hroom)
      have hlimited := step_limited hr.sound now input
      have hmax : 0 < r.directory.terms.maxParticipants := hbefore.resolve_right fun hzero => by
        have hsize := hr.limit.2
        rw [← hr.limit.1] at hsize
        have := hlimited.size hsize
        rw [hlimited.maxRooms] at this
        omega
      have hmember := (Room.join_start id protocolVersion hmax p role now).2
      exact .inr (Table.isEmpty_eq_false hmember)

/-- Rooms live as long as they have members, and a join that is refused leaves nothing behind, if
and only if a room that is made can also be entered. -/
theorem run_occupied_iff (settings : Settings F) :
    (∀ inputs, let r := (start settings).run inputs
      r.directory.Occupied ∧ ∀ room p role version now refusal,
        (r.apply ⟨room, .join p role version⟩ now).2 = .error refusal →
          (r.apply ⟨room, .join p role version⟩ now).1 = r) ↔
      0 < settings.maxParticipants ∨ settings.maxRooms = 0 := by
  constructor
  · intro hall
    by_contra hnot
    have hmax : settings.maxParticipants = 0 := by omega
    have hlimit : 0 < settings.maxRooms := by omega
    let join : Event := ⟨⟨0⟩, .join ⟨1⟩ .all protocolVersion⟩
    obtain ⟨hoccupied, -⟩ := hall [(0, .event join)]
    have hjoin := join_vacant_refused (start settings).directory ⟨0⟩ ⟨1⟩ .all 0 rfl hlimit hmax rfl
    have hleft : ((start settings).run [(0, .event join)]).directory.room? ⟨0⟩ =
        some (Room.start ⟨0⟩ protocolVersion (termsOf settings)) := by
      show ((start settings).directory.join ⟨0⟩ ⟨1⟩ .all protocolVersion 0).1.room? ⟨0⟩ = _
      rw [hjoin]
      exact Table.get?_insert_self _ _ _
    cases (hoccupied _ _ hleft).2
  · intro hmay inputs r
    have hr : r.Reachable := (Reachable.start settings).run inputs
    have hadmits : r.directory.Admits := by
      rw [hr.admits_iff, (Reachable.start settings).run_settings inputs]
      exact hmay
    refine ⟨fun id room hroom => ?_, fun room p role version now refusal hrefused => ?_⟩
    · have hopen := (hr.sound id room hroom).isOpen
      refine ⟨hopen, (hr.entered hadmits hroom).resolve_left ?_⟩
      rw [hopen]
      nofun
    · have hsame := join_refused hr.sound hadmits hrefused
      show { r with directory := (r.directory.join room p role version now).1 } = r
      rw [hsame]

/-- One room may be there, and nobody may enter it: the first join is refused and uses up the
limit, so that the next one is refused for it. -/
theorem refused_join_leaves_room :
    let settings : Settings Rat := { Settings.small with maxRooms := 1, maxParticipants := 0 }
    let first : Event := ⟨⟨7⟩, .join ⟨1⟩ .all protocolVersion⟩
    let second : Event := ⟨⟨8⟩, .join ⟨2⟩ .all protocolVersion⟩
    let r := (start settings).run [(0, .event first)]
    settings.check = .ok () ∧
      ((start settings).apply first 0).2 = .error (.roomFull 0) ∧
      r.directory.rooms.keys = [⟨7⟩] ∧ ¬r.directory.Occupied ∧
      (r.apply second 0).2 = .error (.roomLimitReached 1) := by
  intro settings first second r
  have hjoin := join_vacant_refused (start settings).directory ⟨7⟩ ⟨1⟩ .all 0 rfl
    (show 0 < 1 from Nat.one_pos) rfl rfl
  have hleft : r.directory.room? ⟨7⟩ =
      some (Room.start ⟨7⟩ protocolVersion (termsOf settings)) := by
    show ((start settings).directory.join ⟨7⟩ ⟨1⟩ .all protocolVersion 0).1.room? ⟨7⟩ = _
    rw [hjoin]
    exact Table.get?_insert_self _ _ _
  refine ⟨by decide +kernel, congrArg Prod.snd hjoin, by decide +kernel, fun hoccupied => ?_,
    by decide +kernel⟩
  cases (hoccupied _ _ hleft).2

end Relay

end MediaRelay
