import MediaRelay.Proofs.Occupancy

/-!
Joins and leaves that run at the same time. A relay shares its rooms between them by a map from room
ids to addresses; a call looks a room up, makes it, enters or leaves it and takes it out of the map
in steps of their own, and between two steps of one call the others may do anything.

A room that was taken out of the map may still be at hand to a call that found it before. It is
closed then, and for good: `SharedRooms.Change` lists what one step can do to the rooms, and
everything that holds in all interleavings is drawn from it.
-/

namespace MediaRelay

variable {F : Type}

/-- The rooms as calls share them. -/
structure SharedRooms (F : Type) where
  /-- Every room that was made, by its address. -/
  made : List (Room F)
  index : Table RoomId Nat
  maxRooms : Nat
  terms : Room.Terms F

namespace SharedRooms

def start (maxRooms : Nat) (terms : Room.Terms F) : SharedRooms F := ⟨[], ∅, maxRooms, terms⟩

def write (s : SharedRooms F) (a : Nat) (room : Room F) : SharedRooms F :=
  { s with made := s.made.set a room }

def make (s : SharedRooms F) (id : RoomId) (version : UInt8) : SharedRooms F :=
  { s with
    made := s.made ++ [.start id version s.terms]
    index := s.index.insert id s.made.length }

/-- The room of an id, made if there is none and the limit allows it. -/
def create (s : SharedRooms F) (id : RoomId) (version : UInt8) :
    SharedRooms F × Except Refusal Nat :=
  match s.index.get? id with
  | some a => (s, .ok a)
  | none =>
    if s.maxRooms ≤ s.index.size then (s, .error (.roomLimitReached s.maxRooms))
    else (s.make id version, .ok s.made.length)

/-- Takes a room out of the map, unless another one has come in its place. -/
def removeIf (s : SharedRooms F) (id : RoomId) (a : Nat) : SharedRooms F :=
  if s.index.get? id = some a then { s with index := s.index.erase id } else s

/-- There is a room with an id at an address. -/
def Holds (s : SharedRooms F) (a : Nat) (id : RoomId) : Prop :=
  ∃ room, s.made[a]? = some room ∧ room.id = id

/-- There is a closed room with an id at an address. -/
def Spent (s : SharedRooms F) (a : Nat) (id : RoomId) : Prop :=
  ∃ room, s.made[a]? = some room ∧ room.id = id ∧ room.closed

end SharedRooms

structure Join where
  room : RoomId
  participant : ParticipantId
  role : Role
  version : UInt8
  now : Time

/-- What a join does next. -/
inductive Join.Stage
  | seeking
  | creating
  | entering (a : Nat)
  /-- The room was closed when it was entered. -/
  | evicting (a : Nat)
  | done (answer : Except Refusal Unit)

namespace Join

def begin (j : Join) : Stage :=
  if j.participant.isRelay then
    .done (.error (.invalidRequest "participant id 0 is reserved for the relay"))
  else if j.version ≠ protocolVersion then .done (.error (.unsupportedVersion j.version))
  else .seeking

/-- What becomes of a join by the answer of the room. -/
def answered (a : Nat) : Except Refusal Unit → Stage
  | .error .roomClosed => .evicting a
  | answer => .done answer

def advance (j : Join) (s : SharedRooms F) : Stage → SharedRooms F × Stage
  | .seeking =>
    match s.index.get? j.room with
    | some a => (s, .entering a)
    | none => (s, .creating)
  | .creating =>
    match s.create j.room j.version with
    | (s, .ok a) => (s, .entering a)
    | (s, .error refusal) => (s, .done (.error refusal))
  | .entering a =>
    match s.made[a]? with
    | none => (s, .entering a)
    | some room =>
      let (room, answer) := room.join j.participant j.role j.version j.now
      (s.write a room, answered a answer)
  | .evicting a => (s.removeIf j.room a, .seeking)
  | .done answer => (s, .done answer)

end Join

structure Leave where
  room : RoomId
  participant : ParticipantId

/-- What a leave does next. -/
inductive Leave.Stage
  | seeking
  | leaving (a : Nat)
  /-- The room closed with the last member. -/
  | evicting (a : Nat)
  | done (answer : Except Refusal Unit)

namespace Leave

/-- What becomes of a leave by the answer of the room. -/
def answered (a : Nat) : Except Refusal Bool → Stage
  | .ok true => .evicting a
  | .ok false => .done (.ok ())
  | .error refusal => .done (.error refusal)

def advance (l : Leave) (s : SharedRooms F) : Stage → SharedRooms F × Stage
  | .seeking =>
    match s.index.get? l.room with
    | some a => (s, .leaving a)
    | none => (s, .done (.error (.roomNotFound l.room)))
  | .leaving a =>
    match s.made[a]? with
    | none => (s, .leaving a)
    | some room =>
      let (room, answer) := room.leave l.participant
      (s.write a room, answered a answer)
  | .evicting a => (s.removeIf l.room a, .done (.ok ()))
  | .done answer => (s, .done answer)

end Leave

/-- A call in flight. -/
inductive Call
  | join (j : Join) (stage : Join.Stage)
  | leave (l : Leave) (stage : Leave.Stage)

def Call.advance (s : SharedRooms F) : Call → SharedRooms F × Call
  | .join j stage =>
    let (s, stage) := j.advance s stage
    (s, .join j stage)
  | .leave l stage =>
    let (s, stage) := l.advance s stage
    (s, .leave l stage)

/-- The shared rooms and all calls that were made, in the order in which they began. -/
structure Traffic (F : Type) where
  rooms : SharedRooms F
  calls : List Call

namespace Traffic

inductive Event
  | join (j : Join)
  | leave (l : Leave)
  /-- A call makes its next step. -/
  | advance (i : Nat)

def start (maxRooms : Nat) (terms : Room.Terms F) : Traffic F := ⟨.start maxRooms terms, []⟩

def step (t : Traffic F) : Event → Traffic F
  | .join j => { t with calls := t.calls ++ [.join j j.begin] }
  | .leave l => { t with calls := t.calls ++ [.leave l .seeking] }
  | .advance i =>
    match t.calls[i]? with
    | none => t
    | some call =>
      let (rooms, call) := call.advance t.rooms
      { rooms, calls := t.calls.set i call }

/-- A run of events, in any interleaving of the calls. -/
def run (t : Traffic F) : List Event → Traffic F
  | [] => t
  | event :: rest => run (t.step event) rest

end Traffic

theorem Room.join_of_closed (r : Room F) (h : r.closed) (p : ParticipantId) (role : Role)
    (version : UInt8) (now : Time) : r.join p role version now = (r, .error .roomClosed) :=
  if_pos h

namespace SharedRooms

variable {s s' : SharedRooms F} {id : RoomId} {a : Nat}

/-- What one step of a call can do to the rooms. -/
inductive Change (s : SharedRooms F) : SharedRooms F → Prop
  | idle : Change s s
  | made (id : RoomId) (version : UInt8) (hnone : s.index.get? id = none)
      (hlimit : s.index.size < s.maxRooms) : Change s (s.make id version)
  | used (a : Nat) (room room' : Room F) (hroom : s.made[a]? = some room) (hid : room'.id = room.id)
      (hclosed : room.closed → room'.closed) (hcoherent : room.Coherent → room'.Coherent) :
    Change s (s.write a room')
  | removed (id : RoomId) (a : Nat) (hspent : s.Spent a id) : Change s (s.removeIf id a)

/-- The map leads to rooms, and to every open room. -/
structure Sound (s : SharedRooms F) : Prop where
  coherent : ∀ (a : Nat) (room : Room F), s.made[a]? = some room → room.Coherent
  indexed : ∀ id a, s.index.get? id = some a → s.Holds a id
  stored : ∀ (a : Nat) (room : Room F), s.made[a]? = some room → room.closed = false →
    s.index.get? room.id = some a
  limit : s.index.size ≤ s.maxRooms

theorem sound_start (maxRooms : Nat) (terms : Room.Terms F) : (start maxRooms terms).Sound :=
  ⟨nofun, nofun, nofun, Nat.zero_le _⟩

theorem Spent.holds (h : s.Spent a id) : s.Holds a id :=
  let ⟨room, hroom, hid, _⟩ := h
  ⟨room, hroom, hid⟩

theorem write_made (s : SharedRooms F) {room : Room F} (hroom : s.made[a]? = some room)
    (room' : Room F) (b : Nat) :
    (s.write a room').made[b]? = if b = a then some room' else s.made[b]? := by
  have hlt : a < s.made.length := (List.getElem?_eq_some_iff.mp hroom).1
  rw [write, List.getElem?_set]
  by_cases hb : b = a
  · rw [if_pos hb.symm, if_pos hlt, if_pos hb]
  · rw [if_neg (Ne.symm hb), if_neg hb]

theorem make_made (s : SharedRooms F) (id : RoomId) (version : UInt8) (b : Nat) :
    (s.make id version).made[b]? =
      if b = s.made.length then some (.start id version s.terms) else s.made[b]? := by
  rw [make, List.getElem?_append]
  by_cases hb : b = s.made.length
  · simp [hb]
  · by_cases hlt : b < s.made.length
    · simp [hb, hlt]
    · have hlast : b - s.made.length ≠ 0 := by omega
      simp [hb, hlt, hlast]

theorem removeIf_made (s : SharedRooms F) (id : RoomId) (a : Nat) :
    (s.removeIf id a).made = s.made := by
  unfold removeIf
  split <;> rfl

theorem removeIf_index (s : SharedRooms F) (id : RoomId) (a : Nat) (other : RoomId) :
    (s.removeIf id a).index.get? other =
      if other = id ∧ s.index.get? id = some a then none else s.index.get? other := by
  unfold removeIf
  split
  · rename_i hthere
    by_cases ho : other = id
    · simp [ho, hthere]
    · simp [ho, Table.get?_erase_of_ne]
  · rename_i hother
    simp [hother]

namespace Change

/-- A room stays at its address, and stays closed once it is. -/
theorem made_of_made (h : Change s s') {room : Room F} (hroom : s.made[a]? = some room) :
    ∃ room', s'.made[a]? = some room' ∧ room'.id = room.id ∧ (room.closed → room'.closed) := by
  cases h with
  | idle => exact ⟨room, hroom, rfl, fun h => h⟩
  | made id version _ _ =>
    have hlt : a < s.made.length := (List.getElem?_eq_some_iff.mp hroom).1
    refine ⟨room, ?_, rfl, fun h => h⟩
    rw [make_made, if_neg (Nat.ne_of_lt hlt), hroom]
  | used b before after hbefore hid hclosed _ =>
    by_cases hb : a = b
    · subst hb
      obtain rfl := Option.some.inj (hroom.symm.trans hbefore)
      exact ⟨after, by rw [write_made s hbefore, if_pos rfl], hid, hclosed⟩
    · exact ⟨room, by rw [write_made s hbefore, if_neg hb, hroom], rfl, fun h => h⟩
  | removed id b _ => exact ⟨room, by rw [removeIf_made, hroom], rfl, fun h => h⟩

theorem holds (h : Change s s') (hs : s.Holds a id) : s'.Holds a id := by
  obtain ⟨room, hroom, rfl⟩ := hs
  obtain ⟨room', hroom', hid, -⟩ := h.made_of_made hroom
  exact ⟨room', hroom', hid⟩

theorem spent (h : Change s s') (hs : s.Spent a id) : s'.Spent a id := by
  obtain ⟨room, hroom, rfl, hclosed⟩ := hs
  obtain ⟨room', hroom', hid, hstays⟩ := h.made_of_made hroom
  exact ⟨room', hroom', hid, hstays hclosed⟩

theorem maxRooms_eq (h : Change s s') : s'.maxRooms = s.maxRooms := by
  cases h with
  | idle | made | used => rfl
  | removed id a _ =>
    unfold removeIf
    split <;> rfl

/-- Only a closed room is taken out of the map. -/
theorem spent_of_removed (h : Change s s') (hbefore : s.index.get? id = some a)
    (hafter : s'.index.get? id ≠ some a) : s.Spent a id := by
  cases h with
  | idle => exact absurd hbefore hafter
  | made other version hnone _ =>
    have hne : id ≠ other := by
      rintro rfl
      cases hnone.symm.trans hbefore
    exact absurd ((Table.get?_insert_of_ne _ _ hne).trans hbefore) hafter
  | used => exact absurd hbefore hafter
  | removed other b hspent =>
    rw [removeIf_index] at hafter
    split at hafter
    · rename_i hthere
      obtain ⟨rfl, hb⟩ := hthere
      obtain rfl := Option.some.inj (hbefore.symm.trans hb)
      exact hspent
    · exact absurd hbefore hafter

theorem coherent (h : Change s s') (hs : s.Sound) {room : Room F}
    (hroom : s'.made[a]? = some room) : room.Coherent := by
  cases h with
  | idle => exact hs.coherent a room hroom
  | made id version _ _ =>
    rw [make_made] at hroom
    split at hroom
    · obtain rfl := Option.some.inj hroom
      exact Room.coherent_start _ _ _
    · exact hs.coherent a room hroom
  | used b before after hbefore _ _ hcoherent =>
    rw [write_made s hbefore] at hroom
    split at hroom
    · obtain rfl := Option.some.inj hroom
      exact hcoherent (hs.coherent b before hbefore)
    · exact hs.coherent a room hroom
  | removed id b _ =>
    rw [removeIf_made] at hroom
    exact hs.coherent a room hroom

theorem indexed (h : Change s s') (hs : s.Sound) (hindex : s'.index.get? id = some a) :
    s'.Holds a id := by
  have hkept (hold : s.index.get? id = some a) : s'.Holds a id := h.holds (hs.indexed id a hold)
  cases h with
  | idle => exact hkept hindex
  | made other version _ _ =>
    by_cases ho : id = other
    · subst ho
      obtain rfl := Option.some.inj ((Table.get?_insert_self _ _ _).symm.trans hindex)
      exact ⟨_, by rw [make_made, if_pos rfl], rfl⟩
    · exact hkept ((Table.get?_insert_of_ne _ _ ho).symm.trans hindex)
  | used b before after _ _ _ _ => exact hkept hindex
  | removed other b _ =>
    rw [removeIf_index] at hindex
    split at hindex
    · cases hindex
    · exact hkept hindex

theorem stored (h : Change s s') (hs : s.Sound) {room : Room F} (hroom : s'.made[a]? = some room)
    (hopen : room.closed = false) : s'.index.get? room.id = some a := by
  cases h with
  | idle => exact hs.stored a room hroom hopen
  | made id version hnone _ =>
    rw [make_made] at hroom
    split at hroom
    · rename_i hnew
      obtain rfl := Option.some.inj hroom
      rw [hnew]
      exact Table.get?_insert_self _ _ _
    · have hold := hs.stored a room hroom hopen
      have hne : room.id ≠ id := by
        intro hid
        rw [hid, hnone] at hold
        cases hold
      exact (Table.get?_insert_of_ne _ _ hne).trans hold
  | used b before after hbefore hid hclosed _ =>
    rw [write_made s hbefore] at hroom
    split at hroom
    · rename_i hsame
      obtain rfl := Option.some.inj hroom
      have hwas : before.closed = false := by
        rw [Bool.eq_false_iff]
        intro hc
        rw [hclosed hc] at hopen
        cases hopen
      show s.index.get? after.id = some a
      rw [hid, hsame]
      exact hs.stored b before hbefore hwas
    · exact hs.stored a room hroom hopen
  | removed id b hspent =>
    rw [removeIf_made] at hroom
    have hold := hs.stored a room hroom hopen
    rw [removeIf_index, if_neg, hold]
    -- what is taken out is closed, so it is not this room
    rintro ⟨rfl, hb⟩
    obtain rfl := Option.some.inj (hold.symm.trans hb)
    obtain ⟨spent, hmade, -, hclosed⟩ := hspent
    obtain rfl := Option.some.inj (hroom.symm.trans hmade)
    rw [hopen] at hclosed
    cases hclosed

theorem limit (h : Change s s') (hs : s.Sound) : s'.index.size ≤ s'.maxRooms := by
  cases h with
  | idle => exact hs.limit
  | made id version _ hlimit =>
    show (s.index.insert id _).size ≤ s.maxRooms
    rw [Table.size_insert]
    split <;> omega
  | used => exact hs.limit
  | removed id b _ =>
    unfold removeIf
    split
    · exact Nat.le_trans (s.index.size_erase_le id) hs.limit
    · exact hs.limit

theorem sound (h : Change s s') (hs : s.Sound) : s'.Sound :=
  ⟨fun _ _ => h.coherent hs, fun _ _ => h.indexed hs, fun _ _ => h.stored hs, h.limit hs⟩

end Change

end SharedRooms

open SharedRooms

variable {s s' : SharedRooms F}

/-- What a join knows about the rooms. -/
def Join.Stage.Sound (s : SharedRooms F) (id : RoomId) : Join.Stage → Prop
  | .seeking => True
  | .creating => True
  | .entering a => s.Holds a id
  | .evicting a => s.Spent a id
  | .done answer => answer ≠ .error .roomClosed

/-- What a leave knows about the rooms. -/
def Leave.Stage.Sound (s : SharedRooms F) (id : RoomId) : Leave.Stage → Prop
  | .seeking => True
  | .leaving a => s.Holds a id
  | .evicting a => s.Spent a id
  | .done _ => True

def Call.Sound (s : SharedRooms F) : Call → Prop
  | .join j stage => stage.Sound s j.room
  | .leave l stage => stage.Sound s l.room

/-- What a call knows stays true while other calls make their steps. -/
theorem Call.Sound.of_change {call : Call} (h : call.Sound s) (hchange : Change s s') :
    call.Sound s' := by
  cases call with
  | join j stage =>
    cases stage with
    | seeking | creating => trivial
    | entering a => exact hchange.holds h
    | evicting a => exact hchange.spent h
    | done answer => exact h
  | leave l stage =>
    cases stage with
    | seeking | done answer => trivial
    | leaving a => exact hchange.holds h
    | evicting a => exact hchange.spent h

theorem Join.begin_sound (j : Join) (s : SharedRooms F) : j.begin.Sound s j.room := by
  unfold begin
  split
  · nofun
  split
  · nofun
  · trivial

theorem Join.answered_of_ne (a : Nat) {answer : Except Refusal Unit}
    (h : answer ≠ .error .roomClosed) : answered a answer = .done answer := by
  unfold answered
  split
  · exact absurd rfl h
  · rfl

/-- Entering a room does not open it again. -/
theorem Room.join_used (s : SharedRooms F) {a : Nat} {room : Room F} (hroom : s.made[a]? = some room)
    (p : ParticipantId) (role : Role) (version : UInt8) (now : Time) :
    Change s (s.write a (room.join p role version now).1) := by
  obtain ⟨_, hjoin⟩ | ⟨-, -, -, -, hjoin⟩ := room.join_cases p role version now
  · rw [hjoin]
    exact .used a room room hroom rfl (fun h => h) (fun h => h)
  · refine .used a room _ hroom ?_ ?_ fun h => h.join p role version now
    all_goals rw [hjoin]
    · rfl
    · exact fun h => h

theorem Room.leave_used (hs : s.Sound) {a : Nat} {room : Room F} (hroom : s.made[a]? = some room)
    (p : ParticipantId) : Change s (s.write a (room.leave p).1) := by
  have hcoherent := hs.coherent a room hroom
  refine .used a room _ hroom (room.leave_frame p).1 (fun hclosed => ?_) fun h => h.leave p
  rwa [Room.leave_of_closed hcoherent hclosed p]

/-- A step of a join changes the rooms as it may and knows what it needs afterwards. -/
theorem Join.advance_sound (j : Join) {stage : Stage} (hs : s.Sound)
    (hstage : stage.Sound s j.room) :
    Change s (j.advance s stage).1 ∧ (j.advance s stage).2.Sound (j.advance s stage).1 j.room := by
  cases stage with
  | seeking =>
    unfold advance
    cases hindex : s.index.get? j.room with
    | some a => exact ⟨.idle, hs.indexed j.room a hindex⟩
    | none => exact ⟨.idle, trivial⟩
  | creating =>
    unfold advance create
    cases hindex : s.index.get? j.room with
    | some a => exact ⟨.idle, hs.indexed j.room a hindex⟩
    | none =>
      by_cases hfull : s.maxRooms ≤ s.index.size
      · simp only [hfull, if_true]
        exact ⟨.idle, nofun⟩
      · simp only [hfull, if_false]
        exact ⟨.made j.room j.version hindex (Nat.lt_of_not_le hfull), _,
          by rw [make_made, if_pos rfl], rfl⟩
  | entering a =>
    obtain ⟨room, hroom, hid⟩ := hstage
    have hchange := Room.join_used s hroom j.participant j.role j.version j.now
    simp only [advance, hroom]
    refine ⟨hchange, ?_⟩
    cases hclosed : room.closed with
    | true =>
      rw [room.join_of_closed hclosed] at hchange ⊢
      exact hchange.spent ⟨room, hroom, hid, hclosed⟩
    | false =>
      have hanswer := room.join_ne_roomClosed hclosed j.participant j.role j.version j.now
      rw [answered_of_ne a hanswer]
      exact hanswer
  | evicting a => exact ⟨.removed j.room a hstage, trivial⟩
  | done answer => exact ⟨.idle, hstage⟩

theorem Leave.advance_sound (l : Leave) {stage : Stage} (hs : s.Sound)
    (hstage : stage.Sound s l.room) :
    Change s (l.advance s stage).1 ∧ (l.advance s stage).2.Sound (l.advance s stage).1 l.room := by
  cases stage with
  | seeking =>
    unfold advance
    cases hindex : s.index.get? l.room with
    | some a => exact ⟨.idle, hs.indexed l.room a hindex⟩
    | none => exact ⟨.idle, trivial⟩
  | leaving a =>
    obtain ⟨room, hroom, hid⟩ := hstage
    simp only [advance, hroom]
    refine ⟨Room.leave_used hs hroom l.participant, ?_⟩
    obtain ⟨-, _, hleave⟩ | ⟨-, hleave⟩ := room.leave_cases l.participant
    · rw [hleave]
      trivial
    · rw [hleave]
      cases hclosed : (room.without l.participant).closed with
      | true =>
        refine ⟨room.without l.participant, ?_, hid, hclosed⟩
        rw [write_made s hroom, if_pos rfl]
      | false => trivial
  | evicting a => exact ⟨.removed l.room a hstage, trivial⟩
  | done answer => exact ⟨.idle, trivial⟩

theorem Call.advance_sound {call : Call} (hs : s.Sound) (hcall : call.Sound s) :
    Change s (call.advance s).1 ∧ (call.advance s).2.Sound (call.advance s).1 := by
  cases call with
  | join j stage => exact j.advance_sound hs hcall
  | leave l stage => exact l.advance_sound hs hcall

namespace Traffic

/-- The rooms are sound, and every call knows what is true of them. -/
structure Sound (t : Traffic F) : Prop where
  rooms : t.rooms.Sound
  calls : ∀ call ∈ t.calls, call.Sound t.rooms

variable {t : Traffic F}

theorem step_change (h : t.Sound) (event : Event) : Change t.rooms (t.step event).rooms := by
  cases event with
  | join j | leave l => exact .idle
  | advance i =>
    cases hcall : t.calls[i]? with
    | none =>
      simp only [step, hcall]
      exact .idle
    | some call =>
      simp only [step, hcall]
      exact (Call.advance_sound h.rooms (h.calls call (List.mem_of_getElem? hcall))).1

theorem sound_step (h : t.Sound) (event : Event) : (t.step event).Sound := by
  have hchange := step_change h event
  refine ⟨hchange.sound h.rooms, fun call hmem => ?_⟩
  cases event with
  | join j =>
    obtain hmem | hmem := List.mem_append.mp hmem
    · exact h.calls call hmem
    · obtain rfl := List.mem_singleton.mp hmem
      exact j.begin_sound t.rooms
  | leave l =>
    obtain hmem | hmem := List.mem_append.mp hmem
    · exact h.calls call hmem
    · obtain rfl := List.mem_singleton.mp hmem
      trivial
  | advance i =>
    cases hcall : t.calls[i]? with
    | none =>
      simp only [step, hcall] at hmem ⊢
      exact h.calls call hmem
    | some stepped =>
      simp only [step, hcall] at hchange hmem ⊢
      obtain hmem | rfl := List.mem_or_eq_of_mem_set hmem
      · exact (h.calls call hmem).of_change hchange
      · exact (Call.advance_sound h.rooms (h.calls stepped (List.mem_of_getElem? hcall))).2

theorem sound_run (h : t.Sound) (events : List Event) : (t.run events).Sound := by
  induction events generalizing t with
  | nil => exact h
  | cons event rest ih => exact ih (sound_step h event)

theorem start_sound (maxRooms : Nat) (terms : Room.Terms F) : (start maxRooms terms).Sound :=
  ⟨sound_start maxRooms terms, nofun⟩

theorem run_maxRooms (h : t.Sound) (events : List Event) :
    (t.run events).rooms.maxRooms = t.rooms.maxRooms := by
  induction events generalizing t with
  | nil => rfl
  | cons event rest ih => exact (ih (sound_step h event)).trans (step_change h event).maxRooms_eq

/-- However joins and leaves interleave, whoever is in a room is in an open room that the map leads
to, only closed rooms are taken out of the map, the limit holds, and no join is told that the room
was closed. -/
theorem run_strands_nobody (maxRooms : Nat) (terms : Room.Terms F) (events : List Event) :
    let t := (start maxRooms terms).run events
    (∀ a (room : Room F) p, t.rooms.made[a]? = some room → room.members.contains p →
      room.closed = false ∧ t.rooms.index.get? room.id = some a) ∧
    (∀ event id a, t.rooms.index.get? id = some a →
      (t.step event).rooms.index.get? id ≠ some a →
      ∃ room, t.rooms.made[a]? = some room ∧ room.id = id ∧ room.closed) ∧
    t.rooms.index.size ≤ maxRooms ∧
    ∀ j answer, .join j (.done answer) ∈ t.calls → answer ≠ .error .roomClosed := by
  intro t
  have hstart := start_sound maxRooms terms
  have h : t.Sound := sound_run hstart events
  refine ⟨fun a room p hroom hp => ?_, fun event id a hbefore hafter => ?_, ?_,
    fun j answer hmem => h.calls _ hmem⟩
  · have hopen := (h.rooms.coherent a room hroom).isOpen_of_member hp
    exact ⟨hopen, h.rooms.stored a room hroom hopen⟩
  · exact (step_change h event).spent_of_removed hbefore hafter
  · have hlimit := h.rooms.limit
    rwa [show t.rooms.maxRooms = maxRooms from run_maxRooms hstart events] at hlimit

/-- The second participant finds the room that the first one is about to close, and makes another. -/
example :
    let first : Join := ⟨⟨7⟩, ⟨1⟩, .all, protocolVersion, 0⟩
    let second : Join := ⟨⟨7⟩, ⟨2⟩, .all, protocolVersion, 0⟩
    let t := (start 1 (Relay.termsOf (F := Rat) Settings.small)).run
      [.join first, .advance 0, .advance 0, .advance 0,
        .join second, .advance 1, .leave ⟨⟨7⟩, ⟨1⟩⟩, .advance 2, .advance 2,
        .advance 1, .advance 2, .advance 1, .advance 1, .advance 1, .advance 1]
    t.rooms.made.map (fun room => (room.closed, room.members.keys)) = [(true, []), (false, [⟨2⟩])] ∧
      t.rooms.index.get? ⟨7⟩ = some 1 := by
  decide +kernel

end Traffic

end MediaRelay
