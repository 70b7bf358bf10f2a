import MediaRelay.Proofs.Concurrency

/-!
A call that no other call interrupts. The rooms that the map leads to make up a directory
(`SharedRooms.view`), and a join or a leave whose steps follow one another does to it what
`Directory.join` and `Directory.leave` do, with the same answer.
-/

namespace MediaRelay

variable {F : Type}

theorem Directory.ext_room? {d d' : Directory F} (hrooms : ∀ id, d.room? id = d'.room? id)
    (hmax : d.maxRooms = d'.maxRooms) (hterms : d.terms = d'.terms) : d = d' := by
  obtain ⟨rooms, maxRooms, terms⟩ := d
  obtain ⟨rooms', maxRooms', terms'⟩ := d'
  obtain rfl : rooms = rooms' := Table.ext_get? hrooms
  obtain rfl : maxRooms = maxRooms' := hmax
  obtain rfl : terms = terms' := hterms
  rfl

/-- It makes no difference whether the room was made before or is made by the join. -/
theorem Directory.tryJoin_made {d : Directory F} {id : RoomId} (hnone : d.room? id = none)
    (hlimit : d.rooms.size < d.maxRooms) (p : ParticipantId) (role : Role) (version : UInt8)
    (now : Time) :
    Directory.tryJoin { d with rooms := d.rooms.insert id (.start id version d.terms) } id p role
      version now = d.tryJoin id p role version now := by
  have hmade : Directory.room? { d with rooms := d.rooms.insert id (.start id version d.terms) } id =
      some (.start id version d.terms) := Table.get?_insert_self _ _ _
  rw [tryJoin_found hmade, tryJoin_vacant hnone hlimit, Table.insert_insert_self]

theorem Directory.tryJoin_missing_ne_roomClosed {d : Directory F} {id : RoomId}
    (hnone : d.room? id = none) (p : ParticipantId) (role : Role) (version : UInt8) (now : Time) :
    (d.tryJoin id p role version now).2 ≠ .error .roomClosed := by
  by_cases hfull : d.maxRooms ≤ d.rooms.size
  · rw [tryJoin_full hnone hfull]
    nofun
  · rw [tryJoin_vacant hnone (Nat.lt_of_not_le hfull)]
    exact Room.join_ne_roomClosed _ rfl p role version now

namespace SharedRooms

/-- The directory that the map and the rooms make up. -/
def view (s : SharedRooms F) : Directory F :=
  { rooms := s.index.map fun id a => (s.made[a]?).getD (.start id protocolVersion s.terms)
    maxRooms := s.maxRooms
    terms := s.terms }

variable {s : SharedRooms F} {id : RoomId} {a : Nat}

theorem view_room? (hs : s.Sound) (id : RoomId) :
    s.view.room? id = (s.index.get? id).bind fun a => s.made[a]? := by
  rw [Directory.room?, view, Table.get?_map]
  cases hindex : s.index.get? id with
  | none => rfl
  | some a =>
    obtain ⟨room, hroom, -⟩ := hs.indexed id a hindex
    simp [hroom]

theorem view_size (s : SharedRooms F) : s.view.rooms.size = s.index.size := Table.size_map _ _

theorem write_self {room : Room F} (hroom : s.made[a]? = some room) : s.write a room = s := by
  have hmade : s.made.set a room = s.made := by
    refine List.ext_getElem? fun b => ?_
    have hget := s.write_made hroom room b
    rw [write] at hget
    rw [hget]
    split
    · rename_i hb
      rw [hb, hroom]
    · rfl
  rw [write, hmade]

/-- Two rooms of different ids are at different addresses. -/
theorem Sound.index_inj (hs : s.Sound) {other : RoomId} (hid : s.index.get? id = some a)
    (hother : s.index.get? other = some a) : other = id := by
  obtain ⟨room, hroom, rfl⟩ := hs.indexed id a hid
  obtain ⟨room', hroom', rfl⟩ := hs.indexed other a hother
  rw [Option.some.inj (hroom.symm.trans hroom')]

theorem view_write (hs : s.Sound) {room room' : Room F} (hindex : s.index.get? id = some a)
    (hroom : s.made[a]? = some room) (hchange : Change s (s.write a room')) :
    (s.write a room').view = { s.view with rooms := s.view.rooms.insert id room' } := by
  refine Directory.ext_room? (fun other => ?_) rfl rfl
  show _ = (s.view.rooms.insert id room').get? other
  rw [view_room? (hchange.sound hs)]
  show (s.index.get? other).bind _ = _
  by_cases ho : other = id
  · rw [ho, hindex, Option.bind_some, write_made s hroom, if_pos rfl, Table.get?_insert_self]
  · rw [Table.get?_insert_of_ne _ _ ho]
    refine Eq.trans ?_ (view_room? hs other).symm
    cases hthere : s.index.get? other with
    | none => rfl
    | some b =>
      have hb : b ≠ a := by
        rintro rfl
        exact ho (hs.index_inj hindex hthere)
      rw [Option.bind_some, Option.bind_some, write_made s hroom, if_neg hb]

theorem view_make (hs : s.Sound) (hnone : s.index.get? id = none)
    (hlimit : s.index.size < s.maxRooms) (version : UInt8) :
    (s.make id version).view =
      { s.view with rooms := s.view.rooms.insert id (.start id version s.terms) } := by
  refine Directory.ext_room? (fun other => ?_) rfl rfl
  show _ = (s.view.rooms.insert id _).get? other
  rw [view_room? ((Change.made id version hnone hlimit).sound hs)]
  show ((s.index.insert id s.made.length).get? other).bind _ = _
  by_cases ho : other = id
  · rw [ho, Table.get?_insert_self, Option.bind_some, make_made, if_pos rfl,
      Table.get?_insert_self]
  · rw [Table.get?_insert_of_ne _ _ ho, Table.get?_insert_of_ne _ _ ho]
    refine Eq.trans ?_ (view_room? hs other).symm
    cases hthere : s.index.get? other with
    | none => rfl
    | some b =>
      obtain ⟨room, hroom, -⟩ := hs.indexed other b hthere
      have hb : b < s.made.length := (List.getElem?_eq_some_iff.mp hroom).1
      rw [Option.bind_some, Option.bind_some, make_made, if_neg (Nat.ne_of_lt hb)]

theorem view_removeIf (hs : s.Sound) (hindex : s.index.get? id = some a) (hspent : s.Spent a id) :
    (s.removeIf id a).view = s.view.remove id := by
  have hsame : (s.removeIf id a).maxRooms = s.maxRooms ∧ (s.removeIf id a).terms = s.terms := by
    unfold removeIf
    split
    · exact ⟨rfl, rfl⟩
    · exact ⟨rfl, rfl⟩
  refine Directory.ext_room? (fun other => ?_) hsame.1 hsame.2
  show _ = (s.view.rooms.erase id).get? other
  rw [view_room? ((Change.removed id a hspent).sound hs), removeIf_index, removeIf_made]
  by_cases ho : other = id
  · rw [ho, if_pos ⟨rfl, hindex⟩, Table.get?_erase_self]
    rfl
  · rw [if_neg fun h => ho h.1, Table.get?_erase_of_ne _ ho]
    exact (view_room? hs other).symm

end SharedRooms

open SharedRooms

namespace Call

/-- The steps of a call, one right after another, up to its answer. -/
inductive Ends : SharedRooms F → Call → SharedRooms F → Except Refusal Unit → Prop
  | joined (s : SharedRooms F) (j : Join) (answer : Except Refusal Unit) :
    Ends s (.join j (.done answer)) s answer
  | left (s : SharedRooms F) (l : Leave) (answer : Except Refusal Unit) :
    Ends s (.leave l (.done answer)) s answer
  | step {s s' : SharedRooms F} {call : Call} {answer : Except Refusal Unit}
    (h : Ends (call.advance s).1 (call.advance s).2 s' answer) : Ends s call s' answer

/-- A call that nothing interrupts ends with these rooms and this answer. -/
def Yields (s : SharedRooms F) (call : Call) (outcome : Directory F × Except Refusal Unit) : Prop :=
  ∃ s', Ends s call s' outcome.2 ∧ s'.view = outcome.1

variable {s s' : SharedRooms F} {outcome : Directory F × Except Refusal Unit}

theorem Yields.step {call call' : Call} (hstep : call.advance s = (s', call'))
    (h : Yields s' call' outcome) : Yields s call outcome := by
  obtain ⟨last, hends, hview⟩ := h
  refine ⟨last, .step ?_, hview⟩
  rwa [hstep]

theorem yields_joined (s : SharedRooms F) (j : Join) (answer : Except Refusal Unit) :
    Yields s (.join j (.done answer)) (s.view, answer) := ⟨s, .joined s j answer, rfl⟩

theorem yields_left (s : SharedRooms F) (l : Leave) (answer : Except Refusal Unit) :
    Yields s (.leave l (.done answer)) (s.view, answer) := ⟨s, .left s l answer, rfl⟩

end Call

open Call

variable {s : SharedRooms F} {a : Nat} {room : Room F}

theorem SharedRooms.view_found (hs : s.Sound) {id : RoomId} (hindex : s.index.get? id = some a)
    (hroom : s.made[a]? = some room) : s.view.room? id = some room := by
  rw [view_room? hs, hindex, Option.bind_some, hroom]

theorem SharedRooms.view_missing (hs : s.Sound) {id : RoomId} (hindex : s.index.get? id = none) :
    s.view.room? id = none := by
  rw [view_room? hs, hindex, Option.bind_none]

namespace Join

variable (j : Join)

/-- An attempt of the directory to join. -/
def attempt (d : Directory F) : Directory F × Except Refusal Unit :=
  d.tryJoin j.room j.participant j.role j.version j.now

theorem yields_entering (hs : s.Sound) (hindex : s.index.get? j.room = some a)
    (hroom : s.made[a]? = some room) (hopen : room.closed = false) :
    Yields s (.join j (.entering a)) (j.attempt s.view) := by
  have hanswer := room.join_ne_roomClosed hopen j.participant j.role j.version j.now
  have hchange := Room.join_used s hroom j.participant j.role j.version j.now
  have hstep : Call.advance s (.join j (.entering a)) =
      (s.write a (room.join j.participant j.role j.version j.now).1,
        .join j (.done (room.join j.participant j.role j.version j.now).2)) := by
    simp only [Call.advance, advance, hroom, answered_of_ne a hanswer]
  rw [attempt, Directory.tryJoin_found (view_found hs hindex hroom),
    ← view_write hs hindex hroom hchange]
  exact .step hstep (yields_joined _ _ _)

/-- Where the map leads nowhere, a room is made, which nobody can have closed. -/
theorem yields_seeking_missing (hs : s.Sound) (hindex : s.index.get? j.room = none) :
    Yields s (.join j .seeking) (j.attempt s.view) := by
  have hseek : Call.advance s (.join j .seeking) = (s, .join j .creating) := by
    simp only [Call.advance, advance, hindex]
  refine .step hseek ?_
  have hnone := view_missing hs hindex
  by_cases hfull : s.maxRooms ≤ s.index.size
  · have hcreate : Call.advance s (.join j .creating) =
        (s, .join j (.done (.error (.roomLimitReached s.maxRooms)))) := by
      simp only [Call.advance, advance, create, hindex, if_pos hfull]
    rw [attempt, Directory.tryJoin_full hnone (s.view_size.symm ▸ hfull)]
    exact .step hcreate (yields_joined _ _ _)
  · have hlimit := Nat.lt_of_not_le hfull
    have hcreate : Call.advance s (.join j .creating) =
        (s.make j.room j.version, .join j (.entering s.made.length)) := by
      simp only [Call.advance, advance, create, hindex, if_neg hfull]
    refine .step hcreate ?_
    have hmade : (s.make j.room j.version).made[s.made.length]? =
        some (.start j.room j.version s.terms) := by
      rw [make_made, if_pos rfl]
    have hsound := (Change.made j.room j.version hindex hlimit).sound hs
    have hnew : (s.make j.room j.version).index.get? j.room = some s.made.length :=
      Table.get?_insert_self _ _ _
    have hattempt : j.attempt (s.make j.room j.version).view = j.attempt s.view := by
      rw [view_make hs hindex hlimit]
      exact Directory.tryJoin_made hnone (s.view_size.symm ▸ hlimit) _ _ _ _
    exact hattempt ▸ j.yields_entering hsound hnew hmade rfl

theorem yields_seeking_found (hs : s.Sound) (hindex : s.index.get? j.room = some a)
    (hroom : s.made[a]? = some room) (hopen : room.closed = false) :
    Yields s (.join j .seeking) (j.attempt s.view) := by
  have hseek : Call.advance s (.join j .seeking) = (s, .join j (.entering a)) := by
    simp only [Call.advance, advance, hindex]
  exact .step hseek (j.yields_entering hs hindex hroom hopen)

/-- A room that is found closed is taken out of the map, and the join starts over. -/
theorem yields_seeking_closed (hs : s.Sound) (hindex : s.index.get? j.room = some a)
    (hroom : s.made[a]? = some room) (hclosed : room.closed) :
    Yields s (.join j .seeking) (j.attempt (s.view.remove j.room)) := by
  have hspent : s.Spent a j.room := by
    obtain ⟨room', hroom', hid⟩ := hs.indexed j.room a hindex
    obtain rfl := Option.some.inj (hroom.symm.trans hroom')
    exact ⟨room, hroom, hid, hclosed⟩
  have hseek : Call.advance s (.join j .seeking) = (s, .join j (.entering a)) := by
    simp only [Call.advance, advance, hindex]
  have henter : Call.advance s (.join j (.entering a)) = (s, .join j (.evicting a)) := by
    simp only [Call.advance, advance, hroom, room.join_of_closed hclosed, write_self hroom,
      answered]
  have hevict : Call.advance s (.join j (.evicting a)) =
      (s.removeIf j.room a, .join j .seeking) := rfl
  have hgone : (s.removeIf j.room a).index.get? j.room = none := by
    rw [removeIf_index, if_pos ⟨rfl, hindex⟩]
  rw [← view_removeIf hs hindex hspent]
  exact .step hseek (.step henter (.step hevict
    (j.yields_seeking_missing ((Change.removed j.room a hspent).sound hs) hgone)))

/-- A join that nothing interrupts joins the directory. -/
theorem yields_begin (hs : s.Sound) :
    Yields s (.join j j.begin)
      (s.view.join j.room j.participant j.role j.version j.now) := by
  by_cases hp : j.participant.isRelay
  · rw [begin, if_pos hp, Directory.join, if_pos hp]
    exact yields_joined s j _
  by_cases hv : j.version ≠ protocolVersion
  · rw [begin, if_neg hp, if_pos hv, Directory.join, if_neg hp, if_pos hv]
    exact yields_joined s j _
  rw [begin, if_neg hp, if_neg hv]
  rw [Bool.not_eq_true] at hp
  rw [not_not] at hv
  cases hindex : s.index.get? j.room with
  | none =>
    have hnone := view_missing hs hindex
    rw [Directory.join_eq_tryJoin hp hv (Directory.tryJoin_missing_ne_roomClosed hnone _ _ _ _)]
    exact j.yields_seeking_missing hs hindex
  | some a =>
    obtain ⟨room, hroom, -⟩ := hs.indexed j.room a hindex
    have hfound := view_found hs hindex hroom
    cases hclosed : room.closed with
    | true =>
      have hrefused : j.attempt s.view = (s.view, .error .roomClosed) := by
        rw [attempt, Directory.tryJoin_found hfound, room.join_of_closed hclosed,
          Table.insert_eq_self hfound]
      have hjoin : s.view.join j.room j.participant j.role j.version j.now =
          j.attempt (s.view.remove j.room) := by
        rw [attempt] at hrefused
        rw [Directory.join, if_neg (Bool.eq_false_iff.mp hp), if_neg (not_not_intro hv), hrefused]
        rfl
      rw [hjoin]
      exact j.yields_seeking_closed hs hindex hroom hclosed
    | false =>
      have hanswer := room.join_ne_roomClosed hclosed j.participant j.role j.version j.now
      rw [Directory.join_eq_tryJoin hp hv (by rwa [Directory.tryJoin_found hfound])]
      exact j.yields_seeking_found hs hindex hroom hclosed

end Join

namespace Leave

variable (l : Leave)

/-- A leave that nothing interrupts leaves the directory. -/
theorem yields_begin (hs : s.Sound) :
    Yields s (.leave l .seeking) (s.view.leave l.room l.participant) := by
  cases hindex : s.index.get? l.room with
  | none =>
    have hseek : Call.advance s (.leave l .seeking) =
        (s, .leave l (.done (.error (.roomNotFound l.room)))) := by
      simp only [Call.advance, advance, hindex]
    have hleave : s.view.leave l.room l.participant = (s.view, .error (.roomNotFound l.room)) := by
      simp only [Directory.leave, view_missing hs hindex]
    rw [hleave]
    exact .step hseek (yields_left s l _)
  | some a =>
    obtain ⟨room, hroom, hid⟩ := hs.indexed l.room a hindex
    have hfound := view_found hs hindex hroom
    have hseek : Call.advance s (.leave l .seeking) = (s, .leave l (.leaving a)) := by
      simp only [Call.advance, advance, hindex]
    refine .step hseek ?_
    obtain ⟨-, refusal, hleave⟩ | ⟨-, hleave⟩ := room.leave_cases l.participant
    · have hstep : Call.advance s (.leave l (.leaving a)) =
          (s, .leave l (.done (.error refusal))) := by
        simp only [Call.advance, advance, hroom, hleave, write_self hroom, answered]
      have hrefused : s.view.leave l.room l.participant = (s.view, .error refusal) := by
        simp only [Directory.leave, hfound, hleave]
        rw [Table.insert_eq_self hfound]
      rw [hrefused]
      exact .step hstep (yields_left s l _)
    · have hchange : Change s (s.write a (room.without l.participant)) := by
        have hused := Room.leave_used hs hroom l.participant
        rwa [hleave] at hused
      have hview := view_write hs hindex hroom hchange
      cases hclosed : (room.without l.participant).closed with
      | true =>
        have hstep : Call.advance s (.leave l (.leaving a)) =
            (s.write a (room.without l.participant), .leave l (.evicting a)) := by
          simp only [Call.advance, advance, hroom, hleave, hclosed, answered]
        have hevict : Call.advance (s.write a (room.without l.participant))
            (.leave l (.evicting a)) =
              ((s.write a (room.without l.participant)).removeIf l.room a,
                .leave l (.done (.ok ()))) := rfl
        have hspent : (s.write a (room.without l.participant)).Spent a l.room :=
          ⟨room.without l.participant, by rw [write_made s hroom, if_pos rfl], hid, hclosed⟩
        have hgone : ((s.write a (room.without l.participant)).removeIf l.room a).view =
            s.view.remove l.room := by
          rw [view_removeIf (hchange.sound hs) hindex hspent, hview, Directory.remove,
            Table.erase_insert_self, Directory.remove]
        have hleft : s.view.leave l.room l.participant = (s.view.remove l.room, .ok ()) := by
          simp only [Directory.leave, hfound, hleave, hclosed]
        rw [hleft, ← hgone]
        exact .step hstep (.step hevict (yields_left _ l _))
      | false =>
        have hstep : Call.advance s (.leave l (.leaving a)) =
            (s.write a (room.without l.participant), .leave l (.done (.ok ()))) := by
          simp only [Call.advance, advance, hroom, hleave, hclosed, answered]
        have hleft : s.view.leave l.room l.participant =
            ((s.write a (room.without l.participant)).view, .ok ()) := by
          rw [hview]
          simp only [Directory.leave, hfound, hleave, hclosed]
        rw [hleft]
        exact .step hstep (yields_left _ l _)

end Leave

end MediaRelay
