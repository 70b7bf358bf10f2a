import MediaRelay.Proofs.Accounting
import MediaRelay.Proofs.Reporting
import MediaRelay.Proofs.Room.Agenda
import MediaRelay.Proofs.Room.Representation

/-!
The relay's own datagrams, room by room. In each step a room that is there says what is due, no more
and no less (`Relay.Reachable.step_recites`), so since it was made its datagrams carry the numbers
0, 1, 2 and so on (`Relay.run_recites`).
-/

namespace MediaRelay

variable {F : Type}

theorem flatMap_ite_eq {α β : Type} [DecidableEq α] {list : List α} (hn : list.Nodup) (a : α)
    (f : α → List β) :
    (list.flatMap fun b => if a = b then f b else []) = if a ∈ list then f a else [] := by
  induction list with
  | nil => rfl
  | cons b rest ih =>
    obtain ⟨hb, hrest⟩ := List.nodup_cons.mp hn
    rw [List.flatMap_cons, ih hrest]
    by_cases hab : a = b
    · simp [hab, hb]
    · simp [hab]

/-- The relay's own datagrams among those of a room. -/
def Egress.voice (id : RoomId) (egress : List Egress) : List Egress :=
  egress.filter fun e => e.room = id && e.isSpoken

namespace Egress

theorem voice_eq (id : RoomId) (egress : List Egress) :
    voice id egress = (egress.filter (·.isSpoken)).filter (·.room = id) := by
  rw [voice, List.filter_filter]

@[simp] theorem voice_nil (id : RoomId) : voice id [] = [] := rfl

end Egress

open Egress (voice)

namespace Recited

variable {room : RoomId} {number : UInt32} {messages : List Feedback} {said egress : List Egress}

/-- The voice of the room that speaks, and the silence of all others. -/
theorem voice_of_spoken (h : Recited room number messages said)
    (hspoken : egress.filter (·.isSpoken) = said) (id : RoomId) :
    voice id egress = if id = room then said else [] := by
  rw [Egress.voice_eq, hspoken]
  split
  · rename_i hid
    refine List.filter_eq_self.mpr fun e he => ?_
    obtain ⟨message, -, htells⟩ := h.exists_of_mem he
    simp [htells.home, hid]
  · rename_i hid
    refine List.filter_eq_nil_iff.mpr fun e he => ?_
    obtain ⟨message, -, htells⟩ := h.exists_of_mem he
    simp [htells.home, Ne.symm hid]

theorem filter_isSpoken (h : Recited room number messages said) :
    said.filter (·.isSpoken) = said := by
  refine List.filter_eq_self.mpr fun e he => ?_
  obtain ⟨message, -, htells⟩ := h.exists_of_mem he
  exact htells.isSpoken

end Recited

variable [Arithmetic F]

namespace Relay

variable {r : Relay F} {id : RoomId} {within : Room F} {now : Time}

section Tick

/-- What a room says at a tick. -/
def announced (r : Relay F) (now : Time) (id : RoomId) : List Room.Emission :=
  ((r.directory.room? id).map (tickedAnswers r.settings now)).getD []

theorem announced_eq (hroom : r.directory.room? id = some within) :
    r.announced now id = tickedAnswers r.settings now within := by
  rw [announced, hroom]
  rfl

/-- A room says at a tick what is due once those have left who were silent for too long. -/
theorem tickedRoom_recites (hkept : within.Kept id) (settings : Settings F) (now : Time) :
    within.Recites (tickedRoom settings now within)
      ((within.awake settings now).agenda settings.hysteresis now)
      ((tickedAnswers settings now within).map (·.egress)) := by
  have hcoherent : (within.awake settings now).Coherent := hkept.expel _
  obtain ⟨hname, hversion⟩ :=
    within.expel_frame (within.inactive now (Time.ofMillis settings.participantTimeoutMs))
  have hexpelled : within.Recites (within.awake settings now) [] [] :=
    .silent (within.expel_nextSequence _)
  exact hexpelled.trans hname
    (hcoherent.tick_speaks (hversion.trans hkept.protocol) settings.hysteresis now).1

/-- In a room that closes nobody is left to tell anything. -/
theorem tickedAnswers_of_closed (hkept : within.Kept id) (settings : Settings F)
    (hclosed : (within.awake settings now).closed) : tickedAnswers settings now within = [] := by
  have hcoherent : (within.awake settings now).Coherent := hkept.expel _
  obtain ⟨hstreams, -⟩ := hcoherent.vacant (hcoherent.closed hclosed)
  have hagenda : (within.awake settings now).agenda settings.hysteresis now = [] := by
    rw [Room.agenda, hstreams]
    rfl
  have hlength := (tickedRoom_recites hkept settings now).recited.length_eq
  rw [hagenda, List.length_map] at hlength
  exact List.eq_nil_of_length_eq_zero hlength

theorem tickRoom_announced (hr : r.directory.Sound) (now : Time) (id : RoomId) :
    (r.tickRoom id now).2 = r.announced now id := by
  cases hroom : r.directory.room? id with
  | none =>
    unfold tickRoom announced
    rw [hroom]
    rfl
  | some within =>
    rw [announced_eq hroom]
    cases hclosed : (within.awake r.settings now).closed with
    | false => exact tickRoom_answers hr hroom hclosed
    | true =>
      rw [tickedAnswers_of_closed (hr _ _ hroom) r.settings hclosed]
      have hgone := (foldl_expire hr id (within.inactive now
        (Time.ofMillis r.settings.participantTimeoutMs))).2.2 id
      rw [if_pos rfl, hroom, Option.bind_some, Room.unlessClosed, ← Room.awake, hclosed] at hgone
      unfold tickRoom
      simp only [hroom, hgone, if_true]

/-- Each room speaks for itself. -/
theorem tickRooms_announced (hr : r.directory.Sound) (now : Time) {ids : List RoomId}
    (hn : ids.Nodup) : (r.tickRooms now ids).2 = ids.flatMap (r.announced now) := by
  induction ids generalizing r with
  | nil => rfl
  | cons id rest ih =>
    obtain ⟨hid, hrest⟩ := List.nodup_cons.mp hn
    obtain ⟨hsettings, hrooms⟩ := tickRoom_spec hr id now
    have hothers : rest.flatMap ((r.tickRoom id now).1.announced now) =
        rest.flatMap (r.announced now) := by
      refine List.flatMap_congr fun other hother => ?_
      have hne : other ≠ id := fun heq => hid (heq ▸ hother)
      rw [announced, hsettings, hrooms, if_neg hne, announced]
    rw [tickRooms, List.flatMap_cons, ← hothers, ← ih (sound_tickRoom hr id now) hrest,
      ← tickRoom_announced hr]

/-- Among all that is sent at a tick, what a room says is its own. -/
theorem voice_tick (hr : r.directory.Sound) (now : Time) (id : RoomId) :
    voice id (r.step now .tick).2 = (r.announced now id).map (·.egress) := by
  have hegress : (r.step now .tick).2 =
      r.directory.rooms.keys.flatMap fun id => (r.announced now id).map (·.egress) := by
    show (r.tickRooms now r.directory.rooms.keys).2.map (·.egress) = _
    rw [tickRooms_announced hr now r.directory.rooms.keys_nodup, List.map_flatMap]
  have hvoice (other : RoomId) : voice id ((r.announced now other).map (·.egress)) =
      if id = other then (r.announced now other).map (·.egress) else [] := by
    cases hroom : r.directory.room? other with
    | none => simp [announced, hroom]
    | some within =>
      have hkept := hr _ _ hroom
      have hrecited := (tickedRoom_recites hkept r.settings now).recited
      rw [hkept.name] at hrecited
      rw [announced_eq hroom]
      exact hrecited.voice_of_spoken hrecited.filter_isSpoken id
  rw [hegress, voice, List.filter_flatMap]
  refine (List.flatMap_congr fun other _ => hvoice other).trans ?_
  rw [flatMap_ite_eq r.directory.rooms.keys_nodup id]
  split
  · rfl
  · rename_i hid
    have hnone : r.directory.room? id = none :=
      Option.not_isSome_iff_eq_none.mp fun hroom => hid (Table.mem_keys_iff.mpr hroom)
    rw [announced, hnone]
    rfl

end Tick

/-- What there is for a room to say when an input comes in. -/
def due (r : Relay F) (now : Time) (id : RoomId) : Input → List Feedback
  | .event _ => []
  | .datagram raw _ =>
    match Datagram.decode raw, r.directory.room? id with
    | .ok d, some within =>
      if d.header.room = id then within.prompted r.settings.hysteresis now d else []
    | _, _ => []
  | .tick =>
    match r.directory.room? id with
    | some within => (within.awake r.settings now).agenda r.settings.hysteresis now
    | none => []

theorem due_of_absent (hnone : r.directory.room? id = none) (now : Time) (input : Input) :
    r.due now id input = [] := by
  cases input with
  | event e => rfl
  | datagram raw source =>
    rw [due, hnone]
    cases Datagram.decode raw <;> rfl
  | tick => rw [due, hnone]

section Receive

variable {raw : Bytes} {source : Endpoint}

/-- A datagram of nobody who is in the room that it names. -/
def IsStray (r : Relay F) (raw : Bytes) : Prop :=
  ∀ d spoken, Datagram.decode raw = .ok d → r.directory.room? d.header.room = some spoken →
    spoken.members.contains d.header.sender = false

omit [Arithmetic F] in
theorem exists_of_not_isStray (h : ¬r.IsStray raw) :
    ∃ d spoken, Datagram.decode raw = .ok d ∧ r.directory.room? d.header.room = some spoken ∧
      spoken.members.contains d.header.sender := by
  simpa [IsStray] using h

theorem IsStray.step (hr : r.directory.Sound) (hstray : r.IsStray raw) (source : Endpoint)
    (now : Time) :
    (r.step now (.datagram raw source)).1.directory = r.directory ∧
      (r.step now (.datagram raw source)).2 = [] := by
  obtain ⟨hsame, reason, hrefused⟩ | ⟨d, spoken, hdecode, hspoken, hm, -⟩ :=
    receive_cases hr raw source now
  · exact ⟨hsame, by rw [step_datagram, hrefused]; rfl⟩
  · rw [hstray d spoken hdecode hspoken] at hm
    cases hm

/-- A datagram that no member sent to the room gives it nothing to say. -/
theorem due_of_unheard (hkept : within.Kept id) (hroom : r.directory.room? id = some within)
    (hothers : ∀ d, Datagram.decode raw = .ok d → d.header.room = id →
      within.members.contains d.header.sender = false) :
    r.due now id (.datagram raw source) = [] := by
  rw [due, hroom]
  split
  · rename_i d _ hdecode heq
    obtain rfl := Option.some.inj heq
    split
    · rename_i hid
      exact hkept.prompted_of_stranger _ _ (hothers d hdecode hid)
    · rfl
  · rfl

/-- A datagram that is not stray is taken in by its room. -/
theorem receive_speaks (hr : r.directory.Sound) (hstray : ¬r.IsStray raw) (source : Endpoint)
    (now : Time) :
    ∃ d spoken after, Datagram.decode raw = .ok d ∧
      r.directory.room? d.header.room = some spoken ∧ after.closed = false ∧
      (r.step now (.datagram raw source)).1.directory = r.directory.withRoom d.header.room after ∧
      spoken.Speaks after now (spoken.prompted r.settings.hysteresis now d)
        ((r.step now (.datagram raw source)).2.filter (·.isSpoken)) := by
  obtain ⟨d, spoken, hdecode, hspoken, hm⟩ := exists_of_not_isStray hstray
  have hkept := hr _ _ hspoken
  obtain ⟨hrooms, hanswer⟩ := receive_of_member hr source now hdecode hspoken hm
  have hsaid := hkept.handle_speaks hkept.protocol r.settings.hysteresis hm raw source now
  have hopen := (spoken.handle_frame r.settings.hysteresis d raw source now).2.2.2
  refine ⟨d, spoken, _, hdecode, hspoken, hopen.trans hkept.isOpen, hrooms, ?_⟩
  rw [step_datagram, hanswer]
  cases hhandle : spoken.handle r.settings.hysteresis d raw source now with
  | mk after answer =>
    rw [hhandle] at hsaid
    cases answer with
    | error reason => exact hsaid
    | ok out =>
      have hsender : d.header.sender ≠ .relay := by
        intro hrelay
        rw [hrelay, hkept.withoutRelay] at hm
        cases hm
      have hrequests := ((Room.handle_answers hhandle).filter_egress hdecode hsender).2.1
      show spoken.Speaks after now _ (out.egress.filter (·.isSpoken))
      rw [hrequests]
      exact hsaid

end Receive

namespace Reachable

/-- In each step a room that is there says what is due and nothing else. -/
theorem step_recites (h : r.Reachable) (hroom : r.directory.room? id = some within) (now : Time)
    (input : Input) :
    ∃ after, (r.step now input).1.directory.room? id = after.unlessClosed ∧
      within.Recites after (r.due now id input) (voice id (r.step now input).2) := by
  have hkept := h.sound _ _ hroom
  have hidle : within.unlessClosed = some within :=
    Room.unlessClosed_eq_some_iff.mpr ⟨hkept.isOpen, rfl⟩
  cases input with
  | event e =>
    obtain ⟨after, hevolves, hafter⟩ := step_room h.sound now (.event e) hroom
    refine ⟨after, hafter, ?_⟩
    cases hevolves with
    | idle => exact .silent rfl
    | signaled act _ _ => exact .silent (within.signal_silent now act).1
  | datagram raw source =>
    by_cases hstray : r.IsStray raw
    · obtain ⟨hsame, hnothing⟩ := hstray.step h.sound source now
      refine ⟨within, by rw [hsame, hroom, hidle], ?_⟩
      rw [due_of_unheard hkept hroom fun d hdecode hid => hstray d within hdecode (hid ▸ hroom),
        hnothing]
      exact .silent rfl
    · obtain ⟨d, spoken, after, hdecode, hspoken, hopen, hrooms, hsaid⟩ :=
        receive_speaks h.sound hstray source now
      have hrecited := hsaid.recited
      rw [(h.sound _ _ hspoken).name] at hrecited
      rw [hrooms, due, hdecode, hroom, hrecited.voice_of_spoken rfl]
      by_cases hid : id = d.header.room
      · subst hid
        obtain rfl := Option.some.inj (hroom.symm.trans hspoken)
        refine ⟨after, ?_, ?_⟩
        · rw [Directory.room?_withRoom_self]
          exact (Room.unlessClosed_eq_some_iff.mpr ⟨hopen, rfl⟩).symm
        · simpa only [if_true] using hsaid.toRecites
      · refine ⟨within, ?_, ?_⟩
        · rw [Directory.room?_withRoom_of_ne _ _ hid, hroom, hidle]
        · simpa only [if_neg hid, if_neg (Ne.symm hid)] using .silent rfl
  | tick =>
    refine ⟨_, room?_tick h.sound now hroom, ?_⟩
    rw [voice_tick h.sound, due, hroom, announced_eq hroom]
    exact tickedRoom_recites hkept r.settings now

/-- A room that is not there says nothing. -/
theorem voice_of_absent (h : r.Reachable) (hnone : r.directory.room? id = none) (now : Time)
    (input : Input) : voice id (r.step now input).2 = [] := by
  cases input with
  | event e => rfl
  | datagram raw source =>
    by_cases hstray : r.IsStray raw
    · rw [(hstray.step h.sound source now).2]
      rfl
    · obtain ⟨d, spoken, after, -, hspoken, -, -, hsaid⟩ := receive_speaks h.sound hstray source now
      have hrecited := hsaid.recited
      rw [(h.sound _ _ hspoken).name] at hrecited
      have hid : id ≠ d.header.room := by
        rintro rfl
        cases hnone.symm.trans hspoken
      rw [hrecited.voice_of_spoken rfl, if_neg hid]
  | tick =>
    rw [voice_tick h.sound, announced, hnone]
    rfl

end Reachable

/-- What there was to say for a room, and what was said. -/
structure Transcript where
  due : List Feedback
  said : List Egress
  deriving DecidableEq

/-- A run written down for a room, from a transcript on. It begins anew whenever the room is not
there. -/
def transcript (id : RoomId) (r : Relay F) (t : Transcript) : List (Time × Input) → Transcript
  | [] => t
  | (now, input) :: rest =>
    let kept : Transcript := if r.directory.rooms.contains id then t else ⟨[], []⟩
    let (after, egress) := r.step now input
    transcript id after ⟨kept.due ++ r.due now id input, kept.said ++ voice id egress⟩ rest

/-- All that was due was said, numbered from 0 on, and the room has the number that comes next. -/
structure Transcript.UpToDate (t : Transcript) (r : Relay F) (id : RoomId) : Prop where
  recited : Recited id 0 t.due t.said
  next : ∀ within, r.directory.room? id = some within →
    within.nextSequence = .ofNat t.due.length

namespace Reachable

/-- A new room begins to count at 0. -/
theorem new_room_nextSequence (h : r.Reachable) (hnone : r.directory.room? id = none) (now : Time)
    (input : Input) {after : Room F}
    (hafter : (r.step now input).1.directory.room? id = some after) : after.nextSequence = 0 := by
  obtain ⟨p, role, -, rfl⟩ := step_new_room h.sound now input hnone hafter
  exact ((Room.start id protocolVersion r.directory.terms).signal_silent now
    (.join p role protocolVersion)).1

theorem transcript_step (h : r.Reachable) {t : Transcript} (ht : t.UpToDate r id) (now : Time)
    (input : Input) :
    let kept : Transcript := if r.directory.rooms.contains id then t else ⟨[], []⟩
    Transcript.UpToDate ⟨kept.due ++ r.due now id input, kept.said ++ voice id (r.step now input).2⟩
      (r.step now input).1 id := by
  intro kept
  cases hroom : r.directory.room? id with
  | none =>
    have hkept : kept = ⟨[], []⟩ := if_neg fun hmem => by
      rw [Table.contains, show r.directory.rooms.get? id = none from hroom] at hmem
      cases hmem
    rw [hkept, due_of_absent hroom, h.voice_of_absent hroom]
    exact ⟨.nil 0, fun after hafter => h.new_room_nextSequence hroom now input hafter⟩
  | some within =>
    have hkept : kept = t := if_pos (Table.contains_of_get? hroom)
    obtain ⟨after, hafter, hsaid⟩ := h.step_recites hroom now input
    have hrecited := hsaid.recited
    have hnext := ht.next within hroom
    rw [(h.sound _ _ hroom).name, hnext] at hrecited
    rw [hkept]
    refine ⟨ht.recited.append ?_, fun stays hstays => ?_⟩
    · rwa [UInt32.zero_add]
    · obtain ⟨-, rfl⟩ := Room.unlessClosed_eq_some_iff.mp (hafter.symm.trans hstays)
      rw [hsaid.nextSequence, hnext, List.length_append, UInt32.ofNat_add]

theorem transcript_run (h : r.Reachable) {t : Transcript} (ht : t.UpToDate r id)
    (inputs : List (Time × Input)) :
    (transcript id r t inputs).UpToDate (r.run inputs) id := by
  induction inputs generalizing r t with
  | nil => exact ht
  | cons first rest ih =>
    exact ih (h.step first.1 first.2) (h.transcript_step ht first.1 first.2)

end Reachable

/-- In every run, all that there is to say for a room goes out, message by message and under the
relay's identity, numbered 0, 1, 2 and so on since the room was made. -/
theorem run_recites (settings : Settings F) (inputs : List (Time × Input)) (id : RoomId) :
    let r := (start settings).run inputs
    let t := transcript id (start settings) ⟨[], []⟩ inputs
    Recited id 0 t.due t.said ∧
      ∀ within, r.directory.room? id = some within →
        within.version = protocolVersion ∧ within.nextSequence = .ofNat t.said.length := by
  intro r t
  have hstart : Transcript.UpToDate ⟨[], []⟩ (start settings) id :=
    ⟨.nil 0, fun within hwithin => by cases hwithin⟩
  have hr : r.Reachable := (Reachable.start settings).run inputs
  have ht : t.UpToDate r id := (Reachable.start settings).transcript_run hstart inputs
  refine ⟨ht.recited, fun within hwithin => ⟨(hr.sound _ _ hwithin).protocol, ?_⟩⟩
  rw [ht.next within hwithin, ht.recited.length_eq]

/-- After the first frame of a call a tick is due a report and a request for a keyframe. -/
example :
    let t := transcript ⟨7⟩ (callOfTwo [⟨.base, 200000⟩]) ⟨[], []⟩
      [(0, .datagram (wireBytes (videoPacket 0 0 .base [])) anyEndpoint), (100000, .tick)]
    t.due = [⟨⟨⟨1⟩, .video⟩, .congestion ⟨0, 0, [.received 0]⟩⟩,
      ⟨⟨⟨1⟩, .video⟩, .keyframeRequest⟩] ∧ t.said.length = 2 := by decide +kernel

end Relay

end MediaRelay
