import MediaRelay.Proofs.Agenda
import MediaRelay.Proofs.Room.Keyframes

/-!
How often the relay asks for keyframes. An onlooker who notes what is sent and who leaves sees the
requests for a stream at least an interval apart, until the sender leaves (`Spaced`); and a keyframe
that a tick leaves wanted was asked for less than an interval ago (`Relay.run_spaced`).
-/

namespace MediaRelay

variable {room : RoomId} {id : StreamId} {interval : Nat} {last : Option Time}

/-- The relay asks for a keyframe of the stream. -/
def Egress.asksFor (room : RoomId) (id : StreamId) (e : Egress) : Bool :=
  e.room = room && e.isSpoken && e.message? = some ⟨id, .keyframeRequest⟩

theorem Egress.Carries.asksFor_iff {e : Egress} {number : UInt32} {message : Feedback}
    (h : e.Carries room number message) :
    e.asksFor room id ↔ message = ⟨id, .keyframeRequest⟩ := by
  have htells := h.tells
  simp [Egress.asksFor, htells.home, htells.isSpoken, htells.message?]

/-- Each request that is due is one request that goes out. -/
theorem Recited.length_asksFor {number : UInt32} {messages : List Feedback} {said : List Egress}
    (h : Recited room number messages said) :
    (said.filter (·.asksFor room id)).length = messages.count ⟨id, .keyframeRequest⟩ := by
  induction h with
  | nil _ => rfl
  | @cons number message e messages said hfirst _ ih =>
    by_cases hasks : e.asksFor room id
    · rw [List.filter_cons_of_pos hasks, List.length_cons, ih, hfirst.asksFor_iff.mp hasks,
        List.count_cons_self]
    · have hne : message ≠ ⟨id, .keyframeRequest⟩ := fun heq => hasks (hfirst.asksFor_iff.mpr heq)
      rw [List.filter_cons_of_neg hasks, ih, List.count_cons_of_ne hne]

/-- Only the voice of the room asks. -/
theorem Egress.filter_asksFor_voice (egress : List Egress) :
    (voice room egress).filter (·.asksFor room id) = egress.filter (·.asksFor room id) := by
  rw [voice, List.filter_filter]
  refine List.filter_congr fun e _ => ?_
  cases hroom : decide (e.room = room) <;> cases hspoken : e.isSpoken <;>
    simp [asksFor, hroom, hspoken]

/-- What an onlooker notes: a datagram that is sent, and a participant that left its room. -/
inductive Note
  | sent (now : Time) (e : Egress)
  | left (room : RoomId) (p : ParticipantId)
  deriving DecidableEq

/-- The last request for a stream once a note is taken; it does not count any more when the sender
left. -/
def Note.recall (room : RoomId) (id : StreamId) (last : Option Time) : Note → Option Time
  | .sent now e => if e.asksFor room id then some now else last
  | .left other p => if other = room ∧ p = id.sender then none else last

theorem Note.recall_eq_some_iff {note : Note} {now : Time} :
    note.recall room id none = some now ↔ ∃ e, note = .sent now e ∧ e.asksFor room id := by
  cases note with
  | sent t e => by_cases hasks : e.asksFor room id <;> simp [Note.recall, hasks]
  | left other p => simp [Note.recall]

def lastRequest (room : RoomId) (id : StreamId) (last : Option Time) (notes : List Note) :
    Option Time :=
  notes.foldl (fun last note => note.recall room id last) last

/-- Each request for the stream comes an interval or more after the last one. -/
inductive Spaced (room : RoomId) (id : StreamId) (interval : Nat) : Option Time → List Note → Prop
  | nil (last : Option Time) : Spaced room id interval last []
  | sent {now : Time} {e : Egress} {last : Option Time} {rest : List Note}
      (hspaced : e.asksFor room id → ∀ t, last = some t → t + interval ≤ now)
      (hrest : Spaced room id interval ((Note.sent now e).recall room id last) rest) :
    Spaced room id interval last (.sent now e :: rest)
  | left {other : RoomId} {p : ParticipantId} {last : Option Time} {rest : List Note}
      (hrest : Spaced room id interval ((Note.left other p).recall room id last) rest) :
    Spaced room id interval last (.left other p :: rest)

theorem lastRequest_append (notes notes' : List Note) :
    lastRequest room id last (notes ++ notes') =
      lastRequest room id (lastRequest room id last notes) notes' := List.foldl_append ..

theorem lastRequest_left (last : Option Time) (gone : List (RoomId × ParticipantId)) :
    lastRequest room id last (gone.map fun g => .left g.1 g.2) =
      if (room, id.sender) ∈ gone then none else last := by
  induction gone generalizing last with
  | nil => rfl
  | cons g rest ih =>
    refine (ih ((Note.left g.1 g.2).recall room id last)).trans ?_
    by_cases hg : g = (room, id.sender)
    · simp [hg, Note.recall]
    · have hother : ¬(g.1 = room ∧ g.2 = id.sender) := fun heq => hg (Prod.ext heq.1 heq.2)
      simp [Note.recall, hother, Ne.symm hg]

theorem lastRequest_sent (last : Option Time) (now : Time) (egress : List Egress) :
    lastRequest room id last (egress.map (.sent now)) =
      if egress.any (·.asksFor room id) then some now else last := by
  induction egress generalizing last with
  | nil => rfl
  | cons e rest ih =>
    refine (ih ((Note.sent now e).recall room id last)).trans ?_
    cases hasks : e.asksFor room id <;> simp [Note.recall, hasks]

/-- A last request is in the notes, and the sender did not leave since, unless it is still the one
from before. -/
theorem lastRequest_spec {notes : List Note} {t : Time}
    (h : lastRequest room id last notes = some t) :
    (last = some t ∧ .left room id.sender ∉ notes) ∨
      ∃ a e b, notes = a ++ .sent t e :: b ∧ e.asksFor room id ∧ .left room id.sender ∉ b := by
  induction notes generalizing last with
  | nil => exact .inl ⟨h, List.not_mem_nil⟩
  | cons note rest ih =>
    obtain ⟨hlast, hstays⟩ | ⟨a, e, b, rfl, hasks, hstays⟩ := ih h
    · cases note with
      | sent now e =>
        by_cases hasks : e.asksFor room id
        · obtain rfl : now = t := Option.some.inj ((if_pos hasks).symm.trans hlast)
          exact .inr ⟨[], e, rest, rfl, hasks, hstays⟩
        · have hlast : last = some t := (if_neg hasks).symm.trans hlast
          exact .inl ⟨hlast, by simpa using hstays⟩
      | left other p =>
        by_cases hleft : other = room ∧ p = id.sender
        · cases (if_pos hleft).symm.trans hlast
        · have hlast : last = some t := (if_neg hleft).symm.trans hlast
          refine .inl ⟨hlast, fun hmem => ?_⟩
          obtain heq | hmem := List.mem_cons.mp hmem
          · cases heq
            exact hleft ⟨rfl, rfl⟩
          · exact hstays hmem
    · exact .inr ⟨note :: a, e, b, rfl, hasks, hstays⟩

namespace Spaced

variable {notes notes' : List Note}

theorem append (h : Spaced room id interval last notes)
    (h' : Spaced room id interval (lastRequest room id last notes) notes') :
    Spaced room id interval last (notes ++ notes') := by
  induction h with
  | nil _ => exact h'
  | sent hspaced _ ih => exact .sent hspaced (ih h')
  | left _ ih => exact .left (ih h')

theorem drop (h : Spaced room id interval last (notes ++ notes')) :
    Spaced room id interval (lastRequest room id last notes) notes' := by
  induction notes generalizing last with
  | nil => exact h
  | cons note rest ih =>
    cases h with
    | sent _ hrest => exact ih hrest
    | left hrest => exact ih hrest

theorem of_left (gone : List (RoomId × ParticipantId)) :
    Spaced room id interval last (gone.map fun g => .left g.1 g.2) := by
  induction gone generalizing last with
  | nil => exact .nil _
  | cons g rest ih => exact .left ih

theorem of_quiet {now : Time} {egress : List Egress} (h : ∀ e ∈ egress, e.asksFor room id = false) :
    Spaced room id interval last (egress.map (.sent now)) := by
  induction egress generalizing last with
  | nil => exact .nil _
  | cons e rest ih =>
    refine .sent (fun hasks => ?_) (ih fun e he => h e (List.mem_cons_of_mem _ he))
    rw [h e List.mem_cons_self] at hasks
    cases hasks

/-- Of what is sent at one time no more than one datagram asks. -/
theorem of_sent {now : Time} {egress : List Egress}
    (hone : (egress.filter (·.asksFor room id)).length ≤ 1)
    (hspaced : egress.any (·.asksFor room id) → ∀ t, last = some t → t + interval ≤ now) :
    Spaced room id interval last (egress.map (.sent now)) := by
  induction egress generalizing last with
  | nil => exact .nil _
  | cons e rest ih =>
    by_cases hasks : e.asksFor room id
    · rw [List.filter_cons_of_pos hasks, List.length_cons] at hone
      have hquiet : rest.filter (·.asksFor room id) = [] :=
        List.eq_nil_of_length_eq_zero (Nat.le_zero.mp (Nat.le_of_succ_le_succ hone))
      refine .sent (fun _ => hspaced (by simp [hasks])) (of_quiet fun e he => ?_)
      exact Bool.eq_false_iff.mpr (List.filter_eq_nil_iff.mp hquiet e he)
    · rw [List.filter_cons_of_neg hasks] at hone
      rw [Bool.not_eq_true] at hasks
      refine .sent (fun h => by rw [hasks] at h; cases h) ?_
      have hsame : (Note.sent now e).recall room id last = last := by simp [Note.recall, hasks]
      rw [hsame]
      exact ih hone (by simpa [hasks] using hspaced)

/-- A request comes an interval after the one before, however many lie between, if the sender
stayed. -/
theorem apart {t t' : Time} {e : Egress} {between rest : List Note}
    (h : Spaced room id interval (some t) (between ++ .sent t' e :: rest))
    (hasks : e.asksFor room id) (hstays : .left room id.sender ∉ between) : t + interval ≤ t' := by
  induction between generalizing t with
  | nil =>
    cases h with
    | sent hspaced _ => exact hspaced hasks t rfl
  | cons note between ih =>
    obtain ⟨hnote, hbetween⟩ := not_or.mp (mt List.mem_cons.mpr hstays)
    cases h with
    | @sent now other _ _ hspaced hrest =>
      by_cases hother : other.asksFor room id
      · rw [Note.recall, if_pos hother] at hrest
        have hnow := hspaced hother t rfl
        exact Nat.le_trans (Nat.le_trans hnow (Nat.le_add_right now interval)) (ih hrest hbetween)
      · rw [Note.recall, if_neg hother] at hrest
        exact ih hrest hbetween
    | @left other p _ _ hrest =>
      have hother : ¬(other = room ∧ p = id.sender) := by
        rintro ⟨rfl, rfl⟩
        exact hnote rfl
      rw [Note.recall, if_neg hother] at hrest
      exact ih hrest hbetween

theorem requests_apart {a b c : List Note} {t t' : Time} {e e' : Egress}
    (h : Spaced room id interval last (a ++ .sent t e :: (b ++ .sent t' e' :: c)))
    (hasks : e.asksFor room id) (hasks' : e'.asksFor room id)
    (hstays : .left room id.sender ∉ b) : t + interval ≤ t' := by
  cases h.drop with
  | sent _ hrest =>
    rw [Note.recall, if_pos hasks] at hrest
    exact hrest.apart hasks' hstays

end Spaced

variable {F : Type}

namespace Relay

open KeyframeGate (Op)

section Notes

variable {r r' : Relay F}

theorem mem_removed_iff {p : ParticipantId} :
    (room, p) ∈ r.removed r' ↔ p ∈ r.participants room ∧ p ∉ r'.participants room := by
  rw [removed, List.mem_flatMap]
  constructor
  · rintro ⟨other, -, hmem⟩
    obtain ⟨q, hq, heq⟩ := List.mem_map.mp hmem
    obtain ⟨rfl, rfl⟩ := Prod.mk.inj heq
    simpa using hq
  · rintro ⟨hp, hleft⟩
    obtain ⟨within, hroom, -⟩ := mem_participants_iff.mp hp
    exact ⟨room, Directory.mem_keys_iff.mpr ⟨within, hroom⟩,
      List.mem_map.mpr ⟨p, by simpa using ⟨hp, hleft⟩, rfl⟩⟩

/-- Those who are in a room that stays unless it is closed. -/
theorem mem_participants_of_stays {after : Room F}
    (hafter : r'.directory.room? room = after.unlessClosed) (hcoherent : after.Coherent)
    {p : ParticipantId} : p ∈ r'.participants room ↔ after.members.contains p := by
  rw [mem_participants_iff, hafter]
  constructor
  · rintro ⟨_, hstays, hp⟩
    obtain ⟨-, rfl⟩ := Room.unlessClosed_eq_some_iff.mp hstays
    exact hp
  · exact fun hp => ⟨after, Room.unlessClosed_eq_some_iff.mpr
      ⟨hcoherent.isOpen_of_member hp, rfl⟩, hp⟩

variable [Arithmetic F]

/-- What an onlooker notes of a step. -/
def notes (r : Relay F) (now : Time) (input : Input) : List Note :=
  let (after, egress) := r.step now input
  (r.removed after).map (fun g => .left g.1 g.2) ++ egress.map (.sent now)

theorem notes_eq (r : Relay F) (now : Time) (input : Input) :
    r.notes now input = (r.removed (r.step now input).1).map (fun g => .left g.1 g.2) ++
      (r.step now input).2.map (.sent now) := rfl

/-- What an onlooker notes of a run. -/
def log (r : Relay F) : List (Time × Input) → List Note
  | [] => []
  | (now, input) :: rest => r.notes now input ++ log (r.step now input).1 rest

theorem log_concat (r : Relay F) (before : List (Time × Input)) (now : Time) (input : Input) :
    r.log (before ++ [(now, input)]) = r.log before ++ (r.run before).notes now input := by
  induction before generalizing r with
  | nil => exact List.append_nil _
  | cons first rest ih =>
    exact (congrArg _ (ih (r.step first.1 first.2).1)).trans (List.append_assoc ..).symm

theorem run_concat (r : Relay F) (before : List (Time × Input)) (now : Time) (input : Input) :
    r.run (before ++ [(now, input)]) = ((r.run before).step now input).1 := by
  induction before generalizing r with
  | nil => rfl
  | cons first rest ih => exact ih (r.step first.1 first.2).1

end Notes

variable [Arithmetic F] {r : Relay F} {now : Time} {within : Room F}

/-- The relay knows the last request for a stream, as far as an onlooker must. -/
structure Tracks (r : Relay F) (room : RoomId) (id : StreamId) (last : Option Time) (now : Time) :
    Prop where
  absent : r.directory.room? room = none → last = none
  present : ∀ within, r.directory.room? room = some within →
    within.Tracks (Time.ofMillis r.settings.keyframeIntervalMs) id last now

omit [Arithmetic F] in
theorem Tracks.later (ht : r.Tracks room id last now) {u : Time} (hu : now ≤ u) :
    r.Tracks room id last u :=
  ⟨ht.absent, fun within hroom => (ht.present within hroom).later hu⟩

theorem due_nodup (r : Relay F) (now : Time) (room : RoomId) (input : Input) :
    (r.due now room input).Nodup := by
  cases input with
  | event e => exact List.nodup_nil
  | datagram raw source =>
    rw [due]
    split
    · split
      · exact Room.prompted_nodup _ _ _ _
      · exact List.nodup_nil
    · exact List.nodup_nil
  | tick =>
    rw [due]
    split
    · exact Room.agenda_nodup _ _ _
    · exact List.nodup_nil

namespace Reachable

/-- A step asks for a keyframe of a stream once if that is due, and else not at all. -/
theorem length_asksFor (h : r.Reachable) (now : Time) (room : RoomId) (id : StreamId)
    (input : Input) :
    ((r.step now input).2.filter (·.asksFor room id)).length =
      if ⟨id, .keyframeRequest⟩ ∈ r.due now room input then 1 else 0 := by
  rw [← Egress.filter_asksFor_voice, ← (r.due_nodup now room input).count]
  cases hroom : r.directory.room? room with
  | none =>
    rw [h.voice_of_absent hroom, due_of_absent hroom]
    rfl
  | some within =>
    obtain ⟨_, -, hsaid⟩ := h.step_recites hroom now input
    have hrecited := hsaid.recited
    rw [(h.sound _ _ hroom).name] at hrecited
    exact hrecited.length_asksFor

theorem any_asksFor (h : r.Reachable) (now : Time) (room : RoomId) (id : StreamId)
    (input : Input) :
    (r.step now input).2.any (·.asksFor room id) ↔
      ⟨id, .keyframeRequest⟩ ∈ r.due now room input := by
  rw [List.any_eq_true, ← List.countP_pos_iff, List.countP_eq_length_filter, h.length_asksFor]
  split
  · rename_i hdue
    exact iff_of_true Nat.one_pos hdue
  · rename_i hdue
    exact iff_of_false (Nat.lt_irrefl 0) hdue

/-- In each step a room asks only if the last request is long enough ago, and keeps track of it. -/
theorem step_paced (h : r.Reachable) (hroom : r.directory.room? room = some within)
    (ht : within.Tracks interval id last now) (input : Input) :
    ∃ after : Room F, (r.step now input).1.directory.room? room = after.unlessClosed ∧
      after.Coherent ∧ after.Paced interval id last now (r.due now room input) := by
  have hkept := h.sound _ _ hroom
  have hstays : within.unlessClosed = some within :=
    Room.unlessClosed_eq_some_iff.mpr ⟨hkept.isOpen, rfl⟩
  have hidle : within.Paced interval id last now [] :=
    .of_silent ((hkept.lasting_eq ht.there).symm ▸ ht)
  cases input with
  | event e =>
    obtain ⟨after, hevolves, hafter⟩ := step_room h.sound now (.event e) hroom
    refine ⟨after, hafter, hevolves.coherent hkept.toCoherent, ?_⟩
    cases hevolves with
    | idle => exact hidle
    | signaled act _ _ => exact .of_silent (ht.signal hkept.toCoherent now act)
  | datagram raw source =>
    obtain ⟨d, hdecode, hid, hm, hafter⟩ | ⟨hafter, hothers⟩ :=
      room?_datagram h.sound hroom raw source now
    · have hopen := (within.handle_frame r.settings.hysteresis d raw source now).2.2.2
      refine ⟨_, hafter.trans ?_, hkept.handle r.settings.hysteresis d raw source now, ?_⟩
      · exact (Room.unlessClosed_eq_some_iff.mpr ⟨hopen.trans hkept.isOpen, rfl⟩).symm
      · rw [due, hdecode, hroom]
        simp only [if_pos hid]
        exact ht.handle hkept.toCoherent hkept.protocol _ hm raw source
    · rw [due_of_unheard hkept hroom hothers]
      exact ⟨within, hafter.trans hstays.symm, hkept.toCoherent, hidle⟩
  | tick =>
    have hcoherent : (within.awake r.settings now).Coherent := hkept.expel _
    have hversion : (within.awake r.settings now).version = protocolVersion :=
      (within.expel_frame _).2.trans hkept.protocol
    have hawake : (within.awake r.settings now).Tracks interval id
        ((within.awake r.settings now).lasting id last) now := ht.expel hkept.toCoherent _
    refine ⟨_, room?_tick h.sound now hroom, hcoherent.tick r.settings.hysteresis now, ?_⟩
    rw [due, hroom]
    exact hawake.tick hcoherent hversion r.settings.hysteresis

/-- The onlooker forgets the last request when the room does. -/
theorem lasting_eq (h : r.Reachable) (hroom : r.directory.room? room = some within)
    (hthere : last.isSome → within.streams.contains id) {r' : Relay F} {after : Room F}
    (hafter : r'.directory.room? room = after.unlessClosed) (hcoherent : after.Coherent) :
    (if (room, id.sender) ∈ r.removed r' then none else last) = after.lasting id last := by
  have hremoved : (room, id.sender) ∈ r.removed r' ↔
      within.members.contains id.sender ∧ ¬after.members.contains id.sender := by
    rw [mem_removed_iff, mem_participants_of_stays hafter hcoherent, mem_participants_iff, hroom]
    simp
  unfold Room.lasting
  by_cases hstays : after.members.contains id.sender
  · rw [if_pos hstays, if_neg fun hleft => (hremoved.mp hleft).2 hstays]
  · rw [if_neg hstays]
    by_cases hmember : within.members.contains id.sender
    · exact if_pos (hremoved.mpr ⟨hmember, hstays⟩)
    · have hnone : last = none := Option.not_isSome_iff_eq_none.mp fun hlast =>
        hmember ((h.sound _ _ hroom).member_of_stream (hthere hlast))
      rw [hnone, ite_self]

theorem step_recalls (h : r.Reachable) (ht : r.Tracks room id last now) (input : Input) :
    let kept := if (room, id.sender) ∈ r.removed (r.step now input).1 then none else last
    (⟨id, .keyframeRequest⟩ ∈ r.due now room input →
        ∀ t, kept = some t → t + Time.ofMillis r.settings.keyframeIntervalMs ≤ now) ∧
      (r.step now input).1.Tracks room id
        (if ⟨id, .keyframeRequest⟩ ∈ r.due now room input then some now else kept) now := by
  intro kept
  have hsettings := (step_settings h.sound now input).1
  cases hroom : r.directory.room? room with
  | none =>
    have hnone : kept = none := by
      show (if _ then none else last) = none
      rw [ht.absent hroom, ite_self]
    rw [hnone, due_of_absent hroom, if_neg List.not_mem_nil]
    refine ⟨nofun, fun _ => rfl, fun after hafter => ?_⟩
    obtain ⟨p, role, -, rfl⟩ := step_new_room h.sound now input hroom hafter
    obtain hgate | ⟨_, hleave⟩ :=
      ((Room.start room protocolVersion r.directory.terms).signal_silent now
        (.join p role protocolVersion)).2
    · rw [hsettings]
      refine ⟨hgate ▸ .fresh ?_ rfl now, nofun⟩
      rw [h.terms]
      rfl
    · cases hleave
  | some within =>
    have hwithin := ht.present within hroom
    obtain ⟨after, hafter, hcoherent, hpaced⟩ := h.step_paced hroom hwithin input
    have hkept : kept = after.lasting id last :=
      h.lasting_eq hroom hwithin.there hafter hcoherent
    rw [hkept]
    refine ⟨hpaced.spaced, fun hgone => ?_, fun stays hstays => ?_⟩
    · refine Option.not_isSome_iff_eq_none.mp fun hlast => ?_
      obtain ⟨s, hs⟩ := Table.contains_iff.mp (hpaced.tracks.there hlast)
      have hopen := Room.unlessClosed_eq_some_iff.mpr ⟨hcoherent.isOpen_of_stream hs, rfl⟩
      cases (hafter.symm.trans hgone).symm.trans hopen
    · obtain ⟨-, rfl⟩ := Room.unlessClosed_eq_some_iff.mp (hafter.symm.trans hstays)
      exact hsettings ▸ hpaced.tracks

theorem step_spaced (h : r.Reachable) (ht : r.Tracks room id last now) (input : Input) :
    Spaced room id (Time.ofMillis r.settings.keyframeIntervalMs) last (r.notes now input) ∧
      (r.step now input).1.Tracks room id (lastRequest room id last (r.notes now input)) now := by
  obtain ⟨hspaced, htracks⟩ := h.step_recalls ht input
  have hone : ((r.step now input).2.filter (·.asksFor room id)).length ≤ 1 := by
    rw [h.length_asksFor]
    split <;> decide
  rw [notes_eq]
  refine ⟨.append (.of_left _) (.of_sent hone ?_), ?_⟩
  · rw [h.any_asksFor, lastRequest_left]
    exact hspaced
  · rw [lastRequest_append, lastRequest_left, lastRequest_sent]
    simpa only [h.any_asksFor] using htracks

/-- In a run whose clock does not run backwards. -/
theorem run_tracks (h : r.Reachable) (ht : r.Tracks room id last now)
    {inputs : List (Time × Input)} (hclock : (now :: inputs.map (·.1)).Pairwise (· ≤ ·)) :
    Spaced room id (Time.ofMillis r.settings.keyframeIntervalMs) last (r.log inputs) ∧
      ∀ u, (∀ t ∈ now :: inputs.map (·.1), t ≤ u) →
        (r.run inputs).Tracks room id (lastRequest room id last (r.log inputs)) u := by
  induction inputs generalizing r last now with
  | nil => exact ⟨.nil _, fun u hu => ht.later (hu now List.mem_cons_self)⟩
  | cons first rest ih =>
    obtain ⟨t, input⟩ := first
    obtain ⟨hnow, hrest⟩ := List.pairwise_cons.mp hclock
    obtain ⟨hspaced, htracks⟩ := h.step_spaced (ht.later (hnow t List.mem_cons_self)) input
    obtain ⟨hspaced', htracks'⟩ := ih (h.step t input) htracks hrest
    rw [(step_settings h.sound t input).1] at hspaced'
    rw [log, lastRequest_append]
    exact ⟨hspaced.append hspaced', fun u hu =>
      htracks' u fun v hv => hu v (List.mem_cons_of_mem _ hv)⟩

/-- A keyframe that is still wanted after a tick finds the gate closed. -/
theorem tick_wanted (h : r.Reachable) {s : Stream F}
    (hs : (r.step now .tick).1.stream? room id = some s) (hwanted : s.keyframeWanted) :
    ∃ after, (r.step now .tick).1.directory.room? room = some after ∧
      after.keyframes.isOpen id now = false := by
  obtain ⟨after, hafter, hs⟩ := stream?_eq_some_iff.mp hs
  refine ⟨after, hafter, ?_⟩
  cases hroom : r.directory.room? room with
  | none =>
    rw [room?_tick_of_none h.sound now hroom] at hafter
    cases hafter
  | some within =>
    have hticked := room?_tick h.sound now hroom
    obtain ⟨-, rfl⟩ := Room.unlessClosed_eq_some_iff.mp (hticked.symm.trans hafter)
    have hkept := h.sound _ _ hroom
    have hcoherent : (within.awake r.settings now).Coherent := hkept.expel _
    have hversion : (within.awake r.settings now).version = protocolVersion :=
      (within.expel_frame _).2.trans hkept.protocol
    exact hcoherent.tick_wanted hversion _ now hs hwanted

/-- A keyframe that is still wanted after a tick was asked for not long ago. -/
theorem tick_recent (h : r.Reachable) (ht : (r.step now .tick).1.Tracks room id last now)
    {s : Stream F} (hs : (r.step now .tick).1.stream? room id = some s)
    (hwanted : s.keyframeWanted) :
    ∃ t, last = some t ∧ t ≤ now ∧ now < t + Time.ofMillis r.settings.keyframeIntervalMs := by
  obtain ⟨after, hroom, hclosed⟩ := h.tick_wanted hs hwanted
  have hgate := (ht.present after hroom).gate
  rw [(step_settings h.sound now .tick).1] at hgate
  have hshut := mt (hgate.isOpen_iff now (Nat.le_refl now)).mpr (Bool.eq_false_iff.mp hclosed)
  simp only [not_forall, Nat.not_le] at hshut
  obtain ⟨t, hlast, hnear⟩ := hshut
  exact ⟨t, hlast, hgate.past t hlast, hnear⟩

end Reachable

/-- As long as the clock does not run backwards, the requests for keyframes of a stream are an
interval apart, unless its sender left in between, and a stream that still wants a keyframe after a
tick was asked for one less than an interval ago. What the gate forgets at a tick makes no
difference to it. -/
theorem run_spaced (settings : Settings F) {inputs : List (Time × Input)}
    (hclock : (inputs.map (·.1)).Pairwise (· ≤ ·)) (room : RoomId) (id : StreamId) :
    let interval := Time.ofMillis settings.keyframeIntervalMs
    let log := (start settings).log
    (∀ a b c t e t' e', log inputs = a ++ .sent t e :: (b ++ .sent t' e' :: c) →
      e.asksFor room id → e'.asksFor room id → .left room id.sender ∉ b → t + interval ≤ t') ∧
    (∀ before now after s, inputs = before ++ (now, .tick) :: after →
      ((start settings).run (before ++ [(now, .tick)])).stream? room id = some s →
      s.keyframeWanted →
      ∃ a t e b, log (before ++ [(now, .tick)]) = a ++ .sent t e :: b ∧ e.asksFor room id ∧
        .left room id.sender ∉ b ∧ t ≤ now ∧ now < t + interval) ∧
    ∀ (g : KeyframeGate) now ops, (now :: ops.map (·.1)).Pairwise (· ≤ ·) →
      (g.cleanup now).answers ops = g.answers ops := by
  intro interval log
  have hstart : (start settings).Reachable := .start settings
  have htracks : (start settings).Tracks room id none 0 := ⟨fun _ => rfl, nofun⟩
  have hfrom {inputs : List (Time × Input)} (hclock : (inputs.map (·.1)).Pairwise (· ≤ ·)) :
      (0 :: inputs.map (·.1)).Pairwise (· ≤ ·) :=
    List.pairwise_cons.mpr ⟨fun t _ => Nat.zero_le t, hclock⟩
  refine ⟨fun a b c t e t' e' hlog hasks hasks' hstays => ?_,
    fun before now after s hinputs hs hwanted => ?_, fun g now ops => g.answers_cleanup⟩
  · have hspaced := (hstart.run_tracks htracks (hfrom hclock)).1
    rw [show (start settings).log inputs = _ from hlog] at hspaced
    exact hspaced.requests_apart hasks hasks' hstays
  · rw [hinputs, List.map_append, List.map_cons] at hclock
    obtain ⟨hbefore, -, hnow⟩ := List.pairwise_append.mp hclock
    have hr : ((start settings).run before).Reachable := hstart.run before
    have hlast := (hstart.run_tracks htracks (hfrom hbefore)).2 now fun t ht => by
      obtain rfl | ht := List.mem_cons.mp ht
      · exact Nat.zero_le now
      · exact hnow t ht now List.mem_cons_self
    have hticked := (hr.step_spaced hlast .tick).2
    rw [← lastRequest_append, ← log_concat] at hticked
    rw [run_concat] at hs
    obtain ⟨t, ht, hpast, hnear⟩ := hr.tick_recent hticked hs hwanted
    rw [show ((start settings).run before).settings = settings from hstart.run_settings before]
      at hnear
    obtain ⟨hnone, -⟩ | ⟨a, e, b, hnotes, hasks, hstays⟩ := lastRequest_spec ht
    · cases hnone
    · exact ⟨a, t, e, b, hnotes, hasks, hstays, hpast, hnear⟩

/-- A receiver comes, and comes again soon after: the first tick asks, the second one may not yet,
and the third one asks again. -/
theorem run_spaced_returning_receiver :
    let video : StreamId := ⟨⟨1⟩, .video⟩
    let inputs : List (Time × Input) :=
      [(0, .event ⟨⟨7⟩, .join ⟨1⟩ .all protocolVersion⟩),
        (0, .event ⟨⟨7⟩, .join ⟨2⟩ .all protocolVersion⟩),
        (0, .event ⟨⟨7⟩, .negotiate video ⟨.vp9, [⟨.base, 200000⟩], []⟩⟩),
        (0, .event ⟨⟨7⟩, .subscribe ⟨2⟩ video⟩), (100000, .tick),
        (150000, .event ⟨⟨7⟩, .unsubscribe ⟨2⟩ video⟩),
        (150000, .event ⟨⟨7⟩, .subscribe ⟨2⟩ video⟩), (200000, .tick), (600000, .tick)]
    let settings : Settings Rat := Settings.small
    let r := start settings
    let gate : KeyframeGate := (KeyframeGate.start 500000).closedAt video 100000
    (inputs.map (·.1)).Pairwise (· ≤ ·) ∧
      (∃ e e', r.log inputs = [.sent 100000 e, .sent 600000 e'] ∧ e.asksFor ⟨7⟩ video ∧
        e'.asksFor ⟨7⟩ video ∧ 100000 + Time.ofMillis settings.keyframeIntervalMs ≤ 600000) ∧
      (∃ a t e b, r.log (inputs.take 8) = a ++ .sent t e :: b ∧ e.asksFor ⟨7⟩ video ∧
        200000 < t + Time.ofMillis settings.keyframeIntervalMs) ∧
      (gate.cleanup 5100000).answers [(5100000, .request video)] =
        gate.answers [(5100000, .request video)] := by
  intro video inputs settings r gate
  have hclock : (inputs.map (·.1)).Pairwise (· ≤ ·) := by decide +kernel
  obtain ⟨hapart, hwanted, hforgotten⟩ := run_spaced settings hclock ⟨7⟩ video
  have hlog : (r.log inputs).map (·.recall ⟨7⟩ video none) = [some 100000, some 600000] := by
    decide +kernel
  obtain ⟨s, hs, hstill⟩ :
      ∃ s, (r.run (inputs.take 8)).stream? ⟨7⟩ video = some s ∧ s.keyframeWanted :=
    Option.map_eq_some_iff.mp (by decide +kernel)
  refine ⟨hclock, ?_, ?_, hforgotten gate 5100000 _ (by decide)⟩
  · obtain ⟨first, rest, hnotes, hfirst, hrest⟩ := List.map_eq_cons_iff.mp hlog
    obtain ⟨second, tail, rfl, hsecond, htail⟩ := List.map_eq_cons_iff.mp hrest
    obtain rfl := List.map_eq_nil_iff.mp htail
    obtain ⟨e, rfl, hasks⟩ := Note.recall_eq_some_iff.mp hfirst
    obtain ⟨e', rfl, hasks'⟩ := Note.recall_eq_some_iff.mp hsecond
    exact ⟨e, e', hnotes, hasks, hasks', hapart [] [] [] _ e _ e' hnotes hasks hasks' (by simp)⟩
  · obtain ⟨a, t, e, b, hnotes, hasks, -, -, hnear⟩ :=
      hwanted (inputs.take 7) 200000 [(600000, .tick)] s rfl hs hstill
    exact ⟨a, t, e, b, hnotes, hasks, hnear⟩

end Relay

end MediaRelay
