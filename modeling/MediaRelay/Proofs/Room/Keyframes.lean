import Mathlib.Data.List.Nodup
import MediaRelay.Proofs.KeyframeGate
import MediaRelay.Proofs.Room.Agenda

/-!
The keyframe gate of a room. Whatever happens in the room, the gate knows the last request for each
stream until the sender leaves (`Room.Tracks`), a request is due only while the gate is open, and
what a tick leaves unasked finds the gate closed (`Room.Coherent.tick_wanted`).
-/

namespace MediaRelay

variable {F : Type}

namespace KeyframeGate

variable {g g' : KeyframeGate} {interval : Nat} {id : StreamId} {last : Option Time} {now : Time}

/-- Only what is remembered of the stream counts. -/
theorem Tracks.of_entry (h : g.Tracks interval id last now) (hperiod : g'.interval = g.interval)
    (hentry : g'.lastRequest.get? id = g.lastRequest.get? id) : g'.Tracks interval id last now := by
  have hopen (u : Time) : g'.isOpen id u = g.isOpen id u := by
    rw [isOpen, isOpen, hentry, hperiod]
  refine ⟨hperiod.trans h.period, h.past, fun hc => h.recalled ?_, fun u hu => ?_⟩
  · rwa [Table.contains, hentry] at hc
  · rw [hopen]
    exact h.isOpen_iff u hu

theorem Tracks.noted (h : g.Tracks interval id last now) (messages : List Feedback) :
    (g.noted now messages).Tracks interval id
      (if ⟨id, .keyframeRequest⟩ ∈ messages then some now else last) now := by
  induction messages generalizing g last with
  | nil => exact h
  | cons message rest ih =>
    obtain ⟨stream, body⟩ := message
    cases body with
    | keyframeRequest =>
      have hrest : (g.noted now (⟨stream, .keyframeRequest⟩ :: rest)).Tracks _ _ _ _ :=
        ih (h.closedAt stream)
      by_cases hid : stream = id
      · subst hid
        simpa using hrest
      · simpa [hid, Ne.symm hid] using hrest
    | congestion _ | nack _ | receiverEstimate _ =>
      show (g.noted now rest).Tracks interval id _ now
      simpa using ih h

theorem noted_isOpen (g : KeyframeGate) {messages : List Feedback}
    (h : ⟨id, .keyframeRequest⟩ ∉ messages) (u : Time) :
    (g.noted now messages).isOpen id u = g.isOpen id u := by
  induction messages generalizing g with
  | nil => rfl
  | cons message rest ih =>
    obtain ⟨hmessage, hrest⟩ := not_or.mp (mt List.mem_cons.mpr h)
    obtain ⟨stream, body⟩ := message
    cases body with
    | keyframeRequest =>
      have hne : id ≠ stream := fun heq => hmessage (heq ▸ rfl)
      exact (ih (g.closedAt stream now) hrest).trans (g.closedAt_isOpen_of_ne hne now u)
    | congestion _ | nack _ | receiverEstimate _ => exact ih g hrest

theorem foldl_forget (g : KeyframeGate) (ids : List StreamId) :
    (ids.foldl forget g).interval = g.interval ∧
      ∀ id, (ids.foldl forget g).lastRequest.get? id =
        if id ∈ ids then none else g.lastRequest.get? id := by
  induction ids generalizing g with
  | nil => exact ⟨rfl, fun _ => rfl⟩
  | cons first rest ih =>
    obtain ⟨hperiod, hentry⟩ := ih (g.forget first)
    refine ⟨hperiod, fun id => (hentry id).trans ?_⟩
    by_cases hid : id = first
    · simp [hid, forget]
    · simp [hid, forget, Table.get?_erase_of_ne]

end KeyframeGate

namespace Room

/-- The gate of the room tracks the last request for a stream, and the stream is there if there was
one. -/
structure Tracks (r : Room F) (interval : Nat) (id : StreamId) (last : Option Time) (now : Time) :
    Prop where
  gate : r.keyframes.Tracks interval id last now
  there : last.isSome → r.streams.contains id

/-- The last request for a stream, as long as the sender is in the room. -/
def lasting (r : Room F) (id : StreamId) (last : Option Time) : Option Time :=
  if r.members.contains id.sender then last else none

variable {r r' : Room F} {interval : Nat} {id : StreamId} {last : Option Time} {now u : Time}

/-- When a participant leaves, the gate forgets its streams. -/
theorem keyframes_without (r : Room F) (p : ParticipantId) :
    (r.without p).keyframes.interval = r.keyframes.interval ∧
      ∀ id, (r.without p).keyframes.lastRequest.get? id =
        if id.sender = p ∧ r.streams.contains id then none
        else r.keyframes.lastRequest.get? id := by
  obtain ⟨hperiod, hentry⟩ := r.keyframes.foldl_forget
    (r.streams.filter fun id _ => id.sender == p).keys
  have hown (id : StreamId) : id ∈ (r.streams.filter fun id _ => id.sender == p).keys ↔
      id.sender = p ∧ r.streams.contains id := by
    rw [Table.mem_keys_iff, Table.contains, Table.get?_filter, Table.contains]
    cases r.streams.get? id with
    | none => simp
    | some s => simp [Option.filter_some, Option.isSome_ite]
  simp only [hown] at hentry
  exact ⟨hperiod, hentry⟩

theorem Coherent.member_of_stream (hr : r.Coherent) (h : r.streams.contains id) :
    r.members.contains id.sender := by
  obtain ⟨s, hs⟩ := Table.contains_iff.mp h
  exact (hr.streams id s hs).1.member

theorem Coherent.lasting_eq (hr : r.Coherent) (h : last.isSome → r.streams.contains id) :
    r.lasting id last = last := by
  unfold lasting
  cases last with
  | none => exact ite_self _
  | some t => exact if_pos (hr.member_of_stream (h rfl))

namespace Tracks

theorem later (h : r.Tracks interval id last now) (hu : now ≤ u) : r.Tracks interval id last u :=
  ⟨h.gate.later hu, h.there⟩

theorem leave (h : r.Tracks interval id last now) (hr : r.Coherent) (p : ParticipantId) :
    (r.leave p).1.Tracks interval id ((r.leave p).1.lasting id last) now := by
  obtain ⟨-, _, hleave⟩ | ⟨-, hleave⟩ := r.leave_cases p
  · rw [hleave, hr.lasting_eq h.there]
    exact h
  have hafter := hr.leave p
  rw [hleave] at hafter ⊢
  obtain ⟨hperiod, hentry⟩ := r.keyframes_without p
  by_cases hp : id.sender = p
  · -- the gate forgets the streams of the participant, and remembers no others of it
    have hgone : (r.without p).lasting id last = none :=
      if_neg fun hmember => ((r.contains_without p _).mp hmember).1 hp
    have hnone : (r.without p).keyframes.lastRequest.get? id = none := by
      rw [hentry]
      split
      · rfl
      · rename_i hother
        exact Option.not_isSome_iff_eq_none.mp fun hrecalled =>
          hother ⟨hp, h.there (h.gate.recalled hrecalled)⟩
    rw [hgone]
    exact ⟨.fresh (hperiod.trans h.gate.period) hnone now, nofun⟩
  · have hstays : last.isSome → (r.without p).streams.contains id := fun hlast =>
      (r.contains_stream_without p id).mpr ⟨hp, h.there hlast⟩
    have hkept : (r.without p).keyframes.lastRequest.get? id = r.keyframes.lastRequest.get? id :=
      (hentry id).trans (if_neg fun hown => hp hown.1)
    rw [hafter.lasting_eq hstays]
    exact ⟨h.gate.of_entry hperiod hkept, hstays⟩

theorem expel (h : r.Tracks interval id last now) (hr : r.Coherent) (gone : List ParticipantId) :
    (r.expel gone).Tracks interval id ((r.expel gone).lasting id last) now := by
  induction gone generalizing r last with
  | nil =>
    rw [Room.expel, hr.lasting_eq h.there]
    exact h
  | cons p rest ih =>
    have hrest := ih (h.leave hr p) (hr.leave p)
    have hlast : ((r.leave p).1.expel rest).lasting id ((r.leave p).1.lasting id last) =
        ((r.leave p).1.expel rest).lasting id last := by
      unfold lasting
      split
      · rename_i hmember
        exact if_pos (((r.leave p).1.expel_contains rest _).mp hmember).1
      · rfl
    rwa [hlast] at hrest

/-- What is said is tracked. -/
theorem speaks {messages : List Feedback} {said : List Egress} (h : r.Tracks interval id last now)
    (hsaid : r.Speaks r' now messages said)
    (hstreams : r'.streams.contains id = r.streams.contains id)
    (hasked : ⟨id, .keyframeRequest⟩ ∈ messages → r.streams.contains id) :
    r'.Tracks interval id (if ⟨id, .keyframeRequest⟩ ∈ messages then some now else last) now := by
  refine ⟨hsaid.keyframes ▸ h.gate.noted messages, fun hlast => ?_⟩
  rw [hstreams]
  split at hlast
  · rename_i hmem
    exact hasked hmem
  · exact h.there hlast

variable [Arithmetic F]

theorem signal (h : r.Tracks interval id last now) (hr : r.Coherent) (t : Time)
    (act : Event.Act) :
    (r.signal t act).Tracks interval id ((r.signal t act).lasting id last) now := by
  obtain hgate | ⟨p, rfl⟩ := (r.signal_silent t act).2
  · by_cases hleave : act = .leave id.sender
    · subst hleave
      exact h.leave hr id.sender
    · have hstays : last.isSome → (r.signal t act).streams.contains id := fun hlast => by
        obtain ⟨s, hs⟩ := Table.contains_iff.mp (h.there hlast)
        obtain ⟨_, _, -, -, hget⟩ | ⟨hact, -⟩ | ⟨_, hget, -⟩ := r.signal_stream t act hs
        · exact Table.contains_of_get? hget
        · exact absurd hact hleave
        · exact Table.contains_of_get? hget
      rw [(hr.signal t act).lasting_eq hstays]
      exact ⟨hgate ▸ h.gate, hstays⟩
  · exact h.leave hr p

end Tracks

section Due

variable [Arithmetic F] {h : Hysteresis F} {d : Datagram}

theorem stream_of_mem_agendaOf {message : Feedback} (hmem : message ∈ r.agendaOf h now id) :
    message.stream = id := by
  unfold agendaOf at hmem
  split at hmem
  · cases hmem
  · obtain hreport | hrequest := List.mem_append.mp hmem
    · obtain ⟨_, -, rfl⟩ := List.mem_map.mp hreport
      rfl
    · obtain ⟨-, rfl⟩ := Feedback.mem_askIf.mp hrequest
      rfl

/-- A request is due at a tick if a keyframe is wanted by then and the gate is open. -/
theorem mem_agenda_iff : ⟨id, .keyframeRequest⟩ ∈ r.agenda h now ↔
    ∃ s, r.streams.get? id = some s ∧ (s.tickLinks h now).keyframeWanted ∧
      r.keyframes.isOpen id now := by
  rw [agenda, List.mem_flatMap]
  constructor
  · rintro ⟨other, -, hmem⟩
    obtain rfl : id = other := stream_of_mem_agendaOf hmem
    unfold agendaOf at hmem
    split at hmem
    · cases hmem
    · rename_i s hs
      have hdue := (List.mem_append.mp hmem).resolve_left fun hreport => by
        obtain ⟨_, -, hbody⟩ := List.mem_map.mp hreport
        cases hbody
      obtain ⟨hdue, -⟩ := Feedback.mem_askIf.mp hdue
      exact ⟨s, hs, by simpa using hdue⟩
  · rintro ⟨s, hs, hwanted, hopen⟩
    refine ⟨id, Table.mem_keys_iff.mpr (Table.contains_of_get? hs), ?_⟩
    rw [agendaOf, hs]
    refine List.mem_append_right _ (Feedback.mem_askIf.mpr ⟨?_, rfl⟩)
    rw [hwanted, hopen]
    rfl

/-- Nothing is said twice at a tick. -/
theorem agenda_nodup (r : Room F) (h : Hysteresis F) (now : Time) : (r.agenda h now).Nodup := by
  refine List.nodup_flatMap.mpr ⟨fun id _ => ?_, r.streams.keys_nodup.imp fun hne => ?_⟩
  · unfold agendaOf
    split
    · exact List.nodup_nil
    · rename_i s hs
      refine List.Nodup.append ?_ (Feedback.askIf_nodup _ _) ?_
      · cases (s.uplink.takeReport now).2 <;> simp
      · intro message hreport hrequest
        obtain ⟨_, -, rfl⟩ := List.mem_map.mp hreport
        cases (Feedback.mem_askIf.mp hrequest).2
  · intro message hmem hother
    exact hne ((stream_of_mem_agendaOf hmem).symm.trans (stream_of_mem_agendaOf hother))

theorem open_of_mem_prompted (hmem : ⟨id, .keyframeRequest⟩ ∈ r.prompted h now d) :
    r.keyframes.isOpen id now ∧ r.streams.contains id := by
  unfold prompted at hmem
  split at hmem
  · cases hmem
  · rename_i message _
    obtain ⟨hdue, hbody⟩ := Feedback.mem_askIf.mp hmem
    obtain rfl : id = message.stream := congrArg Feedback.stream hbody
    obtain ⟨hwanted, hopen⟩ := Bool.and_eq_true_iff.mp hdue
    refine ⟨hopen, ?_⟩
    cases hs : r.streams.get? message.stream with
    | none =>
      rw [hs] at hwanted
      cases hwanted
    | some s => exact Table.contains_of_get? hs

theorem prompted_nodup (r : Room F) (h : Hysteresis F) (now : Time) (d : Datagram) :
    (r.prompted h now d).Nodup := by
  unfold prompted
  split
  · exact List.nodup_nil
  · exact Feedback.askIf_nodup _ _

/-- After a tick the gate is closed for a stream that still wants a keyframe. -/
theorem Coherent.tick_wanted (hr : r.Coherent) (hversion : r.version = protocolVersion)
    (h : Hysteresis F) (now : Time) {s : Stream F}
    (hs : (r.tick h now).1.streams.get? id = some s) (hwanted : s.keyframeWanted) :
    (r.tick h now).1.keyframes.isOpen id now = false := by
  rw [hr.tick_get? h now id] at hs
  obtain ⟨before, -, rfl⟩ := Option.map_eq_some_iff.mp hs
  have hasked : (before.tick h now (r.keyframes.isOpen id now)).keyframeWanted =
      ((before.tickLinks h now).keyframeWanted && !r.keyframes.isOpen id now) := rfl
  rw [hasked, Bool.and_eq_true_iff, Bool.not_eq_true'] at hwanted
  have hnotdue : ⟨id, .keyframeRequest⟩ ∉ r.agenda h now := fun hmem => by
    obtain ⟨_, -, -, hopen⟩ := mem_agenda_iff.mp hmem
    rw [hwanted.2] at hopen
    cases hopen
  rw [(hr.tick_speaks hversion h now).2, KeyframeGate.cleanup_isOpen _ _ (Nat.le_refl now),
    KeyframeGate.noted_isOpen _ hnotdue, hwanted.2]

end Due

section Steps

variable [Arithmetic F]

/-- The room after messages went out. A request for the stream among them comes an interval or more
after the last one, and is the last one then. -/
structure Paced (r : Room F) (interval : Nat) (id : StreamId) (last : Option Time) (now : Time)
    (messages : List Feedback) : Prop where
  spaced : ⟨id, .keyframeRequest⟩ ∈ messages → ∀ t, r.lasting id last = some t → t + interval ≤ now
  tracks : r.Tracks interval id
    (if ⟨id, .keyframeRequest⟩ ∈ messages then some now else r.lasting id last) now

omit [Arithmetic F] in
theorem Paced.of_silent (ht : r.Tracks interval id (r.lasting id last) now) :
    r.Paced interval id last now [] :=
  ⟨nofun, by rwa [if_neg List.not_mem_nil]⟩

namespace Tracks

theorem handle (ht : r.Tracks interval id last now) (hr : r.Coherent)
    (hversion : r.version = protocolVersion) (h : Hysteresis F) {d : Datagram}
    (hm : r.members.contains d.header.sender) (raw : Bytes) (source : Endpoint) :
    (r.handle h d raw source now).1.Paced interval id last now (r.prompted h now d) := by
  have hlasting : (r.handle h d raw source now).1.lasting id last = last := by
    rw [lasting, (r.handle_frame h d raw source now).2.2.1]
    exact hr.lasting_eq ht.there
  refine ⟨fun hmem t hlast => ?_, ?_⟩
  · have hopen := (open_of_mem_prompted hmem).1
    exact (ht.gate.isOpen_iff now (Nat.le_refl now)).mp hopen t (hlasting ▸ hlast)
  · obtain ⟨_, hseats⟩ := r.handle_sameSeats h d raw source now
    rw [hlasting]
    exact ht.speaks (hr.handle_speaks hversion h hm raw source now)
      (hr.same_streams (hr.handle h d raw source now) hseats.routing id)
      fun hmem => (open_of_mem_prompted hmem).2

theorem tick (ht : r.Tracks interval id (r.lasting id last) now) (hr : r.Coherent)
    (hversion : r.version = protocolVersion) (h : Hysteresis F) :
    (r.tick h now).1.Paced interval id last now (r.agenda h now) := by
  have hlasting : (r.tick h now).1.lasting id last = r.lasting id last := by
    rw [lasting, (r.tick_sameSeats h now).members, lasting]
  refine ⟨fun hmem t hlast => ?_, ?_⟩
  · obtain ⟨_, -, -, hopen⟩ := mem_agenda_iff.mp hmem
    exact (ht.gate.isOpen_iff now (Nat.le_refl now)).mp hopen t (hlasting ▸ hlast)
  · rw [hlasting]
    refine ⟨(hr.tick_speaks hversion h now).2 ▸ (ht.gate.noted _).cleanup, fun hlast => ?_⟩
    rw [hr.same_streams (hr.tick h now) (r.tick_sameSeats h now).routing]
    split at hlast
    · rename_i hmem
      obtain ⟨s, hs, -⟩ := mem_agenda_iff.mp hmem
      exact Table.contains_of_get? hs
    · exact ht.there hlast

end Tracks

end Steps

end Room

end MediaRelay
