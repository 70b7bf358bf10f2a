import MediaRelay.Proofs.Spread
import MediaRelay.Room.Forwarding
import MediaRelay.Room.Reporting

/-!
What media, feedback and ticks do to a room. They change streams, the keyframe gate and the relay's
sequence number; who is in the room and who is subscribed to what stays (`Room.SameSeats`).
-/

namespace MediaRelay

variable {F : Type}

/-- Two states of a room with the same members, subscriptions and routing. -/
structure Room.SameSeats (r r' : Room F) : Prop where
  id : r'.id = r.id
  version : r'.version = r.version
  terms : r'.terms = r.terms
  closed : r'.closed = r.closed
  members : r'.members = r.members
  subscriptions : r'.subscriptions = r.subscriptions
  graphVersions : r'.graphVersions = r.graphVersions
  routing : r'.routing = r.routing
  presence : r'.presence = r.presence

namespace Room.SameSeats

variable {r r' r'' : Room F}

theorem refl (r : Room F) : r.SameSeats r := ⟨rfl, rfl, rfl, rfl, rfl, rfl, rfl, rfl, rfl⟩

theorem trans (h : r.SameSeats r') (h' : r'.SameSeats r'') : r.SameSeats r'' :=
  ⟨h'.id.trans h.id, h'.version.trans h.version, h'.terms.trans h.terms, h'.closed.trans h.closed,
    h'.members.trans h.members, h'.subscriptions.trans h.subscriptions,
    h'.graphVersions.trans h.graphVersions, h'.routing.trans h.routing,
    h'.presence.trans h.presence⟩

/-- Streams, gate and sequence number are free. -/
theorem of_streams (r : Room F) (streams : Table StreamId (Stream F)) (keyframes : KeyframeGate)
    (nextSequence : UInt32) : r.SameSeats { r with streams, keyframes, nextSequence } :=
  ⟨rfl, rfl, rfl, rfl, rfl, rfl, rfl, rfl, rfl⟩

theorem setStream (r : Room F) (id : StreamId) (s : Stream F) : r.SameSeats (r.setStream id s) :=
  of_streams r _ _ _

end Room.SameSeats

namespace Stream

/-- A keyframe that is wanted stops being wanted when the gate lets the request pass. -/
def asked (s : Stream F) (isOpen : Bool) : Stream F :=
  { s with keyframeWanted := s.keyframeWanted && !isOpen }

theorem asked_of_not_wanted (s : Stream F) (hw : s.keyframeWanted = false) (isOpen : Bool) :
    s.asked isOpen = s := by
  rw [asked, hw, Bool.false_and, ← hw]

theorem asked_closed (s : Stream F) : s.asked false = s := by
  simp [asked]

variable [Arithmetic F]

/-- The periodic work for a stream. -/
def tick (s : Stream F) (h : Hysteresis F) (now : Time) (isOpen : Bool) : Stream F :=
  ({ s with uplink := (s.uplink.takeReport now).1 }.tickLinks h now).asked isOpen

@[simp] theorem tick_id (s : Stream F) (h : Hysteresis F) (now : Time) (isOpen : Bool) :
    (s.tick h now isOpen).id = s.id := rfl

@[simp] theorem tick_graph (s : Stream F) (h : Hysteresis F) (now : Time) (isOpen : Bool) :
    (s.tick h now isOpen).graph = s.graph := rfl

@[simp] theorem tick_history (s : Stream F) (h : Hysteresis F) (now : Time) (isOpen : Bool) :
    (s.tick h now isOpen).history = s.history := rfl

@[simp] theorem tick_uplink (s : Stream F) (h : Hysteresis F) (now : Time) (isOpen : Bool) :
    (s.tick h now isOpen).uplink = (s.uplink.takeReport now).1 := rfl

theorem tick_link (s : Stream F) (h : Hysteresis F) (now : Time) (isOpen : Bool)
    (p : ParticipantId) :
    (s.tick h now isOpen).links.get? p =
      (s.links.get? p).map fun link => ((link.tick now).retarget h s.graph).1 := by
  simp [tick, asked, tickLinks, Table.get?_map, Function.comp_def]

end Stream

namespace Room

@[simp] theorem speak_streams (r : Room F) (receiver : ParticipantId) (message : Feedback) :
    (r.speak receiver message).1.streams = r.streams := rfl

@[simp] theorem speak_keyframes (r : Room F) (receiver : ParticipantId) (message : Feedback) :
    (r.speak receiver message).1.keyframes = r.keyframes := rfl

theorem requestKeyframe_sameSeats (r : Room F) (id : StreamId) (now : Time) :
    r.SameSeats (r.requestKeyframe id now).1 := by
  unfold requestKeyframe
  split
  · exact .refl r
  split
  · exact .refl r
  simp only
  split
  · exact .refl r
  · exact .of_streams r _ _ _

theorem requestKeyframe_streams (r : Room F) (id : StreamId) (now : Time) :
    (r.requestKeyframe id now).1.streams =
      r.streams.modify id (·.asked (r.keyframes.isOpen id now)) := by
  unfold requestKeyframe
  cases hs : r.streams.get? id with
  | none => exact (Table.modify_of_none hs).symm
  | some s =>
    have hstay (h : s.asked (r.keyframes.isOpen id now) = s) :
        r.streams.modify id (·.asked (r.keyframes.isOpen id now)) = r.streams :=
      Table.modify_eq_self fun v hv => by rw [hs] at hv; cases hv; exact h
    cases hw : s.keyframeWanted with
    | false =>
      rw [hstay (s.asked_of_not_wanted hw _)]
      simp [hw]
    | true =>
      cases hg : r.keyframes.isOpen id now with
      | false =>
        rw [hg] at hstay
        rw [hstay s.asked_closed]
        simp [hw, KeyframeGate.request, hg]
      | true =>
        have hf : { s with keyframeWanted := false } = s.asked true := by simp [Stream.asked]
        simp only [hw, KeyframeGate.request, hg, setStream, hf]
        exact Table.insert_eq_modify (f := fun s : Stream F => s.asked true) hs

/-- A request for one stream leaves the gate of the others as it is. -/
theorem requestKeyframe_isOpen (r : Room F) {id other : StreamId} (now now' : Time)
    (hne : other ≠ id) :
    (r.requestKeyframe id now).1.keyframes.isOpen other now' = r.keyframes.isOpen other now' := by
  unfold requestKeyframe
  split
  · rfl
  split
  · rfl
  simp only
  split
  · rfl
  · simp only [speak_keyframes, setStream, KeyframeGate.request]
    split
    · simp [KeyframeGate.isOpen, Table.get?_insert_of_ne _ _ hne]
    · rfl

variable [Arithmetic F]

theorem reportArrivals_sameSeats (r : Room F) (id : StreamId) (now : Time) :
    r.SameSeats (r.reportArrivals id now).1 := by
  unfold reportArrivals
  split
  · exact .refl r
  split
  · exact .setStream r _ _
  · exact .of_streams r _ _ _

theorem reportArrivals_streams (r : Room F) (id : StreamId) (now : Time) :
    (r.reportArrivals id now).1.streams = r.streams.modify id fun s =>
      { s with uplink := (s.uplink.takeReport now).1 } := by
  unfold reportArrivals
  cases hs : r.streams.get? id with
  | none => exact (Table.modify_of_none hs).symm
  | some s =>
    have hset : r.streams.insert id { s with uplink := (s.uplink.takeReport now).1 } =
        r.streams.modify id fun s => { s with uplink := (s.uplink.takeReport now).1 } :=
      Table.insert_eq_modify
        (f := fun s : Stream F => { s with uplink := (s.uplink.takeReport now).1 }) hs
    simp only
    split
    · rename_i hu
      rw [← hset, hu]
      rfl
    · rename_i hu
      rw [← hset, hu]
      rfl

@[simp] theorem reportArrivals_keyframes (r : Room F) (id : StreamId) (now : Time) :
    (r.reportArrivals id now).1.keyframes = r.keyframes := by
  unfold reportArrivals
  split
  · rfl
  split
  · rfl
  · rfl

theorem tickStream_sameSeats (r : Room F) (h : Hysteresis F) (now : Time) (id : StreamId) :
    r.SameSeats (r.tickStream h now id).1 :=
  ((reportArrivals_sameSeats r id now).trans (.of_streams _ _ _ _)).trans
    (requestKeyframe_sameSeats _ id now)

theorem tickStream_get? (r : Room F) (h : Hysteresis F) (now : Time) (id other : StreamId) :
    (r.tickStream h now id).1.streams.get? other =
      if other = id then (r.streams.get? id).map (·.tick h now (r.keyframes.isOpen id now))
      else r.streams.get? other := by
  unfold tickStream
  simp only [requestKeyframe_streams, reportArrivals_streams, reportArrivals_keyframes]
  by_cases ho : other = id
  · simp only [ho, Table.get?_modify_self, Option.map_map, if_true]
    rfl
  · simp only [Table.get?_modify_of_ne _ _ ho, if_neg ho]

theorem tickStream_isOpen (r : Room F) (h : Hysteresis F) (now now' : Time) {id other : StreamId}
    (hne : other ≠ id) :
    (r.tickStream h now id).1.keyframes.isOpen other now' = r.keyframes.isOpen other now' := by
  unfold tickStream
  simp only [requestKeyframe_isOpen _ now now' hne, reportArrivals_keyframes]

theorem tickStreams_sameSeats (r : Room F) (h : Hysteresis F) (now : Time) (ids : List StreamId) :
    r.SameSeats (r.tickStreams h now ids).1 := by
  induction ids generalizing r with
  | nil => exact .refl r
  | cons id rest ih => exact (tickStream_sameSeats r h now id).trans (ih _)

/-- Each listed stream is ticked once. -/
theorem tickStreams_get? (r : Room F) (h : Hysteresis F) (now : Time) {ids : List StreamId}
    (hn : ids.Nodup) (other : StreamId) :
    (r.tickStreams h now ids).1.streams.get? other =
      if other ∈ ids then
        (r.streams.get? other).map (·.tick h now (r.keyframes.isOpen other now))
      else r.streams.get? other := by
  induction ids generalizing r with
  | nil => simp [tickStreams]
  | cons id rest ih =>
    obtain ⟨hid, hrest⟩ := List.nodup_cons.mp hn
    simp only [tickStreams]
    rw [ih _ hrest, tickStream_get?]
    by_cases ho : other = id
    · simp [ho, hid]
    · simp [ho, tickStream_isOpen r h now now ho]

theorem tick_sameSeats (r : Room F) (h : Hysteresis F) (now : Time) :
    r.SameSeats (r.tick h now).1 :=
  (tickStreams_sameSeats r h now _).trans (.of_streams _ _ _ _)

end Room

end MediaRelay
