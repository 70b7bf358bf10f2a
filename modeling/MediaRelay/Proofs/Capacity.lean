import MediaRelay.Proofs.Ledger
import MediaRelay.Proofs.Occupancy

/-!
The limits. A room never has more members or streams than its terms allow (`Room.Limits`), and a
stream that is there is renegotiated no matter how many there are; so the limits of the settings
hold in every run (`Relay.run_limits`).
-/

namespace MediaRelay

variable {F : Type}

namespace Room

/-- The room is under these terms and within their limits. -/
structure Limits (terms : Terms F) (r : Room F) : Prop where
  bound : r.terms = terms
  members : r.members.size ≤ terms.maxParticipants
  streams : r.streams.size ≤ terms.maxStreams

namespace Limits

variable {terms : Terms F} {r r' : Room F}

theorem start (id : RoomId) (version : UInt8) (terms : Terms F) :
    (Room.start id version terms).Limits terms :=
  ⟨rfl, Nat.zero_le _, Nat.zero_le _⟩

theorem of_le (h : r.Limits terms) (hterms : r'.terms = r.terms)
    (hmembers : r'.members.size ≤ r.members.size) (hstreams : r'.streams.size ≤ r.streams.size) :
    r'.Limits terms :=
  ⟨hterms.trans h.bound, Nat.le_trans hmembers h.members, Nat.le_trans hstreams h.streams⟩

/-- The record of a member is replaced. -/
theorem replaceMember (h : r.Limits terms) {p : ParticipantId} {m : Member}
    (hm : r.members.get? p = some m) (m' : Member) :
    (publish { r with members := r.members.insert p m' }).Limits terms := by
  refine h.of_le rfl ?_ (Nat.le_refl _)
  show (r.members.insert p m').size ≤ _
  rw [Table.size_insert, if_pos (Table.contains_of_get? hm)]

/-- Who leaves gives back a place, and the places of its streams. -/
theorem leave (h : r.Limits terms) (p : ParticipantId) : (r.leave p).1.Limits terms := by
  obtain ⟨-, _, hleave⟩ | ⟨-, hleave⟩ := r.leave_cases p
  · rwa [hleave]
  · rw [hleave]
    refine h.of_le rfl ?_ ?_
    · show ((r.members.erase p).map _).size ≤ _
      rw [Table.size_map]
      exact r.members.size_erase_le p
    · show ((r.streams.filter _).map _).size ≤ _
      rw [Table.size_map]
      exact r.streams.size_filter_le _

theorem expel (h : r.Limits terms) (gone : List ParticipantId) : (r.expel gone).Limits terms := by
  induction gone generalizing r with
  | nil => exact h
  | cons p rest ih => exact ih (h.leave p)

variable [Arithmetic F]

/-- Nothing but a join and a new stream takes up a place, and both ask for it before. -/
theorem signal (h : r.Limits terms) (now : Time) (act : Event.Act) :
    (r.signal now act).Limits terms := by
  cases act with
  | join p role version =>
    obtain ⟨_, hjoin⟩ | ⟨-, -, -, hplace, hjoin⟩ := r.join_cases p role version now
    · rwa [Room.signal, hjoin]
    · rw [Room.signal, hjoin]
      refine ⟨h.bound, ?_, h.streams⟩
      show (r.members.insert p _).size ≤ _
      rw [h.bound] at hplace
      rw [Table.size_insert]
      split
      · exact h.members
      · exact hplace
  | leave p => exact h.leave p
  | negotiate stream offer =>
    obtain ⟨_, hneg⟩ | ⟨_, graph, -, -, -, -, ⟨s, hs, hneg⟩ | ⟨-, hplace, hneg⟩⟩ :=
      r.negotiate_cases stream.sender stream.kind offer now
    · rwa [Room.signal, hneg]
    · rw [Room.signal, hneg]
      refine h.of_le rfl (Nat.le_refl _) ?_
      show (r.streams.insert stream _).size ≤ _
      rw [Table.size_insert, if_pos (Table.contains_of_get? hs)]
    · rw [Room.signal, hneg]
      refine ⟨h.bound, h.members, ?_⟩
      show (r.streams.insert stream _).size ≤ _
      rw [h.bound] at hplace
      rw [Table.size_insert]
      split
      · exact h.streams
      · exact hplace
  | subscribe p stream =>
    obtain ⟨_, hsub⟩ | ⟨_, _, -, -, -, -, -, -, ⟨-, hsub⟩ | ⟨-, hsub⟩⟩ :=
      r.subscribe_cases p stream now
    · rwa [Room.signal, hsub]
    · rwa [Room.signal, hsub]
    · rw [Room.signal, hsub]
      exact h.of_le rfl (Nat.le_refl _) (Nat.le_of_eq (r.streams.size_modify stream _))
  | unsubscribe p stream =>
    obtain ⟨_, hun⟩ | ⟨-, hun⟩ := r.unsubscribe_cases p stream
    · rwa [Room.signal, hun]
    · rw [Room.signal, hun]
      exact h.of_le rfl (Nat.le_refl _) (Nat.le_of_eq (r.streams.size_modify stream _))
  | setMuted receiver sender muted =>
    obtain ⟨_, hset⟩ | ⟨m, hm, -, hset⟩ := r.setMuted_cases receiver sender muted
    · rwa [Room.signal, hset]
    · rw [Room.signal, hset]
      exact h.replaceMember hm _
  | setDeafened p deafened =>
    obtain ⟨_, hset⟩ | ⟨m, hm, hset⟩ := r.setDeafened_cases p deafened
    · rwa [Room.signal, hset]
    · rw [Room.signal, hset]
      exact h.replaceMember hm _

omit [Arithmetic F] in
/-- Datagrams and ticks take nobody and no stream in. -/
theorem of_sameSeats (h : r.Limits terms) (hr : r.Coherent) (hr' : r'.Coherent)
    {presence : Table ParticipantId Presence} (hseats : SameSeats { r with presence } r') :
    r'.Limits terms := by
  refine h.of_le hseats.terms (Nat.le_of_eq (congrArg Table.size hseats.members)) ?_
  exact Nat.le_of_eq (Table.size_eq_of_contains (hr.same_streams hr' hseats.routing))

end Limits

theorem Evolves.limits [Arithmetic F] {h : Hysteresis F} {now : Time} {id : RoomId}
    {input : Relay.Input} {terms : Terms F} {r r' : Room F} (he : Evolves h now id input r r')
    (hr : r.Coherent) (hlimits : r.Limits terms) : r'.Limits terms := by
  have hr' := he.coherent hr
  cases he with
  | idle => exact hlimits
  | signaled act _ _ => exact hlimits.signal now act
  | handled raw source d _ _ _ _ =>
    obtain ⟨_, hseats⟩ := r.handle_sameSeats h d raw source now
    exact hlimits.of_sameSeats hr hr' hseats
  | ticked gone _ =>
    have hseats := (r.expel gone).tick_sameSeats h now
    exact (hlimits.expel gone).of_sameSeats (hr.expel gone) hr' hseats

variable [Arithmetic F] {r : Room F} {id : StreamId}

/-- The answer to an offer for a stream that is there. -/
def renegotiation (r : Room F) (id : StreamId) (offer : Offer) : Except Refusal Nat :=
  match LayerGraph.ofOffer id.kind offer (r.graphVersions + 1) with
  | .error fault => .error (.invalidNegotiation fault.message)
  | .ok _ => .ok (r.graphVersions + 1)

/-- A stream that is there is renegotiated whatever the limit is. -/
theorem Coherent.renegotiate (hr : r.Coherent) (hs : r.streams.contains id) (offer : Offer)
    (now : Time) (maxStreams : Nat) :
    (({ r with terms := { r.terms with maxStreams } } : Room F).negotiate id.sender id.kind offer
      now).2 = r.renegotiation id offer := by
  obtain ⟨s, hs⟩ := Table.contains_iff.mp hs
  have hopen := hr.isOpen_of_stream hs
  obtain ⟨role, hrole, hsend⟩ := (hr.streams id s hs).1
  obtain ⟨m, hm, rfl⟩ := Option.map_eq_some_iff.mp hrole
  have hthere : r.streams.contains id := Table.contains_of_get? hs
  unfold Room.negotiate renegotiation
  simp only [hopen, hm, hsend, hthere, hs]
  cases LayerGraph.ofOffer id.kind offer (r.graphVersions + 1) <;> simp

end Room

namespace Relay

variable [Arithmetic F]

theorem Reachable.limits {r : Relay F} (h : r.Reachable) {id : RoomId} {within : Room F}
    (hroom : r.directory.room? id = some within) : within.Limits (termsOf r.settings) := by
  induction h generalizing id within with
  | start _ => cases hroom
  | @step r hr now input ih =>
    rw [(step_settings hr.sound now input).1]
    cases hbefore : r.directory.room? id with
    | some before =>
      obtain ⟨after, hevolves, hafter⟩ := step_room hr.sound now input hbefore
      rw [hroom] at hafter
      obtain ⟨-, rfl⟩ := Room.unlessClosed_eq_some_iff.mp hafter.symm
      exact hevolves.limits (hr.sound _ _ hbefore).toCoherent (ih hbefore)
    | none =>
      obtain ⟨p, role, -, rfl⟩ := step_new_room hr.sound now input hbefore hroom
      rw [← hr.terms]
      exact (Room.Limits.start id protocolVersion r.directory.terms).signal now
        (.join p role protocolVersion)

/-- In every run there are no more rooms, participants of a room and streams in a room than the
settings allow, and the relay itself is never a participant. An offer for a stream that is there is
accepted or refused for itself, whatever the limit of streams is. -/
theorem run_limits (settings : Settings F) (inputs : List (Time × Input)) :
    let r := (start settings).run inputs
    r.directory.rooms.size ≤ settings.maxRooms ∧
    (∀ id, ParticipantId.relay ∉ r.participants id) ∧
    ∀ id within, r.directory.room? id = some within →
      within.members.size ≤ settings.maxParticipants ∧
      within.participantCount = within.members.size ∧
      within.streams.size ≤ settings.maxStreams ∧
      within.streamCount = within.streams.size ∧
      ∀ stream offer now, within.streams.contains stream →
        (r.apply ⟨id, .negotiate stream offer⟩ now).2 = done (within.renegotiation stream offer) ∧
        ∀ maxStreams,
          (({ within with terms := { within.terms with maxStreams } } : Room F).negotiate
            stream.sender stream.kind offer now).2 = within.renegotiation stream offer := by
  intro r
  have hr : r.Reachable := (Reachable.start settings).run inputs
  have hsettings : r.settings = settings := (Reachable.start settings).run_settings inputs
  refine ⟨hsettings ▸ hr.limit.2, fun id hrelay => ?_, fun id within hroom => ?_⟩
  · obtain ⟨within, hroom, hrelay⟩ := mem_participants_iff.mp hrelay
    rw [(hr.sound _ _ hroom).withoutRelay] at hrelay
    cases hrelay
  · have hkept := hr.sound _ _ hroom
    have hlimits := hr.limits hroom
    rw [hsettings] at hlimits
    refine ⟨hlimits.members, congrArg Table.size hkept.members_eq, hlimits.streams,
      Table.size_eq_of_contains hkept.contains_subscribers, fun stream offer now hs => ?_⟩
    have hanswer := hkept.renegotiate hs offer now
    refine ⟨?_, hanswer⟩
    show done (r.directory.within id fun q => q.negotiate stream.sender stream.kind offer now).2 = _
    rw [Directory.within, hroom]
    exact congrArg done (hanswer within.terms.maxStreams)

end Relay

end MediaRelay
