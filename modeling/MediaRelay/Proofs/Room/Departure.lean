import MediaRelay.Proofs.Room.Agenda

/-!
What is left of a room when participants are gone: everything that was theirs is gone with them, and
nothing else (`Room.RidOf`). A tick takes no more than that from a room
(`Room.Coherent.ridOf_ticked`).
-/

namespace MediaRelay

variable {F : Type}

namespace Room

/-- A room without some of its participants. Their streams, subscriptions, downlinks and presence
are gone, and nobody mutes them any more; what belongs to others is there. -/
structure RidOf (r : Room F) (gone : List ParticipantId) (r' : Room F) : Prop where
  members : ∀ p, r'.members.contains p ↔ r.members.contains p ∧ p ∉ gone
  records : ∀ p m m', r.members.get? p = some m → r'.members.get? p = some m' →
    m'.role = m.role ∧ m'.deafened = m.deafened ∧
      ∀ q, m'.muted.contains q ↔ m.muted.contains q ∧ q ∉ gone
  presence : ∀ p, r'.presence.get? p = if p ∈ gone then none else r.presence.get? p
  streams : ∀ id, r'.streams.contains id ↔ r.streams.contains id ∧ id.sender ∉ gone
  receivers : ∀ id p, (r'.receivers id).contains p ↔
    (r.receivers id).contains p ∧ p ∉ gone ∧ id.sender ∉ gone
  links : ∀ id s s', r.streams.get? id = some s → r'.streams.get? id = some s' →
    ∀ p, s'.links.contains p ↔ s.links.contains p ∧ p ∉ gone

namespace RidOf

variable {r r' r'' : Room F} {gone gone' : List ParticipantId}

theorem refl (r : Room F) : r.RidOf [] r := by
  refine ⟨fun p => ?_, fun p m m' hm hm' => ?_, fun p => ?_, fun id => ?_, fun id p => ?_,
    fun id s s' hs hs' p => ?_⟩
  · simp
  · obtain rfl := Option.some.inj (hm.symm.trans hm')
    simp
  · simp
  · simp
  · simp
  · obtain rfl := Option.some.inj (hs.symm.trans hs')
    simp

theorem trans (h : r.RidOf gone r') (h' : r'.RidOf gone' r'') : r.RidOf (gone ++ gone') r'' := by
  refine ⟨fun p => ?_, fun p m m'' hm hm'' => ?_, fun p => ?_, fun id => ?_, fun id p => ?_,
    fun id s s'' hs hs'' p => ?_⟩
  · rw [h'.members, h.members, List.mem_append, not_or, and_assoc]
  · obtain ⟨m', hm'⟩ := Table.contains_iff.mp ((h'.members p).mp (Table.contains_of_get? hm'')).1
    obtain ⟨hrole, hdeafened, hmuted⟩ := h.records p m m' hm hm'
    obtain ⟨hrole', hdeafened', hmuted'⟩ := h'.records p m' m'' hm' hm''
    refine ⟨hrole'.trans hrole, hdeafened'.trans hdeafened, fun q => ?_⟩
    rw [hmuted', hmuted, List.mem_append, not_or, and_assoc]
  · rw [h'.presence, h.presence]
    by_cases hp : p ∈ gone
    · simp [hp]
    · simp [hp]
  · rw [h'.streams, h.streams, List.mem_append, not_or, and_assoc]
  · rw [h'.receivers, h.receivers, List.mem_append, List.mem_append]
    tauto
  · obtain ⟨s', hs'⟩ := Table.contains_iff.mp ((h'.streams id).mp (Table.contains_of_get? hs'')).1
    rw [h'.links id s' s'' hs' hs'' p, h.links id s s' hs hs' p, List.mem_append, not_or, and_assoc]

/-- It matters who is gone, not in which order. -/
theorem congr (h : r.RidOf gone r') (hsame : ∀ p, p ∈ gone ↔ p ∈ gone') : r.RidOf gone' r' := by
  obtain ⟨hmembers, hrecords, hpresence, hstreams, hreceivers, hlinks⟩ := h
  simp only [hsame] at hmembers hrecords hpresence hstreams hreceivers hlinks
  exact ⟨hmembers, hrecords, hpresence, hstreams, hreceivers, hlinks⟩

end RidOf

namespace Coherent

variable {r : Room F}

/-- A participant that is not in the room has nothing there. -/
theorem ridOf_stranger (hr : r.Coherent) {p : ParticipantId}
    (hp : r.members.contains p = false) : r.RidOf [p] r := by
  have hmember {q : ParticipantId} (hq : r.members.contains q) : q ∉ [p] := by
    intro heq
    rw [List.mem_singleton.mp heq, hp] at hq
    cases hq
  refine ⟨fun q => ?_, fun q m m' hm hm' => ?_, fun q => ?_, fun id => ?_, fun id q => ?_,
    fun id s s' hs hs' q => ?_⟩
  · exact (and_iff_left_of_imp hmember).symm
  · obtain rfl := Option.some.inj (hm.symm.trans hm')
    exact ⟨rfl, rfl, fun q' => (and_iff_left_of_imp fun hmuted =>
      hmember (hr.muted q m q' hm hmuted)).symm⟩
  · split
    · rename_i heq
      rw [List.mem_singleton.mp heq]
      refine Option.not_isSome_iff_eq_none.mp fun hseen => ?_
      exact Bool.false_ne_true ((hp.symm.trans (hr.presence p).symm).trans hseen)
    · rfl
  · refine (and_iff_left_of_imp fun hs => ?_).symm
    obtain ⟨s, hs⟩ := Table.contains_iff.mp hs
    exact hmember (hr.streams id s hs).1.member
  · refine (and_iff_left_of_imp fun hq => ?_).symm
    obtain ⟨-, hreceive, hsend⟩ := hr.subscribed id q hq
    exact ⟨hmember hreceive.member, hmember hsend.member⟩
  · obtain rfl := Option.some.inj (hs.symm.trans hs')
    refine (and_iff_left_of_imp fun hq => ?_).symm
    have hreceiver := ((hr.streams id s hs).2.contains_iff q).mp hq
    exact hmember (hr.subscribed id q hreceiver).2.1.member

theorem ridOf_leave (hr : r.Coherent) (p : ParticipantId) : r.RidOf [p] (r.leave p).1 := by
  obtain ⟨hp, _, hleave⟩ | ⟨-, hleave⟩ := r.leave_cases p
  · rw [hleave]
    exact hr.ridOf_stranger hp
  · rw [hleave]
    refine ⟨fun q => ?_, fun q m m' hm hm' => ?_, fun q => ?_, fun id => ?_, fun id q => ?_,
      fun id s s' hs hs' q => ?_⟩
    · rw [r.contains_without, List.mem_singleton, and_comm]
    · have hq : q ≠ p := ((r.contains_without p q).mp (Table.contains_of_get? hm')).1
      rw [r.members_without, Table.get?_erase_of_ne _ hq, hm] at hm'
      obtain rfl := Option.some.inj hm'
      exact ⟨rfl, rfl, fun q' => by rw [Table.contains_erase, List.mem_singleton, and_comm]⟩
    · show (r.presence.erase p).get? q = _
      by_cases hq : q = p
      · simp [hq]
      · simp [hq, Table.get?_erase_of_ne]
    · rw [r.contains_stream_without, List.mem_singleton, and_comm]
    · rw [r.receivers_without, List.mem_singleton, List.mem_singleton]
      tauto
    · rw [r.stream_without] at hs'
      by_cases hid : id.sender = p
      · rw [if_pos hid] at hs'
        cases hs'
      · rw [if_neg hid, hs] at hs'
        obtain rfl := Option.some.inj hs'
        show (s.links.erase p).contains q ↔ _
        rw [Table.contains_erase, List.mem_singleton, and_comm]

theorem ridOf_expel (hr : r.Coherent) (gone : List ParticipantId) :
    r.RidOf gone (r.expel gone) := by
  induction gone generalizing r with
  | nil => exact .refl r
  | cons p rest ih => exact (hr.ridOf_leave p).trans (ih (hr.leave p))

variable [Arithmetic F]

/-- A tick takes nobody and nothing out of a room. -/
theorem ridOf_tick (hr : r.Coherent) (h : Hysteresis F) (now : Time) :
    r.RidOf [] (r.tick h now).1 := by
  have hseats := r.tick_sameSeats h now
  have hreceivers (id : StreamId) : (r.tick h now).1.receivers id = r.receivers id := by
    rw [receivers, hseats.subscriptions, receivers]
  refine ⟨fun p => ?_, fun p m m' hm hm' => ?_, fun p => ?_, fun id => ?_, fun id p => ?_,
    fun id s s' hs hs' p => ?_⟩
  · simp [hseats.members]
  · rw [hseats.members] at hm'
    obtain rfl := Option.some.inj (hm.symm.trans hm')
    simp
  · simp [hseats.presence]
  · simp [hr.same_streams (hr.tick h now) hseats.routing]
  · simp [hreceivers]
  · rw [hr.tick_get?, hs] at hs'
    obtain rfl := Option.some.inj hs'
    rw [Table.contains, Stream.tick_link, Option.isSome_map]
    simp [Table.contains]

theorem ridOf_ticked (hr : r.Coherent) (gone : List ParticipantId) (h : Hysteresis F) (now : Time) :
    r.RidOf gone ((r.expel gone).tick h now).1 := by
  simpa using (hr.ridOf_expel gone).trans ((hr.expel gone).ridOf_tick h now)

end Coherent

end Room

end MediaRelay
