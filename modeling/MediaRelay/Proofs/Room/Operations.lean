import MediaRelay.Proofs.Room.Coherence

/-!
Every operation keeps a room coherent: signaling, accepted or refused, and what datagrams and ticks
do. `Room.Coherent.run` is the invariant over all sequences of operations.
-/

namespace MediaRelay.Room

variable {F : Type}

theorem coherent_start (id : RoomId) (version : UInt8) (terms : Terms F) :
    (start id version terms).Coherent :=
  ⟨⟨fun _ _ h => (by cases h), fun _ _ h => (by cases h), fun _ _ h => (by cases h), fun _ => rfl,
    fun _ _ _ h => (by cases h), fun h => (by cases h)⟩, rfl⟩

theorem receivers_withdraw (subscriptions : Table StreamId (KeySet ParticipantId))
    (p q : ParticipantId) (id : StreamId) :
    (((withdraw p subscriptions).get? id).getD ∅).contains q ↔
      id.sender ≠ p ∧ q ≠ p ∧ ((subscriptions.get? id).getD ∅).contains q := by
  rw [withdraw, Table.get?_filter, Table.get?_map]
  cases hs : subscriptions.get? id with
  | none => simp
  | some set =>
    have hset : (Option.filter (fun kept : KeySet ParticipantId =>
        decide (id.sender ≠ p) && !kept.isEmpty) (some (set.erase p))).getD ∅ =
          if id.sender = p then ∅ else set.erase p := by
      by_cases hid : id.sender = p
      · simp [hid, Option.filter]
      · by_cases hempty : (set.erase p).isEmpty
        · have hall : set.erase p = ∅ := Table.ext_get? fun k => Table.isEmpty_iff.mp hempty k
          rw [Option.filter_some, hall, if_neg hid]
          split <;> rfl
        · simp [hid, hempty, Option.filter]
    simp only [Option.map_some, hset, Option.getD_some]
    by_cases hid : id.sender = p
    · simp [hid]
    · simp [hid, Table.contains_erase]

section Changed

variable (r : Room F) (p : ParticipantId)

theorem members_without (q : ParticipantId) : (r.without p).members.get? q =
    ((r.members.erase p).get? q).map fun m => { m with muted := m.muted.erase p } :=
  Table.get?_map _ _ _

theorem contains_without (q : ParticipantId) :
    (r.without p).members.contains q ↔ q ≠ p ∧ r.members.contains q := by
  rw [← Table.contains_erase, Table.contains, Table.contains, members_without, Option.isSome_map]

theorem roleOf?_without {q : ParticipantId} (hq : q ≠ p) :
    (r.without p).roleOf? q = r.roleOf? q := by
  rw [roleOf?, members_without, Table.get?_erase_of_ne _ hq, roleOf?, Option.map_map]
  rfl

theorem receivers_without (id : StreamId) (q : ParticipantId) :
    ((r.without p).receivers id).contains q ↔
      id.sender ≠ p ∧ q ≠ p ∧ (r.receivers id).contains q :=
  receivers_withdraw r.subscriptions p q id

/-- The streams of the participant are gone, and the others have lost its downlink. -/
theorem stream_without (id : StreamId) : (r.without p).streams.get? id =
    if id.sender = p then none else (r.streams.get? id).map (·.dropLink p) := by
  simp only [without, publish, Table.get?_map, Table.get?_filter]
  by_cases hid : id.sender = p
  · simp [hid]
  · cases hs : r.streams.get? id with
    | none => simp [hid]
    | some s => simp [hid, Option.filter]

theorem contains_stream_without (id : StreamId) :
    (r.without p).streams.contains id ↔ id.sender ≠ p ∧ r.streams.contains id := by
  rw [Table.contains, stream_without, Table.contains]
  by_cases hid : id.sender = p
  · simp [hid]
  · simp [hid]

theorem receivers_withoutReceiver (stream id : StreamId) :
    (r.withoutReceiver p stream).receivers id =
      if id = stream then (r.receivers stream).erase p else r.receivers id := by
  have hkept : (r.withoutReceiver p stream).subscriptions =
      if ((r.receivers stream).erase p).isEmpty then r.subscriptions.erase stream
      else r.subscriptions.insert stream ((r.receivers stream).erase p) := rfl
  rw [receivers, hkept]
  by_cases hid : id = stream
  · subst hid
    rw [if_pos rfl]
    split
    · rename_i hempty
      rw [Table.get?_erase_self]
      exact Table.ext_get? fun q => (Table.isEmpty_iff.mp hempty q).symm
    · rw [Table.get?_insert_self]
      rfl
  · rw [if_neg hid]
    split
    · rw [Table.get?_erase_of_ne _ hid, receivers]
    · rw [Table.get?_insert_of_ne _ _ hid, receivers]

theorem receivers_withReceiver [Arithmetic F] (stream id : StreamId) (now : Time) :
    (r.withReceiver p stream now).receivers id =
      if id = stream then (r.receivers stream).insert p () else r.receivers id := by
  by_cases hid : id = stream
  · simp [hid, receivers, withReceiver, publish]
  · simp [hid, receivers, withReceiver, publish, Table.get?_insert_of_ne]

end Changed

theorem Intake.receiver [Arithmetic F] {link link' : Downlink F} {now : Time} {body : Feedback.Body}
    (h : Intake link now body link') : link'.receiver = link.receiver := by
  cases h <;> rfl

theorem Passage.serves [Arithmetic F] {r : Room F} {g : Hysteresis F} {d : Datagram} {raw : Bytes}
    {now : Time} {s s' : Stream F} {receivers receivers' : List ParticipantId}
    {step : Downlink F → Downlink F × Fate} {id : StreamId} {served : KeySet ParticipantId}
    (hp : Passage r g d raw now s receivers s' receivers' step) (hn : receivers.Nodup)
    (h : s.Serves id served) : (s'.accept step receivers').1.Serves id served := by
  have hhistory : s'.history.Grounded := by
    cases hp with
    | audio _ => exact h.history
    | frame descriptor history seen _ _ hseen =>
      have hgrounded := h.history.observe d.header.layer descriptor s.graph
      rwa [hseen] at hgrounded
    | repair _ => exact h.history
  refine h.of_links hp.same_id (congrArg LayerGraph.kind hp.same_graph) hhistory fun p => ?_
  rw [hp.link_get? hn]
  split
  · rw [Option.map_map]
    congr 1
    funext link
    exact hp.step_receiver link
  · rfl

namespace Coherent

variable {r : Room F}

theorem leave (h : r.Coherent) (p : ParticipantId) : (r.leave p).1.Coherent := by
  obtain ⟨-, refusal, hleave⟩ | ⟨hp, hleave⟩ := r.leave_cases p
  · rw [hleave]
    exact h
  · rw [hleave]
    refine ⟨⟨?_, ?_, ?_, ?_, ?_, ?_⟩, rfl⟩
    · intro id set hset
      have hkept : ((r.subscriptions.get? id).map (·.erase p)).filter
          (fun kept => id.sender ≠ p && !kept.isEmpty) = some set := by
        rw [← hset]
        simp only [without, Room.publish, withdraw, Table.get?_filter, Table.get?_map]
      have hne := (Option.filter_eq_some_iff.mp hkept).2
      simp only [Bool.and_eq_true, Bool.not_eq_true'] at hne
      exact Table.exists_contains hne.2
    · intro id q hq
      obtain ⟨hid, hqp, hq⟩ := (r.receivers_without p id q).mp hq
      obtain ⟨hne, ⟨role, hr, ha⟩, ⟨role', hr', ha'⟩⟩ := h.subscribed id q hq
      exact ⟨hne, ⟨role, (r.roleOf?_without p hqp).trans hr, ha⟩,
        ⟨role', (r.roleOf?_without p hid).trans hr', ha'⟩⟩
    · intro id s' hs'
      rw [stream_without] at hs'
      by_cases hid : id.sender = p
      · rw [if_pos hid] at hs'
        cases hs'
      · rw [if_neg hid] at hs'
        obtain ⟨s, hs, rfl⟩ := Option.map_eq_some_iff.mp hs'
        obtain ⟨⟨role, hr, ha⟩, hserves⟩ := h.streams id s hs
        refine ⟨⟨role, (r.roleOf?_without p hid).trans hr, ha⟩, hserves.dropLink fun q => ?_⟩
        rw [receivers_without]
        exact ⟨And.right, fun hq => ⟨hid, hq⟩⟩
    · intro q
      rw [Bool.eq_iff_iff, contains_without, ← h.presence]
      exact Table.contains_erase
    · intro q m q' hq hm
      rw [members_without] at hq
      obtain ⟨m', hm', rfl⟩ := Option.map_eq_some_iff.mp hq
      obtain ⟨hqp, hmuted⟩ := Table.contains_erase.mp hm
      refine (r.contains_without p _).mpr ⟨hqp, ?_⟩
      by_cases hne : q = p
      · subst hne
        simp at hm'
      · rw [Table.get?_erase_of_ne _ hne] at hm'
        exact h.muted q m' _ hm' hmuted
    · exact fun hempty => hempty

theorem join (h : r.Coherent) (p : ParticipantId) (role : Role) (version : UInt8) (now : Time) :
    (r.join p role version now).1.Coherent := by
  obtain ⟨refusal, hjoin⟩ | ⟨hopen, -, hnew, -, hjoin⟩ := r.join_cases p role version now
  · rw [hjoin]
    exact h
  · rw [hjoin]
    have hnone : r.members.get? p = none := by simpa [Table.contains] using hnew
    refine Coherent.publish (h.toSeated.of_members rfl rfl ?_ ?_ ?_ ?_)
    · intro q held hq
      have hne : q ≠ p := by
        rintro rfl
        simp [roleOf?, hnone] at hq
      rwa [roleOf?, Table.get?_insert_of_ne _ _ hne]
    · intro q
      rw [Bool.eq_iff_iff, Table.contains_insert, Table.contains_insert, h.presence]
    · intro q m m' hq hm
      refine Table.contains_insert.mpr (.inr ?_)
      by_cases hne : q = p
      · subst hne
        rw [Table.get?_insert_self] at hq
        cases hq
        cases hm
      · rw [Table.get?_insert_of_ne _ _ hne] at hq
        exact h.muted q m m' hq hm
    · simp [hopen]

/-- A member's record changes, but neither the role nor who is in the room. -/
theorem replaceMember (h : r.Coherent) {p : ParticipantId} {m m' : Member}
    (hm : r.members.get? p = some m) (hrole : m'.role = m.role)
    (hmuted : ∀ q, m'.muted.contains q → r.members.contains q) :
    (Room.publish { r with members := r.members.insert p m' }).Coherent := by
  have hmem (q : ParticipantId) : (r.members.insert p m').contains q = r.members.contains q := by
    rw [Bool.eq_iff_iff, Table.contains_insert]
    exact ⟨fun hq => hq.elim (fun e => e ▸ Table.contains_of_get? hm) fun hq => hq, .inr⟩
  refine Coherent.publish (h.toSeated.of_members rfl rfl ?_ ?_ ?_ ?_)
  · intro q role hq
    by_cases hne : q = p
    · subst hne
      rw [roleOf?_of_get? hm] at hq
      simp [roleOf?, hrole, hq]
    · rwa [roleOf?, Table.get?_insert_of_ne _ _ hne]
  · intro q
    rw [hmem]
    exact h.presence q
  · intro q m'' q' hq hm''
    rw [hmem]
    by_cases hne : q = p
    · subst hne
      rw [Table.get?_insert_self] at hq
      cases hq
      exact hmuted q' hm''
    · rw [Table.get?_insert_of_ne _ _ hne] at hq
      exact h.muted q m'' q' hq hm''
  · intro hclosed
    have hempty := Table.isEmpty_iff.mp (h.closed hclosed) p
    simp [hm] at hempty

theorem setMuted (h : r.Coherent) (receiver sender : ParticipantId) (muted : Bool) :
    (r.setMuted receiver sender muted).1.Coherent := by
  obtain ⟨refusal, hset⟩ | ⟨m, hm, hsender, hset⟩ := r.setMuted_cases receiver sender muted
  · rw [hset]
    exact h
  · rw [hset]
    refine h.replaceMember hm rfl fun q hq => ?_
    cases muted with
    | true =>
      obtain rfl | hq := Table.contains_insert.mp hq
      · exact hsender
      · exact h.muted _ _ _ hm hq
    | false => exact h.muted _ _ _ hm (Table.contains_erase.mp hq).2

theorem setDeafened (h : r.Coherent) (p : ParticipantId) (deafened : Bool) :
    (r.setDeafened p deafened).1.Coherent := by
  obtain ⟨refusal, hset⟩ | ⟨m, hm, hset⟩ := r.setDeafened_cases p deafened
  · rw [hset]
    exact h
  · rw [hset]
    exact h.replaceMember hm rfl fun q hq => h.muted _ _ _ hm hq

theorem touch (h : r.Coherent) (p : ParticipantId) (source : Endpoint) (now : Time) :
    (r.touch p source now).1.Coherent := by
  obtain ⟨-, ht⟩ | ⟨hp, ht⟩ := r.touch_cases p source now
  · rw [ht]
    exact h
  · rw [ht]
    refine ⟨h.toSeated.of_members rfl rfl (fun _ _ hq => hq) ?_ h.muted h.closed, h.routing⟩
    intro q
    rw [← h.presence q, Bool.eq_iff_iff, Table.contains_insert]
    exact ⟨fun hq => hq.elim (fun e => e ▸ hp) fun hq => hq, .inr⟩

theorem setStream (h : r.Coherent) {id : StreamId} {s s' : Stream F}
    (hs : r.streams.get? id = some s) (hserves : s'.Serves id (r.receivers id)) :
    (r.setStream id s').Coherent := by
  refine h.of_sameSeats (.setStream r id s') ?_ ?_
  · intro other
    rw [Bool.eq_iff_iff, Room.setStream, Table.contains_insert]
    exact ⟨fun ho => ho.elim (fun e => e ▸ Table.contains_of_get? hs) fun ho => ho, .inr⟩
  · intro other s₁ s₂ hs₁ hs₂ hserves₁
    by_cases ho : other = id
    · subst ho
      rw [Room.setStream, Table.get?_insert_self] at hs₂
      cases hs₂
      exact hserves
    · rw [Room.setStream, Table.get?_insert_of_ne _ _ ho, hs₁] at hs₂
      cases hs₂
      exact hserves₁

theorem unsubscribe (h : r.Coherent) (p : ParticipantId) (stream : StreamId) :
    (r.unsubscribe p stream).1.Coherent := by
  obtain ⟨refusal, hun⟩ | ⟨hp, hun⟩ := r.unsubscribe_cases p stream
  · rw [hun]
    exact h
  · rw [hun]
    refine ⟨⟨?_, ?_, ?_, h.presence, h.muted, h.closed⟩, rfl⟩
    · intro id set hset
      simp only [withoutReceiver, Room.publish] at hset
      by_cases hid : id = stream
      · subst hid
        split at hset
        · simp at hset
        · rename_i hempty
          rw [Table.get?_insert_self] at hset
          cases hset
          exact Table.exists_contains (by simpa using hempty)
      · split at hset
        · exact h.occupied id set (by rwa [Table.get?_erase_of_ne _ hid] at hset)
        · exact h.occupied id set (by rwa [Table.get?_insert_of_ne _ _ hid] at hset)
    · intro id q hq
      rw [receivers_withoutReceiver] at hq
      by_cases hid : id = stream
      · subst hid
        rw [if_pos rfl] at hq
        exact h.subscribed id q (Table.contains_erase.mp hq).2
      · rw [if_neg hid] at hq
        exact h.subscribed id q hq
    · intro id s' hs'
      rw [receivers_withoutReceiver]
      by_cases hid : id = stream
      · subst hid
        rw [withoutReceiver, Room.publish, Table.get?_modify_self] at hs'
        obtain ⟨s, hs, rfl⟩ := Option.map_eq_some_iff.mp hs'
        obtain ⟨hsend, hserves⟩ := h.streams id s hs
        refine ⟨hsend, hserves.dropLink fun q => ?_⟩
        rw [if_pos rfl]
        exact Table.contains_erase
      · rw [withoutReceiver, Room.publish, Table.get?_modify_of_ne _ _ hid] at hs'
        rw [if_neg hid]
        exact h.streams id s' hs'

variable [Arithmetic F]

theorem subscribe (h : r.Coherent) (p : ParticipantId) (stream : StreamId) (now : Time) :
    (r.subscribe p stream now).1.Coherent := by
  obtain ⟨refusal, hsub⟩ |
    ⟨listener, source, -, hself, hl, hs, hreceive, hsend, ⟨-, hsub⟩ | ⟨-, hsub⟩⟩ :=
    r.subscribe_cases p stream now
  · rw [hsub]
    exact h
  · rw [hsub]
    exact h
  · rw [hsub]
    refine ⟨⟨?_, ?_, ?_, h.presence, h.muted, h.closed⟩, rfl⟩
    · intro id set hset
      by_cases hid : id = stream
      · subst hid
        rw [withReceiver, Room.publish, Table.get?_insert_self] at hset
        cases hset
        exact ⟨p, Table.contains_insert.mpr (.inl rfl)⟩
      · rw [withReceiver, Room.publish, Table.get?_insert_of_ne _ _ hid] at hset
        exact h.occupied id set hset
    · intro id q hq
      rw [receivers_withReceiver] at hq
      by_cases hid : id = stream
      · subst hid
        rw [if_pos rfl] at hq
        obtain rfl | hq := Table.contains_insert.mp hq
        · exact ⟨hself, ⟨listener.role, roleOf?_of_get? hl, hreceive⟩,
            ⟨source.role, roleOf?_of_get? hs, hsend⟩⟩
        · exact h.subscribed id q hq
      · rw [if_neg hid] at hq
        exact h.subscribed id q hq
    · intro id s' hs'
      rw [receivers_withReceiver]
      by_cases hid : id = stream
      · subst hid
        rw [withReceiver, Room.publish, Table.get?_modify_self] at hs'
        obtain ⟨s, hs, rfl⟩ := Option.map_eq_some_iff.mp hs'
        obtain ⟨hmay, hserves⟩ := h.streams id s hs
        rw [if_pos rfl]
        exact ⟨hmay, hserves.addLink _ _ _ fun q => Table.contains_insert⟩
      · rw [withReceiver, Room.publish, Table.get?_modify_of_ne _ _ hid] at hs'
        rw [if_neg hid]
        exact h.streams id s' hs'

theorem negotiate (h : r.Coherent) (sender : ParticipantId) (kind : Kind) (offer : Offer)
    (now : Time) : (r.negotiate sender kind offer now).1.Coherent := by
  obtain ⟨refusal, hneg⟩ | ⟨member, graph, -, hm, ha, hg, ⟨s, hs, hneg⟩ | ⟨hs, -, hneg⟩⟩ :=
    r.negotiate_cases sender kind offer now
  · rw [hneg]
    exact h
  · rw [hneg]
    have hcounted : ({ r with graphVersions := r.graphVersions + 1 } : Room F).Coherent :=
      ⟨⟨h.occupied, h.subscribed, h.streams, h.presence, h.muted, h.closed⟩, h.routing⟩
    obtain ⟨-, hserves⟩ := h.streams _ s hs
    exact hcounted.setStream hs (hserves.renegotiate (LayerGraph.ofOffer_fields hg).1)
  · rw [hneg]
    have hcounted : ({ r with graphVersions := r.graphVersions + 1 } : Room F).Coherent :=
      ⟨⟨h.occupied, h.subscribed, h.streams, h.presence, h.muted, h.closed⟩, h.routing⟩
    have hstart : (Stream.start ⟨sender, kind⟩ graph r.terms.estimator r.terms.feedbackTimeout
        now).Serves ⟨sender, kind⟩ ∅ :=
      .start _ _ _ _ (LayerGraph.ofOffer_fields hg).1 fun _ => rfl
    refine Coherent.publish (hcounted.toSeated.setStream ?_ ?_)
    · exact ⟨member.role, roleOf?_of_get? hm, ha⟩
    · refine hstart.addLinks _ _ _ _ fun q => ?_
      rw [Table.mem_keys_iff]
      exact ⟨.inl, fun hq => hq.elim (fun hq => hq) fun hq => by simp at hq⟩

/-- Media that is refused leaves the room as it was: a frame number that contradicts the history is
in the history already. -/
theorem forward_error (h : r.Coherent) {r' : Room F} {g : Hysteresis F} {d : Datagram} {raw : Bytes}
    {now : Time} {reason : DropReason} (herr : r.forward g d raw now = (r', .error reason)) :
    r' = r := by
  obtain hsame | ⟨s, receivers, descriptor, history, fault, hroute, -, hseen, hnoted⟩ :=
    forward_error_cases herr
  · exact hsame
  · obtain ⟨kind, -, -, -, -, -, -, hs, -, -⟩ := route_eq_ok_iff.mp hroute
    obtain ⟨-, hserves⟩ := h.streams _ s hs
    have hhistory : history = s.history := hserves.history.observe_error hseen
    have hkept : r.streams.insert s.id s = r.streams := Table.insert_eq_self (hserves.name ▸ hs)
    rw [hnoted, hhistory, Room.setStream, hkept]

theorem forward (h : r.Coherent) (g : Hysteresis F) (d : Datagram) (raw : Bytes) (now : Time) :
    (r.forward g d raw now).1.Coherent := by
  cases hf : r.forward g d raw now with
  | mk r' answer =>
    cases answer with
    | error reason =>
      rw [h.forward_error hf]
      exact h
    | ok out =>
      obtain ⟨s, receivers, s', receivers', step, hroute, hpass, rfl, -⟩ :=
        forward_eq_ok_iff.mp hf
      obtain ⟨kind, -, subscribers, -, -, -, -, hs, -, rfl⟩ := route_eq_ok_iff.mp hroute
      obtain ⟨-, hserves⟩ := h.streams _ s hs
      rw [hserves.name]
      exact h.setStream hs (hpass.serves subscribers.keys_nodup hserves)

theorem takeFeedback (h : r.Coherent) (g : Hysteresis F) (d : Datagram) (raw : Bytes) (now : Time) :
    (r.takeFeedback g d raw now).1.Coherent := by
  cases hf : r.takeFeedback g d raw now with
  | mk r' answer =>
    cases answer with
    | error reason =>
      rw [takeFeedback_error hf]
      exact h
    | ok out =>
      obtain ⟨message, -, s, -, -, -, hs, ⟨rfl, -, -⟩ | ⟨link, link', hl, hintake, hadapt⟩⟩ :=
        takeFeedback_ok hf
      · exact h
      · obtain ⟨-, hserves⟩ := h.streams _ s hs
        rw [show r' = (r.adapt g s link' d.header.sender now).1 from congrArg Prod.fst hadapt]
        refine h.of_sameSeats (adapt_sameSeats _ _ _ _ _ _) ?_ ?_
        · intro id
          rw [Table.contains, adapt_get?, hserves.name]
          by_cases hid : id = message.stream
          · simp [hid, Table.contains, hs]
          · simp [hid, Table.contains]
        · intro id s₁ s₂ hs₁ hs₂ hserves₁
          rw [adapt_get?, hserves.name] at hs₂
          by_cases hid : id = message.stream
          · subst hid
            rw [if_pos rfl] at hs₂
            cases hs₂
            have hreceiver : link'.receiver = d.header.sender :=
              hintake.receiver.trans (hserves.receiver_eq hl)
            refine hserves.of_links hserves.name.symm rfl hserves.history fun p => ?_
            by_cases hp : p = d.header.sender
            · simp [Stream.asked, hp, hl, hreceiver, hserves.receiver_eq hl]
            · simp [Stream.asked, Table.get?_insert_of_ne _ _ hp]
          · rw [if_neg hid, hs₁] at hs₂
            cases hs₂
            exact hserves₁

theorem tick (h : r.Coherent) (g : Hysteresis F) (now : Time) : (r.tick g now).1.Coherent := by
  have hget (id : StreamId) := tickStreams_get? r g now r.routing.subscribers.keys_nodup id
  refine h.of_sameSeats (tick_sameSeats r g now) ?_ ?_
  · intro id
    show ((r.tickStreams g now _).1.streams.get? id).isSome = _
    rw [hget]
    split
    · simp [Table.contains]
    · rfl
  · intro id s s' hs hs' hserves
    change (r.tickStreams g now _).1.streams.get? id = some s' at hs'
    rw [hget, hs] at hs'
    split at hs'
    · cases hs'
      refine hserves.of_links rfl rfl hserves.history fun p => ?_
      rw [Stream.tick_link, Option.map_map]
      congr 1
      funext link
      exact Downlink.retarget_receiver _ _ _
    · cases hs'
      exact hserves

end Coherent

/-- What can happen to a room. -/
inductive Op (F : Type)
  | signal (act : Event.Act)
  | touch (participant : ParticipantId) (source : Endpoint)
  | forward (h : Hysteresis F) (d : Datagram) (raw : Bytes)
  | takeFeedback (h : Hysteresis F) (d : Datagram) (raw : Bytes)
  | tick (h : Hysteresis F)

variable [Arithmetic F]

def signal (r : Room F) (now : Time) : Event.Act → Room F
  | .join participant role version => (r.join participant role version now).1
  | .leave participant => (r.leave participant).1
  | .negotiate stream offer => (r.negotiate stream.sender stream.kind offer now).1
  | .subscribe receiver stream => (r.subscribe receiver stream now).1
  | .unsubscribe receiver stream => (r.unsubscribe receiver stream).1
  | .setMuted receiver sender muted => (r.setMuted receiver sender muted).1
  | .setDeafened participant deafened => (r.setDeafened participant deafened).1

def perform (r : Room F) (now : Time) : Op F → Room F
  | .signal act => r.signal now act
  | .touch participant source => (r.touch participant source now).1
  | .forward h d raw => (r.forward h d raw now).1
  | .takeFeedback h d raw => (r.takeFeedback h d raw now).1
  | .tick h => (r.tick h now).1

def run (r : Room F) : List (Time × Op F) → Room F
  | [] => r
  | (now, op) :: rest => run (r.perform now op) rest

namespace Coherent

variable {r : Room F}

theorem signal (h : r.Coherent) (now : Time) (act : Event.Act) : (r.signal now act).Coherent := by
  cases act with
  | join participant role version => exact h.join participant role version now
  | leave participant => exact h.leave participant
  | negotiate stream offer => exact h.negotiate stream.sender stream.kind offer now
  | subscribe receiver stream => exact h.subscribe receiver stream now
  | unsubscribe receiver stream => exact h.unsubscribe receiver stream
  | setMuted receiver sender muted => exact h.setMuted receiver sender muted
  | setDeafened participant deafened => exact h.setDeafened participant deafened

theorem perform (h : r.Coherent) (now : Time) (op : Op F) : (r.perform now op).Coherent := by
  cases op with
  | signal act => exact h.signal now act
  | touch participant source => exact h.touch participant source now
  | forward g d raw => exact h.forward g d raw now
  | takeFeedback g d raw => exact h.takeFeedback g d raw now
  | tick g => exact h.tick g now

theorem run (h : r.Coherent) (ops : List (Time × Op F)) : (r.run ops).Coherent := by
  induction ops generalizing r with
  | nil => exact h
  | cons op rest ih => exact ih (h.perform op.1 op.2)

end Coherent

end MediaRelay.Room
