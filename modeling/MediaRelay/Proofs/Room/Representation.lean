import MediaRelay.Proofs.Room.Operations

/-!
What the tables of a room say about each other, written out in `Room.WellFormed`, and when a room
is closed: exactly when it had members once and has none now.
-/

namespace MediaRelay.Room

variable {F : Type}

/-- What holds of the role of a member, said of its entry in the table. -/
theorem exists_role_iff {r : Room F} {p : ParticipantId} {P : Role → Prop} :
    (∃ role, r.roleOf? p = some role ∧ P role) ↔ ∃ m, r.members.get? p = some m ∧ P m.role := by
  simp only [roleOf?, Option.map_eq_some_iff]
  constructor
  · rintro ⟨_, ⟨m, hm, rfl⟩, hrole⟩
    exact ⟨m, hm, hrole⟩
  · rintro ⟨m, hm, hrole⟩
    exact ⟨_, ⟨m, hm, rfl⟩, hrole⟩

/-- The tables of a room agree. -/
structure WellFormed (r : Room F) : Prop where
  subscriptions : ∀ id set, r.subscriptions.get? id = some set →
    set.isEmpty = false ∧
      (∃ m, r.members.get? id.sender = some m ∧ m.role.send.allows id.kind) ∧
      ∀ p, set.contains p →
        p ≠ id.sender ∧ ∃ m, r.members.get? p = some m ∧ m.role.receive.allows id.kind
  streams : ∀ id s, r.streams.get? id = some s →
    s.id = id ∧ s.graph.kind = id.kind ∧
      ∃ m, r.members.get? id.sender = some m ∧ m.role.send.allows id.kind
  links : ∀ id s, r.streams.get? id = some s →
    s.links.keys = (r.receivers id).keys ∧
      ∀ p link, s.links.get? p = some link → link.receiver = p
  muted : ∀ p m, r.members.get? p = some m → ∀ q, m.muted.contains q → r.members.contains q
  presence : r.presence.keys = r.members.keys
  routing : r.routing = r.currentRouting

theorem Coherent.wellFormed {r : Room F} (h : r.Coherent) : r.WellFormed := by
  refine ⟨fun id set hset => ?_, fun id s hs => ?_, fun id s hs => ?_, fun p m hm q => ?_, ?_,
    h.routing⟩
  · have hreceivers : r.receivers id = set := by rw [receivers, hset, Option.getD_some]
    obtain ⟨first, hfirst⟩ := h.occupied id set hset
    obtain ⟨-, -, hsend⟩ := h.subscribed id first (hreceivers ▸ hfirst)
    refine ⟨?_, exists_role_iff.mp hsend, fun p hp => ?_⟩
    · rw [Bool.eq_false_iff]
      intro hempty
      simp [Table.contains, Table.isEmpty_iff.mp hempty first] at hfirst
    · obtain ⟨hne, hreceive, -⟩ := h.subscribed id p (hreceivers ▸ hp)
      exact ⟨hne, exists_role_iff.mp hreceive⟩
  · obtain ⟨hsend, hserves⟩ := h.streams id s hs
    exact ⟨hserves.name, hserves.kind, exists_role_iff.mp hsend⟩
  · obtain ⟨-, hserves⟩ := h.streams id s hs
    refine ⟨Table.keys_eq_of_contains fun p => ?_, fun p link hl => hserves.receiver_eq hl⟩
    rw [Bool.eq_iff_iff]
    exact hserves.contains_iff p
  · exact h.muted p m q hm
  · exact Table.keys_eq_of_contains h.presence

theorem Coherent.vacant {r : Room F} (h : r.Coherent) (hvacant : r.members.isEmpty) :
    r.streams = ∅ ∧ r.subscriptions = ∅ ∧ r.presence = ∅ := by
  have hnobody (p : ParticipantId) : r.members.contains p = false := by
    rw [Table.contains, Table.isEmpty_iff.mp hvacant p]
    rfl
  refine ⟨Table.ext_get? fun id => ?_, Table.ext_get? fun id => ?_, Table.ext_get? fun p => ?_⟩
  · cases hs : r.streams.get? id with
    | none => rfl
    | some s => simpa [hnobody] using (h.streams id s hs).1.member
  · cases hset : r.subscriptions.get? id with
    | none => rfl
    | some set =>
      obtain ⟨p, hp⟩ := h.occupied id set hset
      have hsend := (h.subscribed id p (by rwa [receivers, hset])).2.2
      simpa [hnobody] using hsend.member
  · have hp := h.presence p
    rw [hnobody] at hp
    exact Option.not_isSome_iff_eq_none.mp (Bool.eq_false_iff.mp hp)

/-- No member leaves, and the room does not close. -/
structure Retains (r r' : Room F) : Prop where
  closed : r'.closed = r.closed
  members : ∀ q, r.members.contains q → r'.members.contains q

theorem Retains.of_members {r r' : Room F} (hclosed : r'.closed = r.closed)
    (hmembers : r'.members = r.members) : r.Retains r' :=
  ⟨hclosed, fun _ hq => hmembers ▸ hq⟩

theorem Retains.of_insert {r r' : Room F} {p : ParticipantId} {m : Member}
    (hclosed : r'.closed = r.closed) (hmembers : r'.members = r.members.insert p m) :
    r.Retains r' :=
  ⟨hclosed, fun _ hq => hmembers ▸ Table.contains_insert.mpr (.inr hq)⟩

theorem SameSeats.retains {r r' : Room F} (h : r.SameSeats r') : r.Retains r' :=
  .of_members h.closed h.members

variable [Arithmetic F]

/-- Only leaving takes members away. -/
theorem signal_retains (r : Room F) (now : Time) (act : Event.Act) :
    (∃ p, r.members.contains p ∧ r.signal now act = r.without p) ∨
      r.Retains (r.signal now act) := by
  cases act with
  | leave p =>
    obtain ⟨-, refusal, hleave⟩ | ⟨hp, hleave⟩ := r.leave_cases p
    · exact .inr (by rw [signal, hleave]; exact .of_members rfl rfl)
    · exact .inl ⟨p, hp, by rw [signal, hleave]⟩
  | join p role version =>
    refine .inr ?_
    obtain ⟨refusal, hjoin⟩ | ⟨-, -, -, -, hjoin⟩ := r.join_cases p role version now
    · rw [signal, hjoin]
      exact .of_members rfl rfl
    · rw [signal, hjoin]
      exact .of_insert rfl rfl
  | negotiate stream offer =>
    refine .inr ?_
    obtain ⟨refusal, hneg⟩ | ⟨_, _, -, -, -, -, ⟨_, -, hneg⟩ | ⟨-, -, hneg⟩⟩ :=
      r.negotiate_cases stream.sender stream.kind offer now
    all_goals
      rw [signal, hneg]
      exact .of_members rfl rfl
  | subscribe p stream =>
    refine .inr ?_
    obtain ⟨refusal, hsub⟩ | ⟨_, _, -, -, -, -, -, -, ⟨-, hsub⟩ | ⟨-, hsub⟩⟩ :=
      r.subscribe_cases p stream now
    all_goals
      rw [signal, hsub]
      exact .of_members rfl rfl
  | unsubscribe p stream =>
    refine .inr ?_
    obtain ⟨refusal, hun⟩ | ⟨-, hun⟩ := r.unsubscribe_cases p stream
    all_goals
      rw [signal, hun]
      exact .of_members rfl rfl
  | setMuted receiver sender muted =>
    refine .inr ?_
    obtain ⟨refusal, hset⟩ | ⟨m, -, -, hset⟩ := r.setMuted_cases receiver sender muted
    · rw [signal, hset]
      exact .of_members rfl rfl
    · rw [signal, hset]
      exact .of_insert rfl rfl
  | setDeafened p deafened =>
    refine .inr ?_
    obtain ⟨refusal, hset⟩ | ⟨m, -, hset⟩ := r.setDeafened_cases p deafened
    · rw [signal, hset]
      exact .of_members rfl rfl
    · rw [signal, hset]
      exact .of_insert rfl rfl

theorem perform_retains (r : Room F) (now : Time) (op : Op F) :
    (∃ p, r.members.contains p ∧ r.perform now op = r.without p) ∨
      r.Retains (r.perform now op) := by
  cases op with
  | signal act => exact r.signal_retains now act
  | touch p source =>
    refine .inr ?_
    obtain ⟨-, ht⟩ | ⟨-, ht⟩ := r.touch_cases p source now
    all_goals
      rw [perform, ht]
      exact .of_members rfl rfl
  | forward h d raw => exact .inr (r.forward_sameSeats h d raw now).retains
  | takeFeedback h d raw => exact .inr (r.takeFeedback_sameSeats h d raw now).retains
  | tick h => exact .inr (r.tick_sameSeats h now).retains

theorem Coherent.perform_closed_iff {r : Room F} (h : r.Coherent) (now : Time) (op : Op F) :
    (r.perform now op).closed ↔
      (r.closed ∨ r.members.isEmpty = false) ∧ (r.perform now op).members.isEmpty := by
  have hvacant := (h.perform now op).closed
  obtain ⟨p, hp, hleft⟩ | hretains := r.perform_retains now op
  · have hoccupied : r.members.isEmpty = false := Table.isEmpty_eq_false hp
    rw [hleft]
    exact ⟨fun hc => ⟨.inr hoccupied, hc⟩, fun hc => hc.2⟩
  · rw [hretains.closed] at hvacant ⊢
    refine ⟨fun hc => ⟨.inl hc, hvacant hc⟩, fun ⟨hbefore, hnow⟩ => ?_⟩
    refine hbefore.resolve_right fun hoccupied => ?_
    obtain ⟨q, hq⟩ := Table.exists_contains hoccupied
    rw [Table.isEmpty_eq_false (hretains.members q hq)] at hnow
    cases hnow

/-- The room has members at some point of the run, its ends included. -/
def OnceOccupied (r : Room F) (ops : List (Time × Op F)) : Prop :=
  ∃ before, before <+: ops ∧ (r.run before).members.isEmpty = false

theorem onceOccupied_nil {r : Room F} : r.OnceOccupied [] ↔ r.members.isEmpty = false := by
  simp [OnceOccupied, run]

theorem onceOccupied_cons {r : Room F} {now : Time} {op : Op F} {rest : List (Time × Op F)} :
    r.OnceOccupied ((now, op) :: rest) ↔
      r.members.isEmpty = false ∨ (r.perform now op).OnceOccupied rest := by
  constructor
  · rintro ⟨before, hprefix, hoccupied⟩
    obtain rfl | ⟨before, rfl, hrest⟩ := List.prefix_cons_iff.mp hprefix
    · exact .inl hoccupied
    · exact .inr ⟨before, hrest, hoccupied⟩
  · rintro (hoccupied | ⟨before, hrest, hoccupied⟩)
    · exact ⟨[], List.nil_prefix, hoccupied⟩
    · exact ⟨(now, op) :: before, List.prefix_cons_iff.mpr (.inr ⟨before, rfl, hrest⟩), hoccupied⟩

theorem OnceOccupied.of_now {r : Room F} (h : r.members.isEmpty = false)
    (ops : List (Time × Op F)) : r.OnceOccupied ops :=
  ⟨[], List.nil_prefix, h⟩

/-- A closed room stays closed, and an open one closes when its last member leaves. -/
theorem Coherent.run_closed_iff {r : Room F} (h : r.Coherent) (ops : List (Time × Op F)) :
    (r.run ops).closed ↔ (r.closed ∨ r.OnceOccupied ops) ∧ (r.run ops).members.isEmpty := by
  induction ops generalizing r with
  | nil =>
    refine ⟨fun hc => ⟨.inl hc, h.closed hc⟩, fun ⟨hbefore, hnow⟩ => ?_⟩
    refine hbefore.resolve_right fun hoccupied => ?_
    exact Bool.false_ne_true ((onceOccupied_nil.mp hoccupied).symm.trans hnow)
  | cons step rest ih =>
    obtain ⟨now, op⟩ := step
    have hstep := h.perform_closed_iff now op
    rw [Room.run, ih (h.perform now op), onceOccupied_cons]
    refine and_congr_left fun _ => ?_
    constructor
    · rintro (hclosed | hoccupied)
      · exact (hstep.mp hclosed).1.imp_right .inl
      · exact .inr (.inr hoccupied)
    · -- a room that is occupied after the step need not be closed by it
      have hafter (hbefore : r.closed ∨ r.members.isEmpty = false) :
          (r.perform now op).closed ∨ (r.perform now op).OnceOccupied rest := by
        cases hvacant : (r.perform now op).members.isEmpty with
        | true => exact .inl (hstep.mpr ⟨hbefore, hvacant⟩)
        | false => exact .inr (.of_now hvacant rest)
      rintro (hclosed | hoccupied | hoccupied)
      · exact hafter (.inl hclosed)
      · exact hafter (.inr hoccupied)
      · exact .inr hoccupied

theorem run_start_wellFormed (id : RoomId) (version : UInt8) (terms : Terms F)
    (ops : List (Time × Op F)) :
    let r := (start id version terms).run ops
    r.WellFormed ∧
      (r.closed ↔ (start id version terms).OnceOccupied ops ∧ r.members.isEmpty) ∧
      (r.closed → r.streams = ∅ ∧ r.subscriptions = ∅ ∧ r.presence = ∅) := by
  intro r
  have hstart := coherent_start id version terms
  have hr : r.Coherent := hstart.run ops
  refine ⟨hr.wellFormed, ?_, fun hclosed => hr.vacant (hr.closed hclosed)⟩
  rw [hstart.run_closed_iff ops]
  exact and_congr_left fun _ => or_iff_right Bool.false_ne_true

end MediaRelay.Room
