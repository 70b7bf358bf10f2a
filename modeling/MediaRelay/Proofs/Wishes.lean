import Mathlib.Data.List.Induction
import MediaRelay.Proofs.Room.Wishes
import MediaRelay.Proofs.Spacing

/-!
Who waits for a keyframe. Only layered streams want one. A stream with no receivers wants one just
if its last receivers went while they waited and nothing has ended the wish since
(`Relay.LeftOver`). The next tick asks for it all the same (`Relay.run_wanted_iff_left_over`).
-/

namespace MediaRelay

variable {F : Type} [Arithmetic F]

section Layered

variable {h : Hysteresis F} {g : LayerGraph}

/-- Without layers there is nothing to aim at. -/
theorem Hysteresis.desired_eq_none (hg : g.isLayered = false) (estimate : Nat)
    (reference : Option Layer) : h.desired g estimate reference = none := by
  have hlisted : g.listed = [] := by
    have hempty : g.layers.isEmpty := by simpa [LayerGraph.isLayered] using hg
    rw [LayerGraph.listed, Table.keys, List.isEmpty_iff.mp hempty, List.map_nil]
  have hnone : reference.bind g.spec? = none := by
    cases reference <;> simp [LayerGraph.spec?, hlisted]
  simp [Hysteresis.desired, LayerGraph.lowest?, hlisted, hnone]

theorem Downlink.isLayered_of_wantsKeyframe (link : Downlink F)
    (hwants : (link.retarget h g).2.wantsKeyframe) : g.isLayered := by
  rw [← Bool.not_eq_false]
  intro hg
  rw [Downlink.retarget, Hysteresis.desired_eq_none hg] at hwants
  cases hwants

/-- Only layered streams want a keyframe. -/
theorem Stream.inductive_layered (settings : Settings F) :
    Stream.Inductive settings fun s => s.keyframeWanted → s.graph.isLayered where
  start _ _ _ _ := nofun
  addLink s now p hs hwanted := by
    obtain hwanted | hlayered := Bool.or_eq_true_iff.mp hwanted
    · exact hs hwanted
    · exact hlayered
  dropLink _ _ hs := hs
  renegotiate s graph _ _ hwanted := (Bool.and_eq_true_iff.mp hwanted).1
  noted _ _ _ _ _ _ hs := hs
  passed r d raw now s receivers s' receivers' step _ hpass hs hwanted := by
    rw [show (s'.accept step receivers').1.graph = s.graph from hpass.same_graph]
    exact hs (hpass.same_wish ▸ hwanted)
  adapted s p link now body link' isOpen _ _ hs hwanted := by
    obtain hwanted | hwants := Bool.or_eq_true_iff.mp (Bool.and_eq_true_iff.mp hwanted).1
    · exact hs hwanted
    · exact link'.isLayered_of_wantsKeyframe hwants
  ticked s now isOpen hs hwanted := by
    obtain hwanted | hwants := Bool.or_eq_true_iff.mp (Bool.and_eq_true_iff.mp hwanted).1
    · exact hs hwanted
    · obtain ⟨_, hmem, hwants⟩ := List.any_eq_true.mp hwants
      simp only [Table.values, Table.map, List.map_map, List.mem_map] at hmem
      obtain ⟨e, -, rfl⟩ := hmem
      exact (e.2.tick now).isLayered_of_wantsKeyframe hwants

end Layered

namespace Relay

variable {r : Relay F} {now : Time} {room : RoomId} {id : StreamId} {within : Room F}
  {s s' : Stream F} {input : Input}

/-- Whether a keyframe of the stream is wanted, if there is the stream. -/
def wish? (r : Relay F) (room : RoomId) (id : StreamId) : Option Bool :=
  (r.stream? room id).map (·.keyframeWanted)

/-- The input gives the stream a new graph. -/
def Renegotiates (r : Relay F) (now : Time) (room : RoomId) (id : StreamId) (input : Input) :
    Prop :=
  ∃ offer, input = .event ⟨room, .negotiate id offer⟩ ∧
    (r.apply ⟨room, .negotiate id offer⟩ now).2 = .ok ()

theorem not_renegotiates (hinput : ∀ e, input ≠ .event e) : ¬r.Renegotiates now room id input := by
  rintro ⟨offer, heq, -⟩
  exact hinput _ heq

/-- The step neither asks for a keyframe of the stream nor gives it a new graph. -/
structure Overlooks (r : Relay F) (now : Time) (room : RoomId) (id : StreamId) (input : Input) :
    Prop where
  unasked : (r.step now input).2.any (·.asksFor room id) = false
  kept : ¬r.Renegotiates now room id input

namespace Reachable

theorem overlooks_iff (h : r.Reachable) : r.Overlooks now room id input ↔
    ⟨id, .keyframeRequest⟩ ∉ r.due now room input ∧ ¬r.Renegotiates now room id input := by
  rw [← h.any_asksFor, Bool.not_eq_true]
  exact ⟨fun hover => ⟨hover.unasked, hover.kept⟩, fun hover => ⟨hover.1, hover.2⟩⟩

theorem negotiation_bare (h : r.Reachable) (hroom : r.directory.room? room = some within)
    {stream : StreamId} {offer : Offer}
    (hs' : (within.negotiate stream.sender stream.kind offer now).1.streams.get? id = some s')
    (hbare : s'.links.isEmpty) :
    s'.keyframeWanted ↔ within.wish? id = some true ∧
      r.Overlooks now room id (.event ⟨room, .negotiate stream offer⟩) := by
  have hanswer : (r.apply ⟨room, .negotiate stream offer⟩ now).2 =
      done (within.negotiate stream.sender stream.kind offer now).2 := by
    simp only [apply, act, Directory.within, hroom]
  have hgiven : r.Renegotiates now room id (.event ⟨room, .negotiate stream offer⟩) ↔
      stream = id ∧ done (within.negotiate stream.sender stream.kind offer now).2 = .ok () := by
    rw [← hanswer]
    constructor
    · rintro ⟨_, ⟨⟩, hok⟩
      exact ⟨rfl, hok⟩
    · rintro ⟨rfl, hok⟩
      exact ⟨offer, rfl, hok⟩
  rw [Room.negotiate_bare hs' hbare, h.overlooks_iff, hgiven]
  exact and_congr_right fun _ => (and_iff_right List.not_mem_nil).symm

/-- What a tick does for a stream that it leaves without receivers. -/
theorem tick_bare (h : r.Reachable) (hroom : r.directory.room? room = some within)
    (hs' : (r.step now .tick).1.stream? room id = some s') (hbare : s'.links.isEmpty) :
    ∃ wanted, within.wish? id = some wanted ∧
      s'.keyframeWanted = (wanted && !within.keyframes.isOpen id now) ∧
      (⟨id, .keyframeRequest⟩ ∈ r.due now room .tick ↔
        wanted ∧ within.keyframes.isOpen id now) := by
  obtain ⟨after, hafter, hs'⟩ := stream?_eq_some_iff.mp hs'
  have hticked := room?_tick h.sound now hroom
  obtain ⟨-, rfl⟩ := Room.unlessClosed_eq_some_iff.mp (hticked.symm.trans hafter)
  rw [due, hroom]
  exact (h.sound _ _ hroom).tick_bare hs' hbare

/-- Other events, and datagrams, leave the wish of a stream that nobody receives then. -/
theorem event_bare (h : r.Reachable) (hroom : r.directory.room? room = some within) {e : Event}
    (hother : ∀ stream offer, e ≠ ⟨room, .negotiate stream offer⟩)
    (hs' : (r.step now (.event e)).1.stream? room id = some s') (hbare : s'.links.isEmpty) :
    within.wish? id = some s'.keyframeWanted ∧
      r.Overlooks now room id (.event e) := by
  obtain ⟨after, hafter, hs'⟩ := stream?_eq_some_iff.mp hs'
  obtain ⟨_, hevolves, hstep⟩ := step_room h.sound now (.event e) hroom
  obtain ⟨-, rfl⟩ := Room.unlessClosed_eq_some_iff.mp (hstep.symm.trans hafter)
  refine ⟨?_, h.overlooks_iff.mpr ⟨List.not_mem_nil, ?_⟩⟩
  · cases hevolves with
    | idle => exact Room.wish?_of_get? hs'
    | signaled act _ _ =>
      exact Room.signal_bare (fun stream offer hact => hother stream offer (by rw [hact])) hs' hbare
  · rintro ⟨offer, heq, -⟩
    exact hother id offer (Input.event.inj heq)

theorem datagram_bare (h : r.Reachable) (hroom : r.directory.room? room = some within)
    {raw : Bytes} {source : Endpoint}
    (hs' : (r.step now (.datagram raw source)).1.stream? room id = some s')
    (hbare : s'.links.isEmpty) :
    within.wish? id = some s'.keyframeWanted ∧
      r.Overlooks now room id (.datagram raw source) := by
  obtain ⟨after, hafter, hs'⟩ := stream?_eq_some_iff.mp hs'
  have hkept := h.sound _ _ hroom
  rw [h.overlooks_iff, and_iff_left (not_renegotiates fun _ heq => by cases heq)]
  obtain ⟨d, hdecode, hid, -, hstep⟩ | ⟨hstep, hothers⟩ :=
    room?_datagram h.sound hroom raw source now
  · obtain rfl := Option.some.inj (hstep.symm.trans hafter)
    obtain ⟨hdue, hwish⟩ := hkept.handle_bare hs' hbare
    refine ⟨hwish, ?_⟩
    rw [due, hdecode, hroom]
    simpa only [if_pos hid] using hdue
  · obtain rfl := Option.some.inj (hstep.symm.trans hafter)
    refine ⟨Room.wish?_of_get? hs', ?_⟩
    rw [due_of_unheard hkept hroom hothers]
    exact List.not_mem_nil

/-- A stream without receivers wants a keyframe after a step if it wanted one before it and the step
overlooks it. -/
theorem step_bare (h : r.Reachable) (hs' : (r.step now input).1.stream? room id = some s')
    (hbare : s'.links.isEmpty) :
    s'.keyframeWanted ↔
      r.wish? room id = some true ∧ r.Overlooks now room id input := by
  obtain ⟨after, hafter, hstream⟩ := stream?_eq_some_iff.mp hs'
  cases hroom : r.directory.room? room with
  | none =>
    obtain ⟨p, role, -, rfl⟩ := step_new_room h.sound now input hroom hafter
    rw [Room.join_streams] at hstream
    cases hstream
  | some within =>
    have hwish : r.wish? room id = within.wish? id := by
      rw [wish?, stream?, hroom, Option.bind_some, Room.wish?]
    have hstays (hlaw : within.wish? id = some s'.keyframeWanted ∧
        r.Overlooks now room id input) :
        s'.keyframeWanted ↔ within.wish? id = some true ∧ r.Overlooks now room id input := by
      rw [hlaw.1, Option.some.injEq]
      exact (and_iff_left hlaw.2).symm
    rw [hwish]
    cases input with
    | event e =>
      by_cases hnegotiates : ∃ stream offer, e = ⟨room, .negotiate stream offer⟩
      · obtain ⟨stream, offer, rfl⟩ := hnegotiates
        have hthere := Directory.within_room? r.directory room
          (fun room => room.negotiate stream.sender stream.kind offer now) room
        rw [if_pos rfl, hroom] at hthere
        obtain rfl := Option.some.inj (hthere.symm.trans hafter)
        exact h.negotiation_bare hroom hstream hbare
      · exact hstays (h.event_bare hroom (fun stream offer heq => hnegotiates ⟨stream, offer, heq⟩)
          hs' hbare)
    | datagram raw source => exact hstays (h.datagram_bare hroom hs' hbare)
    | tick =>
      obtain ⟨wanted, hwanted, hleft, hasked⟩ := h.tick_bare hroom hs' hbare
      rw [h.overlooks_iff, and_iff_left (not_renegotiates fun _ heq => by cases heq), hasked, hleft,
        hwanted]
      cases wanted <;> simp

end Reachable

/-- Receivers of the stream went while they waited for a keyframe. Nobody receives it since, and no
step has asked for one or given the stream a new graph. -/
inductive LeftOver (r : Relay F) (room : RoomId) (id : StreamId) : List (Time × Input) → Prop
  | went {before : List (Time × Input)} {now : Time} {input : Input} {s s' : Stream F}
      (hs : (r.run before).stream? room id = some s) (hwanted : s.keyframeWanted)
      (hreceived : ¬s.links.isEmpty)
      (hs' : ((r.run before).step now input).1.stream? room id = some s')
      (hbare : s'.links.isEmpty) (hover : (r.run before).Overlooks now room id input) :
    LeftOver r room id (before ++ [(now, input)])
  | stays {before : List (Time × Input)} {now : Time} {input : Input} {s' : Stream F}
      (hleft : LeftOver r room id before)
      (hs' : ((r.run before).step now input).1.stream? room id = some s')
      (hbare : s'.links.isEmpty) (hover : (r.run before).Overlooks now room id input) :
    LeftOver r room id (before ++ [(now, input)])

variable {inputs : List (Time × Input)}

theorem LeftOver.bare (h : LeftOver r room id inputs) :
    ∃ s, (r.run inputs).stream? room id = some s ∧ s.links.isEmpty := by
  cases h with
  | went _ _ _ hs' hbare _ => exact ⟨_, run_concat r .. ▸ hs', hbare⟩
  | stays _ hs' hbare _ => exact ⟨_, run_concat r .. ▸ hs', hbare⟩

theorem leftOver_concat
    (hs' : ((r.run inputs).step now input).1.stream? room id = some s') (hbare : s'.links.isEmpty) :
    LeftOver r room id (inputs ++ [(now, input)]) ↔
      ((∃ s, (r.run inputs).stream? room id = some s ∧ s.keyframeWanted ∧ ¬s.links.isEmpty) ∨
        LeftOver r room id inputs) ∧ (r.run inputs).Overlooks now room id input := by
  constructor
  · generalize hall : inputs ++ [(now, input)] = all
    intro h
    cases h with
    | went hs hwanted hreceived _ _ hover =>
      obtain ⟨rfl, heq⟩ := List.append_singleton_inj.mp hall
      cases heq
      exact ⟨.inl ⟨_, hs, hwanted, hreceived⟩, hover⟩
    | stays hleft _ _ hover =>
      obtain ⟨rfl, heq⟩ := List.append_singleton_inj.mp hall
      cases heq
      exact ⟨.inr hleft, hover⟩
  · rintro ⟨⟨s, hs, hwanted, hreceived⟩ | hleft, hover⟩
    · exact .went hs hwanted hreceived hs' hbare hover
    · exact .stays hleft hs' hbare hover

/-- In a run from the start, a stream that nobody receives wants a keyframe if the wish is left
over. -/
theorem wanted_iff_left_over (settings : Settings F)
    (hs : ((start settings).run inputs).stream? room id = some s) (hbare : s.links.isEmpty) :
    s.keyframeWanted ↔ LeftOver (start settings) room id inputs := by
  -- from the end of the run: a wish comes out of the last step only if it was there before, either
  -- with receivers, who went in this step, or without
  induction inputs using List.reverseRecOn generalizing s with
  | nil => cases hs
  | append_singleton before last ih =>
    obtain ⟨now, input⟩ := last
    rw [run_concat] at hs
    have hreachable : ((start settings).run before).Reachable :=
      (Reachable.start settings).run before
    rw [hreachable.step_bare hs hbare, leftOver_concat hs hbare, wish?, Option.map_eq_some_iff]
    refine and_congr_left fun _ => ⟨?_, ?_⟩
    · rintro ⟨t, ht, hwanted⟩
      by_cases hempty : t.links.isEmpty
      · exact .inr ((ih ht hempty).mp hwanted)
      · exact .inl ⟨t, ht, hwanted, hempty⟩
    · rintro (⟨t, ht, hwanted, -⟩ | hleft)
      · exact ⟨t, ht, hwanted⟩
      · obtain ⟨t, ht, hempty⟩ := hleft.bare
        exact ⟨t, ht, (ih ht hempty).mpr hleft⟩

/-- In every run only layered streams want a keyframe, and one that nobody receives wants it if the
wish is left over. A tick that finds or leaves a stream without receivers asks for its keyframe all
the same, if one is wanted and the gate is open. -/
theorem run_wanted_iff_left_over (settings : Settings F)
    (hroom : ((start settings).run inputs).directory.room? room = some within)
    (hs : within.streams.get? id = some s) :
    let r := (start settings).run inputs
    (s.keyframeWanted → s.graph.isLayered) ∧
      (s.links.isEmpty → (s.keyframeWanted ↔ LeftOver (start settings) room id inputs)) ∧
      ∀ now s', (r.step now .tick).1.stream? room id = some s' → s'.links.isEmpty →
        ((r.step now .tick).2.any (·.asksFor room id) ↔
          s.keyframeWanted ∧ within.keyframes.isOpen id now) := by
  intro r
  have hr : r.Reachable := (Reachable.start settings).run inputs
  have hstream : r.stream? room id = some s := stream?_eq_some_iff.mpr ⟨within, hroom, hs⟩
  refine ⟨?_, wanted_iff_left_over settings hstream, fun now s' hs' hbare => ?_⟩
  · exact hr.stream_invariant (Stream.inductive_layered r.settings) hstream
  · obtain ⟨wanted, hwanted, -, hasked⟩ := hr.tick_bare hroom hs' hbare
    obtain rfl := Option.some.inj ((Room.wish?_of_get? hs).symm.trans hwanted)
    rw [hr.any_asksFor]
    exact hasked

/-- A receiver comes and goes again before a tick: the wish is left over, and the tick asks. -/
theorem run_wanted_passing_receiver :
    let video : StreamId := ⟨⟨1⟩, .video⟩
    let inputs : List (Time × Input) :=
      [(0, .event ⟨⟨7⟩, .join ⟨1⟩ .all protocolVersion⟩),
        (0, .event ⟨⟨7⟩, .join ⟨2⟩ .all protocolVersion⟩),
        (0, .event ⟨⟨7⟩, .negotiate video ⟨.vp9, [⟨.base, 200000⟩], []⟩⟩),
        (0, .event ⟨⟨7⟩, .subscribe ⟨2⟩ video⟩), (0, .event ⟨⟨7⟩, .unsubscribe ⟨2⟩ video⟩)]
    let settings : Settings Rat := Settings.small
    let r := (start settings).run inputs
    ∃ within s, r.directory.room? ⟨7⟩ = some within ∧ within.streams.get? video = some s ∧
      s.links.isEmpty ∧ s.graph.isLayered ∧ LeftOver (start settings) ⟨7⟩ video inputs ∧
      (r.step 100000 .tick).2.any (·.asksFor ⟨7⟩ video) := by
  intro video inputs settings r
  obtain ⟨within, hroom, hopen⟩ : ∃ within, r.directory.room? ⟨7⟩ = some within ∧
      within.keyframes.isOpen video 100000 = true :=
    Option.map_eq_some_iff.mp (by decide +kernel)
  obtain ⟨s, hs, hstate⟩ : ∃ s, r.stream? ⟨7⟩ video = some s ∧
      (s.keyframeWanted, s.links.isEmpty) = (true, true) :=
    Option.map_eq_some_iff.mp (by decide +kernel)
  obtain ⟨s', hs', hbare⟩ : ∃ s', (r.step 100000 .tick).1.stream? ⟨7⟩ video = some s' ∧
      s'.links.isEmpty = true :=
    Option.map_eq_some_iff.mp (by decide +kernel)
  obtain ⟨hwanted, hempty⟩ := Prod.mk.inj hstate
  obtain ⟨_, hsame, hs⟩ := stream?_eq_some_iff.mp hs
  obtain rfl := Option.some.inj (hroom.symm.trans hsame)
  obtain ⟨hlayered, hleft, htick⟩ := run_wanted_iff_left_over settings hroom hs
  exact ⟨within, s, hroom, hs, hempty, hlayered hwanted, (hleft hempty).mp hwanted,
    (htick 100000 s' hs' hbare).mpr ⟨hwanted, hopen⟩⟩

/-- A stream can want a keyframe that nobody waits for, and have it asked for. -/
theorem wanted_without_receivers :
    let video : StreamId := ⟨⟨1⟩, .video⟩
    let r := (start (Settings.small : Settings Rat)).run
      [(0, .event ⟨⟨7⟩, .join ⟨1⟩ .all protocolVersion⟩),
        (0, .event ⟨⟨7⟩, .join ⟨2⟩ .all protocolVersion⟩),
        (0, .event ⟨⟨7⟩, .negotiate video ⟨.vp9, [⟨.base, 200000⟩], []⟩⟩),
        (0, .event ⟨⟨7⟩, .subscribe ⟨2⟩ video⟩), (0, .event ⟨⟨7⟩, .unsubscribe ⟨2⟩ video⟩)]
    (r.stream? ⟨7⟩ video).map (fun s => (s.keyframeWanted, s.links.isEmpty)) = some (true, true) ∧
      (r.step 100000 .tick).2.any (·.asksFor ⟨7⟩ video) := by
  decide +kernel

end Relay

end MediaRelay
