import MediaRelay.Proofs.Attribution
import MediaRelay.Proofs.Invariant

/-!
Versions of layer graphs. Only a negotiation changes the graphs of a room (`Room.SameGraphs`), and it
hands out the next number; so the numbers handed out since the room was made are 1, 2, 3 and so on,
and no two streams have the same one.
-/

namespace MediaRelay

variable {F : Type}

namespace Room

/-- No graph is new; streams may be gone. -/
structure SameGraphs (r r' : Room F) : Prop where
  versions : r'.graphVersions = r.graphVersions
  graphs : ∀ id s', r'.streams.get? id = some s' →
    ∃ s, r.streams.get? id = some s ∧ s'.graph = s.graph

namespace SameGraphs

variable {r r' r'' : Room F}

theorem refl (r : Room F) : r.SameGraphs r := ⟨rfl, fun _ s hs => ⟨s, hs, rfl⟩⟩

theorem trans (h : r.SameGraphs r') (h' : r'.SameGraphs r'') : r.SameGraphs r'' := by
  refine ⟨h'.versions.trans h.versions, fun id s'' hs'' => ?_⟩
  obtain ⟨s', hs', hgraph'⟩ := h'.graphs id s'' hs''
  obtain ⟨s, hs, hgraph⟩ := h.graphs id s' hs'
  exact ⟨s, hs, hgraph'.trans hgraph⟩

theorem of_streams (hversions : r'.graphVersions = r.graphVersions)
    (hstreams : r'.streams = r.streams) : r.SameGraphs r' :=
  ⟨hversions, fun _ s hs => ⟨s, hstreams ▸ hs, rfl⟩⟩

/-- One stream changes, but not its graph. -/
theorem of_modify (hversions : r'.graphVersions = r.graphVersions) {id : StreamId}
    {f : Stream F → Stream F} (hstreams : r'.streams = r.streams.modify id f)
    (hf : ∀ s, (f s).graph = s.graph) : r.SameGraphs r' := by
  refine ⟨hversions, fun other s' hs' => ?_⟩
  rw [hstreams] at hs'
  by_cases ho : other = id
  · subst ho
    rw [Table.get?_modify_self] at hs'
    obtain ⟨s, hs, rfl⟩ := Option.map_eq_some_iff.mp hs'
    exact ⟨s, hs, hf s⟩
  · rw [Table.get?_modify_of_ne _ _ ho] at hs'
    exact ⟨s', hs', rfl⟩

theorem setStream {id : StreamId} {s s' : Stream F} (hs : r.streams.get? id = some s)
    (hgraph : s'.graph = s.graph) : r.SameGraphs (r.setStream id s') := by
  refine ⟨rfl, fun other t ht => ?_⟩
  by_cases ho : other = id
  · subst ho
    obtain rfl := Option.some.inj ((Table.get?_insert_self _ _ _).symm.trans ht)
    exact ⟨s, hs, hgraph⟩
  · exact ⟨t, (Table.get?_insert_of_ne _ _ ho).symm.trans ht, rfl⟩

end SameGraphs

variable {r : Room F}

theorem leave_sameGraphs (r : Room F) (p : ParticipantId) : r.SameGraphs (r.leave p).1 := by
  obtain ⟨-, _, hleave⟩ | ⟨-, hleave⟩ := r.leave_cases p
  · rw [hleave]
    exact .refl r
  · rw [hleave]
    refine ⟨rfl, fun id s' hs' => ?_⟩
    rw [stream_without] at hs'
    split at hs'
    · cases hs'
    · obtain ⟨s, hs, rfl⟩ := Option.map_eq_some_iff.mp hs'
      exact ⟨s, hs, rfl⟩

theorem expel_sameGraphs (r : Room F) (gone : List ParticipantId) :
    r.SameGraphs (r.expel gone) := by
  induction gone generalizing r with
  | nil => exact .refl r
  | cons p rest ih => exact (r.leave_sameGraphs p).trans (ih (r.leave p).1)

variable [Arithmetic F]

theorem newStream_graph (r : Room F) (id : StreamId) (graph : LayerGraph) (now : Time) :
    (r.newStream id graph now).graph = graph :=
  List.foldlRecOn (motive := fun s : Stream F => s.graph = graph) _ _ rfl fun _ hs _ _ => hs

/-- Signaling other than a negotiation leaves all graphs. -/
theorem signal_sameGraphs (r : Room F) (now : Time) {act : Event.Act}
    (hact : ∀ stream offer, act ≠ .negotiate stream offer) : r.SameGraphs (r.signal now act) := by
  cases act with
  | join p role version =>
    obtain ⟨_, hjoin⟩ | ⟨-, -, -, -, hjoin⟩ := r.join_cases p role version now
    all_goals
      rw [signal, hjoin]
      exact .of_streams rfl rfl
  | leave p => exact r.leave_sameGraphs p
  | negotiate stream offer => exact absurd rfl (hact stream offer)
  | subscribe p stream =>
    obtain ⟨_, hsub⟩ | ⟨_, _, -, -, -, -, -, -, ⟨-, hsub⟩ | ⟨-, hsub⟩⟩ :=
      r.subscribe_cases p stream now
    · rw [signal, hsub]
      exact .refl r
    · rw [signal, hsub]
      exact .refl r
    · rw [signal, hsub]
      exact .of_modify (f := fun s => s.addLink r.terms.estimator r.terms.feedbackTimeout now p)
        rfl rfl fun _ => rfl
  | unsubscribe p stream =>
    obtain ⟨_, hun⟩ | ⟨-, hun⟩ := r.unsubscribe_cases p stream
    · rw [signal, hun]
      exact .refl r
    · rw [signal, hun]
      exact .of_modify (f := (·.dropLink p)) rfl rfl fun _ => rfl
  | setMuted receiver sender muted =>
    obtain ⟨_, hset⟩ | ⟨_, -, -, hset⟩ := r.setMuted_cases receiver sender muted
    all_goals
      rw [signal, hset]
      exact .of_streams rfl rfl
  | setDeafened p deafened =>
    obtain ⟨_, hset⟩ | ⟨_, -, hset⟩ := r.setDeafened_cases p deafened
    all_goals
      rw [signal, hset]
      exact .of_streams rfl rfl

theorem Coherent.forward_sameGraphs (hr : r.Coherent) (h : Hysteresis F) (d : Datagram)
    (raw : Bytes) (now : Time) : r.SameGraphs (r.forward h d raw now).1 := by
  -- the stream that a datagram is routed to is put back at its own place
  have hput {s s' : Stream F} {receivers : List ParticipantId}
      (hroute : r.route d.header = .ok (s, receivers)) (hgraph : s'.graph = s.graph) :
      r.SameGraphs (r.setStream s.id s') := by
    obtain ⟨_, _, _, -, -, -, -, hs, -, -⟩ := route_eq_ok_iff.mp hroute
    rw [(hr.streams _ s hs).2.name]
    exact .setStream hs hgraph
  cases hf : r.forward h d raw now with
  | mk r' answer =>
    cases answer with
    | error reason =>
      obtain rfl | ⟨_, _, _, _, _, hroute, -, -, rfl⟩ := forward_error_cases hf
      · exact .refl _
      · exact hput hroute rfl
    | ok out =>
      obtain ⟨_, _, _, _, _, hroute, hpass, rfl, -⟩ := forward_eq_ok_iff.mp hf
      exact hput hroute hpass.same_graph

theorem Coherent.takeFeedback_sameGraphs (hr : r.Coherent) (h : Hysteresis F) (d : Datagram)
    (raw : Bytes) (now : Time) : r.SameGraphs (r.takeFeedback h d raw now).1 := by
  cases hf : r.takeFeedback h d raw now with
  | mk r' answer =>
    cases answer with
    | error reason =>
      rw [takeFeedback_error hf]
      exact .refl _
    | ok out =>
      obtain ⟨_, _, s, -, -, -, hs, ⟨rfl, -, -⟩ | ⟨_, link', -, -, hadapt⟩⟩ := takeFeedback_ok hf
      · exact .refl _
      rw [show r' = _ from congrArg Prod.fst hadapt]
      refine ⟨(adapt_sameSeats r h s link' _ now).graphVersions, fun other t ht => ?_⟩
      rw [adapt_get?, (hr.streams _ s hs).2.name] at ht
      split at ht
      · rename_i ho
        cases ht
        exact ⟨s, ho ▸ hs, rfl⟩
      · exact ⟨t, ht, rfl⟩

theorem Coherent.handle_sameGraphs (hr : r.Coherent) (h : Hysteresis F) (d : Datagram)
    (raw : Bytes) (source : Endpoint) (now : Time) :
    r.SameGraphs (r.handle h d raw source now).1 := by
  have htouched := hr.touch d.header.sender source now
  have hsame : r.SameGraphs (r.touch d.header.sender source now).1 := by
    obtain ⟨presence, htouch⟩ := r.touch_eq d.header.sender source now
    rw [htouch]
    exact .of_streams rfl rfl
  rw [Room.handle]
  split
  · exact hsame.trans (htouched.takeFeedback_sameGraphs h d raw now)
  · exact hsame.trans (htouched.forward_sameGraphs h d raw now)

theorem tick_sameGraphs (r : Room F) (h : Hysteresis F) (now : Time) :
    r.SameGraphs (r.tick h now).1 := by
  refine ⟨(tick_sameSeats r h now).graphVersions, fun id t ht => ?_⟩
  have hget := r.tickStreams_get? h now r.routing.subscribers.keys_nodup id
  have ht := hget.symm.trans ht
  split at ht
  · obtain ⟨s, hs, rfl⟩ := Option.map_eq_some_iff.mp ht
    exact ⟨s, hs, rfl⟩
  · exact ⟨t, ht, rfl⟩

theorem Evolves.sameGraphs {h : Hysteresis F} {now : Time} {id : RoomId} {input : Relay.Input}
    {r' : Room F} (he : Evolves h now id input r r') (hr : r.Coherent)
    (hinput : ∀ stream offer, input ≠ .event ⟨id, .negotiate stream offer⟩) : r.SameGraphs r' := by
  cases he with
  | idle => exact .refl r
  | signaled act _ _ =>
    refine r.signal_sameGraphs now fun stream offer hact => ?_
    exact hinput stream offer (by rw [hact])
  | handled raw source d _ _ _ _ => exact hr.handle_sameGraphs h d raw source now
  | ticked gone _ => exact (r.expel_sameGraphs gone).trans ((r.expel gone).tick_sameGraphs h now)

/-- Versions are numbers that were handed out, each to one stream only. -/
structure Numbered (r : Room F) : Prop where
  bound : ∀ id s, r.streams.get? id = some s → s.graph.version ≤ r.graphVersions
  distinct : ∀ id id' s s', r.streams.get? id = some s → r.streams.get? id' = some s' →
    s.graph.version = s'.graph.version → id = id'

namespace Numbered

variable {r r' : Room F}

omit [Arithmetic F] in
theorem start (id : RoomId) (version : UInt8) (terms : Terms F) :
    (start id version terms).Numbered := by
  refine ⟨fun _ _ hs => ?_, fun _ _ _ _ hs => ?_⟩
  · cases hs
  · cases hs

omit [Arithmetic F] in
theorem of_sameGraphs (hr : r.Numbered) (h : r.SameGraphs r') : r'.Numbered := by
  refine ⟨fun id s' hs' => ?_, fun id id' s' t' hs' ht' hversion => ?_⟩
  · obtain ⟨s, hs, hgraph⟩ := h.graphs id s' hs'
    rw [hgraph, h.versions]
    exact hr.bound id s hs
  · obtain ⟨s, hs, hgraph⟩ := h.graphs id s' hs'
    obtain ⟨t, ht, hgraph'⟩ := h.graphs id' t' ht'
    rw [hgraph, hgraph'] at hversion
    exact hr.distinct id id' s t hs ht hversion

omit [Arithmetic F] in
/-- A stream gets a graph of the next version. -/
theorem renumber (hr : r.Numbered) {id : StreamId} {s : Stream F}
    (hversion : s.graph.version = r.graphVersions + 1)
    (hversions : r'.graphVersions = r.graphVersions + 1)
    (hstreams : r'.streams = r.streams.insert id s) : r'.Numbered := by
  have hget (other : StreamId) (t : Stream F) (ht : r'.streams.get? other = some t) :
      other = id ∧ t = s ∨ other ≠ id ∧ r.streams.get? other = some t := by
    rw [hstreams] at ht
    by_cases ho : other = id
    · rw [ho, Table.get?_insert_self] at ht
      exact .inl ⟨ho, (Option.some.inj ht).symm⟩
    · rw [Table.get?_insert_of_ne _ _ ho] at ht
      exact .inr ⟨ho, ht⟩
  refine ⟨fun a t ht => ?_, fun a b t u ht hu hsame => ?_⟩
  · rw [hversions]
    obtain ⟨-, rfl⟩ | ⟨-, hold⟩ := hget a t ht
    · exact Nat.le_of_eq hversion
    · exact Nat.le_succ_of_le (hr.bound a t hold)
  · obtain ⟨rfl, rfl⟩ | ⟨-, holdt⟩ := hget a t ht <;>
      obtain ⟨rfl, rfl⟩ | ⟨-, holdu⟩ := hget b u hu
    · rfl
    · have := hr.bound b u holdu
      omega
    · have := hr.bound a t holdt
      omega
    · exact hr.distinct a b t u holdt holdu hsame

/-- A negotiation is refused, or hands out the next version. -/
theorem negotiate (hr : r.Numbered) (sender : ParticipantId) (kind : Kind) (offer : Offer)
    (now : Time) :
    (r.negotiate sender kind offer now).1.Numbered ∧
      ((r.negotiate sender kind offer now).2.toOption = none ∧
          (r.negotiate sender kind offer now).1 = r ∨
        (r.negotiate sender kind offer now).2.toOption = some (r.graphVersions + 1) ∧
          (r.negotiate sender kind offer now).1.graphVersions = r.graphVersions + 1) := by
  obtain ⟨_, hneg⟩ | ⟨_, graph, -, -, -, hgraph, ⟨s, -, hneg⟩ | ⟨-, -, hneg⟩⟩ :=
    r.negotiate_cases sender kind offer now
  · rw [hneg]
    exact ⟨hr, .inl ⟨rfl, rfl⟩⟩
  · rw [hneg]
    exact ⟨hr.renumber (LayerGraph.ofOffer_fields hgraph).2 rfl rfl, .inr ⟨rfl, rfl⟩⟩
  · rw [hneg]
    have hnew := newStream_graph { r with graphVersions := r.graphVersions + 1 } ⟨sender, kind⟩
      graph now
    exact ⟨hr.renumber ((congrArg LayerGraph.version hnew).trans
      (LayerGraph.ofOffer_fields hgraph).2) rfl rfl, .inr ⟨rfl, rfl⟩⟩

end Numbered

end Room

namespace Relay

variable [Arithmetic F]

/-- The version that an input is answered with, if it is a negotiation in a room. -/
def versionGiven (r : Relay F) (id : RoomId) (now : Time) : Input → Option Nat
  | .event ⟨room, .negotiate stream offer⟩ =>
    if room = id then
      (r.directory.within id fun room =>
        room.negotiate stream.sender stream.kind offer now).2.toOption
    else none
  | _ => none

/-- The versions handed out in a room by a run, after those in `given`. A room that is made anew
starts anew. -/
def versionsGiven (id : RoomId) (r : Relay F) (given : List Nat) : List (Time × Input) → List Nat
  | [] => given
  | (now, input) :: rest =>
    let after := (r.step now input).1
    let given :=
      if r.directory.rooms.contains id && after.directory.rooms.contains id then
        given ++ (r.versionGiven id now input).toList
      else []
    versionsGiven id after given rest

variable {r : Relay F} {id : RoomId} {room room' : Room F}

/-- What a step does to the numbers of a room that stays. -/
theorem step_numbered (h : r.Reachable) (now : Time) (input : Input)
    (hroom : r.directory.room? id = some room)
    (hroom' : (r.step now input).1.directory.room? id = some room') (hn : room.Numbered) :
    room'.Numbered ∧
      (r.versionGiven id now input = none ∧ room'.graphVersions = room.graphVersions ∨
        r.versionGiven id now input = some (room.graphVersions + 1) ∧
          room'.graphVersions = room.graphVersions + 1) := by
  by_cases hinput : ∃ stream offer, input = .event ⟨id, .negotiate stream offer⟩
  · obtain ⟨stream, offer, rfl⟩ := hinput
    have hafter : room' = (room.negotiate stream.sender stream.kind offer now).1 := by
      have hwithin := Directory.within_room? r.directory id
        (fun room => room.negotiate stream.sender stream.kind offer now) id
      rw [if_pos rfl, hroom] at hwithin
      exact Option.some.inj (hroom'.symm.trans hwithin)
    have hgiven : r.versionGiven id now (.event ⟨id, .negotiate stream offer⟩) =
        (room.negotiate stream.sender stream.kind offer now).2.toOption := by
      simp only [versionGiven, Directory.within, hroom, if_true]
    rw [hgiven, hafter]
    obtain ⟨hnumbered, ⟨hnone, hsame⟩ | hsome⟩ :=
      hn.negotiate stream.sender stream.kind offer now
    · exact ⟨hnumbered, .inl ⟨hnone, congrArg Room.graphVersions hsame⟩⟩
    · exact ⟨hnumbered, .inr hsome⟩
  · have hother (stream : StreamId) (offer : Offer) :
        input ≠ .event ⟨id, .negotiate stream offer⟩ := fun heq => hinput ⟨stream, offer, heq⟩
    obtain ⟨after, hevolves, hafter⟩ := step_room h.sound now input hroom
    rw [hroom'] at hafter
    obtain ⟨-, rfl⟩ := Room.unlessClosed_eq_some_iff.mp hafter.symm
    have hsame := hevolves.sameGraphs (h.sound id room hroom).toCoherent hother
    refine ⟨hn.of_sameGraphs hsame, .inl ⟨?_, hsame.versions⟩⟩
    unfold versionGiven
    split
    · rename_i other stream offer
      refine if_neg ?_
      rintro rfl
      exact hother stream offer rfl
    · rfl

namespace Reachable

/-- A new room has numbers to hand out from 1. -/
theorem new_room_numbered (h : r.Reachable) (now : Time) (input : Input)
    (hnone : r.directory.room? id = none)
    (hroom' : (r.step now input).1.directory.room? id = some room') :
    room'.Numbered ∧ room'.graphVersions = 0 := by
  obtain ⟨p, role, -, rfl⟩ := step_new_room h.sound now input hnone hroom'
  have hjoin : ∀ stream offer, Event.Act.join p role protocolVersion ≠ .negotiate stream offer :=
    nofun
  have hsame := (Room.start id protocolVersion r.directory.terms).signal_sameGraphs now hjoin
  exact ⟨(Room.Numbered.start _ _ _).of_sameGraphs hsame, hsame.versions⟩

theorem numbered (h : r.Reachable) (hroom : r.directory.room? id = some room) :
    room.Numbered := by
  induction h generalizing room with
  | start settings => cases hroom
  | @step r hr now input ih =>
    cases hbefore : r.directory.room? id with
    | some before => exact (step_numbered hr now input hbefore hroom (ih hbefore)).1
    | none => exact (hr.new_room_numbered now input hbefore hroom).1

end Reachable

/-- How many versions a room has handed out; none if there is no room. -/
def versionCount (r : Relay F) (id : RoomId) : Nat :=
  ((r.directory.room? id).map (·.graphVersions)).getD 0

theorem Reachable.versionsGiven_step (h : r.Reachable) (id : RoomId) (now : Time) (input : Input) :
    (if r.directory.rooms.contains id && (r.step now input).1.directory.rooms.contains id then
        List.range' 1 (versionCount r id) ++ (r.versionGiven id now input).toList
      else []) = List.range' 1 (versionCount (r.step now input).1 id) := by
  cases hbefore : r.directory.room? id with
  | none =>
    have habsent : r.directory.rooms.contains id = false := by
      rw [Table.contains, show r.directory.rooms.get? id = none from hbefore]
      rfl
    rw [habsent, Bool.false_and, if_neg Bool.false_ne_true, versionCount]
    cases hafter : (r.step now input).1.directory.room? id with
    | none => rfl
    | some after =>
      rw [Option.map_some, (h.new_room_numbered now input hbefore hafter).2]
      rfl
  | some before =>
    have hpresent : r.directory.rooms.contains id = true := Table.contains_of_get? hbefore
    rw [hpresent, Bool.true_and, versionCount, hbefore, versionCount]
    cases hafter : (r.step now input).1.directory.room? id with
    | none =>
      rw [Table.contains, show (r.step now input).1.directory.rooms.get? id = none from hafter]
      rfl
    | some after =>
      rw [if_pos (Table.contains_of_get? hafter)]
      obtain ⟨-, ⟨hgiven, hsame⟩ | ⟨hgiven, hnext⟩⟩ :=
        step_numbered h now input hbefore hafter (h.numbered hbefore)
      · rw [hgiven, Option.map_some, Option.map_some, hsame]
        exact List.append_nil _
      · rw [hgiven, Option.map_some, Option.map_some, hnext]
        simp only [Option.getD_some, Option.toList_some, List.range'_1_concat, Nat.add_comm]

/-- The versions handed out since a room was made are 1, 2, 3 and so on. -/
theorem Reachable.versionsGiven_eq (h : r.Reachable) (id : RoomId)
    (inputs : List (Time × Input)) :
    versionsGiven id r (List.range' 1 (versionCount r id)) inputs =
      List.range' 1 (versionCount (r.run inputs) id) := by
  induction inputs generalizing r with
  | nil => rfl
  | cons first rest ih =>
    obtain ⟨now, input⟩ := first
    rw [versionsGiven, h.versionsGiven_step id now input]
    exact ih (h.step now input)

end Relay

end MediaRelay
