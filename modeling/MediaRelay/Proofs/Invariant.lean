import MediaRelay.Proofs.Isolation

/-!
Properties that all streams of a relay have in all reachable states. It is enough that new streams
have the property and that whatever is done to a stream keeps it (`Stream.Inductive`); for a
property of downlinks it is enough to look at what is done to a downlink (`Downlink.Inductive`).
-/

namespace MediaRelay

variable {F : Type} [Arithmetic F]

/-- A graph that negotiation can give to a stream. -/
def LayerGraph.IsOffered (g : LayerGraph) : Prop :=
  ∃ kind offer version, ofOffer kind offer version = .ok g

structure Stream.Inductive (settings : Settings F) (P : Stream F → Prop) : Prop where
  start : ∀ (id : StreamId) (graph : LayerGraph) (now : Time), graph.IsOffered →
    P (.start id graph settings.estimator (Time.ofMillis settings.feedbackTimeoutMs) now)
  addLink : ∀ (s : Stream F) (now : Time) (p : ParticipantId), P s →
    P (s.addLink settings.estimator (Time.ofMillis settings.feedbackTimeoutMs) now p)
  dropLink : ∀ (s : Stream F) (p : ParticipantId), P s → P (s.dropLink p)
  renegotiate : ∀ (s : Stream F) (graph : LayerGraph), graph.IsOffered → P s →
    P (s.renegotiate graph)
  noted : ∀ (s : Stream F) (layer : Layer) (descriptor : Descriptor) (history : FrameHistory)
    (fault : FrameHistory.Fault),
    s.history.observe layer descriptor s.graph = (history, .error fault) → P s →
    P { s with history }
  passed : ∀ (r : Room F) (d : Datagram) (raw : Bytes) (now : Time) (s : Stream F)
    (receivers : List ParticipantId) (s' : Stream F) (receivers' : List ParticipantId)
    (step : Downlink F → Downlink F × Fate), receivers.Nodup →
    Room.Passage r settings.hysteresis d raw now s receivers s' receivers' step → P s →
    P (s'.accept step receivers').1
  adapted : ∀ (s : Stream F) (p : ParticipantId) (link : Downlink F) (now : Time)
    (body : Feedback.Body) (link' : Downlink F) (isOpen : Bool), s.links.get? p = some link →
    Room.Intake link now body link' → P s →
    P ({ s with
      links := s.links.insert p (link'.retarget settings.hysteresis s.graph).1
      keyframeWanted := s.keyframeWanted ||
        (link'.retarget settings.hysteresis s.graph).2.wantsKeyframe }.asked isOpen)
  ticked : ∀ (s : Stream F) (now : Time) (isOpen : Bool), P s →
    P (s.tick settings.hysteresis now isOpen)

/-- The same for a property of downlinks, given the graph of their stream. -/
structure Downlink.Inductive (settings : Settings F) (Q : LayerGraph → Downlink F → Prop) :
    Prop where
  start : ∀ (g : LayerGraph) (p : ParticipantId) (now : Time), g.IsOffered →
    Q g (.start p settings.estimator (Time.ofMillis settings.feedbackTimeoutMs) g.version now)
  resetLayers : ∀ (g g' : LayerGraph) (link : Downlink F), g'.IsOffered → Q g link →
    Q g' (link.resetLayers g'.version)
  passed : ∀ (r : Room F) (d : Datagram) (raw : Bytes) (now : Time) (s : Stream F)
    (receivers : List ParticipantId) (s' : Stream F) (receivers' : List ParticipantId)
    (step : Downlink F → Downlink F × Fate) (link : Downlink F), s.graph.IsOffered →
    Room.Passage r settings.hysteresis d raw now s receivers s' receivers' step → Q s.graph link →
    Q s.graph (step link).1
  adapted : ∀ (g : LayerGraph) (link : Downlink F) (now : Time) (body : Feedback.Body)
    (link' : Downlink F), g.IsOffered → Room.Intake link now body link' → Q g link →
    Q g (link'.retarget settings.hysteresis g).1
  ticked : ∀ (g : LayerGraph) (link : Downlink F) (now : Time), g.IsOffered → Q g link →
    Q g ((link.tick now).retarget settings.hysteresis g).1

theorem Downlink.inductive_true (settings : Settings F) :
    Downlink.Inductive settings fun _ _ => True :=
  ⟨fun _ _ _ _ => trivial, fun _ _ _ _ _ => trivial, fun _ _ _ _ _ _ _ _ _ _ _ _ _ => trivial,
    fun _ _ _ _ _ _ _ _ => trivial, fun _ _ _ _ _ => trivial⟩

theorem Downlink.Inductive.stream {settings : Settings F} {Q : LayerGraph → Downlink F → Prop}
    (hQ : Downlink.Inductive settings Q) :
    Stream.Inductive settings fun s =>
      s.graph.IsOffered ∧ ∀ p link, s.links.get? p = some link → Q s.graph link where
  start id graph now hgraph := ⟨hgraph, fun p link hl => by cases hl⟩
  addLink s now p hs := by
    refine ⟨hs.1, fun q link hl => ?_⟩
    have hl : (s.links.insertIfNew p _).get? q = some link := hl
    rw [Table.get?_insertIfNew] at hl
    split at hl
    · obtain rfl := Option.some.inj hl
      cases hold : s.links.get? q with
      | none => exact hQ.start s.graph p now hs.1
      | some link => exact hs.2 q link hold
    · exact hs.2 q link hl
  dropLink s p hs := ⟨hs.1, fun q link hl => hs.2 q link ((s.dropLink_thinned p).links q link hl)⟩
  renegotiate s graph hgraph hs := by
    refine ⟨hgraph, fun p link hl => ?_⟩
    simp only [Stream.renegotiate, Table.get?_map] at hl
    obtain ⟨before, hbefore, rfl⟩ := Option.map_eq_some_iff.mp hl
    exact hQ.resetLayers s.graph graph before hgraph (hs.2 p before hbefore)
  noted _ _ _ _ _ _ hs := hs
  passed r d raw now s receivers s' receivers' step hn hpass hs := by
    have hgraph : (s'.accept step receivers').1.graph = s.graph := hpass.same_graph
    rw [hgraph]
    refine ⟨hs.1, fun p link hl => ?_⟩
    rw [hpass.link_get? hn] at hl
    split at hl
    · obtain ⟨before, hbefore, rfl⟩ := Option.map_eq_some_iff.mp hl
      exact hQ.passed r d raw now s receivers s' receivers' step before hs.1 hpass
        (hs.2 p before hbefore)
    · exact hs.2 p link hl
  adapted s p link now body link' isOpen hlink hintake hs := by
    refine ⟨hs.1, fun q after hl => ?_⟩
    have hl : (s.links.insert p (link'.retarget settings.hysteresis s.graph).1).get? q =
      some after := hl
    by_cases hq : q = p
    · subst hq
      rw [Table.get?_insert_self] at hl
      obtain rfl := Option.some.inj hl
      exact hQ.adapted s.graph link now body link' hs.1 hintake (hs.2 q link hlink)
    · rw [Table.get?_insert_of_ne _ _ hq] at hl
      exact hs.2 q after hl
  ticked s now isOpen hs := by
    refine ⟨hs.1, fun p link hl => ?_⟩
    rw [Stream.tick_link] at hl
    obtain ⟨before, hbefore, rfl⟩ := Option.map_eq_some_iff.mp hl
    exact hQ.ticked s.graph before now hs.1 (hs.2 p before hbefore)

namespace Room

/-- The room is under the terms of the settings, and all its streams have a property. -/
structure Upholds (settings : Settings F) (P : Stream F → Prop) (r : Room F) : Prop where
  terms : r.terms = Relay.termsOf settings
  streams : ∀ id s, r.streams.get? id = some s → P s

namespace Upholds

variable {settings : Settings F} {P : Stream F → Prop} {r : Room F}

omit [Arithmetic F] in
theorem setStream (h : r.Upholds settings P) (id : StreamId) {s : Stream F} (hs : P s) :
    (r.setStream id s).Upholds settings P := by
  refine ⟨h.terms, fun other t ht => ?_⟩
  by_cases ho : other = id
  · subst ho
    simp only [Room.setStream, Table.get?_insert_self, Option.some.injEq] at ht
    exact ht ▸ hs
  · rw [Room.setStream, Table.get?_insert_of_ne _ _ ho] at ht
    exact h.streams other t ht

omit [Arithmetic F] in
/-- One stream changes, if it is there. -/
theorem modify (h : r.Upholds settings P) (id : StreamId) {f : Stream F → Stream F}
    (hf : ∀ s, P s → P (f s)) (other : StreamId) (t : Stream F)
    (ht : (r.streams.modify id f).get? other = some t) : P t := by
  by_cases ho : other = id
  · subst ho
    rw [Table.get?_modify_self] at ht
    obtain ⟨s, hs, rfl⟩ := Option.map_eq_some_iff.mp ht
    exact hf s (h.streams other s hs)
  · rw [Table.get?_modify_of_ne _ _ ho] at ht
    exact h.streams other t ht

variable (hP : Stream.Inductive settings P)
include hP

theorem leave (h : r.Upholds settings P) (p : ParticipantId) :
    (r.leave p).1.Upholds settings P := by
  obtain ⟨-, _, hleave⟩ | ⟨-, hleave⟩ := r.leave_cases p
  · rwa [hleave]
  · rw [hleave]
    refine ⟨h.terms, fun id t ht => ?_⟩
    have ht : (r.without p).streams.get? id = some t := ht
    rw [r.stream_without] at ht
    split at ht
    · cases ht
    · obtain ⟨s, hs, rfl⟩ := Option.map_eq_some_iff.mp ht
      exact hP.dropLink s p (h.streams id s hs)

theorem expel (h : r.Upholds settings P) (gone : List ParticipantId) :
    (r.expel gone).Upholds settings P := by
  induction gone generalizing r with
  | nil => exact h
  | cons p rest ih => exact ih (leave hP h p)

theorem newStream (h : r.Upholds settings P) (id : StreamId) {graph : LayerGraph}
    (hgraph : graph.IsOffered) (now : Time) : P (r.newStream id graph now) := by
  rw [Room.newStream, h.terms]
  refine List.foldlRecOn _ _ (hP.start id graph now hgraph) fun s hs p _ => ?_
  exact hP.addLink s now p hs

theorem signal (h : r.Upholds settings P) (now : Time) (act : Event.Act) :
    (r.signal now act).Upholds settings P := by
  cases act with
  | join p role version =>
    obtain ⟨_, hjoin⟩ | ⟨-, -, -, -, hjoin⟩ := r.join_cases p role version now
    · rwa [Room.signal, hjoin]
    · rw [Room.signal, hjoin]
      exact ⟨h.terms, h.streams⟩
  | leave p => exact leave hP h p
  | negotiate stream offer =>
    obtain ⟨_, hneg⟩ | ⟨_, graph, -, -, -, hgraph, ⟨s, hs, hneg⟩ | ⟨-, -, hneg⟩⟩ :=
      r.negotiate_cases stream.sender stream.kind offer now
    · rwa [Room.signal, hneg]
    all_goals
      have hoffered : graph.IsOffered := ⟨_, _, _, hgraph⟩
      have hcounted : Upholds settings P { r with graphVersions := r.graphVersions + 1 } :=
        ⟨h.terms, h.streams⟩
      rw [Room.signal, hneg]
    · exact hcounted.setStream _ (hP.renegotiate s graph hoffered (h.streams _ s hs))
    · obtain ⟨hterms, hstreams⟩ :=
        hcounted.setStream stream (newStream hP hcounted stream hoffered now)
      exact ⟨hterms, hstreams⟩
  | subscribe p stream =>
    obtain ⟨_, hsub⟩ | ⟨_, _, -, -, -, -, -, -, ⟨-, hsub⟩ | ⟨-, hsub⟩⟩ :=
      r.subscribe_cases p stream now
    · rwa [Room.signal, hsub]
    · rwa [Room.signal, hsub]
    · rw [Room.signal, hsub]
      refine ⟨h.terms, h.modify stream fun s hs => ?_⟩
      rw [h.terms]
      exact hP.addLink s now p hs
  | unsubscribe p stream =>
    obtain ⟨_, hun⟩ | ⟨-, hun⟩ := r.unsubscribe_cases p stream
    · rwa [Room.signal, hun]
    · rw [Room.signal, hun]
      exact ⟨h.terms, h.modify stream fun s hs => hP.dropLink s p hs⟩
  | setMuted receiver sender muted =>
    obtain ⟨_, hset⟩ | ⟨_, -, -, hset⟩ := r.setMuted_cases receiver sender muted
    · rwa [Room.signal, hset]
    · rw [Room.signal, hset]
      exact ⟨h.terms, h.streams⟩
  | setDeafened p deafened =>
    obtain ⟨_, hset⟩ | ⟨_, -, hset⟩ := r.setDeafened_cases p deafened
    · rwa [Room.signal, hset]
    · rw [Room.signal, hset]
      exact ⟨h.terms, h.streams⟩

theorem forward (h : r.Upholds settings P) (d : Datagram) (raw : Bytes) (now : Time) :
    (r.forward settings.hysteresis d raw now).1.Upholds settings P := by
  have hfound {s : Stream F} {receivers : List ParticipantId}
      (hroute : r.route d.header = .ok (s, receivers)) : P s ∧ receivers.Nodup := by
    obtain ⟨_, _, subscribers, -, -, -, -, hs, -, rfl⟩ := route_eq_ok_iff.mp hroute
    exact ⟨h.streams _ s hs, subscribers.keys_nodup⟩
  cases hf : r.forward settings.hysteresis d raw now with
  | mk r' answer =>
    cases answer with
    | error reason =>
      obtain rfl | ⟨s, _, descriptor, history, fault, hroute, -, hseen, rfl⟩ :=
        forward_error_cases hf
      · exact h
      · exact h.setStream _ (hP.noted s _ descriptor history fault hseen (hfound hroute).1)
    | ok out =>
      obtain ⟨s, receivers, s', receivers', step, hroute, hpass, rfl, -⟩ := forward_eq_ok_iff.mp hf
      obtain ⟨hs, hn⟩ := hfound hroute
      exact h.setStream _ (hP.passed r d raw now s receivers s' receivers' step hn hpass hs)

theorem takeFeedback (h : r.Upholds settings P) (d : Datagram) (raw : Bytes) (now : Time) :
    (r.takeFeedback settings.hysteresis d raw now).1.Upholds settings P := by
  cases hf : r.takeFeedback settings.hysteresis d raw now with
  | mk r' answer =>
    cases answer with
    | error reason =>
      rwa [takeFeedback_error hf]
    | ok out =>
      obtain ⟨message, _, s, -, -, -, hs, ⟨rfl, -, -⟩ | ⟨link, link', hl, hintake, hadapt⟩⟩ :=
        takeFeedback_ok hf
      · exact h
      rw [show r' = _ from congrArg Prod.fst hadapt]
      refine ⟨(adapt_sameSeats r _ s link' _ now).terms.trans h.terms, fun other t ht => ?_⟩
      rw [adapt_get?] at ht
      split at ht
      · cases ht
        exact hP.adapted s _ link now _ link' _ hl hintake (h.streams _ s hs)
      · exact h.streams other t ht

theorem handle (h : r.Upholds settings P) (d : Datagram) (raw : Bytes) (source : Endpoint)
    (now : Time) : (r.handle settings.hysteresis d raw source now).1.Upholds settings P := by
  obtain ⟨presence, htouch⟩ := r.touch_eq d.header.sender source now
  have hnoted : Upholds settings P { r with presence } := ⟨h.terms, h.streams⟩
  rw [Room.handle, htouch]
  split
  · exact takeFeedback hP hnoted d raw now
  · exact forward hP hnoted d raw now

theorem tick (h : r.Upholds settings P) (now : Time) :
    (r.tick settings.hysteresis now).1.Upholds settings P := by
  refine ⟨(tick_sameSeats r settings.hysteresis now).terms.trans h.terms, fun id t ht => ?_⟩
  have hget := r.tickStreams_get? settings.hysteresis now r.routing.subscribers.keys_nodup id
  have ht := hget.symm.trans ht
  split at ht
  · obtain ⟨s, hs, rfl⟩ := Option.map_eq_some_iff.mp ht
    exact hP.ticked s now _ (h.streams id s hs)
  · exact h.streams id t ht

theorem evolve {id : RoomId} {now : Time} {input : Relay.Input} {r' : Room F}
    (h : r.Upholds settings P) (he : Evolves settings.hysteresis now id input r r') :
    r'.Upholds settings P := by
  cases he with
  | idle => exact h
  | signaled act _ _ => exact signal hP h now act
  | handled raw source d _ _ _ _ => exact handle hP h d raw source now
  | ticked gone _ => exact tick hP (expel hP h gone) now

end Upholds

end Room

namespace Directory

omit [Arithmetic F] in
theorem leave_terms (d : Directory F) (id : RoomId) (p : ParticipantId) :
    (d.leave id p).1.terms = d.terms := by
  unfold leave
  split
  · rfl
  split <;> rfl

omit [Arithmetic F] in
theorem tryJoin_terms (d : Directory F) (id : RoomId) (p : ParticipantId) (role : Role)
    (version : UInt8) (now : Time) : (d.tryJoin id p role version now).1.terms = d.terms := by
  unfold tryJoin create
  split
  · rename_i h
    split at h
    · cases h
    split at h <;> cases h
    rfl
  · rename_i h
    split at h
    · cases h
      rfl
    · split at h <;> cases h
      rfl

omit [Arithmetic F] in
theorem join_terms (d : Directory F) (id : RoomId) (p : ParticipantId) (role : Role)
    (version : UInt8) (now : Time) : (d.join id p role version now).1.terms = d.terms := by
  unfold join
  split
  · rfl
  split
  · rfl
  have htry := d.tryJoin_terms id p role version now
  split
  · rename_i d' hclosed
    rw [hclosed] at htry
    exact ((d'.remove id).tryJoin_terms id p role version now).trans htry
  · exact htry

omit [Arithmetic F] in
theorem within_terms {α : Type} (d : Directory F) (id : RoomId)
    (f : Room F → Room F × Except Refusal α) : (d.within id f).1.terms = d.terms := by
  unfold within
  split <;> rfl

end Directory

namespace Relay

variable {r : Relay F}

theorem act_terms (d : Directory F) (e : Event) (now : Time) : (act d e now).1.terms = d.terms := by
  obtain ⟨room, a⟩ := e
  cases a with
  | join p role version => exact d.join_terms room p role version now
  | leave p => exact d.leave_terms room p
  | negotiate stream offer | subscribe p stream | unsubscribe p stream
  | setMuted receiver sender muted | setDeafened p deafened => exact d.within_terms room _

theorem tickRoom_terms (r : Relay F) (id : RoomId) (now : Time) :
    (r.tickRoom id now).1.directory.terms = r.directory.terms := by
  have hexpire (gone : List ParticipantId) :
      (gone.foldl (expire id) r).directory.terms = r.directory.terms := by
    refine List.foldlRecOn (motive := fun r' : Relay F => r'.directory.terms = r.directory.terms)
      gone _ rfl fun r' h p _ => ?_
    rw [(expire_eq id r' p).1, Directory.leave_terms, h]
  unfold tickRoom
  split
  · rfl
  simp only
  split
  · exact hexpire _
  split
  · exact hexpire _
  · exact hexpire _

theorem tickRooms_terms (now : Time) (ids : List RoomId) :
    (r.tickRooms now ids).1.directory.terms = r.directory.terms := by
  induction ids generalizing r with
  | nil => rfl
  | cons id rest ih => exact ih.trans (r.tickRoom_terms id now)

/-- Settings, and the terms that new rooms get, are there from the start. -/
theorem step_settings (hr : r.directory.Sound) (now : Time) (input : Input) :
    (r.step now input).1.settings = r.settings ∧
      (r.step now input).1.directory.terms = r.directory.terms := by
  cases input with
  | event e => exact ⟨rfl, act_terms r.directory e now⟩
  | datagram raw source =>
    refine ⟨r.receive_settings raw source now, ?_⟩
    show (r.receive raw source now).1.directory.terms = r.directory.terms
    obtain ⟨hsame, -⟩ | ⟨_, _, -, -, -, hrooms, -⟩ := receive_cases hr raw source now
    · rw [hsame]
    · rw [hrooms]
  | tick =>
    exact ⟨(tickRooms_spec hr now r.directory.rooms.keys_nodup).1,
      tickRooms_terms now r.directory.rooms.keys⟩

namespace Reachable

theorem terms (h : r.Reachable) : r.directory.terms = termsOf r.settings := by
  induction h with
  | start settings => rfl
  | step hr now input ih =>
    obtain ⟨hsettings, hterms⟩ := step_settings hr.sound now input
    rw [hterms, ih, hsettings]

theorem run_settings (h : r.Reachable) (inputs : List (Time × Input)) :
    (r.run inputs).settings = r.settings := by
  induction inputs generalizing r with
  | nil => rfl
  | cons first rest ih =>
    exact (ih (h.step first.1 first.2)).trans (step_settings h.sound first.1 first.2).1

theorem upholds {settings : Settings F} {P : Stream F → Prop} (hP : Stream.Inductive settings P)
    (h : r.Reachable) (hsettings : r.settings = settings) (id : RoomId) (room : Room F)
    (hroom : r.directory.room? id = some room) : room.Upholds settings P := by
  induction h generalizing id room with
  | start _ => cases hroom
  | @step r hr now input ih =>
    have hsame := (step_settings hr.sound now input).1.symm.trans hsettings
    cases hbefore : r.directory.room? id with
    | some before =>
      obtain ⟨after, hevolves, hafter⟩ := step_room hr.sound now input hbefore
      rw [hroom] at hafter
      obtain ⟨-, rfl⟩ := Room.unlessClosed_eq_some_iff.mp hafter.symm
      rw [hsame] at hevolves
      exact (ih hsame id before hbefore).evolve hP hevolves
    | none =>
      obtain ⟨p, role, -, rfl⟩ := step_new_room hr.sound now input hbefore hroom
      have hnew : (Room.start id protocolVersion r.directory.terms).Upholds settings P :=
        ⟨hsame ▸ hr.terms, fun _ _ hs => by cases hs⟩
      exact hnew.signal hP now (.join p role protocolVersion)

variable {room : RoomId} {id : StreamId} {s : Stream F}

/-- What holds of new streams and is kept holds of all streams at all times. -/
theorem stream_invariant {P : Stream F → Prop} (h : r.Reachable)
    (hP : Stream.Inductive r.settings P) (hs : r.stream? room id = some s) : P s := by
  obtain ⟨within, hroom, hs⟩ := stream?_eq_some_iff.mp hs
  exact (h.upholds hP rfl room within hroom).streams id s hs

theorem graph_isOffered (h : r.Reachable) (hs : r.stream? room id = some s) : s.graph.IsOffered :=
  (h.stream_invariant (Downlink.inductive_true r.settings).stream hs).1

theorem link_invariant {Q : LayerGraph → Downlink F → Prop} (h : r.Reachable)
    (hQ : Downlink.Inductive r.settings Q) (hs : r.stream? room id = some s) {p : ParticipantId}
    {link : Downlink F} (hl : s.links.get? p = some link) : Q s.graph link :=
  (h.stream_invariant hQ.stream hs).2 p link hl

end Reachable

end Relay

end MediaRelay
