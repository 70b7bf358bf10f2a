import MediaRelay.Proofs.ArrivalLog
import MediaRelay.Proofs.KeyframeGate
import MediaRelay.Proofs.Room.Effects
import MediaRelay.Proofs.Room.Speech

/-!
What a room has to say to the senders of its streams, and that it says all of it. A tick is due a
report on what arrived and a request for each keyframe that is wanted while the gate is open;
feedback may be due such a request. Each message that is due goes out in one datagram, and the
datagrams are numbered without a gap (`Room.Speaks`).
-/

namespace MediaRelay

/-- The egress carries a message of the relay, under a number, to the sender of the stream that the
message is about. -/
structure Egress.Carries (e : Egress) (room : RoomId) (number : UInt32) (message : Feedback) :
    Prop where
  home : e.room = room
  addressee : e.receiver = message.stream.sender
  content : ∃ d, Datagram.decode e.payload = .ok d ∧ d.header.version = protocolVersion ∧
    d.header.room = room ∧ d.header.sender = .relay ∧ d.header.sequence = number ∧
    d.feedback = .ok message

theorem Egress.Carries.tells {e : Egress} {room : RoomId} {number : UInt32} {message : Feedback}
    (h : e.Carries room number message) : e.Tells room message.stream.sender message := by
  obtain ⟨d, hdecode, -, hroom, hsender, -, hmessage⟩ := h.content
  exact ⟨h.home, h.addressee, d, hdecode, hroom, hsender, hmessage⟩

/-- The datagrams carry the messages one by one, numbered from the first on. -/
inductive Recited (room : RoomId) : UInt32 → List Feedback → List Egress → Prop
  | nil (number : UInt32) : Recited room number [] []
  | cons {number : UInt32} {message : Feedback} {e : Egress} {messages : List Feedback}
      {said : List Egress} (hfirst : e.Carries room number message)
      (hrest : Recited room (number + 1) messages said) :
    Recited room number (message :: messages) (e :: said)

namespace Recited

variable {room : RoomId} {number : UInt32} {messages messages' : List Feedback}
  {said said' : List Egress}

theorem append (h : Recited room number messages said)
    (h' : Recited room (number + .ofNat messages.length) messages' said') :
    Recited room number (messages ++ messages') (said ++ said') := by
  induction h with
  | nil number => simpa using h'
  | @cons number message e messages said hfirst _ ih =>
    refine .cons hfirst (ih ?_)
    rwa [UInt32.add_assoc, ← UInt32.ofNat_one, ← UInt32.ofNat_add, Nat.add_comm 1]

theorem length_eq (h : Recited room number messages said) : said.length = messages.length := by
  induction h with
  | nil _ => rfl
  | cons _ _ ih => rw [List.length_cons, List.length_cons, ih]

theorem exists_of_mem (h : Recited room number messages said) {e : Egress} (he : e ∈ said) :
    ∃ message ∈ messages, e.Tells room message.stream.sender message := by
  induction h with
  | nil _ => cases he
  | cons hfirst _ ih =>
    obtain rfl | he := List.mem_cons.mp he
    · exact ⟨_, List.mem_cons_self, hfirst.tells⟩
    · obtain ⟨message, hmessage, htells⟩ := ih he
      exact ⟨message, List.mem_cons_of_mem _ hmessage, htells⟩

end Recited

/-- A request for a keyframe, if one is due. -/
def Feedback.askIf (id : StreamId) (due : Bool) : List Feedback :=
  if due then [⟨id, .keyframeRequest⟩] else []

namespace Feedback

theorem mem_askIf {id : StreamId} {due : Bool} {message : Feedback} :
    message ∈ askIf id due ↔ due ∧ message = ⟨id, .keyframeRequest⟩ := by
  cases due <;> simp [askIf]

theorem askIf_nodup (id : StreamId) (due : Bool) : (askIf id due).Nodup := by
  cases due <;> simp [askIf]

end Feedback

/-- The gate once the requests among messages went out. -/
def KeyframeGate.noted (g : KeyframeGate) (now : Time) (messages : List Feedback) : KeyframeGate :=
  messages.foldl (fun g message => match message.body with
    | .keyframeRequest => g.closedAt message.stream now
    | _ => g) g

namespace Outcome

/-- The requests that go out with an answer. -/
def requestsOf : Except DropReason Outcome → List Egress
  | .error _ => []
  | .ok out => out.requests

@[simp] theorem requestsOf_error (reason : DropReason) : requestsOf (.error reason) = [] := rfl

@[simp] theorem requestsOf_ok (out : Outcome) : requestsOf (.ok out) = out.requests := rfl

end Outcome

variable {F : Type} [Arithmetic F]

theorem Uplink.takeReport_isWritable {u : Uplink F} {now : Time} {report : Report}
    (h : (u.takeReport now).2 = some report) : report.IsWritable := by
  unfold takeReport ArrivalLog.takeReport at h
  cases hrange : u.arrivals.range? with
  | none =>
    rw [hrange] at h
    cases h
  | some range =>
    rw [hrange] at h
    obtain rfl := Option.some.inj h
    exact Report.ofArrivals_isWritable _ _

/-- The downlink once it took in what its receiver tells. -/
def Downlink.told (link : Downlink F) (now : Time) : Feedback.Body → Option (Downlink F)
  | .congestion report => some (link.onReport report now)
  | .receiverEstimate rate => some (link.onReceiverEstimate rate.toNat now)
  | .nack _ | .keyframeRequest => none

/-- Whether a stream wants a keyframe, or comes to want one by what a receiver tells. -/
def Stream.wantsOnce (s : Stream F) (h : Hysteresis F) (now : Time) (receiver : ParticipantId)
    (body : Feedback.Body) : Bool :=
  ((s.links.get? receiver).bind (·.told now body)).any fun link =>
    s.keyframeWanted || (link.retarget h s.graph).2.wantsKeyframe

namespace Room

/-- What is due for a stream at a tick. -/
def agendaOf (r : Room F) (h : Hysteresis F) (now : Time) (id : StreamId) : List Feedback :=
  match r.streams.get? id with
  | none => []
  | some s =>
    (s.uplink.takeReport now).2.toList.map (⟨id, .congestion ·⟩) ++
      Feedback.askIf id ((s.tickLinks h now).keyframeWanted && r.keyframes.isOpen id now)

/-- What is due at a tick. -/
def agenda (r : Room F) (h : Hysteresis F) (now : Time) : List Feedback :=
  r.streams.keys.flatMap (r.agendaOf h now)

/-- What is due when a datagram of a member came in. -/
def prompted (r : Room F) (h : Hysteresis F) (now : Time) (d : Datagram) : List Feedback :=
  match d.feedback with
  | .error _ => []
  | .ok message =>
    Feedback.askIf message.stream
      ((r.streams.get? message.stream).any (·.wantsOnce h now d.header.sender message.body) &&
        r.keyframes.isOpen message.stream now)

omit [Arithmetic F]

/-- From one state to the other the messages go out, numbered on from where the room was. -/
structure Recites (r r' : Room F) (messages : List Feedback) (said : List Egress) : Prop where
  recited : Recited r.id r.nextSequence messages said
  nextSequence : r'.nextSequence = r.nextSequence + .ofNat messages.length

/-- From one state to the other the room says the messages: they go out, and the gate takes note of
the requests among them. -/
structure Speaks (r r' : Room F) (now : Time) (messages : List Feedback) (said : List Egress) : Prop
    extends Recites r r' messages said where
  keyframes : r'.keyframes = r.keyframes.noted now messages

variable {r r' r'' : Room F} {now : Time} {messages messages' : List Feedback}
  {said said' : List Egress}

theorem Recites.silent (h : r'.nextSequence = r.nextSequence) : r.Recites r' [] [] :=
  ⟨.nil _, by simpa using h⟩

theorem Recites.trans (h : r.Recites r' messages said) (hname : r'.id = r.id)
    (h' : r'.Recites r'' messages' said') :
    r.Recites r'' (messages ++ messages') (said ++ said') := by
  refine ⟨h.recited.append ?_, ?_⟩
  · rw [← h.nextSequence, ← hname]
    exact h'.recited
  · rw [h'.nextSequence, h.nextSequence, List.length_append, UInt32.ofNat_add, UInt32.add_assoc]

theorem Speaks.silent (hnumber : r'.nextSequence = r.nextSequence)
    (hgate : r'.keyframes = r.keyframes) : r.Speaks r' now [] [] :=
  ⟨.silent hnumber, hgate⟩

theorem Speaks.trans (h : r.Speaks r' now messages said) (hname : r'.id = r.id)
    (h' : r'.Speaks r'' now messages' said') :
    r.Speaks r'' now (messages ++ messages') (said ++ said') := by
  refine ⟨h.toRecites.trans hname h'.toRecites, ?_⟩
  rw [h'.keyframes, h.keyframes, KeyframeGate.noted, KeyframeGate.noted, KeyframeGate.noted,
    List.foldl_append]

/-- A message goes out from any state that the room comes to without saying anything. -/
theorem speak_carries (r : Room F) {q : Room F} (now : Time) (message : Feedback)
    (hname : q.id = r.id) (hnumber : q.nextSequence = r.nextSequence)
    (hgate : q.keyframes = r.keyframes.noted now [message])
    (hversion : q.version = protocolVersion) (hmessage : message.body.IsWritable) :
    r.Speaks (q.speak message.stream.sender message).1 now [message]
      (q.speak message.stream.sender message).2.toList := by
  obtain ⟨e, hsaid, -⟩ := speak_tells hversion message.stream.sender hmessage
  obtain ⟨hhome, haddressee, d, hdecode, hd, hroom, hsender, hsequence, hfeedback⟩ :=
    speak_decode hsaid
  have hcarries : e.Carries r.id r.nextSequence message :=
    ⟨hhome.trans hname, haddressee, d, hdecode, hd.trans hversion, hroom.trans hname, hsender,
      hsequence.trans hnumber, hfeedback⟩
  refine ⟨⟨?_, congrArg (· + 1) hnumber⟩, hgate⟩
  rw [hsaid]
  exact .cons hcarries (.nil _)

theorem requestKeyframe_speaks (hversion : r.version = protocolVersion) (id : StreamId)
    (now : Time) :
    r.Speaks (r.requestKeyframe id now).1 now
      (Feedback.askIf id
        ((r.streams.get? id).any (·.keyframeWanted) && r.keyframes.isOpen id now))
      (r.requestKeyframe id now).2.toList := by
  unfold requestKeyframe
  cases hs : r.streams.get? id with
  | none => exact .silent rfl rfl
  | some s =>
    cases hw : s.keyframeWanted with
    | false => simpa [hw, Feedback.askIf] using .silent rfl rfl
    | true =>
      cases hopen : r.keyframes.isOpen id now with
      | false => simpa [hw, hopen, KeyframeGate.request, Feedback.askIf] using .silent rfl rfl
      | true =>
        simp only [hw, hopen, KeyframeGate.request, Feedback.askIf, Option.any_some, Bool.not_true,
          Bool.false_eq_true, if_true, if_false, Bool.and_self]
        refine r.speak_carries now ⟨id, .keyframeRequest⟩ ?_ ?_ ?_ ?_ trivial
        · rfl
        · rfl
        · rfl
        · exact hversion

variable [Arithmetic F]

theorem reportArrivals_speaks (hversion : r.version = protocolVersion) (id : StreamId)
    (now : Time) :
    r.Speaks (r.reportArrivals id now).1 now
      (((r.streams.get? id).bind fun s => (s.uplink.takeReport now).2).toList.map
        (⟨id, .congestion ·⟩))
      ((r.reportArrivals id now).2.map (·.egress)) := by
  unfold reportArrivals
  cases hs : r.streams.get? id with
  | none => exact .silent rfl rfl
  | some s =>
    rw [Option.bind_some]
    simp only
    cases htake : s.uplink.takeReport now with
    | mk uplink answer =>
      cases answer with
      | none => exact .silent rfl rfl
      | some report =>
        have hwritable : report.IsWritable :=
          Uplink.takeReport_isWritable (u := s.uplink) (congrArg Prod.snd htake)
        have hsaid := r.speak_carries (q := r.setStream id { s with uplink }) now
          ⟨id, .congestion report⟩ rfl rfl rfl hversion hwritable
        simpa [Option.toList_map, Function.comp_def, Emission.egress] using hsaid

theorem tickStream_speaks (hversion : r.version = protocolVersion) (h : Hysteresis F) (now : Time)
    (id : StreamId) :
    r.Speaks (r.tickStream h now id).1 now (r.agendaOf h now id)
      ((r.tickStream h now id).2.map (·.egress)) := by
  let reported : Room F := { (r.reportArrivals id now).1 with
    streams := (r.reportArrivals id now).1.streams.modify id (·.tickLinks h now) }
  have hseats := reportArrivals_sameSeats r id now
  have hreport := reportArrivals_speaks hversion id now
  have hrequest := requestKeyframe_speaks (r := reported) (hseats.version.trans hversion) id now
  have hagenda : r.agendaOf h now id =
      ((r.streams.get? id).bind fun s => (s.uplink.takeReport now).2).toList.map
          (⟨id, .congestion ·⟩) ++
        Feedback.askIf id ((reported.streams.get? id).any (·.keyframeWanted) &&
          reported.keyframes.isOpen id now) := by
    simp only [agendaOf, reported, reportArrivals_streams, reportArrivals_keyframes,
      Table.get?_modify_self]
    cases r.streams.get? id with
    | none => rfl
    | some s => rfl
  have hsaid : ((r.tickStream h now id).2.map (·.egress)) =
      (r.reportArrivals id now).2.map (·.egress) ++ (reported.requestKeyframe id now).2.toList := by
    simp [tickStream, reported, Option.toList_map, Function.comp_def, Emission.egress]
  rw [hagenda, hsaid]
  exact hreport.trans hseats.id ⟨⟨hrequest.recited, hrequest.nextSequence⟩, hrequest.keyframes⟩

/-- The work for one stream leaves what is due for another. -/
theorem tickStream_agendaOf (r : Room F) (h : Hysteresis F) (now : Time) {id other : StreamId}
    (hne : other ≠ id) :
    (r.tickStream h now id).1.agendaOf h now other = r.agendaOf h now other := by
  rw [agendaOf, tickStream_get?, if_neg hne, tickStream_isOpen r h now now hne, agendaOf]

theorem tickStreams_speaks (hversion : r.version = protocolVersion) (h : Hysteresis F) (now : Time)
    {ids : List StreamId} (hn : ids.Nodup) :
    r.Speaks (r.tickStreams h now ids).1 now (ids.flatMap (r.agendaOf h now))
      ((r.tickStreams h now ids).2.map (·.egress)) := by
  induction ids generalizing r with
  | nil => exact .silent rfl rfl
  | cons id rest ih =>
    obtain ⟨hid, hrest⟩ := List.nodup_cons.mp hn
    have hseats := tickStream_sameSeats r h now id
    have hothers : rest.flatMap ((r.tickStream h now id).1.agendaOf h now) =
        rest.flatMap (r.agendaOf h now) :=
      List.flatMap_congr fun other hother =>
        r.tickStream_agendaOf h now fun heq => hid (heq ▸ hother)
    rw [tickStreams, List.flatMap_cons, List.map_append, ← hothers]
    exact (tickStream_speaks hversion h now id).trans hseats.id
      (ih (hseats.version.trans hversion) hrest)

/-- A tick says all that is due, and then forgets requests of long ago. -/
theorem Coherent.tick_speaks (hr : r.Coherent) (hversion : r.version = protocolVersion)
    (h : Hysteresis F) (now : Time) :
    r.Recites (r.tick h now).1 (r.agenda h now) ((r.tick h now).2.map (·.egress)) ∧
      (r.tick h now).1.keyframes = (r.keyframes.noted now (r.agenda h now)).cleanup now := by
  have hkeys : r.routing.subscribers.keys = r.streams.keys := by
    rw [hr.routing]
    exact Table.keys_map _ _
  have hsaid := tickStreams_speaks hversion h now r.routing.subscribers.keys_nodup
  rw [hkeys] at hsaid
  unfold Room.tick
  rw [hkeys]
  exact ⟨⟨hsaid.recited, hsaid.nextSequence⟩, congrArg (·.cleanup now) hsaid.keyframes⟩

theorem adapt_speaks (hversion : r.version = protocolVersion) (h : Hysteresis F) (s : Stream F)
    (link : Downlink F) (receiver : ParticipantId) (now : Time) :
    r.Speaks (r.adapt h s link receiver now).1 now
      (Feedback.askIf s.id ((s.keyframeWanted || (link.retarget h s.graph).2.wantsKeyframe) &&
        r.keyframes.isOpen s.id now))
      (r.adapt h s link receiver now).2.requests := by
  have hrequest := requestKeyframe_speaks
    (r := r.setStream s.id { s with
      links := s.links.insert receiver (link.retarget h s.graph).1
      keyframeWanted := s.keyframeWanted || (link.retarget h s.graph).2.wantsKeyframe })
    hversion s.id now
  rw [setStream, Table.get?_insert_self] at hrequest
  exact ⟨⟨hrequest.recited, hrequest.nextSequence⟩, hrequest.keyframes⟩

theorem Coherent.takeFeedback_speaks (hr : r.Coherent) (hversion : r.version = protocolVersion)
    (h : Hysteresis F) (d : Datagram) (raw : Bytes) (now : Time) :
    r.Speaks (r.takeFeedback h d raw now).1 now (r.prompted h now d)
      (Outcome.requestsOf (r.takeFeedback h d raw now).2) := by
  unfold Room.takeFeedback prompted
  cases hmessage : d.feedback with
  | error _ => exact .silent rfl rfl
  | ok message =>
    simp only [hr.subscribers_eq]
    cases hs : r.streams.get? message.stream with
    | none => exact .silent rfl rfl
    | some s =>
      obtain ⟨-, hserves⟩ := hr.streams _ s hs
      have hlinked := hserves.contains_iff d.header.sender
      cases hl : s.links.get? d.header.sender with
      | none =>
        have hstranger : (r.receivers message.stream).contains d.header.sender = false := by
          rw [Bool.eq_false_iff, Ne, ← hlinked, Table.contains, hl]
          exact Bool.false_ne_true
        simpa [hstranger, Stream.wantsOnce, hl, Feedback.askIf] using .silent rfl rfl
      | some link =>
        have hsubscribed : (r.receivers message.stream).contains d.header.sender :=
          hlinked.mp (Table.contains_of_get? hl)
        cases hbody : message.body with
        | nack _ | keyframeRequest =>
          simpa [hsubscribed, Stream.wantsOnce, hl, Downlink.told, Feedback.askIf] using
            .silent rfl rfl
        | congestion report =>
          have hsaid := adapt_speaks hversion h s (link.onReport report now) d.header.sender now
          simpa [hsubscribed, Stream.wantsOnce, hl, Downlink.told, hserves.name] using hsaid
        | receiverEstimate rate =>
          have hsaid := adapt_speaks hversion h s (link.onReceiverEstimate rate.toNat now)
            d.header.sender now
          simpa [hsubscribed, Stream.wantsOnce, hl, Downlink.told, hserves.name] using hsaid

/-- Media leads to nothing that the relay has to say. -/
theorem forward_speaks (r : Room F) (h : Hysteresis F) (d : Datagram) (raw : Bytes) (now : Time) :
    r.Speaks (r.forward h d raw now).1 now [] (Outcome.requestsOf (r.forward h d raw now).2) := by
  cases hforward : r.forward h d raw now with
  | mk r' answer =>
    cases answer with
    | error reason =>
      obtain rfl | ⟨s, _, _, _, _, -, -, -, rfl⟩ := forward_error_cases hforward
      · exact .silent rfl rfl
      · exact .silent rfl rfl
    | ok out =>
      obtain ⟨_, _, _, _, _, -, -, rfl, rfl⟩ := forward_eq_ok_iff.mp hforward
      exact .silent rfl rfl

theorem Coherent.handle_speaks (hr : r.Coherent) (hversion : r.version = protocolVersion)
    (h : Hysteresis F) {d : Datagram} (hm : r.members.contains d.header.sender) (raw : Bytes)
    (source : Endpoint) (now : Time) :
    r.Speaks (r.handle h d raw source now).1 now (r.prompted h now d)
      (Outcome.requestsOf (r.handle h d raw source now).2) := by
  have hheard := hr.heard hm source now
  rw [hr.handle_of_member hm]
  split
  · have hsaid := hheard.takeFeedback_speaks hversion h d raw now
    exact ⟨⟨hsaid.recited, hsaid.nextSequence⟩, hsaid.keyframes⟩
  · rename_i hmedia
    have hnothing : r.prompted h now d = [] := by
      rw [prompted, Datagram.feedback, if_neg hmedia]
    have hsaid := (r.heard d.header.sender source now).forward_speaks h d raw now
    rw [hnothing]
    exact ⟨⟨hsaid.recited, hsaid.nextSequence⟩, hsaid.keyframes⟩

/-- Nothing is due for those who do not get the stream. -/
theorem Coherent.prompted_of_stranger (hr : r.Coherent) (h : Hysteresis F) (now : Time)
    {d : Datagram} (hm : r.members.contains d.header.sender = false) :
    r.prompted h now d = [] := by
  unfold prompted
  cases d.feedback with
  | error _ => rfl
  | ok message =>
    cases hs : r.streams.get? message.stream with
    | none => simp [hs, Feedback.askIf]
    | some s =>
      obtain ⟨-, hserves⟩ := hr.streams _ s hs
      have hnolink : s.links.get? d.header.sender = none := by
        refine Option.not_isSome_iff_eq_none.mp fun hlink => ?_
        have hmember := (hr.subscribed _ _ ((hserves.contains_iff _).mp hlink)).2.1.member
        rw [hm] at hmember
        cases hmember
      simp [hs, Stream.wantsOnce, hnolink, Feedback.askIf]

/-- Signaling says nothing, and only leaving takes anything from the gate. -/
theorem signal_silent (r : Room F) (now : Time) (act : Event.Act) :
    (r.signal now act).nextSequence = r.nextSequence ∧
      ((r.signal now act).keyframes = r.keyframes ∨ ∃ p, act = .leave p) := by
  cases act with
  | join p role version =>
    obtain ⟨_, hjoin⟩ | ⟨-, -, -, -, hjoin⟩ := r.join_cases p role version now
    all_goals exact ⟨congrArg (·.1.nextSequence) hjoin, .inl (congrArg (·.1.keyframes) hjoin)⟩
  | leave p =>
    obtain ⟨-, _, hleave⟩ | ⟨-, hleave⟩ := r.leave_cases p
    all_goals exact ⟨congrArg (·.1.nextSequence) hleave, .inr ⟨p, rfl⟩⟩
  | negotiate stream offer =>
    obtain ⟨_, hneg⟩ | ⟨_, _, -, -, -, -, ⟨_, -, hneg⟩ | ⟨-, -, hneg⟩⟩ :=
      r.negotiate_cases stream.sender stream.kind offer now
    all_goals exact ⟨congrArg (·.1.nextSequence) hneg, .inl (congrArg (·.1.keyframes) hneg)⟩
  | subscribe p stream =>
    obtain ⟨_, hsub⟩ | ⟨_, _, -, -, -, -, -, -, ⟨-, hsub⟩ | ⟨-, hsub⟩⟩ :=
      r.subscribe_cases p stream now
    all_goals exact ⟨congrArg (·.1.nextSequence) hsub, .inl (congrArg (·.1.keyframes) hsub)⟩
  | unsubscribe p stream =>
    obtain ⟨_, hun⟩ | ⟨-, hun⟩ := r.unsubscribe_cases p stream
    all_goals exact ⟨congrArg (·.1.nextSequence) hun, .inl (congrArg (·.1.keyframes) hun)⟩
  | setMuted receiver sender muted =>
    obtain ⟨_, hset⟩ | ⟨_, -, -, hset⟩ := r.setMuted_cases receiver sender muted
    all_goals exact ⟨congrArg (·.1.nextSequence) hset, .inl (congrArg (·.1.keyframes) hset)⟩
  | setDeafened p deafened =>
    obtain ⟨_, hset⟩ | ⟨_, -, hset⟩ := r.setDeafened_cases p deafened
    all_goals exact ⟨congrArg (·.1.nextSequence) hset, .inl (congrArg (·.1.keyframes) hset)⟩

theorem expel_nextSequence (r : Room F) (gone : List ParticipantId) :
    (r.expel gone).nextSequence = r.nextSequence := by
  induction gone generalizing r with
  | nil => rfl
  | cons p rest ih => exact (ih _).trans (r.signal_silent 0 (.leave p)).1

end Room

end MediaRelay
