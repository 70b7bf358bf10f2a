import MediaRelay.Room.Membership

/-!
What each signaling operation of a room can do. An operation that is refused gives the room back as
it was, and one that is accepted changes what its lemma says and nothing else.
-/

namespace MediaRelay.Room

variable {F : Type} (r : Room F)

/-- An operation was refused and left the room as it was. -/
def Refused {α : Type} (answer : Room F × Except Refusal α) : Prop :=
  ∃ refusal, answer = (r, .error refusal)

theorem join_cases (participant : ParticipantId) (role : Role) (version : UInt8) (now : Time) :
    r.Refused (r.join participant role version now) ∨
      (r.closed = false ∧ version = r.version ∧ r.members.contains participant = false ∧
        r.members.size < r.terms.maxParticipants ∧
        r.join participant role version now =
          (publish { r with
            members := r.members.insert participant (.ofRole role)
            presence := r.presence.insert participant ⟨none, now⟩ }, .ok ())) := by
  unfold join
  split
  · exact .inl ⟨_, rfl⟩
  split
  · exact .inl ⟨_, rfl⟩
  split
  · exact .inl ⟨_, rfl⟩
  split
  · exact .inl ⟨_, rfl⟩
  · rename_i hopen hversion hnew hfull
    exact .inr ⟨by simpa using hopen, by simpa using hversion, by simpa using hnew,
      Nat.lt_of_not_le hfull, rfl⟩

theorem join_ne_roomClosed (hopen : r.closed = false) (participant : ParticipantId) (role : Role)
    (version : UInt8) (now : Time) :
    (r.join participant role version now).2 ≠ .error .roomClosed := by
  unfold join
  rw [hopen]
  simp only [Bool.false_eq_true, if_false]
  split
  · simp
  split
  · simp
  split
  · simp
  · simp

/-- A room without a participant that left it. -/
def without (participant : ParticipantId) : Room F :=
  let members := (r.members.erase participant).map fun _ m =>
    { m with muted := m.muted.erase participant }
  publish { r with
    members
    presence := r.presence.erase participant
    streams := (r.streams.filter fun id _ => id.sender ≠ participant).map fun _ s =>
      s.dropLink participant
    subscriptions := withdraw participant r.subscriptions
    keyframes := (r.streams.filter fun id _ => id.sender == participant).keys.foldl .forget
      r.keyframes
    closed := members.isEmpty }

theorem leave_cases (participant : ParticipantId) :
    (r.members.contains participant = false ∧ r.Refused (r.leave participant)) ∨
      (r.members.contains participant = true ∧
        r.leave participant = (r.without participant, .ok (r.without participant).closed)) := by
  unfold leave
  split
  · rename_i h
    exact .inl ⟨by simpa using h, _, rfl⟩
  · rename_i h
    exact .inr ⟨by simpa using h, rfl⟩

/-- A stream that is negotiated anew, or an existing one with its new graph. -/
theorem negotiate_cases [Arithmetic F] (sender : ParticipantId) (kind : Kind) (offer : Offer)
    (now : Time) :
    r.Refused (r.negotiate sender kind offer now) ∨
      ∃ member graph, r.closed = false ∧ r.members.get? sender = some member ∧
        member.role.send.allows kind ∧
        LayerGraph.ofOffer kind offer (r.graphVersions + 1) = .ok graph ∧
        ((∃ s, r.streams.get? ⟨sender, kind⟩ = some s ∧
          r.negotiate sender kind offer now =
            ({ r with graphVersions := r.graphVersions + 1 }.setStream ⟨sender, kind⟩
              (s.renegotiate graph), .ok (r.graphVersions + 1))) ∨
        (r.streams.get? ⟨sender, kind⟩ = none ∧ r.streams.size < r.terms.maxStreams ∧
          r.negotiate sender kind offer now =
            (publish ({ r with graphVersions := r.graphVersions + 1 }.setStream ⟨sender, kind⟩
              ({ r with graphVersions := r.graphVersions + 1 }.newStream ⟨sender, kind⟩ graph now)),
              .ok (r.graphVersions + 1)))) := by
  unfold negotiate
  split
  · exact .inl ⟨_, rfl⟩
  rename_i hopen
  cases hm : r.members.get? sender with
  | none => exact .inl ⟨_, rfl⟩
  | some member =>
    simp only
    split
    · exact .inl ⟨_, rfl⟩
    split
    · exact .inl ⟨_, rfl⟩
    rename_i hrole hlimit
    cases hg : LayerGraph.ofOffer kind offer (r.graphVersions + 1) with
    | error fault => exact .inl ⟨_, rfl⟩
    | ok graph =>
      refine .inr ⟨member, graph, by simpa using hopen, rfl, by simpa using hrole, rfl, ?_⟩
      cases hs : r.streams.get? ⟨sender, kind⟩ with
      | some s => exact .inl ⟨s, rfl, by simp⟩
      | none =>
        refine .inr ⟨rfl, ?_, by simp⟩
        simpa [Table.contains, hs] using hlimit

/-- A room with one more subscription. -/
def withReceiver [Arithmetic F] (receiver : ParticipantId) (stream : StreamId) (now : Time) :
    Room F :=
  publish { r with
    subscriptions := r.subscriptions.insert stream ((r.receivers stream).insert receiver ())
    streams := r.streams.modify stream fun s =>
      s.addLink r.terms.estimator r.terms.feedbackTimeout now receiver }

theorem subscribe_cases [Arithmetic F] (receiver : ParticipantId) (stream : StreamId) (now : Time) :
    r.Refused (r.subscribe receiver stream now) ∨
      ∃ listener source, r.closed = false ∧ receiver ≠ stream.sender ∧
        r.members.get? receiver = some listener ∧ r.members.get? stream.sender = some source ∧
        listener.role.receive.allows stream.kind ∧ source.role.send.allows stream.kind ∧
        (((r.receivers stream).contains receiver = true ∧
          r.subscribe receiver stream now = (r, .ok ())) ∨
        ((r.receivers stream).contains receiver = false ∧
          r.subscribe receiver stream now = (r.withReceiver receiver stream now, .ok ()))) := by
  unfold subscribe
  split
  · exact .inl ⟨_, rfl⟩
  split
  · exact .inl ⟨_, rfl⟩
  rename_i hopen hself
  cases hl : r.members.get? receiver with
  | none => exact .inl ⟨_, rfl⟩
  | some listener =>
    cases hs : r.members.get? stream.sender with
    | none => exact .inl ⟨_, rfl⟩
    | some source =>
      simp only
      split
      · exact .inl ⟨_, rfl⟩
      split
      · exact .inl ⟨_, rfl⟩
      rename_i hreceive hsend
      refine .inr ⟨listener, source, by simpa using hopen, hself, rfl, rfl, by simpa using hreceive,
        by simpa using hsend, ?_⟩
      split
      · rename_i h
        exact .inl ⟨h, rfl⟩
      · rename_i h
        refine .inr ⟨by simpa using h, ?_⟩
        cases hst : r.streams.get? stream with
        | none => simp [withReceiver, Table.modify_of_none hst]
        | some s =>
          simp only [withReceiver, setStream]
          rw [Table.insert_eq_modify
            (f := fun s => s.addLink r.terms.estimator r.terms.feedbackTimeout now receiver) hst]

/-- A room with one subscription less. -/
def withoutReceiver (receiver : ParticipantId) (stream : StreamId) : Room F :=
  let left := (r.receivers stream).erase receiver
  publish { r with
    subscriptions :=
      if left.isEmpty then r.subscriptions.erase stream else r.subscriptions.insert stream left
    streams := r.streams.modify stream (·.dropLink receiver) }

theorem unsubscribe_cases (receiver : ParticipantId) (stream : StreamId) :
    r.Refused (r.unsubscribe receiver stream) ∨
      ((r.receivers stream).contains receiver = true ∧
        r.unsubscribe receiver stream = (r.withoutReceiver receiver stream, .ok ())) := by
  unfold unsubscribe
  split
  · exact .inl ⟨_, rfl⟩
  split
  · exact .inl ⟨_, rfl⟩
  · rename_i h
    exact .inr ⟨by simpa using h, rfl⟩

theorem setMuted_cases (receiver sender : ParticipantId) (muted : Bool) :
    r.Refused (r.setMuted receiver sender muted) ∨
      ∃ m, r.members.get? receiver = some m ∧ r.members.contains sender = true ∧
        r.setMuted receiver sender muted =
          (publish { r with members := r.members.insert receiver { m with
            muted := if muted then m.muted.insert sender () else m.muted.erase sender } },
            .ok ()) := by
  unfold setMuted
  split
  · exact .inl ⟨_, rfl⟩
  rename_i hs
  cases hm : r.members.get? receiver with
  | none => exact .inl ⟨_, rfl⟩
  | some m => exact .inr ⟨m, rfl, by simpa using hs, rfl⟩

theorem setDeafened_cases (participant : ParticipantId) (deafened : Bool) :
    r.Refused (r.setDeafened participant deafened) ∨
      ∃ m, r.members.get? participant = some m ∧
        r.setDeafened participant deafened =
          (publish { r with members := r.members.insert participant { m with deafened } },
            .ok ()) := by
  unfold setDeafened
  cases hm : r.members.get? participant with
  | none => exact .inl ⟨_, rfl⟩
  | some m => exact .inr ⟨m, rfl, rfl⟩

theorem touch_cases (participant : ParticipantId) (source : Endpoint) (now : Time) :
    (r.presence.contains participant = false ∧ r.touch participant source now = (r, false)) ∨
      (r.presence.contains participant = true ∧ r.touch participant source now =
        ({ r with presence := r.presence.insert participant ⟨some source, now⟩ }, true)) := by
  unfold touch
  split
  · rename_i h
    exact .inr ⟨h, rfl⟩
  · rename_i h
    exact .inl ⟨by simpa using h, rfl⟩

end MediaRelay.Room
