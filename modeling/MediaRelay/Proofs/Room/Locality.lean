import MediaRelay.Proofs.Room.Effects

/-!
What a media datagram looks at. It reads its own stream and the routing table and writes nothing but
its stream and the presence of its sender (`Room.Coherent.forward_local`), so media of two senders
can change places (`Room.Coherent.takeIn_independent`).
-/

namespace MediaRelay

variable {F : Type}

theorem Header.sender_of_stream? {header : Header} {id : StreamId} (h : header.stream? = some id) :
    id.sender = header.sender := by
  obtain ⟨kind, -, rfl⟩ := Option.map_eq_some_iff.mp h
  rfl

namespace Room

/-- Two rooms that a media datagram cannot tell from each other. -/
structure SameFor (header : Header) (r r' : Room F) : Prop where
  id : r'.id = r.id
  routing : r'.routing = r.routing
  stream : ∀ id, header.stream? = some id → r'.streams.get? id = r.streams.get? id

theorem SameFor.refl (header : Header) (r : Room F) : SameFor header r r :=
  ⟨rfl, rfl, fun _ _ => rfl⟩

theorem SameFor.route_eq {header : Header} {r r' : Room F} (h : SameFor header r r') :
    r'.route header = r.route header := by
  unfold route
  cases hkind : header.kind? with
  | none => rfl
  | some kind =>
    have hstream := h.stream ⟨header.sender, kind⟩ (by rw [Header.stream?, hkind]; rfl)
    simp only [h.routing, hstream]

/-- The room with the stream that a datagram wrote, if it wrote one. -/
def written (r : Room F) : Option (StreamId × Stream F) → Room F
  | none => r
  | some (id, s) => r.setStream id s

variable [Arithmetic F]

section Forward

variable {r r' : Room F} {h : Hysteresis F} {d : Datagram} {raw : Bytes} {now : Time}

theorem SameFor.passage (hsame : SameFor d.header r r') {s s' : Stream F}
    {receivers receivers' : List ParticipantId} {step : Downlink F → Downlink F × Fate}
    (hp : Passage r h d raw now s receivers s' receivers' step) :
    Passage r' h d raw now s receivers s' receivers' step := by
  cases hp with
  | audio htype =>
    have hhears : r'.hears? = r.hears? := by
      funext p sender
      rw [hears?, hears?, hsame.routing]
    rw [← hhears]
    exact .audio htype
  | frame descriptor history seen htype hdescriptor hseen =>
    exact .frame descriptor history seen htype hdescriptor hseen
  | repair htype => exact .repair htype

theorem Coherent.forward_ok (hr : r.Coherent) {after : Room F} {out : Outcome}
    (hok : r.forward h d raw now = (after, .ok out)) :
    ∃ id s', d.header.stream? = some id ∧ ∀ r' : Room F, SameFor d.header r r' →
      r'.forward h d raw now = (r'.setStream id s', .ok out) := by
  obtain ⟨s, receivers, s', receivers', step, hroute, hpass, -, rfl⟩ := forward_eq_ok_iff.mp hok
  refine ⟨s.id, (s'.accept step receivers').1, hr.stream?_of_route hroute, fun r' hsame => ?_⟩
  refine forward_eq_ok_iff.mpr ⟨s, receivers, s', receivers', step, hsame.route_eq.trans hroute,
    hsame.passage hpass, rfl, ?_⟩
  rw [copiesOf, copiesOf, hsame.id]

omit [Arithmetic F] in
theorem SameFor.stopped (hsame : SameFor d.header r r') {after : Room F} {reason : DropReason}
    (hstopped : Stopped r d after reason) : ∃ after', Stopped r' d after' reason := by
  have hroutes := hsame.route_eq
  cases hstopped with
  | astray _ hroute => exact ⟨_, .astray reason (hroutes.trans hroute)⟩
  | bare s receivers hroute htype hdescriptor =>
    exact ⟨_, .bare s receivers (hroutes.trans hroute) htype hdescriptor⟩
  | contradicted s receivers descriptor history fault hroute htype hdescriptor hseen =>
    exact ⟨_, .contradicted s receivers descriptor history fault (hroutes.trans hroute) htype
      hdescriptor hseen⟩

theorem SameFor.forward_error (hsame : SameFor d.header r r') {reason : DropReason}
    (herr : (r.forward h d raw now).2 = .error reason) :
    (r'.forward h d raw now).2 = .error reason := by
  obtain ⟨after, hstopped⟩ := hsame.stopped (forward_eq_error_iff.mp (Prod.ext rfl herr))
  exact congrArg Prod.snd (forward_eq_error_iff.mpr hstopped)

/-- What is written and what is answered is the same in all rooms that look the same. -/
theorem Coherent.forward_local (hr : r.Coherent) (h : Hysteresis F) (d : Datagram) (raw : Bytes)
    (now : Time) :
    ∃ write answer, (∀ id s, write = some (id, s) → d.header.stream? = some id) ∧
      ∀ r' : Room F, r'.Coherent → SameFor d.header r r' →
        r'.forward h d raw now = (r'.written write, answer) := by
  cases hf : r.forward h d raw now with
  | mk after answer =>
    cases answer with
    | error reason =>
      refine ⟨none, .error reason, (fun _ _ hw => by cases hw), fun r' hr' hsame => ?_⟩
      have herr : (r'.forward h d raw now).2 = .error reason := hsame.forward_error (by rw [hf])
      have hstays : (r'.forward h d raw now).1 = r' := hr'.forward_error (Prod.ext rfl herr)
      exact Prod.ext hstays herr
    | ok out =>
      obtain ⟨id, s', hid, hwrites⟩ := hr.forward_ok hf
      refine ⟨some (id, s'), .ok out, ?_, fun r' _ hsame => hwrites r' hsame⟩
      rintro id' t ⟨⟩
      exact hid

end Forward

end Room

/-- Two operations that lead to the same state and give the same answers in either order. -/
structure Independent {σ α β : Type} (s : σ) (f : σ → σ × α) (g : σ → σ × β) : Prop where
  state : (g (f s).1).1 = (f (g s).1).1
  first : (f (g s).1).2 = (f s).2
  second : (g (f s).1).2 = (g s).2

namespace Independent

variable {σ α β : Type} {s : σ} {f : σ → σ × α} {g : σ → σ × β}

theorem symm (h : Independent s f g) : Independent s g f := ⟨h.state.symm, h.second, h.first⟩

/-- An operation that does nothing, before the other and after it. -/
theorem of_idle {x : α} (hbefore : f s = (s, x)) (hafter : f (g s).1 = ((g s).1, x)) :
    Independent s f g := by
  refine ⟨?_, ?_, ?_⟩
  · rw [hbefore, hafter]
  · rw [hbefore, hafter]
  · rw [hbefore]

end Independent

/-- Bytes that come in, from where and when. -/
structure Inbound where
  raw : Bytes
  source : Endpoint
  time : Time
  deriving DecidableEq

namespace Room

section Written

variable {r : Room F} {p : ParticipantId} {w : Option (StreamId × Stream F)}

theorem SameFor.written {header : Header} (hw : ∀ id s, w = some (id, s) → id.sender = p)
    (hne : header.sender ≠ p) (source : Endpoint) (now : Time) :
    SameFor header r ((r.heard p source now).written w) := by
  cases w with
  | none => exact ⟨rfl, rfl, fun _ _ => rfl⟩
  | some written =>
    obtain ⟨id, s⟩ := written
    refine ⟨rfl, rfl, fun other hother => Table.get?_insert_of_ne _ _ ?_⟩
    rintro rfl
    exact hne ((Header.sender_of_stream? hother).symm.trans (hw _ s rfl))

theorem written_members (r : Room F) (w : Option (StreamId × Stream F)) :
    (r.written w).members = r.members := by
  cases w <;> rfl

theorem heard_written_comm (r : Room F) {q : ParticipantId} {w' : Option (StreamId × Stream F)}
    (hw : ∀ id s, w = some (id, s) → id.sender = p)
    (hw' : ∀ id s, w' = some (id, s) → id.sender = q) (hne : p ≠ q) (a b : Inbound) :
    (((r.heard p a.source a.time).written w).heard q b.source b.time).written w' =
      (((r.heard q b.source b.time).written w').heard p a.source a.time).written w := by
  have hpresence := Table.insert_comm r.presence (⟨some a.source, a.time⟩ : Presence)
    ⟨some b.source, b.time⟩ hne
  cases w with
  | none => cases w' <;> simp only [written, setStream, heard, hpresence]
  | some first =>
    cases w' with
    | none => simp only [written, setStream, heard, hpresence]
    | some second =>
      obtain ⟨id, s⟩ := first
      obtain ⟨id', s'⟩ := second
      have hids : id ≠ id' := by
        rintro rfl
        exact hne ((hw id s rfl).symm.trans (hw' id s' rfl))
      simp only [written, setStream, heard, hpresence, Table.insert_comm r.streams s s' hids]

end Written

variable [Arithmetic F] {r : Room F}

/-- Takes in a datagram, whoever sent it. -/
def takeIn (r : Room F) (h : Hysteresis F) (d : Datagram) (a : Inbound) :
    Room F × Except DropReason Outcome :=
  if r.members.contains d.header.sender then r.handle h d a.raw a.source a.time
  else (r, .error .unknownSender)

theorem takeIn_members (r : Room F) (h : Hysteresis F) (d : Datagram) (a : Inbound) :
    (r.takeIn h d a).1.members = r.members := by
  unfold takeIn
  split
  · exact (r.handle_frame h d a.raw a.source a.time).2.2.1
  · rfl

theorem Coherent.takeIn (hr : r.Coherent) (h : Hysteresis F) (d : Datagram) (a : Inbound) :
    (r.takeIn h d a).1.Coherent := by
  unfold Room.takeIn
  split
  · exact hr.handle h d a.raw a.source a.time
  · exact hr

theorem Coherent.takeIn_local (hr : r.Coherent) {d : Datagram}
    (hp : r.members.contains d.header.sender) (htype : d.header.packetType ≠ .feedback)
    (h : Hysteresis F) (a : Inbound) :
    ∃ write answer, (∀ id s, write = some (id, s) → id.sender = d.header.sender) ∧
      ∀ r' : Room F, r'.Coherent → SameFor d.header r r' → r'.members = r.members →
        r'.takeIn h d a = ((r'.heard d.header.sender a.source a.time).written write, answer) := by
  obtain ⟨write, answer, hwrite, hlocal⟩ :=
    (hr.heard hp a.source a.time).forward_local h d a.raw a.time
  refine ⟨write, answer, fun id s hw => Header.sender_of_stream? (hwrite id s hw),
    fun r' hr' hsame hmembers => ?_⟩
  have hp' : r'.members.contains d.header.sender := hmembers ▸ hp
  rw [Room.takeIn, if_pos hp', hr'.handle_of_member hp', if_neg htype]
  exact hlocal _ (hr'.heard hp' a.source a.time) ⟨hsame.id, hsame.routing, hsame.stream⟩

/-- Media of two senders can change places. -/
theorem Coherent.takeIn_independent (hr : r.Coherent) (h : Hysteresis F) {d e : Datagram}
    (hd : d.header.packetType ≠ .feedback) (he : e.header.packetType ≠ .feedback)
    (hne : d.header.sender ≠ e.header.sender) (a b : Inbound) :
    Independent r (·.takeIn h d a) (·.takeIn h e b) := by
  by_cases hp : r.members.contains d.header.sender
  case neg =>
    refine .of_idle (if_neg hp) (if_neg ?_)
    rwa [takeIn_members]
  by_cases hq : r.members.contains e.header.sender
  case neg =>
    refine .symm (.of_idle (if_neg hq) (if_neg ?_))
    rwa [takeIn_members]
  obtain ⟨w, x, hw, hlocal⟩ := hr.takeIn_local hp hd h a
  obtain ⟨w', y, hw', hlocal'⟩ := hr.takeIn_local hq he h b
  have hfirst := hlocal r hr (.refl _ r) rfl
  have hsecond := hlocal' r hr (.refl _ r) rfl
  have hr₁ := hr.takeIn h d a
  have hr₂ := hr.takeIn h e b
  rw [hfirst] at hr₁
  rw [hsecond] at hr₂
  have hthen := hlocal' _ hr₁ (.written hw hne.symm a.source a.time) (written_members _ w)
  have hthen' := hlocal _ hr₂ (.written hw' hne b.source b.time) (written_members _ w')
  refine ⟨?_, ?_, ?_⟩
  · simp only [hfirst, hsecond, hthen, hthen', heard_written_comm r hw hw' hne a b]
  · simp only [hfirst, hsecond, hthen']
  · simp only [hfirst, hsecond, hthen]

end Room

end MediaRelay
