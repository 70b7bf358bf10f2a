import MediaRelay.Proofs.Room.Evolution

/-!
Signaling operations are atomic. One that is refused leaves the whole room as it was, so a run comes
to the same room without those that are refused in their turn (`run_refused_untouched`).
-/

namespace MediaRelay.Room

variable {F : Type} {r : Room F}

theorem Refused.answered {α : Type} {outcome : Room F × Except Refusal α} (h : r.Refused outcome) :
    ∃ refusal, Relay.done outcome.2 = .error refusal ∧ outcome.1 = r := by
  obtain ⟨refusal, rfl⟩ := h
  exact ⟨refusal, rfl, rfl⟩

variable [Arithmetic F] {now : Time} {op : Op F}

/-- The answer to a signaling operation, without the value in it. -/
def answer (r : Room F) (now : Time) : Event.Act → Except Refusal Unit
  | .join participant role version => Relay.done (r.join participant role version now).2
  | .leave participant => Relay.done (r.leave participant).2
  | .negotiate stream offer => Relay.done (r.negotiate stream.sender stream.kind offer now).2
  | .subscribe receiver stream => Relay.done (r.subscribe receiver stream now).2
  | .unsubscribe receiver stream => Relay.done (r.unsubscribe receiver stream).2
  | .setMuted receiver sender muted => Relay.done (r.setMuted receiver sender muted).2
  | .setDeafened participant deafened => Relay.done (r.setDeafened participant deafened).2

/-- An operation is accepted, or it is refused and the room stays as it was. -/
theorem answer_cases (r : Room F) (now : Time) (act : Event.Act) :
    (∃ refusal, r.answer now act = .error refusal ∧ r.signal now act = r) ∨
      r.answer now act = .ok () := by
  cases act with
  | join p role version =>
    obtain hrefused | ⟨-, -, -, -, hjoin⟩ := r.join_cases p role version now
    · exact .inl hrefused.answered
    · exact .inr (by rw [answer, hjoin]; rfl)
  | leave p =>
    obtain ⟨-, hrefused⟩ | ⟨-, hleave⟩ := r.leave_cases p
    · exact .inl hrefused.answered
    · exact .inr (by rw [answer, hleave]; rfl)
  | negotiate stream offer =>
    obtain hrefused | ⟨_, _, -, -, -, -, ⟨_, -, hneg⟩ | ⟨-, -, hneg⟩⟩ :=
      r.negotiate_cases stream.sender stream.kind offer now
    · exact .inl hrefused.answered
    all_goals exact .inr (by rw [answer, hneg]; rfl)
  | subscribe p stream =>
    obtain hrefused | ⟨_, _, -, -, -, -, -, -, ⟨-, hsub⟩ | ⟨-, hsub⟩⟩ :=
      r.subscribe_cases p stream now
    · exact .inl hrefused.answered
    all_goals exact .inr (by rw [answer, hsub]; rfl)
  | unsubscribe p stream =>
    obtain hrefused | ⟨-, hun⟩ := r.unsubscribe_cases p stream
    · exact .inl hrefused.answered
    · exact .inr (by rw [answer, hun]; rfl)
  | setMuted receiver sender muted =>
    obtain hrefused | ⟨_, -, -, hset⟩ := r.setMuted_cases receiver sender muted
    · exact .inl hrefused.answered
    · exact .inr (by rw [answer, hset]; rfl)
  | setDeafened p deafened =>
    obtain hrefused | ⟨_, -, hset⟩ := r.setDeafened_cases p deafened
    · exact .inl hrefused.answered
    · exact .inr (by rw [answer, hset]; rfl)

theorem signal_of_error {act : Event.Act} {refusal : Refusal}
    (h : r.answer now act = .error refusal) : r.signal now act = r := by
  obtain ⟨_, -, hsame⟩ | hok := r.answer_cases now act
  · exact hsame
  · cases h.symm.trans hok

/-- What is not signaling has no refusal. -/
def refuses (r : Room F) (now : Time) : Op F → Bool
  | .signal act => !(r.answer now act).isOk
  | _ => false

theorem perform_of_refuses (h : r.refuses now op) : r.perform now op = r := by
  cases op with
  | signal act =>
    cases hanswer : r.answer now act with
    | error refusal => exact signal_of_error hanswer
    | ok _ => simp [refuses, hanswer, Except.isOk, Except.toBool] at h
  | touch _ _ => cases h
  | forward _ _ _ => cases h
  | takeFeedback _ _ _ => cases h
  | tick _ => cases h

/-- The operations of a run that are not refused in their turn. -/
def accepted (r : Room F) : List (Time × Op F) → List (Time × Op F)
  | [] => []
  | (now, op) :: rest =>
    let kept := (r.perform now op).accepted rest
    if r.refuses now op then kept else (now, op) :: kept

theorem accepted_cons_of_refuses (h : r.refuses now op) (rest : List (Time × Op F)) :
    r.accepted ((now, op) :: rest) = r.accepted rest := by
  rw [accepted, if_pos h, perform_of_refuses h]

theorem accepted_cons_of_not_refuses (h : ¬r.refuses now op) (rest : List (Time × Op F)) :
    r.accepted ((now, op) :: rest) = (now, op) :: (r.perform now op).accepted rest := by
  rw [accepted, if_neg h]

theorem accepted_sublist (r : Room F) (ops : List (Time × Op F)) :
    (r.accepted ops).Sublist ops := by
  induction ops generalizing r with
  | nil => exact .slnil
  | cons first rest ih =>
    obtain ⟨now, op⟩ := first
    by_cases h : r.refuses now op
    · rw [accepted_cons_of_refuses h]
      exact (ih r).cons _
    · rw [accepted_cons_of_not_refuses h]
      exact (ih _).cons_cons _

/-- What is left of a run has no refusal in it. -/
theorem accepted_accepted (r : Room F) (ops : List (Time × Op F)) :
    r.accepted (r.accepted ops) = r.accepted ops := by
  induction ops generalizing r with
  | nil => rfl
  | cons first rest ih =>
    obtain ⟨now, op⟩ := first
    by_cases h : r.refuses now op
    · rw [accepted_cons_of_refuses h, ih]
    · rw [accepted_cons_of_not_refuses h, accepted_cons_of_not_refuses h, ih]

theorem run_accepted (r : Room F) (ops : List (Time × Op F)) :
    r.run (r.accepted ops) = r.run ops := by
  induction ops generalizing r with
  | nil => rfl
  | cons first rest ih =>
    obtain ⟨now, op⟩ := first
    by_cases h : r.refuses now op
    · rw [accepted_cons_of_refuses h, ih, Room.run, perform_of_refuses h]
    · rw [accepted_cons_of_not_refuses h, Room.run, ih, Room.run]

/-- After every run, a signaling operation that is refused leaves the whole room as it was. The run
itself comes to the same room without those that it refused. -/
theorem run_refused_untouched (id : RoomId) (version : UInt8) (terms : Terms F)
    (ops : List (Time × Op F)) :
    let r := (start id version terms).run ops
    let kept := (start id version terms).accepted ops
    (∀ now act refusal, r.answer now act = .error refusal → r.signal now act = r) ∧
      (start id version terms).run kept = r ∧ kept.Sublist ops ∧
      (start id version terms).accepted kept = kept :=
  ⟨fun _ _ _ => signal_of_error, run_accepted _ ops, accepted_sublist _ ops,
    accepted_accepted _ ops⟩

end MediaRelay.Room
