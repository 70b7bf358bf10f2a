import MediaRelay.Stream

/-!
What a packet does to the downlinks it is offered to. `Stream.spread_get?` and `Stream.spread_sent`
read the loop over the receivers one downlink at a time.
-/

namespace MediaRelay

variable {F : Type}

namespace Downlink

variable (d : Downlink F)

@[simp] theorem retarget_receiver [Arithmetic F] (h : Hysteresis F) (g : LayerGraph) :
    (d.retarget h g).1.receiver = d.receiver := by
  unfold retarget
  split <;> rfl

@[simp] theorem aimAt_receiver [Arithmetic F] (h : Hysteresis F) (g : LayerGraph) :
    (d.aimAt h g).receiver = d.receiver := by
  unfold aimAt
  split
  · exact d.retarget_receiver h g
  · rfl

@[simp] theorem switchAt_receiver (history : FrameHistory) (seen : Sighting) :
    (d.switchAt history seen).receiver = d.receiver := by
  unfold switchAt
  split
  · split <;> rfl
  · rfl

@[simp] theorem offer_receiver (layer : Layer) (sequence : UInt32) (size : Nat) (now : Time) :
    (d.offer layer sequence size now).1.receiver = d.receiver := by
  unfold offer
  split <;> rfl

@[simp] theorem offer_target (layer : Layer) (sequence : UInt32) (size : Nat) (now : Time) :
    (d.offer layer sequence size now).1.target = d.target := by
  unfold offer
  split <;> rfl

theorem offer_sent_iff (layer : Layer) (sequence : UInt32) (size : Nat) (now : Time) :
    (d.offer layer sequence size now).2 = .sent ↔
      ∃ c, d.target.current = some c ∧ layer.fitsWithin c := by
  unfold offer
  cases hc : d.target.current with
  | none => simp
  | some c =>
    by_cases hf : layer.fitsWithin c
    · simp [hf, send]
    · simp [hf]

/-- A packet that is offered is counted once, as sent or as withheld. -/
def CountedOnce (before after : Downlink F) (fate : Fate) : Prop :=
  (fate = .sent ∧ after.forwarded = before.forwarded + 1 ∧ after.withheld = before.withheld) ∨
    (fate = .withheld ∧ after.forwarded = before.forwarded ∧ after.withheld = before.withheld + 1)

theorem offer_counted (layer : Layer) (sequence : UInt32) (size : Nat) (now : Time) :
    d.CountedOnce (d.offer layer sequence size now).1 (d.offer layer sequence size now).2 := by
  unfold offer
  split
  · exact .inl ⟨rfl, rfl, rfl⟩
  · exact .inr ⟨rfl, rfl, rfl⟩

@[simp] theorem retarget_forwarded [Arithmetic F] (h : Hysteresis F) (g : LayerGraph) :
    (d.retarget h g).1.forwarded = d.forwarded := by
  unfold retarget
  split <;> rfl

@[simp] theorem retarget_withheld [Arithmetic F] (h : Hysteresis F) (g : LayerGraph) :
    (d.retarget h g).1.withheld = d.withheld := by
  unfold retarget
  split <;> rfl

/-- Aiming and switching count nothing. -/
theorem aim_switch_counters [Arithmetic F] (h : Hysteresis F) (g : LayerGraph)
    (history : FrameHistory) (seen : Sighting) :
    ((d.aimAt h g).switchAt history seen).forwarded = d.forwarded ∧
      ((d.aimAt h g).switchAt history seen).withheld = d.withheld := by
  have haim : (d.aimAt h g).forwarded = d.forwarded ∧ (d.aimAt h g).withheld = d.withheld := by
    unfold aimAt
    split
    · simp
    · exact ⟨rfl, rfl⟩
  unfold switchAt
  split
  · split
    · exact haim
    · exact haim
  · exact haim

end Downlink

namespace Stream

variable {step : Downlink F → Downlink F × Fate} {receivers : List ParticipantId}
  {links : Table ParticipantId (Downlink F)}

/-- Each downlink of a receiver takes one step, and the others stay. -/
theorem spread_get? (hn : receivers.Nodup) (p : ParticipantId) :
    (spread step receivers links).1.get? p =
      if p ∈ receivers then (links.get? p).map fun link => (step link).1 else links.get? p := by
  induction receivers generalizing links with
  | nil => simp [spread]
  | cons q rest ih =>
    obtain ⟨hq, hrest⟩ := List.nodup_cons.mp hn
    cases hl : links.get? q with
    | none =>
      rw [spread, hl]
      simp only [ih hrest]
      by_cases hp : p = q
      · simp [hp, hq, hl]
      · simp [hp]
    | some link =>
      have hget : (spread step (q :: rest) links).1 =
          (spread step rest (links.insert q (step link).1)).1 := by
        rw [spread, hl]
        simp only
        split <;> rfl
      rw [hget, ih hrest]
      by_cases hp : p = q
      · simp [hp, hq, hl]
      · simp [hp, Table.get?_insert_of_ne]

/-- A packet goes to those receivers, in their order, whose downlink sends it. The downlinks stand
under their receivers. -/
theorem spread_sent (hn : receivers.Nodup)
    (own : ∀ p ∈ receivers, ∀ link, links.get? p = some link → (step link).1.receiver = p) :
    (spread step receivers links).2.sent =
      receivers.filter fun p => (links.get? p).any fun link => (step link).2 = .sent := by
  induction receivers generalizing links with
  | nil => rfl
  | cons q rest ih =>
    obtain ⟨hq, hrest⟩ := List.nodup_cons.mp hn
    cases hl : links.get? q with
    | none =>
      rw [spread, hl, List.filter_cons]
      simp only [hl, Option.any_none, Bool.false_eq_true, if_false]
      exact ih hrest fun p hp => own p (List.mem_cons_of_mem _ hp)
    | some link =>
      have hown := own q List.mem_cons_self link hl
      have hne : ∀ p ∈ rest, p ≠ q := fun p hp e => hq (e ▸ hp)
      have hrec : (spread step rest (links.insert q (step link).1)).2.sent =
          rest.filter fun p => (links.get? p).any fun link => (step link).2 = .sent := by
        rw [ih hrest]
        · refine List.filter_congr fun p hp => ?_
          rw [Table.get?_insert_of_ne _ _ (hne p hp)]
        · intro p hp l hget
          rw [Table.get?_insert_of_ne _ _ (hne p hp)] at hget
          exact own p (List.mem_cons_of_mem _ hp) l hget
      rw [spread, hl, List.filter_cons]
      cases hf : (step link).2 with
      | sent => simp [hl, hf, hown, hrec]
      | withheld => simp [hl, hf, hrec]

/-- Every receiver with a downlink is served or has its copy withheld. -/
theorem spread_total (hn : receivers.Nodup) (hl : ∀ p ∈ receivers, links.contains p) :
    (spread step receivers links).2.sent.length + (spread step receivers links).2.withheld =
      receivers.length := by
  induction receivers generalizing links with
  | nil => rfl
  | cons q rest ih =>
    obtain ⟨hq, hrest⟩ := List.nodup_cons.mp hn
    obtain ⟨link, hget⟩ := Table.contains_iff.mp (hl q List.mem_cons_self)
    have hrec := @ih (links.insert q (step link).1) hrest fun p hp =>
      Table.contains_insert.mpr (.inr (hl p (List.mem_cons_of_mem _ hp)))
    rw [spread, hget]
    cases hf : (step link).2 with
    | sent => simp only [hf, List.length_cons]; omega
    | withheld => simp only [hf, List.length_cons]; omega

end Stream

end MediaRelay
