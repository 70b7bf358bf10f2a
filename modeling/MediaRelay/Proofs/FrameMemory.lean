import Mathlib.Data.List.Induction
import MediaRelay.Proofs.Guard
import MediaRelay.Proofs.References

/-!
What a frame history remembers of a run. A packet that is refused leaves no trace, and one that is
accepted puts its frame in its place (`observeAll_replay`). So a frame is remembered from the packet
on that stored it last, on the layer of all its packets since (`run_remembers_stored`), and a recent
frame is lost only to a straggler, which is at least a span older (`recent_remembered_iff`).
-/

namespace MediaRelay

/-- A packet of another frame that has the same place. -/
def Sighting.Displaces (late seen : Sighting) : Prop :=
  late.frame % FrameHistory.span = seen.frame % FrameHistory.span ∧ late.frame ≠ seen.frame

namespace FrameHistory

variable {h : FrameHistory} {packets : List Packet}

section Observe

variable {layer l : Layer} {d : Descriptor} {g : LayerGraph} {number other : Nat}

theorem layerOf?_withFrame_eq_some_iff :
    (h.withFrame number layer).layerOf? other = some l ↔
      number = other ∧ layer = l ∨ other % span ≠ number % span ∧ h.layerOf? other = some l := by
  by_cases hplace : other % span = number % span
  · simp [layerOf?_eq_some_iff, withFrame, hplace]
  · have hne : number ≠ other := fun heq => hplace (heq ▸ rfl)
    simp [layerOf?_withFrame_of_ne h layer hplace, hplace, hne]

/-- A packet of a frame that is remembered is measured against it. -/
theorem observe_known {ds : List UInt16} (hd : diffs g layer d = .ok ds)
    (hknown : h.layerOf? (h.numberOf d) = some l) :
    h.observe layer d g = (h.withNumber (h.numberOf d),
      if l = layer then .ok (sighting (h.numberOf d) layer d.startOfFrame ds)
      else .error (.frameLayerChanged (h.numberOf d))) := by
  have hframe := layerOf?_eq_some_iff.mp hknown
  rw [numberOf] at hframe
  unfold observe
  simp only [hd, at?, hframe, Option.filter_some, beq_self_eq_true, if_true]
  split <;> rfl

namespace Grounded

theorem withFrame_eq_self (hg : h.Grounded) (hknown : h.layerOf? number = some layer) :
    h.withFrame number layer = h := by
  have hframe := layerOf?_eq_some_iff.mp hknown
  have hsame := hg.withNumber_eq_self hframe
  rw [FrameHistory.withFrame, Table.insert_eq_self hframe]
  exact hsame

/-- A packet is refused and nothing changes, or its frame is put in its place; and then it agrees
with what is remembered of the frame. -/
theorem observe_cases (hg : h.Grounded) (layer : Layer) (d : Descriptor) (g : LayerGraph) :
    (∃ fault, h.observe layer d g = (h, .error fault)) ∨
      ∃ seen, h.observe layer d g = (h.withFrame seen.frame seen.layer, .ok seen) ∧
        ∀ l, h.layerOf? seen.frame = some l → l = seen.layer := by
  cases hd : diffs g layer d with
  | error fault => exact .inl ⟨fault, by rw [FrameHistory.observe, hd]⟩
  | ok ds =>
    cases hknown : h.layerOf? (h.numberOf d) with
    | none =>
      refine .inr ⟨sighting (h.numberOf d) layer d.startOfFrame ds, observe_new hd hknown, ?_⟩
      intro l hl
      cases hknown.symm.trans hl
    | some l =>
      have hsame := hg.withNumber_eq_self (layerOf?_eq_some_iff.mp hknown)
      rw [observe_known hd hknown, hsame]
      by_cases hl : l = layer
      · subst hl
        refine .inr ⟨sighting (h.numberOf d) l d.startOfFrame ds, ?_, fun l' hl' => ?_⟩
        · rw [if_pos rfl]
          exact congrArg (·, _) (hg.withFrame_eq_self hknown).symm
        · exact Option.some.inj (hl'.symm.trans hknown)
      · exact .inl ⟨_, by rw [if_neg hl]⟩

end Grounded

end Observe

section Run

theorem observeAll_append (h : FrameHistory) (a b : List Packet) :
    h.observeAll (a ++ b) = (((h.observeAll a).1.observeAll b).1,
      (h.observeAll a).2 ++ ((h.observeAll a).1.observeAll b).2) := by
  induction a generalizing h with
  | nil => rfl
  | cons p rest ih => simp only [List.cons_append, observeAll, ih, List.append_assoc]

theorem observeAll_singleton (h : FrameHistory) (p : Packet) :
    h.observeAll [p] = ((h.observe p.layer p.descriptor p.graph).1,
      (h.observe p.layer p.descriptor p.graph).2.toOption.toList) := by
  simp only [observeAll, List.append_nil]

theorem Grounded.observeAll (hg : h.Grounded) (packets : List Packet) :
    (h.observeAll packets).1.Grounded := by
  induction packets generalizing h with
  | nil => exact hg
  | cons p rest ih => exact ih (hg.observe p.layer p.descriptor p.graph)

/-- What one more packet adds to a run: nothing if it is refused, and else its frame, which agrees
with what is remembered of it. -/
theorem run_concat_cases (packets : List Packet) (p : Packet) :
    (empty.observeAll (packets ++ [p]) = empty.observeAll packets ∧
        ∃ fault, ((empty.observeAll packets).1.observe p.layer p.descriptor p.graph).2 =
          .error fault) ∨
      ∃ seen, empty.observeAll (packets ++ [p]) =
          ((empty.observeAll packets).1.withFrame seen.frame seen.layer,
            (empty.observeAll packets).2 ++ [seen]) ∧
        ((empty.observeAll packets).1.observe p.layer p.descriptor p.graph).2 = .ok seen ∧
        ∀ l, (empty.observeAll packets).1.layerOf? seen.frame = some l → l = seen.layer := by
  rw [observeAll_append, observeAll_singleton]
  obtain ⟨fault, hrefused⟩ | ⟨seen, hseen, hagrees⟩ :=
    (grounded_empty.observeAll packets).observe_cases p.layer p.descriptor p.graph
  · rw [hrefused]
    exact .inl ⟨Prod.ext rfl (List.append_nil _), fault, rfl⟩
  · rw [hseen]
    exact .inr ⟨seen, rfl, rfl, hagrees⟩

/-- The history with the frames of sightings put in their places. -/
def replay (h : FrameHistory) (sightings : List Sighting) : FrameHistory :=
  sightings.foldl (fun h seen => h.withFrame seen.frame seen.layer) h

theorem replay_concat (h : FrameHistory) (sightings : List Sighting) (seen : Sighting) :
    h.replay (sightings ++ [seen]) = (h.replay sightings).withFrame seen.frame seen.layer :=
  List.foldl_append ..

/-- A history is made by the packets that were accepted. -/
theorem observeAll_replay (packets : List Packet) :
    (empty.observeAll packets).1 = empty.replay (empty.observeAll packets).2 := by
  induction packets using List.reverseRecOn with
  | nil => rfl
  | append_singleton packets p ih =>
    obtain ⟨hsame, -⟩ | ⟨seen, hseen, -, -⟩ := run_concat_cases packets p
    · rw [hsame, ih]
    · rw [hseen, replay_concat, ← ih]

/-- The highest number is the highest of a packet that was accepted. -/
theorem observeAll_highest (packets : List Packet) :
    (empty.observeAll packets).1.highest = ((empty.observeAll packets).2.map (·.frame)).max? := by
  rw [observeAll_replay]
  generalize (empty.observeAll packets).2 = sightings
  induction sightings using List.reverseRecOn with
  | nil => rfl
  | append_singleton sightings seen ih =>
    rw [replay_concat, withFrame, Serial.raise, ih, List.map_append, List.map_singleton]
    cases sightings.map (·.frame) with
    | nil => simp
    | cons first rest =>
      rw [List.cons_append, List.max?_cons', List.max?_cons', List.foldl_append, Option.getD_some,
        Nat.max_comm]
      rfl

/-- A sighting agrees with what is remembered of its frame. -/
theorem sighting_agrees {sightings : List Sighting} {seen : Sighting} {l : Layer}
    (hseen : sightings ++ [seen] <+: (empty.observeAll packets).2)
    (hl : (empty.replay sightings).layerOf? seen.frame = some l) : l = seen.layer := by
  induction packets using List.reverseRecOn with
  | nil => simp [observeAll] at hseen
  | append_singleton packets p ih =>
    obtain ⟨hsame, -⟩ | ⟨last, hlast, -, hagrees⟩ := run_concat_cases packets p
    · exact ih (hsame ▸ hseen)
    · rw [hlast, List.prefix_concat_iff] at hseen
      obtain hseen | hseen := hseen
      · obtain ⟨rfl, rfl⟩ := List.append_singleton_inj.mp hseen
        exact hagrees l (observeAll_replay packets ▸ hl)
      · exact ih hseen

end Run

section Stored

variable {before after : List Packet} {p q : Packet} {f : Nat} {l : Layer}

/-- The packet is accepted, and its frame, which was not remembered, is put in its place. -/
structure Stores (h : FrameHistory) (p : Packet) (f : Nat) (l : Layer) : Prop where
  fresh : h.layerOf? f = none
  accepted : ∃ seen, (h.observe p.layer p.descriptor p.graph).2 = .ok seen ∧ seen.frame = f ∧
    seen.layer = l

/-- A packet stores the frame, which is remembered from then on, so that no later packet stores it
again. All packets of the frame that are accepted from then on are of the layer. -/
structure StoredAt (before : List Packet) (p : Packet) (after : List Packet) (f : Nat) (l : Layer) :
    Prop where
  stores : (empty.observeAll before).1.Stores p f l
  kept : ∀ mid, mid <+: after → (empty.observeAll (before ++ p :: mid)).1.layerOf? f = some l
  agreed : ∀ seen ∈ ((empty.observeAll before).1.observeAll (p :: after)).2, seen.frame = f →
    seen.layer = l

/-- A frame that is remembered after one more packet stays stored where it was. -/
theorem StoredAt.concat (h : StoredAt before p after f l)
    (hkept : (empty.observeAll (before ++ p :: after ++ [q])).1.layerOf? f = some l)
    (hagreed : ∀ seen, ((empty.observeAll (before ++ p :: after)).1.observe q.layer q.descriptor
      q.graph).2 = .ok seen → seen.frame = f → seen.layer = l) :
    StoredAt before p (after ++ [q]) f l := by
  refine ⟨h.stores, fun mid hmid => ?_, fun seen hseen hframe => ?_⟩
  · obtain rfl | hmid := List.prefix_concat_iff.mp hmid
    · rwa [← List.cons_append, ← List.append_assoc]
    · exact h.kept mid hmid
  · rw [← List.cons_append, observeAll_append, observeAll_singleton] at hseen
    obtain hseen | hlast := List.mem_append.mp hseen
    · exact h.agreed seen hseen hframe
    · refine hagreed seen ?_ hframe
      rw [observeAll_append]
      exact Guard.eq_ok_of_toOption (Option.mem_toList.mp hlast)

/-- From the packet on that stores it, a frame is stored. -/
theorem Stores.storedAt (h : (empty.observeAll before).1.Stores p f l) :
    StoredAt before p [] f l := by
  obtain ⟨seen, hok, rfl, rfl⟩ := h.accepted
  refine ⟨h, fun mid hmid => ?_, fun other hother _ => ?_⟩
  · obtain rfl := List.prefix_nil.mp hmid
    obtain ⟨-, fault, hrefused⟩ | ⟨last, hlast, haccepted, -⟩ := run_concat_cases before p
    · cases hok.symm.trans hrefused
    · cases hok.symm.trans haccepted
      rw [hlast, layerOf?_withFrame_self]
  · rw [observeAll_singleton, hok] at hother
    rw [List.mem_singleton.mp hother]

theorem exists_storedAt (hl : (empty.observeAll packets).1.layerOf? f = some l) :
    ∃ before p after, packets = before ++ p :: after ∧ StoredAt before p after f l := by
  induction packets using List.reverseRecOn with
  | nil => cases hl
  | append_singleton packets q ih =>
    -- what was remembered before the last packet stays stored at the packet it was stored at
    have hstays (hbefore : (empty.observeAll packets).1.layerOf? f = some l)
        (hagreed : ∀ seen, ((empty.observeAll packets).1.observe q.layer q.descriptor q.graph).2 =
          .ok seen → seen.frame = f → seen.layer = l) :
        ∃ before p after, packets ++ [q] = before ++ p :: after ∧ StoredAt before p after f l := by
      obtain ⟨before, p, after, rfl, hstored⟩ := ih hbefore
      exact ⟨before, p, after ++ [q], by simp, hstored.concat hl hagreed⟩
    obtain ⟨hsame, fault, hrefused⟩ | ⟨seen, hseen, hok, hagrees⟩ := run_concat_cases packets q
    · refine hstays (hsame ▸ hl) fun other hother => ?_
      cases hrefused.symm.trans hother
    · have hwith : ((empty.observeAll packets).1.withFrame seen.frame seen.layer).layerOf? f =
          some l := by rwa [hseen] at hl
      obtain ⟨rfl, rfl⟩ | ⟨hplace, hbefore⟩ := layerOf?_withFrame_eq_some_iff.mp hwith
      · cases hknown : (empty.observeAll packets).1.layerOf? seen.frame with
        | none =>
          have hstores : (empty.observeAll packets).1.Stores q seen.frame seen.layer :=
            ⟨hknown, seen, hok, rfl, rfl⟩
          exact ⟨packets, q, [], rfl, hstores.storedAt⟩
        | some l =>
          refine hstays (hagrees l hknown ▸ hknown) fun other hother _ => ?_
          cases hok.symm.trans hother
          rfl
      · refine hstays hbefore fun other hother hframe => ?_
        cases hok.symm.trans hother
        exact absurd (hframe ▸ rfl) hplace

/-- In every run, a packet that is refused leaves the history as it was, and no frame is remembered
above the highest number of those that were accepted. A frame that is remembered was stored at some
packet, with its layer, and is so remembered since; all its packets since then are of that layer. -/
theorem run_remembers_stored (packets : List Packet) :
    let h := (empty.observeAll packets).1
    (∀ layer d g fault, (h.observe layer d g).2 = .error fault → (h.observe layer d g).1 = h) ∧
    h.highest = ((empty.observeAll packets).2.map (·.frame)).max? ∧
    (∀ place frame, h.places.get? place = some frame →
      ∃ n, h.highest = some n ∧ frame.number ≤ n) ∧
    ∀ f l, h.layerOf? f = some l →
      ∃ before p after, packets = before ++ p :: after ∧ StoredAt before p after f l := by
  intro h
  have hg : h.Grounded := grounded_empty.observeAll packets
  exact ⟨fun layer d g fault hrefused => hg.observe_error (Prod.ext rfl hrefused),
    observeAll_highest packets, hg.seen, fun f l => exists_storedAt⟩

end Stored

section Window

variable {before after : List Sighting} {seen late : Sighting}

/-- Whatever took the place of the frame, the frame came again after it, on the same layer. -/
def Restored (seen : Sighting) (after : List Sighting) : Prop :=
  ∀ a late b, after = a ++ late :: b → late.Displaces seen →
    ∃ again ∈ b, again.frame = seen.frame ∧ again.layer = seen.layer

theorem restored_concat : Restored seen (after ++ [late]) ↔
    ¬late.Displaces seen ∧
      (Restored seen after ∨ late.frame = seen.frame ∧ late.layer = seen.layer) := by
  constructor
  · intro h
    have hkeeps : ¬late.Displaces seen := fun hdisplaces => by
      obtain ⟨_, hnone, -⟩ := h after late [] rfl hdisplaces
      cases hnone
    refine ⟨hkeeps, or_iff_not_imp_right.mpr fun hother a other b hsplit hdisplaces => ?_⟩
    obtain ⟨again, hagain, hsame⟩ := h a other (b ++ [late]) (by rw [hsplit]; simp) hdisplaces
    obtain hagain | hagain := List.mem_append.mp hagain
    · exact ⟨again, hagain, hsame⟩
    · rw [List.mem_singleton.mp hagain] at hsame
      exact absurd hsame hother
  · rintro ⟨hkeeps, hrestored⟩ a other b hsplit hdisplaces
    obtain rfl | ⟨b, last, rfl⟩ := List.eq_nil_or_concat b
    · obtain ⟨-, rfl⟩ := List.append_singleton_inj.mp hsplit
      exact absurd hdisplaces hkeeps
    · rw [List.concat_eq_append, ← List.cons_append, ← List.append_assoc] at hsplit
      obtain ⟨rfl, rfl⟩ := List.append_singleton_inj.mp hsplit
      obtain hrestored | hsame := hrestored
      · obtain ⟨again, hagain, hsame⟩ := hrestored a other b rfl hdisplaces
        exact ⟨again, by simp [hagain], hsame⟩
      · exact ⟨late, by simp, hsame⟩

/-- A frame is remembered on the layer of a packet as long as nothing else is in its place. -/
theorem remembered_iff_restored
    (hrun : before ++ seen :: after <+: (empty.observeAll packets).2) :
    (empty.replay (before ++ seen :: after)).layerOf? seen.frame = some seen.layer ↔
      Restored seen after := by
  induction after using List.reverseRecOn with
  | nil =>
    rw [replay_concat, layerOf?_withFrame_self]
    refine iff_of_true rfl fun a late b hsplit => ?_
    simp at hsplit
  | append_singleton after late ih =>
    rw [← List.cons_append, ← List.append_assoc] at hrun ⊢
    have hbefore := ih ((List.prefix_append _ _).trans hrun)
    rw [replay_concat, layerOf?_withFrame_eq_some_iff, restored_concat, hbefore]
    by_cases hframe : late.frame = seen.frame
    · -- the frame again: it agrees with what is remembered
      have hkeeps : ¬late.Displaces seen := fun hdisplaces => hdisplaces.2 hframe
      have hagrees (hrestored : Restored seen after) : late.layer = seen.layer :=
        (sighting_agrees hrun (hframe ▸ hbefore.mpr hrestored)).symm
      simp only [hframe, hkeeps, true_and, ne_eq, not_true, false_and, or_false, not_false_eq_true]
      exact ⟨.inr, fun h => h.elim hagrees id⟩
    · simp only [hframe, false_and, false_or, or_false, Sighting.Displaces, ne_eq,
        not_false_eq_true, and_true, eq_comm (a := late.frame % span)]

/-- A frame in the last span of numbers up to the highest is remembered, on the layer of a packet of
it, just if the frame came again after all that took its place. Those are at least a span older. -/
theorem recent_remembered_iff
    (hseen : (empty.observeAll packets).2 = before ++ seen :: after)
    (hrecent : ∀ n, (empty.observeAll packets).1.highest = some n → n < seen.frame + span) :
    ((empty.observeAll packets).1.layerOf? seen.frame = some seen.layer ↔ Restored seen after) ∧
      ∀ late ∈ after, late.Displaces seen → late.frame + span ≤ seen.frame := by
  constructor
  · have hrun : before ++ seen :: after <+: (empty.observeAll packets).2 :=
      hseen ▸ List.prefix_rfl
    rw [observeAll_replay, hseen]
    exact remembered_iff_restored hrun
  · rintro late hlate ⟨hplace, hother⟩
    obtain ⟨n, hn, hle⟩ : ∃ n, (empty.observeAll packets).1.highest = some n ∧ late.frame ≤ n := by
      have hmem : late.frame ∈ (empty.observeAll packets).2.map (·.frame) :=
        List.mem_map_of_mem (by simp [hseen, hlate])
      obtain ⟨n, hn⟩ := Option.isSome_iff_exists.mp (List.isSome_max?_of_mem hmem)
      exact ⟨n, observeAll_highest packets ▸ hn, (List.max?_eq_some_iff.mp hn).2 _ hmem⟩
    have hnear := hrecent n hn
    simp only [span] at hplace hnear ⊢
    omega

/-- A straggler in the place of a frame, and then the frame again. -/
theorem recent_remembered_again :
    let packets := [frameStart 300 ⟨0, 0⟩ [], frameStart 44 ⟨0, 0⟩ [], frameStart 300 ⟨0, 0⟩ []]
    let seen : Sighting := ⟨65836, ⟨0, 0⟩, true, [], false⟩
    let after : List Sighting := [⟨65580, ⟨0, 0⟩, true, [], false⟩, seen]
    (empty.observeAll packets).2 = [] ++ seen :: after ∧
      (∀ n, (empty.observeAll packets).1.highest = some n → n < seen.frame + span) ∧
      ((empty.observeAll packets).1.layerOf? seen.frame = some seen.layer ↔ Restored seen after) ∧
      ∀ late ∈ after, late.Displaces seen → late.frame + span ≤ seen.frame := by
  intro packets seen after
  have hseen : (empty.observeAll packets).2 = [] ++ seen :: after := by decide +kernel
  have hhighest : (empty.observeAll packets).1.highest = some 65836 := by decide +kernel
  have hrecent : ∀ n, (empty.observeAll packets).1.highest = some n → n < seen.frame + span := by
    rw [hhighest]
    rintro _ ⟨⟩
    decide
  exact ⟨hseen, hrecent, recent_remembered_iff hseen hrecent⟩

/-- The highest frame of all is lost to one that is a span older. -/
theorem highest_frame_displaced :
    let packets := [frameStart 300 ⟨0, 0⟩ [], frameStart 44 ⟨0, 0⟩ []]
    (⟨65836, ⟨0, 0⟩, true, [], false⟩ : Sighting) ∈ (empty.observeAll packets).2 ∧
      (empty.observeAll packets).1.highest = some 65836 ∧
      (empty.observeAll packets).1.layerOf? 65836 = none := by
  decide +kernel

end Window

end FrameHistory

end MediaRelay
