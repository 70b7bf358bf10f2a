import MediaRelay.Proofs.Descent

/-!
Adapting a target twice. The layer chosen is chosen again from itself, so that a target adapted once
to an estimate stays as it is while the estimate does, and no further keyframe is asked for
(`Downlink.retarget_settles`).
-/

namespace MediaRelay

theorem Target.pursue_pursue (t : Target) (layer : Layer) :
    (t.pursue layer).1.pursue layer = ((t.pursue layer).1, ⟨false, false⟩) := by
  obtain ⟨current, pending⟩ := t
  cases current with
  | none => simp [pursue]
  | some current =>
    by_cases hsame : current = layer
    · simp [pursue, hsame]
    by_cases hspatial : current.spatial = layer.spatial
    · simp [pursue, hsame, hspatial]
    by_cases hpending : pending = some layer
    · simp [pursue, hsame, hspatial, hpending]
    · simp [pursue, hsame, hspatial, hpending]

variable {F : Type} [Arithmetic F]

namespace Hysteresis

variable {h : Hysteresis F} {g : LayerGraph}

theorem exists_desired (h : Hysteresis F) {t : LayerSpec} (ht : t ∈ g.listed) (estimate : Nat)
    (reference : Option Layer) : ∃ layer, h.desired g estimate reference = some layer := by
  obtain ⟨s, hs⟩ := h.exists_choice estimate ht (reference.bind g.spec?)
  exact ⟨s.layer, by rw [desired_eq, hs, Option.map_some]⟩

/-- What is chosen is negotiated, and is chosen again from itself. -/
theorem Ordered.desired_again (hord : h.Ordered) (hg : g.IsOffered) {estimate : Nat}
    {reference : Option Layer} {layer : Layer}
    (hlayer : h.desired g estimate reference = some layer) :
    h.desired g estimate (some layer) = some layer := by
  rw [desired_eq] at hlayer
  obtain ⟨s, hs, rfl⟩ := Option.map_eq_some_iff.mp hlayer
  rw [desired_eq, Option.bind_some, hg.spec?_eq_some_iff.mpr ⟨choice_listed hs, rfl⟩,
    hord.choice_idem hs, Option.map_some]

/-- Without a choice there are no layers, and no other layer so far makes one. -/
theorem desired_none {estimate : Nat} {reference : Option Layer}
    (hnone : h.desired g estimate reference = none) (other : Option Layer) :
    h.desired g estimate other = none := by
  cases hother : h.desired g estimate other with
  | none => rfl
  | some layer =>
    rw [desired_eq] at hother
    obtain ⟨s, hs, -⟩ := Option.map_eq_some_iff.mp hother
    obtain ⟨layer', hlayer'⟩ := h.exists_desired (choice_listed hs) estimate reference
    cases hnone.symm.trans hlayer'

theorem Ordered.desired_desired (hord : h.Ordered) (hg : g.IsOffered) (estimate : Nat)
    (reference : Option Layer) :
    h.desired g estimate (h.desired g estimate reference) = h.desired g estimate reference := by
  cases hlayer : h.desired g estimate reference with
  | none => exact desired_none hlayer none
  | some layer => exact hord.desired_again hg hlayer

end Hysteresis

namespace Downlink

variable {h : Hysteresis F} {g : LayerGraph} {d : Downlink F}

theorem retarget_of_desired {layer : Layer}
    (hlayer : h.desired g d.estimate d.target.aim = some layer) :
    d.retarget h g =
      ({ d with target := (d.target.pursue layer).1 }, (d.target.pursue layer).2) := by
  rw [retarget, hlayer]

theorem retarget_of_none (hnone : h.desired g d.estimate d.target.aim = none) :
    d.retarget h g = (d, ⟨false, false⟩) := by
  rw [retarget, hnone]

/-- Adapting a target a second time to an estimate changes nothing. -/
theorem retarget_retarget (hord : h.Ordered) (hg : g.IsOffered) (d : Downlink F) :
    (d.retarget h g).1.retarget h g = ((d.retarget h g).1, ⟨false, false⟩) := by
  cases hlayer : h.desired g d.estimate d.target.aim with
  | none =>
    rw [retarget_of_none hlayer]
    exact retarget_of_none hlayer
  | some layer =>
    rw [retarget_of_desired hlayer]
    have hagain := hord.desired_again hg hlayer
    rw [← d.target.pursue_aim layer] at hagain
    rw [retarget_of_desired (d := { d with target := (d.target.pursue layer).1 })
      (hagain.trans (d.target.pursue_aim layer)), Target.pursue_pursue]

/-- What adapting a target again and again amounts to, with the estimate as it is. -/
def pursuits (h : Hysteresis F) (g : LayerGraph) : Nat → Downlink F → List Pursuit
  | 0, _ => []
  | n + 1, d => (d.retarget h g).2 :: pursuits h g n (d.retarget h g).1

theorem pursuits_of_quiet (hquiet : d.retarget h g = (d, ⟨false, false⟩)) (n : Nat) :
    pursuits h g n d = List.replicate n ⟨false, false⟩ := by
  induction n with
  | zero => rfl
  | succ n ih => rw [pursuits, hquiet, ih, List.replicate_succ]

/-- A target adapted once aims at the layer chosen. Adapting it again changes nothing and asks for
no keyframe, however often, for what was chosen is chosen again from itself. -/
theorem retarget_settles {g : LayerGraph} (hg : g.IsOffered) {h : Hysteresis Rat}
    (hchecked : Settings.checkHysteresis h = .ok ()) (d : Downlink Rat)
    (hcurrent : ∀ layer, d.target.current = some layer → g.contains layer)
    (hpending : ∀ layer, d.target.pending = some layer → g.contains layer) :
    let settled := (d.retarget h g).1
    settled.target.aim = h.desired g d.estimate d.target.aim ∧
    settled.retarget h g = (settled, ⟨false, false⟩) ∧
    (∀ n, pursuits h g (n + 1) d = (d.retarget h g).2 :: List.replicate n ⟨false, false⟩) ∧
    ∀ estimate reference,
      h.desired g estimate (h.desired g estimate reference) = h.desired g estimate reference := by
  intro settled
  have hord := (Hysteresis.isExact_rat hchecked).ordered
  have hquiet : settled.retarget h g = (settled, ⟨false, false⟩) := retarget_retarget hord hg d
  refine ⟨?_, hquiet, fun n => ?_, hord.desired_desired hg⟩
  · rw [retarget_aim]
    cases hlayer : h.desired g d.estimate d.target.aim with
    | some layer => rfl
    | none =>
      cases haim : d.target.aim with
      | none => rfl
      | some layer =>
        -- a layer that is aimed at is negotiated, so that there is a choice
        have hcontains : g.contains layer := by
          obtain hwaits | ⟨-, hgets⟩ := Option.or_eq_some_iff.mp haim
          · exact hpending layer hwaits
          · exact hcurrent layer hgets
        obtain ⟨t, ht⟩ := Option.isSome_iff_exists.mp hcontains
        obtain ⟨layer', hlayer'⟩ :=
          h.exists_desired (LayerGraph.mem_of_spec? ht).1 d.estimate d.target.aim
        cases hlayer.symm.trans hlayer'
  · rw [pursuits, pursuits_of_quiet hquiet]

/-- A receiver of the base layer is told of 3 Mbit/s: one keyframe is wanted, and no second one. -/
theorem retarget_settles_after_rise :
    let offer : Offer := ⟨.vp9, [⟨.base, 150000⟩, ⟨⟨2, 1⟩, 2000000⟩], []⟩
    let g := offer.graph .video 1
    let h : Hysteresis Rat := ⟨1 / 5, 1 / 5⟩
    let fresh : Downlink Rat := .start ⟨2⟩ Settings.standardEstimator 500000 1 0
    let d := { fresh.onReceiverEstimate 3000000 10 with target := ⟨some .base, none⟩ }
    g.IsOffered ∧ Settings.checkHysteresis h = .ok () ∧
      (∀ layer, d.target.current = some layer → g.contains layer) ∧
      (∀ layer, d.target.pending = some layer → g.contains layer) ∧
      (d.retarget h g).1.target = ⟨some .base, some ⟨2, 1⟩⟩ ∧
      pursuits h g 3 d = [⟨true, true⟩, ⟨false, false⟩, ⟨false, false⟩] := by
  intro offer g h fresh d
  have hg : g.IsOffered := ⟨.video, offer, 1, Guard.eq_ok_of_toOption (by decide +kernel)⟩
  have hchecked : Settings.checkHysteresis h = .ok () :=
    Guard.eq_ok_of_toOption (by decide +kernel)
  have hcurrent (layer : Layer) (hlayer : d.target.current = some layer) : g.contains layer := by
    obtain rfl := Option.some.inj hlayer
    decide +kernel
  have hpending (layer : Layer) (hlayer : d.target.pending = some layer) : g.contains layer := by
    cases hlayer
  obtain ⟨-, -, hquiet, -⟩ := retarget_settles hg hchecked d hcurrent hpending
  have hfirst : (d.retarget h g).2 = ⟨true, true⟩ := by decide +kernel
  refine ⟨hg, hchecked, hcurrent, hpending, by decide +kernel, ?_⟩
  rw [hquiet 2, hfirst]
  rfl

end Downlink

end MediaRelay
