import Mathlib.Algebra.Order.Floor.Ring
import MediaRelay.Proofs.Selection

/-!
The thresholds of the layer choice. There are four ways to choose (`Hysteresis.Chosen`). From them
follows what a choice has to do with the layer so far and with the layers that an estimate reaches
or affords (`Hysteresis.desired_obeys_thresholds`). A higher estimate never chooses a cheaper layer
than a lower one if there is a layer so far; without one this takes layers that are far enough apart
(`Hysteresis.chosen_rate_mono_iff`).
-/

namespace MediaRelay

namespace LayerGraph

variable {g : LayerGraph}

/-- The most expensive layer that passes is not cheaper than any other that does. -/
theorem le_of_top? {p : Nat → Bool} {s t : LayerSpec} (hs : g.top? p = some s) (ht : t ∈ g.listed)
    (hp : p t.rate) : t.rate ≤ s.rate := by
  obtain ⟨u, hu, hle⟩ := exists_top? ht hp
  exact Option.some.inj (hu.symm.trans hs) ▸ hle

theorem failed_of_top? {p : Nat → Bool} {t : LayerSpec} (hnone : g.top? p = none)
    (ht : t ∈ g.listed) : p t.rate = false := by
  rw [Bool.eq_false_iff]
  intro hp
  obtain ⟨u, hu, -⟩ := exists_top? ht hp
  cases hnone.symm.trans hu

theorem le_of_lowest? {s t : LayerSpec} (hs : g.lowest? = some s) (ht : t ∈ g.listed) :
    s.rate ≤ t.rate := by
  obtain ⟨u, hu, -, hle⟩ := lowest?_spec ht
  exact Option.some.inj (hu.symm.trans hs) ▸ hle

theorem exists_listed (h : g.isLayered) : ∃ s, s ∈ g.listed := by
  obtain ⟨s, hs⟩ := Table.exists_contains (by simpa [isLayered] using h)
  exact ⟨s, Table.mem_keys_iff.mpr hs⟩

end LayerGraph

namespace Hysteresis

section Chosen

variable {F : Type} [Arithmetic F]

/-- The ways in which a layer is chosen, given the layer so far: a step up to the most expensive
layer that is reached; the layer so far, which can be kept; the most expensive layer that the
estimate affords; or the cheapest, for want of any. -/
inductive Chosen (h : Hysteresis F) (g : LayerGraph) (estimate : Nat) (reference : Option LayerSpec)
    (s : LayerSpec) : Prop
  | raised (reached : h.reaches s.rate estimate)
      (top : ∀ t ∈ g.listed, h.reaches t.rate estimate → t.rate ≤ s.rate)
      (above : ∀ r, reference = some r → r.rate < s.rate)
  | kept (same : reference = some s) (keeps : h.keeps s.rate estimate)
      (top : ∀ t ∈ g.listed, h.reaches t.rate estimate → t.rate ≤ s.rate)
  | afforded (left : ∀ r, reference = some r → h.keeps r.rate estimate = false)
      (unreached : reference = none → ∀ t ∈ g.listed, h.reaches t.rate estimate = false)
      (affords : h.affords s.rate estimate)
      (top : ∀ t ∈ g.listed, h.affords t.rate estimate → t.rate ≤ s.rate)
  | cheapest (left : ∀ r, reference = some r → h.keeps r.rate estimate = false)
      (lowest : g.lowest? = some s)
      (beyond : ∀ t ∈ g.listed, h.affords t.rate estimate = false)

variable {h : Hysteresis F} {g : LayerGraph} {estimate : Nat} {reference : Option LayerSpec}
  {s : LayerSpec}

theorem chosen_of_choice (hs : h.choice g estimate reference = some s) :
    h.Chosen g estimate reference s := by
  obtain hraised | ⟨hnot, hheld⟩ := Option.or_eq_some_iff.mp hs
  · obtain ⟨htop, habove⟩ := Option.filter_eq_some_iff.mp hraised
    refine .raised (LayerGraph.mem_of_top? htop).2 (fun t => LayerGraph.le_of_top? htop) ?_
    rintro r rfl
    simpa using habove
  rw [Option.filter_eq_none_iff] at hnot
  obtain hkept | ⟨hleft, hfallback⟩ := Option.or_eq_some_iff.mp hheld
  · obtain ⟨rfl, hkeeps⟩ := Option.filter_eq_some_iff.mp hkept
    refine .kept rfl hkeeps fun t ht hreached => ?_
    obtain ⟨u, hu, hle⟩ := LayerGraph.exists_top? (p := (h.reaches · estimate)) ht hreached
    have := hnot u hu
    simp only [Option.all_some, decide_eq_true_eq] at this
    omega
  rw [Option.filter_eq_none_iff] at hleft
  have hleft (r : LayerSpec) (hr : reference = some r) : h.keeps r.rate estimate = false := by
    simpa using hleft r hr
  obtain htop | ⟨hnone, hlowest⟩ := Option.or_eq_some_iff.mp hfallback
  · refine .afforded hleft ?_ (LayerGraph.mem_of_top? htop).2 fun t => LayerGraph.le_of_top? htop
    rintro rfl t ht
    rw [Bool.eq_false_iff]
    intro hreached
    obtain ⟨u, hu, -⟩ := LayerGraph.exists_top? (p := (h.reaches · estimate)) ht hreached
    exact hnot u hu rfl
  · exact .cheapest hleft hlowest fun t => LayerGraph.failed_of_top? hnone

theorem Chosen.reached_le (hord : h.Ordered) (hs : h.Chosen g estimate reference s) {t : LayerSpec}
    (ht : t ∈ g.listed) (hreached : h.reaches t.rate estimate) : t.rate ≤ s.rate := by
  cases hs with
  | raised _ top _ => exact top t ht hreached
  | kept _ _ top => exact top t ht hreached
  | afforded _ _ _ top => exact top t ht (hord.affords_of_reaches hreached)
  | cheapest _ _ beyond => exact absurd (hord.affords_of_reaches hreached) (by simp [beyond t ht])

theorem Chosen.kept_le (hs : h.Chosen g estimate reference s) {r : LayerSpec}
    (hr : reference = some r) (hkeeps : h.keeps r.rate estimate) : r.rate ≤ s.rate := by
  cases hs with
  | raised _ _ above => exact Nat.le_of_lt (above r hr)
  | kept same _ _ => exact Nat.le_of_eq (congrArg (·.rate) (Option.some.inj (hr.symm.trans same)))
  | afforded left _ _ _ => exact absurd hkeeps (by simp [left r hr])
  | cheapest left _ _ => exact absurd hkeeps (by simp [left r hr])

/-- The rate of the layer chosen. -/
def chosenRate? (h : Hysteresis F) (g : LayerGraph) (estimate : Nat) (reference : Option Layer) :
    Option Nat :=
  ((h.desired g estimate reference).bind g.spec?).map (·.rate)

/-- There is a choice in each negotiated graph with layers. -/
theorem exists_chosen (hg : g.IsOffered) (hlayered : g.isLayered) (h : Hysteresis F)
    (estimate : Nat) (reference : Option Layer) :
    ∃ s ∈ g.listed, h.desired g estimate reference = some s.layer ∧
      h.chosenRate? g estimate reference = some s.rate ∧
      h.Chosen g estimate (reference.bind g.spec?) s := by
  obtain ⟨t, ht⟩ := LayerGraph.exists_listed hlayered
  obtain ⟨s, hs⟩ := h.exists_choice estimate ht (reference.bind g.spec?)
  have hmem := choice_listed hs
  have hdesired : h.desired g estimate reference = some s.layer := by
    rw [desired_eq, hs, Option.map_some]
  refine ⟨s, hmem, hdesired, ?_, chosen_of_choice hs⟩
  rw [chosenRate?, hdesired, Option.bind_some, hg.spec?_eq_some_iff.mpr ⟨hmem, rfl⟩,
    Option.map_some]

end Chosen

section Exact

variable {h : Hysteresis Rat} {g : LayerGraph} {rate estimate low high : Nat}
  {reference : Option LayerSpec} {s t c : LayerSpec}

theorem keeps_mono (hle : low ≤ high) (hkeeps : h.keeps rate low) : h.keeps rate high :=
  keeps_rat.mpr ((keeps_rat.mp hkeeps).trans (Nat.cast_le.mpr hle))

theorem affords_mono (hle : low ≤ high) (haffords : h.affords rate low) : h.affords rate high :=
  affords_rat.mpr ((affords_rat.mp haffords).trans hle)

/-- Each layer that costs more than the cheapest does so by the margin. -/
def Spaced (h : Hysteresis Rat) (g : LayerGraph) : Prop :=
  ∀ c, g.lowest? = some c → ∀ t ∈ g.listed, c.rate < t.rate →
    (c.rate : Rat) * (1 + h.up) ≤ t.rate

theorem Chosen.mono (hord : h.Ordered) (hspaced : reference = none → h.Spaced g) (hle : low ≤ high)
    (hsmem : s ∈ g.listed) (htmem : t ∈ g.listed) (hs : h.Chosen g low reference s)
    (ht : h.Chosen g high reference t) : s.rate ≤ t.rate := by
  cases hs with
  | raised reached _ _ => exact ht.reached_le hord hsmem (hord.reaches_mono hle reached)
  | kept same keeps _ => exact ht.kept_le same (keeps_mono hle keeps)
  | cheapest _ lowest _ => exact LayerGraph.le_of_lowest? lowest htmem
  | afforded left unreached affords _ =>
    have haffords : h.affords s.rate high := affords_mono hle affords
    cases ht with
    | kept same _ _ => exact hord.le_of_not_keeps affords (left t same)
    | afforded _ _ _ top => exact top s hsmem haffords
    | cheapest _ _ beyond => exact absurd haffords (by simp [beyond s hsmem])
    | raised _ _ above =>
      cases reference with
      | some r =>
        have hbelow := hord.le_of_not_keeps affords (left r rfl)
        exact hbelow.trans (Nat.le_of_lt (above r rfl))
      | none =>
        obtain ⟨c, hc, hcmem, -⟩ := LayerGraph.lowest?_spec hsmem
        by_contra hcheaper
        -- with the layers spaced, an estimate that affords `s` reaches the cheapest one
        have hdearer : c.rate < s.rate :=
          Nat.lt_of_le_of_lt (LayerGraph.le_of_lowest? hc htmem) (Nat.not_le.mp hcheaper)
        have hreached : h.reaches c.rate low :=
          reaches_rat.mpr ((hspaced rfl c hc s hsmem hdearer).trans
            (Nat.cast_le.mpr (affords_rat.mp affords)))
        rw [unreached rfl c hcmem] at hreached
        cases hreached

/-- With another layer too near to the cheapest, a higher estimate reaches the latter and stays
there, where a lower one affords the former. -/
theorem exists_drop (hup : 0 ≤ h.up) (hc : g.lowest? = some c) (ht : t ∈ g.listed)
    (hdearer : c.rate < t.rate) (hnear : (t.rate : Rat) < c.rate * (1 + h.up)) :
    ∃ high, t.rate ≤ high ∧ ∀ s ∈ g.listed, ∀ s' ∈ g.listed, h.Chosen g t.rate none s →
      h.Chosen g high none s' → s'.rate < s.rate := by
  have hcmem : c ∈ g.listed := List.mem_of_mem_head? hc
  have hreached : h.reaches c.rate ⌈(c.rate : Rat) * (1 + h.up)⌉₊ := reaches_rat.mpr (Nat.le_ceil _)
  refine ⟨⌈(c.rate : Rat) * (1 + h.up)⌉₊, ?_, fun s hsmem s' hsmem' hs hs' => ?_⟩
  · exact Nat.cast_le (α := Rat).mp (hnear.le.trans (Nat.le_ceil _))
  have haffords : h.affords t.rate t.rate := affords_rat.mpr (Nat.le_refl _)
  have hlow : t.rate ≤ s.rate := by
    cases hs with
    | raised reached _ _ =>
      have hle : (c.rate : Rat) ≤ s.rate := Nat.cast_le.mpr (LayerGraph.le_of_lowest? hc hsmem)
      have := mul_le_mul_of_nonneg_right hle (by linarith : 0 ≤ 1 + h.up)
      have := reaches_rat.mp reached
      linarith
    | kept same _ _ => cases same
    | afforded _ _ _ top => exact top t ht haffords
    | cheapest _ _ beyond => exact absurd haffords (by simp [beyond t ht])
  have hhigh : s'.rate ≤ c.rate := by
    cases hs' with
    | raised reached _ _ =>
      by_contra hmore
      have hmore : (c.rate : Rat) + 1 ≤ s'.rate := by exact_mod_cast Nat.not_le.mp hmore
      have := mul_le_mul_of_nonneg_right hmore (by linarith : 0 ≤ 1 + h.up)
      have := reaches_rat.mp reached
      have := Nat.ceil_lt_add_one (a := (c.rate : Rat) * (1 + h.up)) (by positivity)
      linarith
    | kept same _ _ => cases same
    | afforded _ unreached _ _ => exact absurd hreached (by simp [unreached rfl c hcmem])
    | cheapest _ lowest _ =>
      obtain rfl := Option.some.inj (lowest.symm.trans hc)
      exact Nat.le_refl _
  omega

/-- The threshold that what is chosen has passed, or that nothing passes. -/
theorem Chosen.threshold (hord : h.Ordered) (hs : h.Chosen g estimate reference s) :
    s.rate ≤ estimate ∨ (reference = some s ∧ (s.rate : Rat) * (1 - h.down) ≤ estimate) ∨
      (g.lowest? = some s ∧ ∀ t ∈ g.listed, s.rate ≤ t.rate ∧ estimate < t.rate) := by
  cases hs with
  | raised reached _ _ => exact .inl (affords_rat.mp (hord.affords_of_reaches reached))
  | kept same keeps _ => exact .inr (.inl ⟨same, keeps_rat.mp keeps⟩)
  | afforded _ _ affords _ => exact .inl (affords_rat.mp affords)
  | cheapest _ lowest beyond =>
    refine .inr (.inr ⟨lowest, fun t ht => ⟨LayerGraph.le_of_lowest? lowest ht, ?_⟩⟩)
    by_contra hafford
    have haffords : h.affords t.rate estimate := affords_rat.mpr (Nat.not_lt.mp hafford)
    rw [beyond t ht] at haffords
    cases haffords

/-- A step up from the layer so far is a step to a layer that is reached. -/
theorem Chosen.reached_of_lt (hord : h.Ordered) (hs : h.Chosen g estimate (some t) s)
    (ht : t ∈ g.listed) (hlt : t.rate < s.rate) : h.reaches s.rate estimate := by
  cases hs with
  | raised reached _ _ => exact reached
  | kept same _ _ =>
    cases same
    exact absurd hlt (Nat.lt_irrefl _)
  | afforded left _ affords _ =>
    exact absurd hlt (Nat.not_lt.mpr (hord.le_of_not_keeps affords (left t rfl)))
  | cheapest _ lowest _ =>
    exact absurd hlt (Nat.not_lt.mpr (LayerGraph.le_of_lowest? lowest ht))

theorem bind_spec?_eq_none_iff {reference : Option Layer} :
    reference.bind g.spec? = none ↔ reference.any g.contains = false := by
  cases reference <;> simp [LayerGraph.contains]

/-- The choice goes by the thresholds. What is chosen is affordable, or the layer so far within its
margin, or the cheapest if nothing is affordable; no layer that is reached costs more. It is a step
up only with the margin above, and a step down only if the layer so far is out of the margin below.
Without margins it is the most expensive layer that is affordable, or a cheapest one. -/
theorem desired_obeys_thresholds (hg : g.IsOffered) (hlayered : g.isLayered)
    (hchecked : Settings.checkHysteresis h = .ok ()) (estimate : Nat) (reference : Option Layer) :
    ∃ s ∈ g.listed, h.desired g estimate reference = some s.layer ∧
      (s.rate ≤ estimate ∨
        (reference = some s.layer ∧ (s.rate : Rat) * (1 - h.down) ≤ estimate) ∨
        (g.lowest? = some s ∧ ∀ t ∈ g.listed, s.rate ≤ t.rate ∧ estimate < t.rate)) ∧
      (∀ t ∈ g.listed, (t.rate : Rat) * (1 + h.up) ≤ estimate → t.rate ≤ s.rate) ∧
      (∀ r ∈ g.listed, reference = some r.layer →
        (r.rate < s.rate → (s.rate : Rat) * (1 + h.up) ≤ estimate) ∧
        (s.rate < r.rate → (estimate : Rat) < r.rate * (1 - h.down))) ∧
      (h.up = 0 → h.down = 0 →
        (s.rate ≤ estimate ∧ ∀ t ∈ g.listed, t.rate ≤ estimate → t.rate ≤ s.rate) ∨
        ∀ t ∈ g.listed, s.rate ≤ t.rate ∧ estimate < t.rate) := by
  have hord := (isExact_rat hchecked).ordered
  obtain ⟨s, hmem, hdesired, -, hs⟩ := exists_chosen hg hlayered h estimate reference
  have hreached (t : LayerSpec) (ht : t ∈ g.listed) (hle : (t.rate : Rat) * (1 + h.up) ≤ estimate) :
      t.rate ≤ s.rate := hs.reached_le hord ht (reaches_rat.mpr hle)
  have hthreshold := hs.threshold hord
  refine ⟨s, hmem, hdesired, ?_, hreached, ?_, ?_⟩
  · refine hthreshold.imp_right (Or.imp_left ?_)
    rintro ⟨hso, hkept⟩
    obtain ⟨layer, rfl, hspec⟩ := Option.bind_eq_some_iff.mp hso
    exact ⟨congrArg some (LayerGraph.mem_of_spec? hspec).2.symm, hkept⟩
  · rintro r hr rfl
    have hso : (some r.layer).bind g.spec? = some r := hg.spec?_eq_some_iff.mpr ⟨hr, rfl⟩
    refine ⟨fun hup => ?_, fun hdown => ?_⟩
    · rw [hso] at hs
      exact reaches_rat.mp (hs.reached_of_lt hord hr hup)
    · by_contra hkept
      have := hs.kept_le hso (keeps_rat.mpr (not_lt.mp hkept))
      omega
  · intro hup hdown
    have hbest (t : LayerSpec) (ht : t ∈ g.listed) (hle : t.rate ≤ estimate) : t.rate ≤ s.rate :=
      hreached t ht (by simpa [hup] using hle)
    obtain hafford | ⟨-, hkept⟩ | ⟨-, hbeyond⟩ := hthreshold
    · exact .inl ⟨hafford, hbest⟩
    · exact .inl ⟨by simpa [hdown] using hkept, hbest⟩
    · exact .inr hbeyond

/-- Too little is left to keep S1T0 within its margin. -/
theorem desired_obeys_thresholds_below_margin :
    let offer : Offer := ⟨.vp9, [⟨.base, 150000⟩, ⟨⟨1, 0⟩, 500000⟩, ⟨⟨1, 1⟩, 800000⟩], []⟩
    let g := offer.graph .video 1
    let h : Hysteresis Rat := ⟨1 / 5, 1 / 5⟩
    g.IsOffered ∧ g.isLayered ∧ Settings.checkHysteresis h = .ok () ∧
      ∃ s ∈ g.listed, h.desired g 390000 (some ⟨1, 0⟩) = some s.layer ∧
        (∀ t ∈ g.listed, (t.rate : Rat) * (1 + 1 / 5) ≤ 390000 → t.rate ≤ s.rate) ∧
        s.rate < 500000 ∧ (390000 : Rat) < 500000 * (1 - 1 / 5) := by
  intro offer g h
  have hg : g.IsOffered := ⟨.video, offer, 1, Guard.eq_ok_of_toOption (by decide +kernel)⟩
  have hlayered : g.isLayered := by decide +kernel
  have hchecked : Settings.checkHysteresis h = .ok () :=
    Guard.eq_ok_of_toOption (by decide +kernel)
  obtain ⟨s, hmem, hdesired, -, hreached, hstep, -⟩ :=
    desired_obeys_thresholds hg hlayered hchecked 390000 (some ⟨1, 0⟩)
  have hbase : h.desired g 390000 (some ⟨1, 0⟩) = some .base := by decide +kernel
  have hs : s = ⟨.base, 150000⟩ := by
    refine hg.layer_inj hmem (by decide +kernel) ?_
    exact Option.some.inj (hdesired.symm.trans hbase)
  have hcheaper : s.rate < 500000 := by rw [hs]; decide
  refine ⟨hg, hlayered, hchecked, s, hmem, hdesired, hreached, hcheaper, ?_⟩
  exact (hstep ⟨⟨1, 0⟩, 500000⟩ (by decide +kernel) rfl).2 hcheaper

/-- A higher estimate chooses no cheaper layer exactly if there is a layer so far or the layers are
spaced. Otherwise a fresh receiver may get more for a lower estimate. -/
theorem chosen_rate_mono_iff (hg : g.IsOffered) (hlayered : g.isLayered)
    (hchecked : Settings.checkHysteresis h = .ok ()) (reference : Option Layer) :
    (∀ low high, low ≤ high → ∃ a b, h.chosenRate? g low reference = some a ∧
      h.chosenRate? g high reference = some b ∧ a ≤ b) ↔
    reference.any g.contains ∨ h.Spaced g := by
  have hord := (isExact_rat hchecked).ordered
  constructor
  · intro hmono
    by_contra hneither
    obtain ⟨hunlisted, hnear⟩ := not_or.mp hneither
    have hnone := bind_spec?_eq_none_iff.mpr (Bool.eq_false_iff.mpr hunlisted)
    simp only [Spaced, not_forall, not_le] at hnear
    obtain ⟨c, hc, t, ht, hdearer, hnear⟩ := hnear
    obtain ⟨high, hle, hdrop⟩ := exists_drop (margins_nonneg hchecked).1 hc ht hdearer hnear
    obtain ⟨a, b, ha, hb, hab⟩ := hmono t.rate high hle
    obtain ⟨s, hsmem, -, hsrate, hs⟩ := exists_chosen hg hlayered h t.rate reference
    obtain ⟨s', hsmem', -, hsrate', hs'⟩ := exists_chosen hg hlayered h high reference
    have hless := hdrop s hsmem s' hsmem' (hnone ▸ hs) (hnone ▸ hs')
    obtain rfl := Option.some.inj (hsrate.symm.trans ha)
    obtain rfl := Option.some.inj (hsrate'.symm.trans hb)
    omega
  · intro hcase low high hle
    obtain ⟨s, hsmem, -, hsrate, hs⟩ := exists_chosen hg hlayered h low reference
    obtain ⟨t, htmem, -, htrate, ht⟩ := exists_chosen hg hlayered h high reference
    refine ⟨s.rate, t.rate, hsrate, htrate, Chosen.mono hord ?_ hle hsmem htmem hs ht⟩
    intro hnone
    refine hcase.resolve_left ?_
    rw [bind_spec?_eq_none_iff.mp hnone]
    exact nofun

/-- From the base layer on, a higher estimate never chooses less of two layers that lie close. -/
theorem chosen_rate_mono_from_base :
    let offer : Offer := ⟨.vp9, [⟨.base, 100000⟩, ⟨⟨1, 0⟩, 110000⟩], []⟩
    let g := offer.graph .video 1
    let h : Hysteresis Rat := ⟨1 / 2, 0⟩
    g.IsOffered ∧ g.isLayered ∧ Settings.checkHysteresis h = .ok () ∧
      ∀ low high, low ≤ high → ∃ a b, h.chosenRate? g low (some .base) = some a ∧
        h.chosenRate? g high (some .base) = some b ∧ a ≤ b := by
  intro offer g h
  have hg : g.IsOffered := ⟨.video, offer, 1, Guard.eq_ok_of_toOption (by decide +kernel)⟩
  have hlayered : g.isLayered := by decide +kernel
  have hchecked : Settings.checkHysteresis h = .ok () :=
    Guard.eq_ok_of_toOption (by decide +kernel)
  refine ⟨hg, hlayered, hchecked, ?_⟩
  exact (chosen_rate_mono_iff hg hlayered hchecked (some .base)).mpr (.inl (by decide +kernel))

/-- A fresh receiver gets S1T0 for 120 kbit/s and S0T0, which costs less, for 150 kbit/s. -/
theorem fresh_choice_drops :
    let offer : Offer := ⟨.vp9, [⟨.base, 100000⟩, ⟨⟨1, 0⟩, 110000⟩], []⟩
    let g := offer.graph .video 1
    let h : Hysteresis Rat := ⟨1 / 2, 0⟩
    LayerGraph.ofOffer .video offer 1 = .ok g ∧ g.isLayered ∧
      Settings.checkHysteresis h = .ok () ∧ h.chosenRate? g 120000 none = some 110000 ∧
      h.chosenRate? g 150000 none = some 100000 ∧
      ¬∀ low high, low ≤ high → ∃ a b, h.chosenRate? g low none = some a ∧
        h.chosenRate? g high none = some b ∧ a ≤ b := by
  intro offer g h
  have hlow : h.chosenRate? g 120000 none = some 110000 := by decide +kernel
  have hhigh : h.chosenRate? g 150000 none = some 100000 := by decide +kernel
  refine ⟨Guard.eq_ok_of_toOption (by decide +kernel), by decide +kernel,
    Guard.eq_ok_of_toOption (by decide +kernel), hlow, hhigh, fun hmono => ?_⟩
  obtain ⟨a, b, ha, hb, hle⟩ := hmono 120000 150000 (by decide)
  obtain rfl := Option.some.inj (hlow.symm.trans ha)
  obtain rfl := Option.some.inj (hhigh.symm.trans hb)
  omega

end Exact

end Hysteresis

end MediaRelay
