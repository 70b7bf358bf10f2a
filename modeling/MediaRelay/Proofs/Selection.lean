import Mathlib.Algebra.Order.Field.Rat
import Mathlib.Tactic.Linarith
import MediaRelay.Proofs.Estimate
import MediaRelay.Proofs.Invariant
import MediaRelay.Proofs.Negotiation

/-!
The choice of a layer. With margins that are weighed exactly, choosing again from the layer chosen
gives the same layer, and a lower estimate does not choose a more expensive one.
-/

namespace MediaRelay

theorem LayerSpec.rate_le_of_rank_lt {a b : LayerSpec} (h : Key.rank a < Key.rank b) :
    a.rate ≤ b.rate := by
  obtain hless | ⟨hsame, -⟩ := rank_lt_iff.mp h
  · exact Nat.le_of_lt hless
  · exact Nat.le_of_eq hsame

namespace LayerGraph

variable {g : LayerGraph}

theorem listed_sorted (g : LayerGraph) : g.listed.Pairwise fun a b => a.rate ≤ b.rate :=
  g.layers.keys_sorted.imp LayerSpec.rate_le_of_rank_lt

/-- A negotiated graph lists each layer once. -/
theorem IsOffered.layer_inj (hg : g.IsOffered) {s t : LayerSpec} (hs : s ∈ g.listed)
    (ht : t ∈ g.listed) (h : s.layer = t.layer) : s = t := by
  obtain ⟨kind, offer, version, hok⟩ := hg
  obtain ⟨⟨-, hrest⟩, rfl⟩ := ofOffer_eq_ok_iff.mp hok
  split at hrest
  · obtain ⟨ceiling, hsound⟩ := hrest
    exact List.inj_on_of_nodup_map hsound.listed_distinct hs ht h
  · rw [Offer.listed_of_nil hrest.1] at hs
    cases hs

theorem mem_of_spec? {layer : Layer} {s : LayerSpec} (h : g.spec? layer = some s) :
    s ∈ g.listed ∧ s.layer = layer :=
  ⟨List.mem_of_find?_eq_some h, by simpa using List.find?_some h⟩

theorem IsOffered.spec?_eq_some_iff (hg : g.IsOffered) {layer : Layer} {s : LayerSpec} :
    g.spec? layer = some s ↔ s ∈ g.listed ∧ s.layer = layer := by
  refine ⟨mem_of_spec?, ?_⟩
  rintro ⟨hs, rfl⟩
  cases hfound : g.spec? s.layer with
  | none => exact absurd hs fun hs => by simpa using List.find?_eq_none.mp hfound s hs
  | some t =>
    obtain ⟨ht, hlayer⟩ := mem_of_spec? hfound
    rw [hg.layer_inj ht hs hlayer]

/-- The most expensive layer whose rate passes. -/
def top? (g : LayerGraph) (p : Nat → Bool) : Option LayerSpec :=
  g.listed.reverse.find? fun s => p s.rate

theorem mem_of_top? {p : Nat → Bool} {s : LayerSpec} (h : g.top? p = some s) :
    s ∈ g.listed ∧ p s.rate :=
  ⟨List.mem_reverse.mp (List.mem_of_find?_eq_some h),
    List.find?_some (p := fun s : LayerSpec => p s.rate) h⟩

theorem exists_top? {p : Nat → Bool} {t : LayerSpec} (ht : t ∈ g.listed) (hp : p t.rate) :
    ∃ s, g.top? p = some s ∧ t.rate ≤ s.rate := by
  cases hs : g.top? p with
  | none => exact absurd hp (List.find?_eq_none.mp hs t (List.mem_reverse.mpr ht))
  | some s =>
    refine ⟨s, rfl, ?_⟩
    obtain ⟨-, dearer, cheaper, hlist, hfail⟩ := List.find?_eq_some_iff_append.mp hs
    have hsorted := List.pairwise_reverse.mpr g.listed_sorted
    have hmem := List.mem_reverse.mpr ht
    rw [hlist] at hsorted hmem
    obtain hbefore | hafter := List.mem_append.mp hmem
    · have hfail := hfail t hbefore
      rw [hp] at hfail
      cases hfail
    · obtain rfl | hafter := List.mem_cons.mp hafter
      · exact Nat.le_refl _
      · exact (List.pairwise_cons.mp (List.pairwise_append.mp hsorted).2.1).1 t hafter

theorem lowest?_spec {t : LayerSpec} (ht : t ∈ g.listed) :
    ∃ s, g.lowest? = some s ∧ s ∈ g.listed ∧ s.rate ≤ t.rate := by
  have hsorted := g.listed_sorted
  cases hl : g.listed with
  | nil =>
    rw [hl] at ht
    cases ht
  | cons s rest =>
    rw [hl] at ht hsorted
    refine ⟨s, by rw [lowest?, hl]; rfl, List.mem_cons_self, ?_⟩
    obtain rfl | ht := List.mem_cons.mp ht
    · exact Nat.le_refl _
    · exact (List.pairwise_cons.mp hsorted).1 t ht

end LayerGraph

namespace Hysteresis

variable {F : Type} [Arithmetic F]

/-- The margins are weighed exactly, as rational numbers. -/
def IsExact (h : Hysteresis F) : Prop :=
  ∃ up down : Rat, 0 ≤ up ∧ 0 ≤ down ∧ ∀ rate estimate : Nat,
    (h.reaches rate estimate ↔ (rate : Rat) * (1 + up) ≤ estimate) ∧
    (h.keeps rate estimate ↔ (rate : Rat) * (1 - down) ≤ estimate) ∧
    (h.affords rate estimate ↔ rate ≤ estimate)

section Rational

variable {h : Hysteresis Rat} {rate estimate : Nat}

theorem reaches_rat : h.reaches rate estimate ↔ (rate : Rat) * (1 + h.up) ≤ estimate := by
  simp [reaches, Arithmetic.atMost, Arithmetic.ofNat, Arithmetic.ofInt]

theorem keeps_rat : h.keeps rate estimate ↔ (rate : Rat) * (1 - h.down) ≤ estimate := by
  simp [keeps, Arithmetic.atMost, Arithmetic.ofNat, Arithmetic.ofInt]

theorem affords_rat : h.affords rate estimate ↔ rate ≤ estimate := by
  simp [affords, Arithmetic.atMost, Arithmetic.ofNat, Arithmetic.ofInt]

theorem margins_nonneg (hchecked : Settings.checkHysteresis h = .ok ()) :
    0 ≤ h.up ∧ 0 ≤ h.down := by
  unfold Settings.checkHysteresis at hchecked
  split at hchecked
  case isFalse => cases hchecked
  rename_i hmargins
  obtain ⟨hup, hdown⟩ := Bool.and_eq_true_iff.mp hmargins
  exact ⟨(Arithmetic.isFraction_rat.mp hup).1, (Arithmetic.isFraction_rat.mp hdown).1⟩

theorem isExact_rat (hchecked : Settings.checkHysteresis h = .ok ()) : h.IsExact :=
  ⟨h.up, h.down, (margins_nonneg hchecked).1, (margins_nonneg hchecked).2,
    fun _ _ => ⟨reaches_rat, keeps_rat, affords_rat⟩⟩

end Rational

/-- What the choice needs of the margins. -/
structure Ordered (h : Hysteresis F) : Prop where
  reaches_mono : ∀ {rate low high}, low ≤ high → h.reaches rate low → h.reaches rate high
  affords_of_reaches : ∀ {rate estimate}, h.reaches rate estimate → h.affords rate estimate
  keeps_of_affords : ∀ {rate estimate}, h.affords rate estimate → h.keeps rate estimate
  le_of_not_keeps : ∀ {rate other estimate}, h.affords rate estimate →
    h.keeps other estimate = false → rate ≤ other

theorem IsExact.ordered {h : Hysteresis F} (hexact : h.IsExact) : h.Ordered := by
  obtain ⟨up, down, hup, hdown, hweigh⟩ := hexact
  have hrate (rate : Nat) : (0 : Rat) ≤ rate := Nat.cast_nonneg rate
  refine ⟨fun {rate low high} hle hlow => ?_, fun {rate estimate} hr => ?_,
    fun {rate estimate} ha => ?_, fun {rate other estimate} ha hk => ?_⟩
  · have hle : (low : Rat) ≤ high := Nat.cast_le.mpr hle
    exact (hweigh rate high).1.mpr (((hweigh rate low).1.mp hlow).trans hle)
  · have hr := (hweigh rate estimate).1.mp hr
    have := mul_nonneg (hrate rate) hup
    have : (rate : Rat) ≤ estimate := by linarith
    exact (hweigh rate estimate).2.2.mpr (Nat.cast_le.mp this)
  · have ha : (rate : Rat) ≤ estimate := Nat.cast_le.mpr ((hweigh rate estimate).2.2.mp ha)
    have := mul_nonneg (hrate rate) hdown
    exact (hweigh rate estimate).2.1.mpr (by linarith)
  · have ha := (hweigh rate estimate).2.2.mp ha
    by_contra hlt
    have hother : (other : Rat) ≤ estimate := Nat.cast_le.mpr (by omega)
    have := mul_nonneg (hrate other) hdown
    have hkept := (hweigh other estimate).2.1.mpr (by linarith)
    rw [hk] at hkept
    cases hkept

/-- The choice with the layer so far looked up. -/
def choice (h : Hysteresis F) (g : LayerGraph) (estimate : Nat) (reference : Option LayerSpec) :
    Option LayerSpec :=
  ((g.top? (h.reaches · estimate)).filter fun s => reference.all fun r => r.rate < s.rate).or
    ((reference.filter fun s => h.keeps s.rate estimate).or
      ((g.top? (h.affords · estimate)).or g.lowest?))

theorem desired_eq (h : Hysteresis F) (g : LayerGraph) (estimate : Nat) (reference : Option Layer) :
    h.desired g estimate reference =
      (h.choice g estimate (reference.bind g.spec?)).map (·.layer) := rfl

variable {h : Hysteresis F} {g : LayerGraph} {estimate : Nat}

theorem choice_mem {reference : Option LayerSpec} (hr : ∀ r, reference = some r → r ∈ g.listed)
    {s : LayerSpec} (hs : h.choice g estimate reference = some s) : s ∈ g.listed := by
  obtain htop | ⟨-, hheld⟩ := Option.or_eq_some_iff.mp hs
  · exact (LayerGraph.mem_of_top? (Option.filter_eq_some_iff.mp htop).1).1
  obtain hkept | ⟨-, hfallback⟩ := Option.or_eq_some_iff.mp hheld
  · exact hr s (Option.filter_eq_some_iff.mp hkept).1
  obtain htop | ⟨-, hlowest⟩ := Option.or_eq_some_iff.mp hfallback
  · exact (LayerGraph.mem_of_top? htop).1
  · exact List.mem_of_mem_head? hlowest

theorem choice_listed {reference : Option Layer} {s : LayerSpec}
    (hs : h.choice g estimate (reference.bind g.spec?) = some s) : s ∈ g.listed := by
  refine choice_mem (fun r hr => ?_) hs
  obtain ⟨_, -, hspec⟩ := Option.bind_eq_some_iff.mp hr
  exact (LayerGraph.mem_of_spec? hspec).1

/-- There is a choice as long as there are layers. -/
theorem exists_choice (h : Hysteresis F) (estimate : Nat) {t : LayerSpec} (ht : t ∈ g.listed)
    (reference : Option LayerSpec) : ∃ s, h.choice g estimate reference = some s := by
  obtain ⟨s, hs, -, -⟩ := LayerGraph.lowest?_spec ht
  unfold choice
  rw [hs]
  exact Option.isSome_iff_exists.mp (by simp)

/-- Nothing dearer than `s` is reached, so what is kept or affordable decides. -/
theorem choice_of_top (s : LayerSpec)
    (htop : ∀ t, g.top? (h.reaches · estimate) = some t → t.rate ≤ s.rate) :
    h.choice g estimate (some s) = if h.keeps s.rate estimate then some s
      else (g.top? (h.affords · estimate)).or g.lowest? := by
  have hraised : ((g.top? (h.reaches · estimate)).filter fun t =>
      (some s).all fun r => r.rate < t.rate) = none := by
    rw [Option.filter_eq_none_iff]
    intro t ht
    simpa using htop t ht
  rw [choice, hraised, Option.none_or]
  by_cases hkeeps : h.keeps s.rate estimate
  · simp [hkeeps, Option.filter]
  · simp [hkeeps, Option.filter]

theorem Ordered.choice_idem (hord : h.Ordered) {reference : Option LayerSpec} {s : LayerSpec}
    (hs : h.choice g estimate reference = some s) : h.choice g estimate (some s) = some s := by
  obtain hraised | ⟨hnot, hheld⟩ := Option.or_eq_some_iff.mp hs
  · obtain ⟨htop, -⟩ := Option.filter_eq_some_iff.mp hraised
    have hkeeps := hord.keeps_of_affords (hord.affords_of_reaches (LayerGraph.mem_of_top? htop).2)
    rw [choice_of_top s fun t ht => (Option.some.inj (ht.symm.trans htop)) ▸ Nat.le_refl _,
      if_pos hkeeps]
  obtain hkept | ⟨-, hfallback⟩ := Option.or_eq_some_iff.mp hheld
  · obtain ⟨rfl, -⟩ := Option.filter_eq_some_iff.mp hkept
    exact hs
  · have htop (t : LayerSpec) (ht : g.top? (h.reaches · estimate) = some t) : t.rate ≤ s.rate := by
      obtain ⟨hmem, hreached⟩ := LayerGraph.mem_of_top? ht
      obtain ⟨a, ha, hle⟩ :=
        LayerGraph.exists_top? (p := (h.affords · estimate)) hmem (hord.affords_of_reaches hreached)
      rw [ha, Option.some_or] at hfallback
      exact Option.some.inj hfallback ▸ hle
    rw [choice_of_top s htop, hfallback, ite_self]

theorem Ordered.choice_mono (hord : h.Ordered) {low : Nat} (hlow : low ≤ estimate)
    {s s' : LayerSpec} (hmem : s ∈ g.listed) (hs : h.choice g estimate (some s) = some s)
    (hs' : h.choice g low (some s) = some s') : s'.rate ≤ s.rate := by
  -- what is reached with less is reached with more, and then it is not above `s`
  have htop (t : LayerSpec) (ht : g.top? (h.reaches · low) = some t) : t.rate ≤ s.rate := by
    obtain ⟨hmem, hreached⟩ := LayerGraph.mem_of_top? ht
    obtain ⟨u, hu, hle⟩ := LayerGraph.exists_top? (p := (h.reaches · estimate)) hmem
      (hord.reaches_mono hlow hreached)
    by_contra hdearer
    have hraised : h.choice g estimate (some s) = some u := by
      simp only [choice, hu, Option.filter, Option.all_some]
      rw [if_pos (by simp; omega), Option.some_or]
    rw [hraised, Option.some.injEq] at hs
    rw [hs] at hle
    omega
  rw [choice_of_top s htop] at hs'
  split at hs'
  · rw [Option.some.inj hs']
  · rename_i hkeeps
    obtain hafford | ⟨-, hlowest⟩ := Option.or_eq_some_iff.mp hs'
    · exact hord.le_of_not_keeps (LayerGraph.mem_of_top? hafford).2 (by simpa using hkeeps)
    · obtain ⟨l, hl, -, hle⟩ := LayerGraph.lowest?_spec hmem
      cases hl.symm.trans hlowest
      exact hle

end Hysteresis

end MediaRelay
