import Mathlib.Data.List.Induction
import Mathlib.Data.List.Nodup
import MediaRelay.LayerGraph
import MediaRelay.Proofs.Guard

/-!
Which offers are accepted, and what becomes of them. No condition on an offer looks at the order in
which it lists layers and templates (`Offer.IsAcceptable`), and the graph of an accepted offer holds
each of them once (`LayerGraph.ofOffer_eq_ok_iff`); so offers that differ in order only are accepted
together and give the same graph (`LayerGraph.ofOffer_reordered`).
-/

namespace MediaRelay

namespace Table

variable {κ ν : Type} [Key κ]

theorem keys_sorted (t : Table κ ν) : t.keys.Pairwise fun a b => Key.rank a < Key.rank b :=
  List.pairwise_map.mpr t.sorted

/-- The lower of two keys is listed before the other. -/
theorem idxOf_lt_idxOf [DecidableEq κ] {t : Table κ ν} {a b : κ}
    (ha : a ∈ t.keys) (hb : b ∈ t.keys) (hab : Key.rank a < Key.rank b) :
    t.keys.idxOf a < t.keys.idxOf b := by
  have hia := List.idxOf_lt_length_iff.mpr ha
  have hib := List.idxOf_lt_length_iff.mpr hb
  by_contra hle
  obtain hlt | heq := Nat.lt_or_eq_of_le (Nat.not_lt.mp hle)
  · have hba := List.pairwise_iff_getElem.mp t.keys_sorted _ _ hib hia hlt
    rw [List.getElem_idxOf, List.getElem_idxOf] at hba
    omega
  · rw [List.idxOf_inj hb] at heq
    subst heq
    omega

/-- With one entry for each key, a table made of a list finds what the list has. -/
theorem ofList_get?_eq_some_iff {l : List (κ × ν)} (h : (l.map (·.1)).Nodup) {k : κ} {v : ν} :
    (ofList l).get? k = some v ↔ (k, v) ∈ l := by
  induction l using List.reverseRecOn with
  | nil => simp [ofList]
  | append_singleton l e ih =>
    obtain ⟨key, value⟩ := e
    rw [List.map_append, List.nodup_append] at h
    obtain ⟨hl, -, hapart⟩ := h
    rw [ofList, List.foldl_concat, get?_insert, ← ofList, List.mem_append, List.mem_singleton,
      Prod.mk.injEq]
    by_cases hk : k = key
    · subst hk
      have hnew : (k, v) ∉ l := fun hmem =>
        hapart k (List.mem_map_of_mem hmem) k (List.mem_singleton_self k) rfl
      simp [hnew, eq_comm]
    · simp [hk, mt Key.rank_inj hk, ih hl]

/-- The order of the entries does not matter then. -/
theorem ofList_perm {l m : List (κ × ν)} (h : (l.map (·.1)).Nodup) (hperm : m.Perm l) :
    ofList m = ofList l := by
  refine ext_get? fun k => Option.ext fun v => ?_
  rw [ofList_get?_eq_some_iff h, ofList_get?_eq_some_iff ((hperm.map _).nodup_iff.mpr h),
    hperm.mem_iff]

end Table

theorem LayerSpec.rank_lt_iff {a b : LayerSpec} :
    Key.rank a < Key.rank b ↔ a.rate < b.rate ∨ a.rate = b.rate ∧ a.layer.precedes b.layer := by
  have := a.layer.spatial.toNat_lt
  have := a.layer.temporal.toNat_lt
  have := b.layer.spatial.toNat_lt
  have := b.layer.temporal.toNat_lt
  simp only [Key.rank, rank, Layer.precedes, Bool.or_eq_true, Bool.and_eq_true, decide_eq_true_eq,
    beq_iff_eq, UInt8.lt_iff_toNat_lt, ← UInt8.toNat_inj]
  omega

/-! The least layer that all layers fit within. -/

theorem foldl_sup_fitsWithin_iff {l t : Layer} {layers : List LayerSpec} :
    (layers.foldl (fun l s => l.sup s.layer) l).fitsWithin t ↔
      l.fitsWithin t ∧ ∀ s ∈ layers, s.layer.fitsWithin t := by
  induction layers generalizing l with
  | nil => simp
  | cons s layers ih =>
    rw [List.foldl_cons, ih, Layer.sup_fitsWithin_iff, List.forall_mem_cons, and_assoc]

theorem ceilingOf_fitsWithin_iff {layers : List LayerSpec} {ceiling : Layer}
    (h : ceilingOf layers = some ceiling) (t : Layer) :
    ceiling.fitsWithin t ↔ ∀ s ∈ layers, s.layer.fitsWithin t := by
  cases layers with
  | nil => cases h
  | cons s layers =>
    obtain rfl := Option.some.inj h
    rw [foldl_sup_fitsWithin_iff, List.forall_mem_cons]

theorem ceilingOf_eq_none_iff {layers : List LayerSpec} :
    ceilingOf layers = none ↔ layers = [] := by
  cases layers <;> simp [ceilingOf]

theorem ceilingOf_perm {layers others : List LayerSpec} (h : layers.Perm others) :
    ceilingOf layers = ceilingOf others := by
  cases hc : ceilingOf layers with
  | none =>
    rw [ceilingOf_eq_none_iff] at hc
    subst hc
    rw [List.nil_perm.mp h, ceilingOf]
  | some c =>
    cases hd : ceilingOf others with
    | none =>
      rw [ceilingOf_eq_none_iff] at hd
      subst hd
      rw [List.perm_nil.mp h, ceilingOf] at hc
      cases hc
    | some d =>
      have hsame (t : Layer) : c.fitsWithin t ↔ d.fitsWithin t := by
        simp only [ceilingOf_fitsWithin_iff hc, ceilingOf_fitsWithin_iff hd, h.mem_iff]
      rw [Layer.fitsWithin_antisymm ((hsame d).mpr d.fitsWithin_refl)
        ((hsame c).mp c.fitsWithin_refl)]

/-- A template that descriptors can name, for a layer that packets can have. -/
structure Template.IsUsable (t : Template) (ceiling : Layer) : Prop where
  id_le : t.id ≤ Descriptor.maxTemplateId
  within : t.layer.fitsWithin ceiling
  length_le : t.diffs.length ≤ Descriptor.maxDiffs
  ne_zero : 0 ∉ t.diffs

namespace Offer

/-- Nothing is wrong with the layers and templates of an offer, the layers having a ceiling. -/
structure IsSound (o : Offer) (ceiling : Layer) : Prop where
  reaches : ceilingOf o.layers = some ceiling
  layers : ∀ s ∈ o.layers, s.layer.isValid ∧ s.rate ≠ 0
  distinct : (o.layers.map (·.layer)).Nodup
  consistent : ∀ lower ∈ o.layers, ∀ upper ∈ o.layers, contradicts lower upper = false
  templates : ∀ t ∈ o.templates, t.IsUsable ceiling
  ids : (o.templates.map (·.id)).Nodup

/-- An offer that can be accepted for a kind. -/
def IsAcceptable (o : Offer) (kind : Kind) : Prop :=
  o.codec.supports kind ∧
    if kind.isLayered then ∃ ceiling, o.IsSound ceiling else o.layers = [] ∧ o.templates = []

/-- The graph of an offer. -/
def graph (o : Offer) (kind : Kind) (version : Nat) : LayerGraph :=
  { kind, codec := o.codec, version
    layers := Table.ofList (o.layers.map fun s => (s, ()))
    templates := Table.ofList (o.templates.map fun t => (t.id, t)) }

theorem nodup_listings {layers : List LayerSpec} (h : layers.Nodup) :
    ((layers.map fun s => (s, ())).map (·.1)).Nodup := by
  simpa [Function.comp_def] using h

theorem nodup_namings {templates : List Template} (h : (templates.map (·.id)).Nodup) :
    ((templates.map fun t => (t.id, t)).map (·.1)).Nodup := by
  simpa [Function.comp_def] using h

theorem checkLayers_eq_ok_iff {seen : List Layer} {layers : List LayerSpec} :
    checkLayers seen layers = .ok () ↔ (∀ s ∈ layers, s.layer.isValid ∧ s.rate ≠ 0) ∧
      (layers.map (·.layer)).Nodup ∧ ∀ s ∈ layers, s.layer ∉ seen := by
  induction layers generalizing seen with
  | nil => simp [checkLayers]
  | cons s layers ih =>
    unfold checkLayers
    by_cases hvalid : s.layer.isValid
    · by_cases hrate : s.rate = 0
      · simp [hvalid, hrate]
      · by_cases hseen : s.layer ∈ seen
        · simp [hvalid, hrate, hseen]
        · simp only [hvalid, hrate, hseen, ih, Bool.not_true, Bool.false_eq_true, if_false,
            List.contains_eq_mem, decide_false, ne_eq, List.mem_cons, not_or, List.map_cons,
            List.nodup_cons, List.mem_map, not_exists, not_and]
          grind
    · simp [hvalid]

theorem contradiction?_eq_none_iff {layers : List LayerSpec} :
    contradiction? layers = none ↔
      ∀ lower ∈ layers, ∀ upper ∈ layers, contradicts lower upper = false := by
  simp [contradiction?]

end Offer

namespace LayerGraph

theorem addTemplate_eq_ok_iff {ceiling : Layer} {known all : Table UInt8 Template} {t : Template} :
    addTemplate ceiling known t = .ok all ↔
      t.IsUsable ceiling ∧ known.contains t.id = false ∧ known.insert t.id t = all := by
  constructor
  · intro h
    unfold addTemplate at h
    split at h
    · cases h
    rename_i hid
    split at h
    · cases h
    rename_i hlayer
    split at h
    · cases h
    rename_i hdiffs
    split at h
    · cases h
    rename_i hknown
    simp only [Bool.or_eq_true, decide_eq_true_eq, List.contains_iff_mem, not_or] at hdiffs
    exact ⟨⟨UInt8.not_lt.mp hid, by simpa using hlayer, Nat.not_lt.mp hdiffs.1, hdiffs.2⟩,
      by simpa using hknown, Except.ok.inj h⟩
  · rintro ⟨⟨hid, hlayer, hlength, hzero⟩, hknown, rfl⟩
    unfold addTemplate
    rw [if_neg (UInt8.not_lt.mpr hid), if_neg (by simp [hlayer]), if_neg (by simp [hzero]; omega),
      if_neg (by simp [hknown])]

theorem addTemplates_eq_ok_iff {ceiling : Layer} {templates : List Template}
    {known all : Table UInt8 Template} :
    templates.foldlM (addTemplate ceiling) known = .ok all ↔
      (∀ t ∈ templates, t.IsUsable ceiling ∧ known.contains t.id = false) ∧
        (templates.map (·.id)).Nodup ∧
        templates.foldl (fun known t => known.insert t.id t) known = all := by
  induction templates generalizing known with
  | nil => simp [Guard.pure_eq]
  | cons t templates ih =>
    simp only [List.foldlM_cons, Guard.bind_eq_ok, addTemplate_eq_ok_iff, ih, List.foldl_cons,
      List.forall_mem_cons, List.map_cons, List.nodup_cons, List.mem_map, not_exists, not_and]
    constructor
    · rintro ⟨_, ⟨husable, hnew, rfl⟩, hrest, hids, rfl⟩
      have hother (u : Template) (hu : u ∈ templates) := (hrest u hu).2
      simp only [Bool.eq_false_iff, ne_eq, Table.contains_insert, not_or] at hother
      exact ⟨⟨⟨husable, hnew⟩, fun u hu => ⟨(hrest u hu).1, by simpa using (hother u hu).2⟩⟩,
        ⟨fun u hu => (hother u hu).1, hids⟩, rfl⟩
    · rintro ⟨⟨⟨husable, hnew⟩, hrest⟩, ⟨hapart, hids⟩, rfl⟩
      refine ⟨_, ⟨husable, hnew, rfl⟩, fun u hu => ⟨(hrest u hu).1, ?_⟩, hids, rfl⟩
      rw [Bool.eq_false_iff, ne_eq, Table.contains_insert, not_or]
      exact ⟨hapart u hu, by simpa using (hrest u hu).2⟩

theorem templates_eq_ok_iff {ceiling : Layer} {templates : List Template}
    {all : Table UInt8 Template} :
    templates.foldlM (addTemplate ceiling) ∅ = .ok all ↔
      (∀ t ∈ templates, t.IsUsable ceiling) ∧ (templates.map (·.id)).Nodup ∧
        Table.ofList (templates.map fun t => (t.id, t)) = all := by
  rw [addTemplates_eq_ok_iff, Table.ofList, List.foldl_map]
  have hempty (t : Template) : (∅ : Table UInt8 Template).contains t.id = false := rfl
  simp only [hempty, and_true]
  rfl

/-- With a ceiling at hand, an offer is sound if it passes the remaining checks. -/
theorem isSound_iff {offer : Offer} {ceiling : Layer} (h : ceilingOf offer.layers = some ceiling) :
    (∃ ceiling, offer.IsSound ceiling) ↔ Offer.checkLayers [] offer.layers = .ok () ∧
      Offer.contradiction? offer.layers = none ∧
      (∀ t ∈ offer.templates, t.IsUsable ceiling) ∧ (offer.templates.map (·.id)).Nodup := by
  rw [Offer.checkLayers_eq_ok_iff, Offer.contradiction?_eq_none_iff]
  constructor
  · rintro ⟨c, hc⟩
    obtain rfl := Option.some.inj (h.symm.trans hc.reaches)
    exact ⟨⟨hc.layers, hc.distinct, fun _ _ => List.not_mem_nil⟩, hc.consistent, hc.templates,
      hc.ids⟩
  · rintro ⟨⟨hlayers, hdistinct, -⟩, hconsistent, htemplates, hids⟩
    exact ⟨ceiling, h, hlayers, hdistinct, hconsistent, htemplates, hids⟩

/-- An offer is accepted if nothing is wrong with it, and then gives its graph. -/
theorem ofOffer_eq_ok_iff {kind : Kind} {offer : Offer} {version : Nat} {g : LayerGraph} :
    ofOffer kind offer version = .ok g ↔
      offer.IsAcceptable kind ∧ offer.graph kind version = g := by
  unfold ofOffer Offer.IsAcceptable
  rw [Guard.unless_eq_ok, and_assoc]
  refine and_congr_right fun _ => ?_
  by_cases hkind : kind.isLayered
  · simp only [hkind, if_true, Bool.not_true, Bool.false_eq_true, if_false]
    split
    · rename_i ceiling hceiling
      rw [isSound_iff hceiling]
      cases hc : Offer.contradiction? offer.layers with
      | some pair => simp [Guard.throw_eq, Guard.error_bind, Guard.bind_eq_ok]
      | none =>
        simp only [Guard.bind_eq_ok, Guard.pure_eq, templates_eq_ok_iff, Except.ok.injEq]
        constructor
        · rintro ⟨_, hlayers, _, ⟨htemplates, hids, rfl⟩, hg⟩
          exact ⟨⟨hlayers, trivial, htemplates, hids⟩, hg⟩
        · rintro ⟨⟨hlayers, -, htemplates, hids⟩, hg⟩
          exact ⟨(), hlayers, _, ⟨htemplates, hids, rfl⟩, hg⟩
    · rename_i hnone
      have hrefused : ¬∃ ceiling, offer.IsSound ceiling := fun ⟨c, hc⟩ => hnone c hc.reaches
      simp [Guard.throw_eq, hrefused]
  · simp only [hkind, if_true, Bool.not_false, Guard.unless_eq_ok, Bool.and_eq_true,
      List.isEmpty_iff, Bool.false_eq_true, if_false, and_congr_right_iff, and_imp]
    intro hlayers htemplates
    rw [Guard.pure_eq, Except.ok.injEq, Offer.graph, hlayers, htemplates]
    rfl

end LayerGraph

namespace Offer

variable {offer other : Offer} {kind : Kind} {version : Nat} {ceiling : Layer}

/-- Two offers differ in order only. -/
structure Reordered (offer other : Offer) : Prop where
  codec : other.codec = offer.codec
  layers : other.layers.Perm offer.layers
  templates : other.templates.Perm offer.templates

theorem Reordered.symm (h : offer.Reordered other) : other.Reordered offer :=
  ⟨h.codec.symm, h.layers.symm, h.templates.symm⟩

theorem IsSound.reordered (h : offer.Reordered other) (hsound : offer.IsSound ceiling) :
    other.IsSound ceiling where
  reaches := (ceilingOf_perm h.layers).trans hsound.reaches
  layers s hs := hsound.layers s (h.layers.mem_iff.mp hs)
  distinct := (h.layers.map _).nodup_iff.mpr hsound.distinct
  consistent lower hlower upper hupper :=
    hsound.consistent lower (h.layers.mem_iff.mp hlower) upper (h.layers.mem_iff.mp hupper)
  templates t ht := hsound.templates t (h.templates.mem_iff.mp ht)
  ids := (h.templates.map _).nodup_iff.mpr hsound.ids

theorem IsAcceptable.reordered (h : offer.Reordered other) (hoffer : offer.IsAcceptable kind) :
    other.IsAcceptable kind := by
  obtain ⟨hcodec, hrest⟩ := hoffer
  refine ⟨h.codec ▸ hcodec, ?_⟩
  by_cases hkind : kind.isLayered
  · rw [if_pos hkind] at hrest ⊢
    obtain ⟨ceiling, hsound⟩ := hrest
    exact ⟨ceiling, hsound.reordered h⟩
  · rw [if_neg hkind] at hrest ⊢
    obtain ⟨hlayers, htemplates⟩ := hrest
    exact ⟨List.perm_nil.mp (hlayers ▸ h.layers), List.perm_nil.mp (htemplates ▸ h.templates)⟩

/-- Layers are not repeated, nor are the ids of templates. -/
theorem IsAcceptable.nodup (h : offer.IsAcceptable kind) :
    offer.layers.Nodup ∧ (offer.templates.map (·.id)).Nodup := by
  obtain ⟨-, hrest⟩ := h
  split at hrest
  · obtain ⟨ceiling, hsound⟩ := hrest
    exact ⟨hsound.distinct.of_map, hsound.ids⟩
  · rw [hrest.1, hrest.2]
    exact ⟨.nil, .nil⟩

theorem IsAcceptable.graph_reordered (h : offer.Reordered other)
    (hoffer : offer.IsAcceptable kind) : other.graph kind version = offer.graph kind version := by
  obtain ⟨hlayers, hids⟩ := hoffer.nodup
  rw [graph, graph, h.codec, Table.ofList_perm (nodup_listings hlayers) (h.layers.map _),
    Table.ofList_perm (nodup_namings hids) (h.templates.map _)]

theorem listed_of_nil (h : offer.layers = []) : (offer.graph kind version).listed = [] := by
  rw [graph, h]
  rfl

namespace IsSound

variable (h : offer.IsSound ceiling)

include h

theorem mem_listed {s : LayerSpec} : s ∈ (offer.graph kind version).listed ↔ s ∈ offer.layers := by
  rw [LayerGraph.listed, Table.mem_keys_iff, Table.contains_iff, graph]
  simp [Table.ofList_get?_eq_some_iff (nodup_listings h.distinct.of_map)]

theorem listed_perm : (offer.graph kind version).listed.Perm offer.layers :=
  (List.perm_ext_iff_of_nodup (Table.keys_nodup _) h.distinct.of_map).mpr fun _ => h.mem_listed

theorem listed_distinct : ((offer.graph kind version).listed.map (·.layer)).Nodup :=
  (h.listed_perm.map _).nodup_iff.mpr h.distinct

theorem template?_eq_some_iff {id : UInt8} {t : Template} :
    (offer.graph kind version).template? id = some t ↔ t ∈ offer.templates ∧ t.id = id := by
  rw [LayerGraph.template?, graph, Table.ofList_get?_eq_some_iff (nodup_namings h.ids)]
  simp

theorem covers_iff {layer : Layer} :
    (offer.graph kind version).covers layer ↔ layer.fitsWithin ceiling := by
  rw [LayerGraph.covers, LayerGraph.ceiling?, ceilingOf_perm h.listed_perm, h.reaches,
    Option.any_some]

theorem fitsWithin_ceiling {s : LayerSpec} (hs : s ∈ offer.layers) : s.layer.fitsWithin ceiling :=
  (ceilingOf_fitsWithin_iff h.reaches ceiling).mp ceiling.fitsWithin_refl s hs

theorem rate_lt {a b : LayerSpec} (ha : a ∈ offer.layers) (hb : b ∈ offer.layers)
    (hne : a.layer ≠ b.layer) (hfits : a.layer.fitsWithin b.layer) : a.rate < b.rate := by
  simpa [contradicts, hne, hfits] using h.consistent a ha b hb

end IsSound

end Offer

namespace LayerGraph

/-- Offers that differ in order only are accepted together and give the same graph. For layered
kinds it lists the layers of the offer by rate, those within another before it and for less, covers
all that was negotiated, and has the templates of the offer under their ids. -/
theorem ofOffer_reordered {kind : Kind} {offer other : Offer} {version : Nat} {g : LayerGraph}
    (hsame : offer.Reordered other) :
    (ofOffer kind other version = .ok g ↔ ofOffer kind offer version = .ok g) ∧
    (ofOffer kind offer version = .ok g → kind.isLayered →
      g.listed.Perm offer.layers ∧
      g.listed.Pairwise (fun a b =>
        a.rate < b.rate ∨ a.rate = b.rate ∧ a.layer.precedes b.layer) ∧
      (g.listed.map (·.layer)).Nodup ∧
      (∀ a ∈ g.listed, ∀ b ∈ g.listed, a.layer ≠ b.layer → a.layer.fitsWithin b.layer →
        g.listed.idxOf a < g.listed.idxOf b ∧ a.rate < b.rate) ∧
      (∀ s ∈ g.listed, g.covers s.layer) ∧
      (∀ t ∈ offer.templates,
        g.covers t.layer ∧ t.id ≤ 63 ∧ t.diffs.length ≤ 13 ∧ 0 ∉ t.diffs) ∧
      ∀ id, (∀ t, g.template? id = some t ↔ t ∈ offer.templates ∧ t.id = id) ∧
        ((∀ t ∈ offer.templates, t.id ≠ id) → g.template? id = none)) := by
  refine ⟨?_, fun hok hkind => ?_⟩
  · rw [ofOffer_eq_ok_iff, ofOffer_eq_ok_iff]
    constructor
    · rintro ⟨hother, rfl⟩
      exact ⟨hother.reordered hsame.symm, hother.graph_reordered hsame.symm⟩
    · rintro ⟨hoffer, rfl⟩
      exact ⟨hoffer.reordered hsame, hoffer.graph_reordered hsame⟩
  obtain ⟨⟨-, hrest⟩, rfl⟩ := ofOffer_eq_ok_iff.mp hok
  rw [if_pos hkind] at hrest
  obtain ⟨ceiling, h⟩ := hrest
  refine ⟨h.listed_perm, ?_, ?_, ?_, ?_, ?_, ?_⟩
  · exact (Table.keys_sorted _).imp LayerSpec.rank_lt_iff.mp
  · exact h.listed_distinct
  · intro a ha b hb hne hfits
    have hless := h.rate_lt (h.mem_listed.mp ha) (h.mem_listed.mp hb) hne hfits
    exact ⟨Table.idxOf_lt_idxOf ha hb (LayerSpec.rank_lt_iff.mpr (.inl hless)), hless⟩
  · intro s hs
    exact h.covers_iff.mpr (h.fitsWithin_ceiling (h.mem_listed.mp hs))
  · intro t ht
    obtain ⟨hid, hwithin, hlength, hzero⟩ := h.templates t ht
    exact ⟨h.covers_iff.mpr hwithin, hid, hlength, hzero⟩
  · intro id
    refine ⟨fun t => h.template?_eq_some_iff, fun hother => ?_⟩
    rw [Option.eq_none_iff_forall_not_mem]
    intro t ht
    obtain ⟨hmem, hid⟩ := h.template?_eq_some_iff.mp ht
    exact hother t hmem hid

/-- Two layers that cost the same, the base layer and two templates, told backwards. -/
theorem ofOffer_reordered_backwards :
    let offer : Offer :=
      ⟨.vp9, [⟨⟨1, 0⟩, 500000⟩, ⟨⟨0, 1⟩, 500000⟩, ⟨⟨0, 0⟩, 200000⟩],
        [⟨3, ⟨1, 1⟩, [1, 2]⟩, ⟨0, ⟨0, 0⟩, []⟩]⟩
    let other : Offer := ⟨.vp9, offer.layers.reverse, offer.templates.reverse⟩
    let g := offer.graph .video 1
    offer.Reordered other ∧ ofOffer .video offer 1 = .ok g ∧ Kind.video.isLayered ∧
      ofOffer .video other 1 = .ok g ∧
      g.listed = [⟨⟨0, 0⟩, 200000⟩, ⟨⟨0, 1⟩, 500000⟩, ⟨⟨1, 0⟩, 500000⟩] ∧
      g.listed.Perm offer.layers ∧ g.covers ⟨1, 1⟩ ∧
      g.template? 3 = some ⟨3, ⟨1, 1⟩, [1, 2]⟩ ∧ g.template? 1 = none := by
  intro offer other g
  have hsame : offer.Reordered other := ⟨rfl, List.reverse_perm _, List.reverse_perm _⟩
  have hok : ofOffer .video offer 1 = .ok g := Guard.eq_ok_of_toOption (by decide +kernel)
  obtain ⟨hother, hgraph⟩ := @ofOffer_reordered .video offer other 1 g hsame
  obtain ⟨hperm, -, -, -, -, htemplates, hids⟩ := hgraph hok rfl
  refine ⟨hsame, hok, rfl, hother.mpr hok, by decide +kernel, hperm, ?_, ?_, ?_⟩
  · exact (htemplates ⟨3, ⟨1, 1⟩, [1, 2]⟩ (by decide)).1
  · exact ((hids 3).1 _).mpr ⟨by decide, rfl⟩
  · exact (hids 1).2 (by decide)

end LayerGraph

end MediaRelay
